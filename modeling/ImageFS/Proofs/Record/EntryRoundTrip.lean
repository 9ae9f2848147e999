import ImageFS.Proofs.Record.Entry

/-!
# Directory records on their own

The field for the name has 60 bytes and a name at most 59, so that a zero stands behind each name
that a record is made of. A longer name is cut, and a name with a zero in it ends there when it is
read. A record whose field has no zero at all is read up to its last byte but one, and the entry that
comes of it has a record of its own.
-/

set_option autoImplicit false

namespace ImageFS

theorem untilZero_take (n : Nat) (l : List UInt8) : untilZero (l.take n) = (untilZero l).take n := by
  induction l generalizing n with
  | nil => rw [List.take_nil, untilZero, List.takeWhile_nil, List.take_nil]
  | cons x l ih =>
    cases n with
    | zero => rw [List.take_zero, List.take_zero, untilZero, List.takeWhile_nil]
    | succ n =>
      simp only [untilZero, List.take_succ_cons, List.takeWhile_cons] at ih ⊢
      by_cases hx : x ≠ 0
      · rw [if_pos (by simpa using hx), if_pos (by simpa using hx), ih, List.take_succ_cons]
      · rw [if_neg (by simpa using hx), if_neg (by simpa using hx), List.take_nil]

theorem take_slice (bytes : ByteArray) (offset : Nat) {m n : Nat} (h : m ≤ n) :
    (slice bytes offset n).take m = slice bytes offset m := by
  rw [slice, slice, ← List.map_take, List.take_range, Nat.min_eq_left h]

namespace Entry

variable {bytes : ByteArray} {e : Entry} {ino : UInt32} {a b name : Name}

theorem decode_of_le (h : entrySize ≤ bytes.size) : decode bytes = .ok (readAt bytes 0) :=
  if_neg (Nat.not_lt.mpr h)

theorem decode_of_lt (h : bytes.size < entrySize) : decode bytes = .error (.corrupt .entryTruncated) :=
  if_pos h

theorem name_readAt_eq (bytes : ByteArray) (offset : Nat) :
    (readAt bytes offset).name = (untilZero (slice bytes (offset + 4) 60)).take maxNameLength := by
  rw [readAt, ← untilZero_take, take_slice bytes (offset + 4) (by decide : maxNameLength ≤ 60)]

theorem decode_encode (e : Entry) : decode e.encode = .ok ⟨e.ino, untilZero (e.name.take maxNameLength)⟩ := by
  rw [decode_of_le (Nat.le_of_eq (size_encode e).symm),
    readAt_encode_cut e fun k _ => by rw [Nat.zero_add]]

theorem decode_encode_of_fits (hshort : e.name.length ≤ maxNameLength) (hzero : ∀ x ∈ e.name, x ≠ 0) :
    decode e.encode = .ok e := by
  rw [decode_encode, List.take_of_length_le hshort, untilZero_eq_self hzero]

theorem decode_encode_of_check (h : Name.check name = .ok ()) :
    decode (encode ⟨ino, name⟩) = .ok ⟨ino, name⟩ := by
  have hvalid := Name.check_ok.mp h
  exact decode_encode_of_fits hvalid.short fun x hx hx0 => hvalid.noZero (hx0 ▸ hx)

theorem encode_injective_of_check (ha : Name.check a = .ok ()) (hb : Name.check b = .ok ())
    (h : encode ⟨ino, a⟩ = encode ⟨ino, b⟩) : a = b := by
  have hread : decode (encode ⟨ino, a⟩) = decode (encode ⟨ino, b⟩) := congrArg decode h
  rw [decode_encode_of_check ha, decode_encode_of_check hb] at hread
  cases hread
  rfl

/-- The record of an entry keeps its inode number and its name up to the first zero of its first 59
bytes, so an allowed name comes back and has a record that no other has. From any 64 bytes an entry is
read that its own record gives back, also where no zero ends the name; fewer bytes are refused. -/
theorem entries_round_trip :
    (∀ (ino : UInt32) (name : Name),
      decode (encode ⟨ino, name⟩) = .ok ⟨ino, (name.take maxNameLength).takeWhile (· ≠ 0)⟩) ∧
    (∀ (ino : UInt32) (name : Name), Name.check name = .ok () → decode (encode ⟨ino, name⟩) = .ok ⟨ino, name⟩) ∧
    (∀ (ino : UInt32) (a b : Name), Name.check a = .ok () → Name.check b = .ok () →
      encode ⟨ino, a⟩ = encode ⟨ino, b⟩ → a = b) ∧
    (∀ bytes : ByteArray, entrySize ≤ bytes.size →
      ∃ e, decode bytes = .ok e ∧
        e.ino = wordAt bytes 0 ∧ e.name = ((slice bytes 4 60).takeWhile (· ≠ 0)).take maxNameLength ∧
        e.name.length ≤ maxNameLength ∧ 0 ∉ e.name ∧ decode e.encode = .ok e) ∧
    ∀ bytes : ByteArray, bytes.size < entrySize → decode bytes = .error (.corrupt .entryTruncated) := by
  refine ⟨fun ino name => decode_encode ⟨ino, name⟩, fun ino name => decode_encode_of_check,
    fun ino a b => encode_injective_of_check, fun bytes hle => ?_, fun bytes => decode_of_lt⟩
  obtain ⟨hshort, hzero⟩ := name_readAt bytes 0
  exact ⟨readAt bytes 0, decode_of_le hle, rfl, name_readAt_eq bytes 0, hshort, fun h => hzero 0 h rfl,
    decode_encode_of_fits hshort hzero⟩

theorem entries_round_trip_at_the_limits :
    decode (encode ⟨7, List.replicate 70 1⟩) = .ok ⟨7, List.replicate 59 1⟩ ∧
    decode (encode ⟨7, [1, 2, 0, 3]⟩) = .ok ⟨7, [1, 2]⟩ ∧
    (Name.check (List.replicate 59 1) = .ok () ∧
      decode (encode ⟨7, List.replicate 59 1⟩) = .ok ⟨7, List.replicate 59 1⟩) ∧
    (Name.check (List.replicate 59 2) = .ok () ∧
      encode ⟨7, List.replicate 59 1⟩ ≠ encode ⟨7, List.replicate 59 2⟩) ∧
    (entrySize ≤ (List.replicate 64 1).toByteArray.size ∧
      ∃ e, decode (List.replicate 64 1).toByteArray = .ok e ∧ e.ino = 0x01010101 ∧
        e.name = List.replicate 59 1 ∧ decode e.encode = .ok e) ∧
    (zeros 63).size < entrySize ∧ decode (zeros 63) = .error (.corrupt .entryTruncated) := by
  obtain ⟨hcut, hkept, htold, hread, hshort⟩ := entries_round_trip
  have hones : entrySize ≤ (List.replicate 64 1 : List UInt8).toByteArray.size := by
    rw [List.size_toByteArray, List.length_replicate]
  have hzeros : (zeros 63).size < entrySize := by
    rw [size_zeros]
    decide
  have hbyte : ∀ k < 64, byteAt (List.replicate 64 1 : List UInt8).toByteArray k = 1 := fun k hk => by
    rw [byteAt_toByteArray, List.getD_replicate _ hk]
  have hfield : slice (List.replicate 64 1 : List UInt8).toByteArray 4 60 = List.replicate 60 1 :=
    List.eq_replicate_iff.mpr ⟨length_slice _ _ _, fun x hx => by
      obtain ⟨k, hk, rfl⟩ := List.mem_map.mp hx
      exact hbyte _ (by have := List.mem_range.mp hk; omega)⟩
  have hone : Name.check (List.replicate 59 1) = .ok () := by decide
  have htwo : Name.check (List.replicate 59 2) = .ok () := by decide
  refine ⟨hcut 7 _, hcut 7 _, ⟨hone, hkept 7 _ hone⟩, ⟨htwo, fun h => ?_⟩, ⟨hones, ?_⟩, hzeros, hshort _ hzeros⟩
  · have hsame := htold 7 _ _ hone htwo h
    exact absurd hsame (by decide)
  · obtain ⟨e, hdecode, hino, hname, -, -, hself⟩ := hread _ hones
    refine ⟨e, hdecode, ?_, ?_, hself⟩
    · rw [hino, wordAt, hbyte 0 (by decide), hbyte 1 (by decide), hbyte 2 (by decide), hbyte 3 (by decide)]
      rfl
    · rw [hname, hfield]
      rfl

end Entry

end ImageFS
