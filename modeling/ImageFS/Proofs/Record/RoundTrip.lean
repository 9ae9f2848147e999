import ImageFS.Proofs.Record.Inode

/-!
# Records on their own

A record of 64 bytes stands for an inode numbered 0. Every inode that a record can hold comes back
from its record, all but the number. The other way round, what a record says of a file or a
directory fills all its 64 bytes, so that writing it again gives the same bytes. The record of a
symlink and a free record of no kind have bytes that nothing reads; writing one of these again gives
a record that reads the same.
-/

set_option autoImplicit false

namespace ImageFS

theorem Kind.decode?_eq_none_iff {w : UInt32} : decode? w = none ↔ 2 < w := by
  have hlt : 2 < w ↔ 2 < w.toNat := UInt32.lt_iff_toNat_lt
  have heq : ∀ n : UInt32, w = n ↔ w.toNat = n.toNat := fun n => UInt32.toNat_inj.symm
  have h0 := heq 0
  have h1 := heq 1
  have h2 := heq 2
  rw [hlt, decode?]
  split_ifs with hregular hdirectory hsymlink
  · simp [hregular]
  · simp [hdirectory]
  · simp [hsymlink]
  · rw [h0] at hregular
    rw [h1] at hdirectory
    rw [h2] at hsymlink
    change ¬ w.toNat = 0 at hregular
    change ¬ w.toNat = 1 at hdirectory
    change ¬ w.toNat = 2 at hsymlink
    simp only [true_iff]
    omega

theorem Kind.encode_of_decode? {w : UInt32} {kind : Kind} (h : decode? w = some kind) : kind.encode = w := by
  rw [decode?] at h
  split_ifs at h with hregular hdirectory hsymlink <;> cases h
  · exact hregular.symm
  · exact hdirectory.symm
  · exact hsymlink.symm

namespace Inode

variable {i x : Inode} {bytes other : ByteArray} {offset place : Nat} {id : UInt32}

theorem decode_of_le (h : inodeSize ≤ bytes.size) : decode bytes = readAt bytes 0 0 :=
  if_neg (Nat.not_lt.mpr h)

theorem decode_of_lt (h : bytes.size < inodeSize) : decode bytes = .error (.corrupt .inodeTruncated) :=
  if_pos h

theorem readAt_eq_error_iff {e : Error} :
    readAt bytes offset id = .error e ↔
      (2 < wordAt bytes (offset + 4) ∧ nlinkAt bytes offset ≠ 0) ∧
        e = .corrupt (.unknownKind (wordAt bytes (offset + 4))) := by
  rw [readAt, ← Kind.decode?_eq_none_iff]
  cases hkind : Kind.decode? (wordAt bytes (offset + 4)) with
  | some kind => simp
  | none =>
    by_cases hfree : nlinkAt bytes offset = 0
    · simp [hfree]
    · simp [hfree, eq_comm]

theorem kind_of_readAt (h : readAt bytes offset id = .ok x) (hkind : wordAt bytes (offset + 4) ≤ 2) :
    x.kind.encode = wordAt bytes (offset + 4) := by
  rw [readAt] at h
  cases hword : Kind.decode? (wordAt bytes (offset + 4)) with
  | none => exact absurd hkind (UInt32.not_le.mpr (Kind.decode?_eq_none_iff.mp hword))
  | some kind =>
    rw [hword] at h
    cases h
    rw [← Kind.encode_of_decode? hword]
    cases kind <;> rfl

theorem nlink_of_readAt (h : readAt bytes offset id = .ok x) : nlinkAt bytes offset = x.nlink := by
  rw [readAt] at h
  split at h
  · cases h
    rfl
  · split at h <;> cases h
    rfl

theorem chainAt_of_readAt (h : readAt bytes offset id = .ok x) {chain : Chain} (hchain : x.chain? = some chain) :
    wordAt bytes (offset + 12) = x.mode ∧ chainAt bytes offset = chain := by
  have hbody : ∀ kind, (⟨id, nlinkAt bytes offset, bodyAt bytes offset kind⟩ : Inode) = x →
      wordAt bytes (offset + 12) = x.mode ∧ chainAt bytes offset = chain := by
    rintro kind rfl
    cases kind
    · exact ⟨rfl, Option.some.inj hchain⟩
    · exact ⟨rfl, Option.some.inj hchain⟩
    · cases hchain
  rw [readAt] at h
  split at h
  · exact hbody _ (Except.ok.inj h)
  · split at h
    · exact hbody .regular (Except.ok.inj h)
    · cases h

theorem byteAt_of_chainAt (hkind : wordAt bytes (offset + 4) = wordAt other (place + 4))
    (hnlink : nlinkAt bytes offset = nlinkAt other place)
    (hmode : wordAt bytes (offset + 12) = wordAt other (place + 12))
    (hchain : chainAt bytes offset = chainAt other place) {k : Nat} (hk : k < inodeSize) :
    byteAt bytes (offset + k) = byteAt other (place + k) := by
  have hdirect : ∀ j < 10, wordAt bytes (offset + 16 + 4 * j) = wordAt other (place + 16 + 4 * j) := fun j hj => by
    have hslot : j < directPointers := hj
    have hentry := congrArg (fun chain : Chain => chain.direct[j]) hchain
    simpa only [chainAt, Vector.getElem_ofFn] using hentry
  -- The 16 words of the record, in the order in which they stand in it.
  have hword : ∀ j < 16, wordAt bytes (offset + 4 * j) = wordAt other (place + 4 * j) := fun j hj => by
    obtain rfl | rfl | rfl | rfl | hinner | rfl | rfl :
        j = 0 ∨ j = 1 ∨ j = 2 ∨ j = 3 ∨ (4 ≤ j ∧ j < 14) ∨ j = 14 ∨ j = 15 := by omega
    · exact congrArg Chain.size hchain
    · exact hkind
    · exact hnlink
    · exact hmode
    · have hplace : ∀ start, start + 4 * j = start + 16 + 4 * (j - 4) := fun start => by omega
      rw [hplace, hplace]
      exact hdirect (j - 4) (by omega)
    · exact congrArg Chain.indirect hchain
    · exact congrArg Chain.doubly hchain
  have hsplit : ∀ start, start + k = start + 4 * (k / 4) + k % 4 := fun start => by omega
  rw [hsplit, hsplit]
  exact byteAt_of_wordAt (hword (k / 4) (by simp only [inodeSize] at hk; omega)) (Nat.mod_lt _ (by decide))

theorem decode_encode (i : Inode) (hfits : Fits i.body) : decode i.encode = .ok { i with id := 0 } := by
  rw [decode_of_le (Nat.le_of_eq (size_encode i).symm)]
  exact readAt_encode { i with id := 0 } hfits fun k _ => by rw [Nat.zero_add]; rfl

theorem decode_encode_of_decode (h : decode bytes = .ok x) : decode x.encode = .ok x := by
  have hle : inodeSize ≤ bytes.size := by
    by_contra hlt
    rw [decode_of_lt (Nat.lt_of_not_le hlt)] at h
    cases h
  rw [decode_of_le hle] at h
  obtain ⟨hfits, hid⟩ := fits_of_readAt h
  rw [decode_encode x hfits, ← hid]

theorem encode_of_decode (hle : inodeSize ≤ bytes.size) (h : decode bytes = .ok x)
    (hkind : wordAt bytes 4 = 0 ∨ wordAt bytes 4 = 1) : x.encode = bytes.extract 0 inodeSize := by
  have hread : readAt bytes 0 0 = .ok x := by rw [← decode_of_le hle, h]
  have hagain : readAt x.encode 0 0 = .ok x := by
    rw [← decode_of_le (Nat.le_of_eq (size_encode x).symm), decode_encode_of_decode h]
  have hword : x.kind.encode = wordAt bytes 4 := kind_of_readAt hread (by obtain hk | hk := hkind <;> rw [hk] <;> decide)
  obtain ⟨chain, hchain⟩ : ∃ chain, x.chain? = some chain := by
    obtain ⟨id, nlink, body⟩ := x
    cases body with
    | regular mode chain => exact ⟨chain, rfl⟩
    | directory mode chain => exact ⟨chain, rfl⟩
    | symlink target =>
      rw [← hword] at hkind
      obtain hk | hk := hkind <;> exact absurd hk (show ¬ (2 : UInt32) = _ by decide)
  have hkinds : wordAt x.encode (0 + 4) = wordAt bytes (0 + 4) := by
    rw [← hword]
    exact wordAt_header x (fun k _ => by rw [Nat.zero_add]) (j := 1) (by decide)
  have hnlink : nlinkAt x.encode 0 = nlinkAt bytes 0 := by rw [nlink_of_readAt hagain, nlink_of_readAt hread]
  obtain ⟨hmode, hroots⟩ := chainAt_of_readAt hagain hchain
  obtain ⟨hmode', hroots'⟩ := chainAt_of_readAt hread hchain
  have hsize : (bytes.extract 0 inodeSize).size = inodeSize := by
    rw [ByteArray.size_extract]
    omega
  refine eq_of_byteAt (by rw [size_encode, hsize]) fun k hk => ?_
  rw [size_encode] at hk
  have hbyte := byteAt_of_chainAt hkinds hnlink (hmode.trans hmode'.symm) (hroots.trans hroots'.symm) hk
  rw [Nat.zero_add] at hbyte
  rw [hbyte, byteAt_extract, if_pos (by omega), Nat.zero_add]

/-- Records and inodes, both ways. An inode comes back from its record with the number 0. Of the
records of full length only those in use and of no kind are refused; what the others give comes back
from its own record, and the record of a file or a directory is reproduced byte by byte. Shorter
records are refused. -/
theorem records_round_trip :
    (∀ i : Inode, Fits i.body → decode i.encode = .ok { i with id := 0 }) ∧
    (∀ bytes : ByteArray, inodeSize ≤ bytes.size →
      ((∃ e, decode bytes = .error e) ↔ 2 < wordAt bytes 4 ∧ wordAt bytes 8 ≠ 0) ∧
      ∀ x, decode bytes = .ok x →
        decode x.encode = .ok x ∧
        (wordAt bytes 4 = 0 ∨ wordAt bytes 4 = 1 → x.encode = bytes.extract 0 inodeSize)) ∧
    ∀ bytes : ByteArray, bytes.size < inodeSize → decode bytes = .error (.corrupt .inodeTruncated) := by
  refine ⟨decode_encode, fun bytes hle => ⟨?_, fun x h => ⟨decode_encode_of_decode h, encode_of_decode hle h⟩⟩,
    fun bytes => decode_of_lt⟩
  simp only [decode_of_le hle, readAt_eq_error_iff, exists_and_left, exists_eq, and_true]
  rfl

theorem records_round_trip_at_the_limits :
    (Fits (.symlink (List.replicate maxTargetLength 1)) ∧
      decode (encode ⟨7, 3, .symlink (List.replicate maxTargetLength 1)⟩) =
        .ok ⟨0, 3, .symlink (List.replicate maxTargetLength 1)⟩) ∧
    (inodeSize ≤ (List.replicate 65 1).toByteArray.size ∧ ∃ e, decode (List.replicate 65 1).toByteArray = .error e) ∧
    (decode (directory 0 0o755).encode = .ok (directory 0 0o755) ∧
      (directory 0 0o755).encode = (directory 0 0o755).encode.extract 0 inodeSize) ∧
    (zeros 63).size < inodeSize ∧ decode (zeros 63) = .error (.corrupt .inodeTruncated) := by
  obtain ⟨hencode, hdecode, hshort⟩ := records_round_trip
  have hfits : Fits (.symlink (List.replicate maxTargetLength 1)) :=
    ⟨Nat.le_of_eq List.length_replicate, fun x hx => by rw [List.eq_of_mem_replicate hx]; decide⟩
  have hones : inodeSize ≤ (List.replicate 65 1 : List UInt8).toByteArray.size := by
    rw [List.size_toByteArray, List.length_replicate]
    decide
  have hword : ∀ o ≤ 61, wordAt (List.replicate 65 1 : List UInt8).toByteArray o = 0x01010101 := fun o ho => by
    have hbyte : ∀ k < 65, byteAt (List.replicate 65 1 : List UInt8).toByteArray k = 1 := fun k hk => by
      rw [byteAt_toByteArray, List.getD_replicate _ hk]
    rw [wordAt, hbyte o (by omega), hbyte (o + 1) (by omega), hbyte (o + 2) (by omega), hbyte (o + 3) (by omega)]
    rfl
  have hdirectory : decode (directory 0 0o755).encode = .ok (directory 0 0o755) := hencode _ trivial
  have hsize := size_encode (directory 0 0o755)
  have hself : ∀ k < inodeSize, byteAt (directory 0 0o755).encode (0 + k) = byteAt (directory 0 0o755).encode k :=
    fun k _ => by rw [Nat.zero_add]
  have hkind : wordAt (directory 0 0o755).encode 4 = 1 := wordAt_header _ hself (j := 1) (by decide)
  have hzeros : (zeros 63).size < inodeSize := by
    rw [size_zeros]
    decide
  refine ⟨⟨hfits, hencode _ hfits⟩, ⟨hones, (hdecode _ hones).1.mpr ?_⟩,
    ⟨hdirectory, ((hdecode _ (Nat.le_of_eq hsize.symm)).2 _ hdirectory).2 (.inr hkind)⟩, hzeros, hshort _ hzeros⟩
  rw [hword 4 (by decide), hword 8 (by decide)]
  decide

end Inode

end ImageFS
