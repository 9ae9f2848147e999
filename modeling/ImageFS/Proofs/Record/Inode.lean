import ImageFS.Inode
import ImageFS.Proofs.Record.Words

/-!
# Inode records

What is written as the record of an inode is read back as that inode, if a symlink's destination is
one that a record can hold. Whatever is read from a record can be written to one.
-/

set_option autoImplicit false

namespace ImageFS.Inode

/-- A destination that a record can hold. -/
def Fits : Body → Prop
  | .regular _ _ | .directory _ _ => True
  | .symlink target => target.length ≤ maxTargetLength ∧ ∀ x ∈ target, x ≠ 0

variable {i : Inode} {bytes other : ByteArray} {offset place : Nat} {id : UInt32}

theorem wordAt_record_congr (h : ∀ k < inodeSize, byteAt bytes (offset + k) = byteAt other (place + k)) {j : Nat}
    (hj : j + 4 ≤ inodeSize) : wordAt bytes (offset + j) = wordAt other (place + j) := by
  apply wordAt_congr
  intro k hk
  rw [Nat.add_assoc, Nat.add_assoc]
  exact h _ (by omega)

theorem nlinkAt_congr (h : ∀ k < inodeSize, byteAt bytes (offset + k) = byteAt other (place + k)) :
    nlinkAt bytes offset = nlinkAt other place := wordAt_record_congr h (by decide)

theorem chainAt_congr (h : ∀ k < inodeSize, byteAt bytes (offset + k) = byteAt other (place + k)) :
    chainAt bytes offset = chainAt other place := by
  have hzero := wordAt_record_congr h (by decide : 0 + 4 ≤ inodeSize)
  rw [Nat.add_zero, Nat.add_zero] at hzero
  have hdirect : (Vector.ofFn fun k : Fin directPointers => wordAt bytes (offset + 16 + 4 * k)) =
      Vector.ofFn fun k : Fin directPointers => wordAt other (place + 16 + 4 * k) := by
    refine congrArg Vector.ofFn (funext fun k => ?_)
    rw [Nat.add_assoc, Nat.add_assoc]
    exact wordAt_record_congr h (by have := k.isLt; simp only [directPointers, inodeSize] at *; omega)
  rw [chainAt, chainAt, hzero, hdirect, wordAt_record_congr h (by decide : 56 + 4 ≤ inodeSize),
    wordAt_record_congr h (by decide : 60 + 4 ≤ inodeSize)]

theorem targetAt_congr (h : ∀ k < inodeSize, byteAt bytes (offset + k) = byteAt other (place + k)) :
    targetAt bytes offset = targetAt other place := by
  refine congrArg untilZero (slice_congr fun k hk => ?_)
  rw [Nat.add_assoc, Nat.add_assoc]
  exact h _ (by simp only [inodeSize, targetOffset, maxTargetLength] at *; omega)

theorem readAt_congr (h : ∀ k < inodeSize, byteAt bytes (offset + k) = byteAt other (place + k)) :
    readAt bytes offset id = readAt other place id := by
  have hmode := wordAt_record_congr h (by decide : 12 + 4 ≤ inodeSize)
  have hbody : bodyAt bytes offset = bodyAt other place := by
    funext kind
    cases kind <;> rw [bodyAt, bodyAt]
    · rw [hmode, chainAt_congr h]
    · rw [hmode, chainAt_congr h]
    · rw [targetAt_congr h]
  rw [readAt, readAt, wordAt_record_congr h (by decide : 4 + 4 ≤ inodeSize), nlinkAt_congr h, hbody]

def header (i : Inode) : List UInt32 := [i.size, i.kind.encode, i.nlink]

theorem length_encodeBody (body : Body) : (encodeBody body).length = 52 := by
  cases body with
  | regular mode chain =>
    rw [encodeBody, length_encodeWords]
    simp [directPointers]
  | directory mode chain =>
    rw [encodeBody, length_encodeWords]
    simp [directPointers]
  | symlink target =>
    rw [encodeBody]
    apply length_padTo
    simp only [List.length_take, maxTargetLength, inodeSize, targetOffset]
    omega

theorem size_encode (i : Inode) : i.encode.size = inodeSize := by
  rw [encode, List.size_toByteArray, List.length_append, length_encodeWords, length_encodeBody]
  rfl

theorem wordAt_header (i : Inode) (h : ∀ k < inodeSize, byteAt bytes (offset + k) = byteAt i.encode k) {j : Nat}
    (hj : j < 3) : wordAt bytes (offset + 4 * j) = i.header.get ⟨j, hj⟩ := by
  apply wordAt_encodeWords i.header (encodeBody i.body) hj
  intro k hk
  have hlength : 4 * i.header.length ≤ inodeSize := by
    change 4 * 3 ≤ 64
    decide
  rw [h k (Nat.lt_of_lt_of_le hk hlength), encode, byteAt_toByteArray]
  rfl

theorem chainAt_encode (i : Inode) (mode : UInt32) (chain : Chain) (hsize : i.size = chain.size)
    (hbody : encodeBody i.body = encodeWords (mode :: chain.direct.toList ++ [chain.indirect, chain.doubly]))
    (h : ∀ k < inodeSize, byteAt bytes (offset + k) = byteAt i.encode k) :
    wordAt bytes (offset + 12) = mode ∧ chainAt bytes offset = chain := by
  have hcount : (i.header ++ (mode :: chain.direct.toList ++ [chain.indirect, chain.doubly])).length = 16 := by
    simp [header, directPointers]
  have hwords : ∀ j, (hj : j < 16) → wordAt bytes (offset + 4 * j) =
      (i.header ++ (mode :: chain.direct.toList ++ [chain.indirect, chain.doubly])).get ⟨j, by rw [hcount]; exact hj⟩ := by
    intro j hj
    apply wordAt_encodeWords _ [] _
    intro k hk
    have hlength : k < inodeSize := by simpa [header, directPointers] using hk
    rw [h k hlength, encode, byteAt_toByteArray, List.append_nil, encodeWords_append, ← hbody]
    rfl
  have hzero := hwords 0 (by decide)
  rw [Nat.mul_zero, Nat.add_zero] at hzero
  have hmode := hwords 3 (by decide)
  have hindirect := hwords 14 (by decide)
  have hdoubly := hwords 15 (by decide)
  refine ⟨hmode, ?_⟩
  rw [chainAt, hzero]
  have hvector : (Vector.ofFn fun k : Fin directPointers => wordAt bytes (offset + 16 + 4 * k)) = chain.direct := by
    apply Vector.ext
    intro k hk
    have hk' : k < 10 := hk
    have hplace : offset + 16 + 4 * k = offset + 4 * (k + 4) := by omega
    rw [Vector.getElem_ofFn, hplace, hwords (k + 4) (by omega)]
    simp [header, directPointers, hk']
  have h14 : offset + 4 * 14 = offset + 56 := rfl
  have h15 : offset + 4 * 15 = offset + 60 := rfl
  rw [h14] at hindirect
  rw [h15] at hdoubly
  rw [hvector, hindirect, hdoubly]
  simp [header, hsize, directPointers]

theorem readAt_encode (i : Inode) (hfits : Fits i.body)
    (h : ∀ k < inodeSize, byteAt bytes (offset + k) = byteAt i.encode k) : readAt bytes offset i.id = .ok i := by
  have hkind : wordAt bytes (offset + 4) = i.kind.encode := wordAt_header i h (j := 1) (by decide)
  have hnlink : nlinkAt bytes offset = i.nlink := wordAt_header i h (j := 2) (by decide)
  have hbody : bodyAt bytes offset i.kind = i.body := by
    obtain ⟨id, nlink, body⟩ := i
    cases body with
    | regular mode chain =>
      obtain ⟨hmode, hchain⟩ := chainAt_encode _ mode chain rfl rfl h
      rw [kind, bodyAt, hmode, hchain]
    | directory mode chain =>
      obtain ⟨hmode, hchain⟩ := chainAt_encode _ mode chain rfl rfl h
      rw [kind, bodyAt, hmode, hchain]
    | symlink target =>
      rw [kind, bodyAt, targetAt]
      refine congrArg Body.symlink (untilZero_slice hfits.2 hfits.1 fun k hk => ?_)
      have hk : k < 51 := hk
      have htake : target.take maxTargetLength = target := List.take_of_length_le hfits.1
      have hheader : ∀ ws : List UInt32, ws.length = 3 → (encodeWords ws).length = 12 := fun ws hws => by
        rw [length_encodeWords, hws]
      rw [Nat.add_assoc, h _ (by simp only [inodeSize, targetOffset]; omega), encode, byteAt_toByteArray,
        List.getD_append_right _ _ _ _ (by rw [hheader _ rfl]; exact Nat.le_add_right _ _), hheader _ rfl,
        Nat.add_sub_cancel_left, encodeBody, htake, padTo]
      by_cases hin : k < target.length
      · rw [List.getD_append _ _ _ _ hin]
      · rw [List.getD_append_right _ _ _ _ (Nat.le_of_not_lt hin), List.getD_eq_default target _ (Nat.le_of_not_lt hin),
          List.getD_replicate]
        simp only [inodeSize, targetOffset, maxTargetLength] at *
        omega
  rw [readAt, hkind, Kind.decode?_encode, hnlink]
  dsimp only
  rw [hbody]

theorem fits_of_readAt (h : readAt bytes offset id = .ok i) : Fits i.body ∧ i.id = id := by
  have hfits : ∀ kind, Fits (bodyAt bytes offset kind) := by
    intro kind
    cases kind
    · trivial
    · trivial
    · refine ⟨?_, fun x hx => mem_untilZero_ne hx⟩
      apply Nat.le_trans (length_untilZero_le _)
      rw [length_slice]
  rw [readAt] at h
  split at h
  · cases h
    exact ⟨hfits _, rfl⟩
  · split at h
    · cases h
      exact ⟨hfits .regular, rfl⟩
    · cases h

end ImageFS.Inode
