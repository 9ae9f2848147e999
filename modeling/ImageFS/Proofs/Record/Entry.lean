import ImageFS.Entry
import ImageFS.Proofs.Record.Words

/-!
# Directory records

A block holds sixteen directory records. Writing a record replaces that one; clearing its inode number
empties it and leaves the name behind.
-/

set_option autoImplicit false

namespace ImageFS

structure Name.Valid (name : Name) : Prop where
  short : name.length ≤ maxNameLength
  nonempty : name ≠ []
  notDot : name ≠ dot
  notDotDot : name ≠ dotDot
  noSlash : '/'.toUInt8 ∉ name
  noZero : 0 ∉ name

theorem Name.check_ok {name : Name} : check name = .ok () ↔ name.Valid := by
  constructor
  · intro h
    rw [check] at h
    split at h
    · cases h
    · rename_i hshort
      split at h
      · cases h
      · rename_i hreserved
        split at h
        · cases h
        · rename_i hbytes
          simp only [not_or, List.contains_iff_mem] at hreserved hbytes
          exact ⟨Nat.le_of_not_lt hshort, hreserved.1, hreserved.2.1, hreserved.2.2, hbytes.1, hbytes.2⟩
  · intro h
    rw [check, if_neg (Nat.not_lt_of_le h.short), if_neg, if_neg]
    · simp only [not_or, List.contains_iff_mem]
      exact ⟨h.noSlash, h.noZero⟩
    · simp only [not_or]
      exact ⟨h.nonempty, h.notDot, h.notDotDot⟩

namespace Entry

variable {a b : ByteArray} {offset place : Nat}

theorem readAt_congr (h : ∀ k < entrySize, byteAt a (offset + k) = byteAt b (place + k)) :
    readAt a offset = readAt b place := by
  have hword : wordAt a offset = wordAt b place :=
    wordAt_congr fun k hk => h k (by simp only [entrySize]; omega)
  have hname : slice a (offset + 4) maxNameLength = slice b (place + 4) maxNameLength := by
    apply slice_congr
    intro k hk
    rw [Nat.add_assoc, Nat.add_assoc]
    exact h _ (by simp only [entrySize, maxNameLength] at *; omega)
  rw [readAt, readAt, hword, hname]

theorem name_readAt (a : ByteArray) (offset : Nat) :
    (readAt a offset).name.length ≤ maxNameLength ∧ ∀ x ∈ (readAt a offset).name, x ≠ 0 := by
  refine ⟨Nat.le_trans (length_untilZero_le _) ?_, fun x hx => mem_untilZero_ne hx⟩
  rw [length_slice]

theorem length_padded (name : Name) : (padTo (entrySize - 4) (name.take maxNameLength)).length = 60 := by
  apply length_padTo
  simp only [List.length_take, maxNameLength, entrySize]
  omega

theorem size_encode (e : Entry) : e.encode.size = entrySize := by
  rw [encode, List.size_toByteArray, List.length_append, length_encodeWord, length_padded]

theorem readAt_encode_cut (e : Entry) (h : ∀ k < entrySize, byteAt a (offset + k) = byteAt e.encode k) :
    readAt a offset = ⟨e.ino, untilZero (e.name.take maxNameLength)⟩ := by
  have hcut : (e.name.take maxNameLength).length ≤ 59 := List.length_take_le _ _
  have hino : wordAt a offset = e.ino := by
    apply wordAt_encodeWord _
    intro k hk
    rw [h k (by simp only [entrySize]; omega), encode, byteAt_toByteArray,
      List.getD_append _ _ _ _ (by rw [length_encodeWord]; exact hk)]
  have hname : untilZero (slice a (offset + 4) maxNameLength) = untilZero (e.name.take maxNameLength) := by
    apply untilZero_slice_padded hcut
    intro k hk
    have hk : k < 59 := hk
    rw [Nat.add_assoc, h _ (by simp only [entrySize]; omega), encode, byteAt_toByteArray,
      List.getD_append_right _ _ _ _ (by rw [length_encodeWord]; exact Nat.le_add_right _ _), length_encodeWord,
      Nat.add_sub_cancel_left, padTo]
    by_cases hin : k < (e.name.take maxNameLength).length
    · rw [List.getD_append _ _ _ _ hin]
    · rw [List.getD_append_right _ _ _ _ (Nat.le_of_not_lt hin), List.getD_eq_default (e.name.take _) _ (Nat.le_of_not_lt hin),
        List.getD_replicate]
      simp only [entrySize]
      omega
  rw [readAt, hino, hname]

end Entry

namespace Block

def entry (b : Block) (j : Nat) : Entry := Entry.readAt b.bytes (j * entrySize)

variable {i j : Nat}

theorem entry_zero (j : Nat) : zero.entry j = ⟨0, []⟩ := by
  have hbyte : ∀ k, byteAt zero.bytes k = 0 := fun k => byte_zero k
  have hword : wordAt zero.bytes (j * entrySize) = 0 := by
    rw [wordAt, hbyte, hbyte, hbyte, hbyte]
    rfl
  have hslice : slice zero.bytes (j * entrySize + 4) maxNameLength = List.replicate maxNameLength 0 := by
    refine List.eq_replicate_iff.mpr ⟨length_slice _ _ _, fun x hx => ?_⟩
    obtain ⟨k, -, rfl⟩ := List.mem_map.mp hx
    exact hbyte _
  rw [entry, Entry.readAt, hword, hslice]
  rfl

theorem entry_patch_cut (b : Block) (e : Entry) (hi : i < entriesPerBlock) (j : Nat) :
    (b.patch (i * entrySize) e.encode).entry j =
      if j = i then ⟨e.ino, untilZero (e.name.take maxNameLength)⟩ else b.entry j := by
  have hi : i < 16 := hi
  have hfit : i * entrySize + e.encode.size ≤ blockSize := by
    rw [Entry.size_encode]
    simp only [entrySize, blockSize]
    omega
  by_cases hj : j = i
  · rw [if_pos hj, hj]
    apply Entry.readAt_encode_cut e
    intro k hk
    exact byteAt_patch_inside b hfit (by rw [Entry.size_encode]; exact hk)
  · rw [if_neg hj]
    apply Entry.readAt_congr
    intro k hk
    apply byteAt_patch_outside b hfit
    rw [Entry.size_encode]
    simp only [entrySize] at hk ⊢
    omega

theorem entry_patch (b : Block) (e : Entry) (hshort : e.name.length ≤ maxNameLength) (hzero : ∀ x ∈ e.name, x ≠ 0)
    (hi : i < entriesPerBlock) (j : Nat) :
    (b.patch (i * entrySize) e.encode).entry j = if j = i then e else b.entry j := by
  rw [entry_patch_cut b e hi, List.take_of_length_le hshort, untilZero_eq_self hzero]

theorem entry_setWord (b : Block) (hi : i < entriesPerBlock) (j : Nat) :
    (b.setWord (i * entrySize) 0).entry j = if j = i then ⟨0, (b.entry i).name⟩ else b.entry j := by
  have hi : i < 16 := hi
  have hfit : i * entrySize + 4 ≤ blockSize := by
    simp only [entrySize, blockSize]
    omega
  have hout : ∀ k, k < i * entrySize ∨ i * entrySize + 4 ≤ k →
      byteAt (b.setWord (i * entrySize) 0).bytes k = byteAt b.bytes k := by
    intro k hk
    have hbyte := b.byte_setWord 0 hfit k
    rw [if_neg (by omega)] at hbyte
    exact hbyte
  by_cases hj : j = i
  · have hword : wordAt (b.setWord (i * entrySize) 0).bytes (i * entrySize) = 0 := b.word_setWord 0 hfit
    have hname : slice (b.setWord (i * entrySize) 0).bytes (i * entrySize + 4) maxNameLength =
        slice b.bytes (i * entrySize + 4) maxNameLength :=
      slice_congr fun k _ => hout _ (.inr (Nat.le_add_right _ _))
    rw [if_pos hj, hj, entry, Entry.readAt, hword, hname]
    rfl
  · rw [if_neg hj]
    refine Entry.readAt_congr fun k hk => hout _ ?_
    simp only [entrySize] at hk ⊢
    omega

end Block

end ImageFS
