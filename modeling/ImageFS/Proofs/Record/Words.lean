import ImageFS.Block
import ImageFS.Proofs.Bytes
import Mathlib.Algebra.Group.Nat.Defs
import Mathlib.Data.List.GetD
import Mathlib.Data.List.TakeWhile

/-!
# Words and strings in patched blocks

A record that is put into a block is read back from it word by word and string by string, and all
bytes outside it are as they were.
-/

set_option autoImplicit false

namespace ImageFS

variable {a b : ByteArray} {offset place length : Nat}

theorem wordAt_congr (h : ∀ k < 4, byteAt a (offset + k) = byteAt b (place + k)) : wordAt a offset = wordAt b place := by
  have h0 := h 0 (by decide)
  rw [Nat.add_zero, Nat.add_zero] at h0
  rw [wordAt, wordAt, h0, h 1 (by decide), h 2 (by decide), h 3 (by decide)]

theorem toNat_byteAt (bytes : ByteArray) (offset : Nat) {k : Nat} (hk : k < 4) :
    (byteAt bytes (offset + k)).toNat = (wordAt bytes offset).toNat / 256 ^ k % 256 := by
  have h0 := (byteAt bytes offset).toNat_lt
  have h1 := (byteAt bytes (offset + 1)).toNat_lt
  have h2 := (byteAt bytes (offset + 2)).toNat_lt
  have h3 := (byteAt bytes (offset + 3)).toNat_lt
  rw [wordAt, UInt32.toNat_ofNat_of_lt' (by simp only [UInt32.size]; omega)]
  obtain rfl | rfl | rfl | rfl : k = 0 ∨ k = 1 ∨ k = 2 ∨ k = 3 := by omega
  · rw [Nat.add_zero]
    omega
  · omega
  · omega
  · omega

theorem byteAt_of_wordAt (h : wordAt a offset = wordAt b place) {k : Nat} (hk : k < 4) :
    byteAt a (offset + k) = byteAt b (place + k) := by
  apply UInt8.toNat_inj.mp
  rw [toNat_byteAt a offset hk, toNat_byteAt b place hk, h]

theorem slice_congr (h : ∀ k < length, byteAt a (offset + k) = byteAt b (place + k)) :
    slice a offset length = slice b place length := by
  apply List.map_congr_left
  intro k hk
  exact h k (List.mem_range.mp hk)

theorem byteAt_patch_inside (block : Block) {data : ByteArray} (h : offset + data.size ≤ blockSize) {k : Nat}
    (hk : k < data.size) : byteAt (block.patch offset data).bytes (offset + k) = byteAt data k := by
  have hbyte := block.byte_patch h (offset + k)
  rw [if_pos ⟨by omega, by omega⟩, Nat.add_sub_cancel_left] at hbyte
  exact hbyte

theorem byteAt_patch_outside (block : Block) {data : ByteArray} (h : offset + data.size ≤ blockSize) {i : Nat}
    (hi : i < offset ∨ offset + data.size ≤ i) : byteAt (block.patch offset data).bytes i = byteAt block.bytes i := by
  have hbyte := block.byte_patch h i
  rw [if_neg (by omega)] at hbyte
  exact hbyte

theorem mem_untilZero_ne {l : List UInt8} {x : UInt8} (hx : x ∈ untilZero l) : x ≠ 0 := by
  have := List.mem_takeWhile_imp hx
  simpa using this

theorem length_untilZero_le (l : List UInt8) : (untilZero l).length ≤ l.length :=
  (List.takeWhile_prefix _).length_le

theorem untilZero_eq_self {l : List UInt8} (h : ∀ x ∈ l, x ≠ 0) : untilZero l = l :=
  List.takeWhile_eq_self_iff.mpr fun x hx => by simpa using h x hx

theorem untilZero_append_zeros (l : List UInt8) (n : Nat) : untilZero (l ++ List.replicate n 0) = untilZero l := by
  induction l with
  | nil => cases n <;> rfl
  | cons x l ih =>
    simp only [untilZero, List.cons_append, List.takeWhile_cons] at ih ⊢
    rw [ih]

theorem untilZero_slice_padded {l : List UInt8} {size : Nat} (hsize : l.length ≤ size)
    (hb : ∀ k < size, byteAt b (place + k) = l.getD k 0) : untilZero (slice b place size) = untilZero l := by
  have hslice : slice b place size = l ++ List.replicate (size - l.length) 0 := by
    refine List.ext_getElem ?_ fun k hk _ => ?_
    · rw [length_slice, List.length_append, List.length_replicate]
      omega
    · rw [length_slice] at hk
      simp only [slice, List.getElem_map, List.getElem_range]
      rw [hb k hk]
      by_cases hkl : k < l.length
      · rw [List.getElem_append_left hkl, List.getD_eq_getElem _ _ hkl]
      · rw [List.getElem_append_right (by omega), List.getElem_replicate, List.getD_eq_default _ _ (by omega)]
  rw [hslice, untilZero_append_zeros]

theorem untilZero_slice {l : List UInt8} {size : Nat} (h : ∀ x ∈ l, x ≠ 0) (hsize : l.length ≤ size)
    (hb : ∀ k < size, byteAt b (place + k) = l.getD k 0) : untilZero (slice b place size) = l := by
  rw [untilZero_slice_padded hsize hb, untilZero_eq_self h]

theorem length_encodeWords (ws : List UInt32) : (encodeWords ws).length = 4 * ws.length := by
  induction ws with
  | nil => rfl
  | cons w ws ih =>
    rw [encodeWords, List.flatMap_cons, List.length_append, length_encodeWord, List.length_cons]
    rw [encodeWords] at ih
    omega

theorem encodeWords_append (ws us : List UInt32) : encodeWords (ws ++ us) = encodeWords ws ++ encodeWords us :=
  List.flatMap_append

theorem getD_encodeWords (ws : List UInt32) (rest : List UInt8) {j k : Nat} (hj : j < ws.length) (hk : k < 4) :
    (encodeWords ws ++ rest).getD (4 * j + k) 0 = (encodeWord ws[j]).getD k 0 := by
  induction ws generalizing j with
  | nil => cases hj
  | cons w ws ih =>
    rw [encodeWords, List.flatMap_cons, List.append_assoc]
    cases j with
    | zero =>
      rw [List.getD_append _ _ _ _ (by rw [length_encodeWord]; omega)]
      rw [Nat.mul_zero, Nat.zero_add]
      rfl
    | succ j =>
      rw [List.getD_append_right _ _ _ _ (by rw [length_encodeWord]; omega), length_encodeWord]
      have hsub : 4 * (j + 1) + k - 4 = 4 * j + k := by omega
      rw [hsub]
      exact ih (Nat.lt_of_succ_lt_succ hj)

theorem wordAt_encodeWords (ws : List UInt32) (rest : List UInt8) {j : Nat} (hj : j < ws.length)
    (h : ∀ k < 4 * ws.length, byteAt b (place + k) = (encodeWords ws ++ rest).getD k 0) :
    wordAt b (place + 4 * j) = ws[j] := by
  apply wordAt_encodeWord _
  intro k hk
  rw [Nat.add_assoc, h _ (by omega), getD_encodeWords ws rest hj hk]

end ImageFS
