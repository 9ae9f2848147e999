import ImageFS.Bytes
import Mathlib.Data.List.Basic

/-!
# Reading through append, extract and overwrite

Every operation on byte arrays is described by what `byteAt` finds afterwards; equality of arrays
then follows from their sizes and their bytes.
-/

set_option autoImplicit false

namespace ImageFS

theorem byteAt_append (a b : ByteArray) (i : Nat) :
    byteAt (a ++ b) i = if i < a.size then byteAt a i else byteAt b (i - a.size) := by
  unfold byteAt
  by_cases ha : i < a.size
  · have hab : i < (a ++ b).size := by
      rw [ByteArray.size_append]
      omega
    rw [dif_pos hab, if_pos ha, dif_pos ha]
    exact ByteArray.getElem_append_left ha
  · rw [if_neg ha]
    by_cases hb : i - a.size < b.size
    · have hab : i < (a ++ b).size := by
        rw [ByteArray.size_append]
        omega
      rw [dif_pos hab, dif_pos hb]
      exact ByteArray.getElem_append_right (by omega)
    · have hab : ¬ i < (a ++ b).size := by
        rw [ByteArray.size_append]
        omega
      rw [dif_neg hab, dif_neg hb]

theorem byteAt_extract (a : ByteArray) (start stop i : Nat) :
    byteAt (a.extract start stop) i = if start + i < stop then byteAt a (start + i) else 0 := by
  unfold byteAt
  by_cases hi : i < (a.extract start stop).size
  · have bound := hi
    rw [ByteArray.size_extract] at bound
    rw [dif_pos hi, if_pos (by omega), dif_pos (by omega)]
    exact ByteArray.getElem_extract hi
  · have bound := hi
    rw [ByteArray.size_extract] at bound
    rw [dif_neg hi]
    by_cases hs : start + i < stop
    · rw [if_pos hs, dif_neg (by omega)]
    · rw [if_neg hs]

theorem byteAt_overwrite_inside {bytes data : ByteArray} {offset i : Nat}
    (h : offset + data.size ≤ bytes.size) (hi : i < data.size) :
    byteAt (overwrite bytes offset data) (offset + i) = byteAt data i := by
  rw [byteAt_overwrite h, if_pos ⟨by omega, by omega⟩, Nat.add_sub_cancel_left]

theorem byteAt_overwrite_outside {bytes data : ByteArray} {offset i : Nat}
    (h : offset + data.size ≤ bytes.size) (hi : i < offset ∨ offset + data.size ≤ i) :
    byteAt (overwrite bytes offset data) i = byteAt bytes i := by
  rw [byteAt_overwrite h, if_neg (by omega)]

theorem overwrite_overwrite {bytes a b : ByteArray} {offset : Nat}
    (h : offset + a.size + b.size ≤ bytes.size) :
    overwrite (overwrite bytes offset a) (offset + a.size) b = overwrite bytes offset (a ++ b) := by
  have ha : (overwrite bytes offset a).size = bytes.size := size_overwrite (by omega)
  have hab : (a ++ b).size = a.size + b.size := ByteArray.size_append
  have size : (overwrite (overwrite bytes offset a) (offset + a.size) b).size = bytes.size := by
    rw [size_overwrite (by omega), ha]
  refine eq_of_byteAt ?_ fun i _ => ?_
  · rw [size, size_overwrite (by omega)]
  · rw [byteAt_overwrite (by omega), byteAt_overwrite (by omega), byteAt_overwrite (by omega),
      byteAt_append, hab]
    by_cases h1 : offset + a.size ≤ i ∧ i < offset + a.size + b.size
    · rw [if_pos h1, if_pos (by omega), if_neg (by omega)]
      congr 1
      omega
    · rw [if_neg h1]
      by_cases h2 : offset ≤ i ∧ i < offset + a.size
      · rw [if_pos h2, if_pos (by omega), if_pos (by omega)]
      · rw [if_neg h2, if_neg (by omega)]

theorem overwrite_extract {bytes data : ByteArray} {place offset m n : Nat} (hdata : offset + (m + n) ≤ data.size)
    (h : place + (m + n) ≤ bytes.size) :
    overwrite (overwrite bytes place (data.extract offset (offset + m))) (place + m)
        (data.extract (offset + m) (offset + m + n)) =
      overwrite bytes place (data.extract offset (offset + (m + n))) := by
  have hfirst : (data.extract offset (offset + m)).size = m := by
    rw [ByteArray.size_extract]
    omega
  have hsecond : (data.extract (offset + m) (offset + m + n)).size = n := by
    rw [ByteArray.size_extract]
    omega
  have hjoin : data.extract offset (offset + m) ++ data.extract (offset + m) (offset + m + n) =
      data.extract offset (offset + (m + n)) := by
    rw [ByteArray.extract_append_extract, Nat.min_eq_left (by omega), Nat.max_eq_right (by omega), Nat.add_assoc]
  have hrow : overwrite (overwrite bytes place (data.extract offset (offset + m)))
      (place + (data.extract offset (offset + m)).size) (data.extract (offset + m) (offset + m + n)) =
      overwrite bytes place (data.extract offset (offset + m) ++ data.extract (offset + m) (offset + m + n)) :=
    overwrite_overwrite (by omega)
  rwa [hfirst, hjoin] at hrow

theorem overwrite_empty (bytes : ByteArray) (offset : Nat) : overwrite bytes offset .empty = bytes := by
  rw [overwrite_eq]
  refine eq_of_byteAt ?_ fun i hi => ?_
  · simp only [ByteArray.size_append, ByteArray.size_extract, ByteArray.size_empty]
    omega
  · simp only [ByteArray.size_append, ByteArray.size_extract, ByteArray.size_empty] at hi
    rw [byteAt_append, byteAt_append, byteAt_extract, byteAt_extract]
    simp only [ByteArray.size_append, ByteArray.size_extract, ByteArray.size_empty]
    by_cases h : i < min offset bytes.size
    · rw [if_pos (by omega), if_pos (by omega), if_pos (by omega), Nat.zero_add]
    · rw [if_neg (by omega), if_pos (by omega)]
      congr 1
      omega

end ImageFS
