/-!
# Bytes and little-endian words

Byte arrays are read through `byteAt`, which is total, and changed through `overwrite`. A 32-bit
word occupies four bytes, least significant first, and `wordAt_encodeWord` says that reading a
written word gives it back.
-/

set_option autoImplicit false

namespace ImageFS

instance (priority := 2000) instDecidableEqBytes : DecidableEq ByteArray
  | ⟨a⟩, ⟨b⟩ => if h : a = b then isTrue (by rw [h]) else isFalse fun e => h (ByteArray.mk.inj e)

def byteAt (bytes : ByteArray) (i : Nat) : UInt8 :=
  if h : i < bytes.size then bytes[i] else 0

/-- `n` zero bytes, made by doubling; `fuel` is at least `n`. -/
def zerosWithin : Nat → Nat → ByteArray
  | 0, _ => .empty
  | fuel + 1, n =>
    if n = 0 then .empty
    else
      let half := zerosWithin fuel (n / 2)
      let even := half ++ half
      if n % 2 = 0 then even else even.push 0

def zeros (n : Nat) : ByteArray := zerosWithin n n

def overwrite (bytes : ByteArray) (offset : Nat) (data : ByteArray) : ByteArray :=
  data.copySlice 0 bytes offset data.size

def slice (bytes : ByteArray) (offset length : Nat) : List UInt8 :=
  (List.range length).map fun i => byteAt bytes (offset + i)

def untilZero (bytes : List UInt8) : List UInt8 := bytes.takeWhile (· ≠ 0)

def padTo (length : Nat) (bytes : List UInt8) : List UInt8 :=
  bytes ++ List.replicate (length - bytes.length) 0

def wordAt (bytes : ByteArray) (offset : Nat) : UInt32 :=
  .ofNat ((byteAt bytes offset).toNat + 0x100 * (byteAt bytes (offset + 1)).toNat
    + 0x10000 * (byteAt bytes (offset + 2)).toNat + 0x1000000 * (byteAt bytes (offset + 3)).toNat)

def encodeWord (w : UInt32) : List UInt8 :=
  [.ofNat w.toNat, .ofNat (w.toNat / 0x100), .ofNat (w.toNat / 0x10000), .ofNat (w.toNat / 0x1000000)]

def encodeWords (ws : List UInt32) : List UInt8 := ws.flatMap encodeWord

theorem zerosWithin_eq (fuel n : Nat) (h : n ≤ fuel) : zerosWithin fuel n = ⟨Array.replicate n 0⟩ := by
  induction fuel generalizing n with
  | zero =>
    obtain rfl : n = 0 := by omega
    rfl
  | succ fuel ih =>
    unfold zerosWithin
    rw [ih (n / 2) (by omega)]
    by_cases h0 : n = 0
    · subst h0
      rfl
    · rw [if_neg h0]
      apply ByteArray.ext
      by_cases h2 : n % 2 = 0
      · rw [if_pos h2, ByteArray.data_append, Array.replicate_append_replicate]
        congr 1
        omega
      · rw [if_neg h2, ByteArray.data_push, ByteArray.data_append, Array.replicate_append_replicate,
          ← Array.replicate_succ]
        congr 1
        omega

theorem zeros_eq (n : Nat) : zeros n = ⟨Array.replicate n 0⟩ := zerosWithin_eq n n (Nat.le_refl n)

@[simp] theorem size_zeros (n : Nat) : (zeros n).size = n := by
  simp [zeros_eq, ByteArray.size]

@[simp] theorem byteAt_zeros (n i : Nat) : byteAt (zeros n) i = 0 := by
  unfold byteAt
  split
  · simp [zeros_eq, ByteArray.getElem_eq_getElem_data]
  · rfl

theorem byteAt_eq_getElem {bytes : ByteArray} {i : Nat} (h : i < bytes.size) :
    byteAt bytes i = bytes[i] := by
  simp [byteAt, h]

theorem byteAt_of_size_le {bytes : ByteArray} {i : Nat} (h : bytes.size ≤ i) : byteAt bytes i = 0 := by
  simp [byteAt, Nat.not_lt.mpr h]

theorem eq_of_byteAt {a b : ByteArray} (hs : a.size = b.size) (h : ∀ i < a.size, byteAt a i = byteAt b i) :
    a = b := by
  refine ByteArray.ext_getElem hs fun i ha hb => ?_
  rw [← byteAt_eq_getElem ha, ← byteAt_eq_getElem hb]
  exact h i ha

theorem overwrite_eq (bytes : ByteArray) (offset : Nat) (data : ByteArray) :
    overwrite bytes offset data =
      bytes.extract 0 offset ++ data ++ bytes.extract (offset + data.size) bytes.size := by
  unfold overwrite
  rw [ByteArray.copySlice_eq_append]
  simp

theorem size_overwrite {bytes data : ByteArray} {offset : Nat} (h : offset + data.size ≤ bytes.size) :
    (overwrite bytes offset data).size = bytes.size := by
  simp [overwrite_eq]
  omega

theorem byteAt_overwrite {bytes data : ByteArray} {offset : Nat} (h : offset + data.size ≤ bytes.size)
    (i : Nat) :
    byteAt (overwrite bytes offset data) i =
      if offset ≤ i ∧ i < offset + data.size then byteAt data (i - offset) else byteAt bytes i := by
  by_cases hi : i < bytes.size
  · have hi' : i < (overwrite bytes offset data).size := by rw [size_overwrite h]; exact hi
    rw [byteAt_eq_getElem hi']
    simp only [overwrite_eq]
    by_cases h1 : i < offset
    · rw [ByteArray.getElem_append_left (by simp; omega), ByteArray.getElem_append_left (by simp; omega)]
      simp only [ByteArray.getElem_extract, byteAt_eq_getElem hi, Nat.zero_add,
        show ¬ (offset ≤ i ∧ i < offset + data.size) by omega, if_false]
    · by_cases h2 : i < offset + data.size
      · rw [ByteArray.getElem_append_left (by simp; omega), ByteArray.getElem_append_right (by simp; omega)]
        have hm : min offset bytes.size = offset := by omega
        simp [show offset ≤ i by omega, h2, byteAt_eq_getElem (show i - offset < data.size by omega), hm]
      · rw [ByteArray.getElem_append_right (by simp; omega)]
        have hm : min offset bytes.size = offset := by omega
        simp only [ByteArray.getElem_extract, ByteArray.size_append, ByteArray.size_extract]
        simp only [show ¬ (offset ≤ i ∧ i < offset + data.size) by omega, if_false, byteAt_eq_getElem hi]
        congr 1
        omega
  · have h' : ¬ (offset ≤ i ∧ i < offset + data.size) := by omega
    rw [if_neg h', byteAt_of_size_le (by rw [size_overwrite h]; omega), byteAt_of_size_le (by omega)]

@[simp] theorem byteAt_toByteArray (l : List UInt8) (i : Nat) : byteAt l.toByteArray i = l.getD i 0 := by
  unfold byteAt
  split
  · rename_i h
    rw [List.getElem_toByteArray]
    simp at h
    simp [h]
  · rename_i h
    simp at h
    simp [h]

@[simp] theorem length_slice (bytes : ByteArray) (offset length : Nat) :
    (slice bytes offset length).length = length := by
  simp [slice]

@[simp] theorem length_encodeWord (w : UInt32) : (encodeWord w).length = 4 := rfl

theorem length_padTo {n : Nat} {bytes : List UInt8} (h : bytes.length ≤ n) : (padTo n bytes).length = n := by
  simp [padTo]
  omega

theorem wordAt_encodeWord {bytes : ByteArray} {offset : Nat} (w : UInt32)
    (h : ∀ k < 4, byteAt bytes (offset + k) = (encodeWord w).getD k 0) : wordAt bytes offset = w := by
  have h0 := h 0 (by decide)
  have h1 := h 1 (by decide)
  have h2 := h 2 (by decide)
  have h3 := h 3 (by decide)
  simp [encodeWord] at h0 h1 h2 h3
  unfold wordAt
  rw [h0, h1, h2, h3]
  apply UInt32.toNat_inj.mp
  have := w.toNat_lt
  simp [UInt8.toNat_ofNat']
  omega

end ImageFS
