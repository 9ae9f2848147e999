import ImageFS.Bytes

/-!
# Blocks

A block holds 1024 bytes; the size is part of the type, so a block can always be written whole.
It is seen as bytes (`byte`) or, when it holds block pointers, as 256 words (`pointer`).
-/

set_option autoImplicit false

namespace ImageFS

abbrev blockSize : Nat := 1024

abbrev pointersPerBlock : Nat := 256

structure Block where
  bytes : ByteArray
  size_bytes : bytes.size = blockSize
deriving DecidableEq

namespace Block

def zero : Block := ⟨zeros blockSize, size_zeros _⟩

def ofBytes? (bytes : ByteArray) : Option Block :=
  if h : bytes.size = blockSize then some ⟨bytes, h⟩ else none

def byte (b : Block) (i : Nat) : UInt8 := byteAt b.bytes i

/-- Puts `data` in place of the bytes from `offset` on; data that would stick out changes nothing. -/
def patch (b : Block) (offset : Nat) (data : ByteArray) : Block :=
  if h : offset + data.size ≤ blockSize then
    ⟨overwrite b.bytes offset data, by rw [size_overwrite (by rw [b.size_bytes]; exact h), b.size_bytes]⟩
  else b

def word (b : Block) (offset : Nat) : UInt32 := wordAt b.bytes offset

def setWord (b : Block) (offset : Nat) (w : UInt32) : Block := b.patch offset (encodeWord w).toByteArray

def pointer (b : Block) (slot : Nat) : UInt32 := b.word (4 * slot)

def setPointer (b : Block) (slot : Nat) (target : UInt32) : Block := b.setWord (4 * slot) target

def clearFrom (b : Block) (offset : Nat) : Block := b.patch offset (zeros (blockSize - offset))

def ofFn (f : Nat → UInt8) : Block := ⟨((List.range blockSize).map f).toByteArray, by simp⟩

def ofList (bytes : List UInt8) : Block := zero.patch 0 bytes.toByteArray

@[simp] theorem byte_zero (i : Nat) : zero.byte i = 0 := byteAt_zeros _ _

theorem byte_ofFn (f : Nat → UInt8) {i : Nat} (h : i < blockSize) : (ofFn f).byte i = f i := by
  unfold byte ofFn
  rw [byteAt_toByteArray, List.getD_eq_getElem?_getD, List.getElem?_map, List.getElem?_range h]
  rfl

theorem ext_byte {a b : Block} (h : ∀ i < blockSize, a.byte i = b.byte i) : a = b := by
  obtain ⟨as, ha⟩ := a
  obtain ⟨bs, hb⟩ := b
  have : as = bs := eq_of_byteAt (by omega) fun i hi => h i (by omega)
  subst this
  rfl

theorem byte_patch (b : Block) {offset : Nat} {data : ByteArray} (h : offset + data.size ≤ blockSize) (i : Nat) :
    (b.patch offset data).byte i =
      if offset ≤ i ∧ i < offset + data.size then byteAt data (i - offset) else b.byte i := by
  unfold patch byte
  rw [dif_pos h]
  exact byteAt_overwrite (by rw [b.size_bytes]; exact h) i

theorem byte_clearFrom (b : Block) {offset : Nat} (h : offset ≤ blockSize) (i : Nat) :
    (b.clearFrom offset).byte i = if offset ≤ i then 0 else b.byte i := by
  unfold clearFrom
  rw [byte_patch b (by simp; omega)]
  simp only [size_zeros, byteAt_zeros]
  by_cases h1 : offset ≤ i
  · by_cases h2 : i < blockSize
    · simp [h1, show i < offset + (blockSize - offset) by omega]
    · have : b.byte i = 0 := byteAt_of_size_le (by rw [b.size_bytes]; omega)
      simp [this]
  · simp [h1]

theorem byte_setWord (b : Block) {offset : Nat} (w : UInt32) (h : offset + 4 ≤ blockSize) (i : Nat) :
    (b.setWord offset w).byte i =
      if offset ≤ i ∧ i < offset + 4 then (encodeWord w).getD (i - offset) 0 else b.byte i := by
  unfold setWord
  rw [byte_patch b (by simpa using h)]
  simp

@[simp] theorem word_setWord (b : Block) {offset : Nat} (w : UInt32) (h : offset + 4 ≤ blockSize) :
    (b.setWord offset w).word offset = w := by
  refine wordAt_encodeWord w fun k hk => ?_
  have := byte_setWord b w h (offset + k)
  rw [if_pos ⟨by omega, by omega⟩] at this
  simpa [byte] using this

theorem word_setWord_of_ne (b : Block) {offset other : Nat} (w : UInt32) (h : offset + 4 ≤ blockSize)
    (hne : other + 4 ≤ offset ∨ offset + 4 ≤ other) : (b.setWord offset w).word other = b.word other := by
  have key : ∀ k < 4, byteAt (b.setWord offset w).bytes (other + k) = byteAt b.bytes (other + k) := by
    intro k hk
    have := byte_setWord b w h (other + k)
    rw [if_neg (by omega)] at this
    exact this
  unfold word wordAt
  rw [key 1 (by omega), key 2 (by omega), key 3 (by omega)]
  have := key 0 (by omega)
  simp only [Nat.add_zero] at this
  rw [this]

theorem pointer_setPointer (b : Block) {slot : Nat} (h : slot < pointersPerBlock) (target : UInt32) (j : Nat) :
    (b.setPointer slot target).pointer j = if j = slot then target else b.pointer j := by
  have fits : 4 * slot + 4 ≤ 1024 := by
    simp only [pointersPerBlock] at h
    omega
  unfold pointer setPointer
  by_cases hj : j = slot
  · subst hj
    rw [if_pos rfl]
    exact word_setWord b target fits
  · rw [if_neg hj]
    exact word_setWord_of_ne b target fits (by omega)

@[simp] theorem pointer_zero (slot : Nat) : zero.pointer slot = 0 := by
  simp [pointer, word, wordAt, zero]

end Block

end ImageFS
