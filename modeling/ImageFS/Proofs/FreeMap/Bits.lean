import ImageFS.FreeMap
import Mathlib.Tactic.Common

/-!
# The free map as a row of bits

Marking a block sets or clears its bit and no other, also past the end of the volume, and changes the
number of free blocks by one. A map is known by its bits. The search for a free block finds one if there
is any behind the first block of the map.
-/

set_option autoImplicit false

namespace ImageFS.FreeMap

/-- The bit that tells of block `b`. -/
def bit (m : FreeMap) (b : Nat) : Bool := testBit (m.byteOf b) (b % 8)

theorem isFree_eq (m : FreeMap) (b : Nat) : m.isFree b = (decide (b < m.blockCount.toNat) && m.bit b) := rfl

theorem lt_of_isFree (m : FreeMap) {b : Nat} (h : m.isFree b = true) : b < m.blockCount.toNat :=
  Nat.lt_of_not_le fun hle => by simp [m.isFree_of_le hle] at h

theorem isFree_eq_bit (m : FreeMap) {b : Nat} (h : b < m.blockCount.toNat) : m.isFree b = m.bit b := by
  rw [isFree_eq, decide_eq_true h, Bool.true_and]

theorem bit_updateByte (m : FreeMap) (f : UInt8 → UInt8) (new : Bool) {b : Nat} (h : b < m.blockCount.toNat)
    (hf : ∀ byte, ∀ k < 8, testBit (f byte) k = if k = b % 8 then new else testBit byte k) (j : Nat) :
    (m.updateByte b f).bit j = if j = b then new else m.bit j := by
  unfold bit
  rw [byteOf_updateByte m f h]
  by_cases hj : j = b
  · subst hj
    rw [if_pos rfl, if_pos rfl, hf _ _ (Nat.mod_lt _ (by decide)), if_pos rfl]
  · rw [if_neg hj]
    by_cases heq : j / 8 = b / 8
    · rw [if_pos heq, hf _ _ (Nat.mod_lt _ (by decide)), if_neg (by omega), m.byteOf_eq heq]
    · rw [if_neg heq]

theorem bit_markFree (m : FreeMap) {b : Nat} (h : b < m.blockCount.toNat) (j : Nat) :
    (m.markFree b).bit j = if j = b then true else m.bit j := by
  refine bit_updateByte m _ true h (fun byte k hk => ?_) j
  rw [testBit_setBit byte (by omega) hk]
  by_cases hkb : k = b % 8 <;> simp [hkb]

theorem bit_markUsed (m : FreeMap) {b : Nat} (h : b < m.blockCount.toNat) (j : Nat) :
    (m.markUsed b).bit j = if j = b then false else m.bit j := by
  refine bit_updateByte m _ false h (fun byte k hk => ?_) j
  rw [testBit_clearBit byte (by omega) hk]
  by_cases hkb : k = b % 8 <;> simp [hkb]

theorem bit_fresh (s : Superblock) (b : Nat) :
    (fresh s).bit b = decide (s.firstDataBlock.toNat ≤ b ∧ b < s.blockCount.toNat) := testBit_fresh s b

theorem part_eq (m : FreeMap) {a b : Nat} (h : a / bitsPerBlock = b / bitsPerBlock) : m.part a = m.part b := by
  rw [part, part, h]

theorem eq_of_testBit {a b : UInt8} (h : ∀ k < 8, testBit a k = testBit b k) : a = b := by
  apply UInt8.toBitVec_inj.mp
  apply BitVec.eq_of_getLsbD_eq
  exact h

theorem ext_part {m m' : FreeMap} (count : m.blockCount = m'.blockCount) (first : m.firstData = m'.firstData)
    (parts : ∀ b < m.blockCount.toNat, m.part b = m'.part b) : m = m' := by
  obtain ⟨blockCount, firstData, blocks⟩ := m
  obtain ⟨blockCount', firstData', blocks'⟩ := m'
  simp only at count first
  subst count first
  congr
  apply Vector.ext
  intro i hi
  have hlt := blockCount.toNat_lt
  have hb : i * bitsPerBlock < blockCount.toNat := by
    simp only [Superblock.mapBlocksFor, ceilDiv, bitsPerBlock, UInt32.toNat_ofNat'] at hi ⊢
    omega
  have hpart := parts (i * bitsPerBlock) hb
  rw [part, part, Nat.mul_div_cancel i (show 0 < bitsPerBlock by decide)] at hpart
  simpa [hi] using hpart

theorem ext_bit {m m' : FreeMap} (count : m.blockCount = m'.blockCount) (first : m.firstData = m'.firstData)
    (bits : ∀ i, m.bit i = m'.bit i) : m = m' := by
  refine ext_part count first fun b _ => Block.ext_byte fun j hj => eq_of_testBit fun k hk => ?_
  have hbit := bits (b / bitsPerBlock * bitsPerBlock + 8 * j + k)
  have hpart : (b / bitsPerBlock * bitsPerBlock + 8 * j + k) / bitsPerBlock = b / bitsPerBlock := by
    simp only [bitsPerBlock, blockSize] at hj ⊢
    omega
  have hplace : place (b / bitsPerBlock * bitsPerBlock + 8 * j + k) = j := by
    simp only [place, bitsPerBlock, blockSize] at hj ⊢
    omega
  have hk' : (b / bitsPerBlock * bitsPerBlock + 8 * j + k) % 8 = k := by
    simp only [bitsPerBlock]
    omega
  rw [bit, bit, byteOf, byteOf, m.part_eq hpart, m'.part_eq hpart, hplace, hk'] at hbit
  exact hbit

theorem markFree_markUsed (m : FreeMap) {b : Nat} (h : m.isFree b = true) : (m.markUsed b).markFree b = m := by
  have hb := m.lt_of_isFree h
  refine ext_bit rfl rfl fun i => ?_
  have hbit := (m.markUsed b).bit_markFree hb i
  apply hbit.trans
  rw [m.bit_markUsed hb]
  by_cases hi : i = b
  · rw [if_pos hi, hi, ← m.isFree_eq_bit hb, h]
  · rw [if_neg hi, if_neg hi]

theorem countP_range_add_one {p q : Nat → Bool} {n b : Nat} (hb : b < n) (hp : p b = false) (hq : q b = true)
    (same : ∀ j, j ≠ b → q j = p j) : (List.range n).countP q = (List.range n).countP p + 1 := by
  induction n with
  | zero => omega
  | succ n ih =>
    rw [List.range_succ, List.countP_append, List.countP_append]
    by_cases hn : b = n
    · subst hn
      have below : (List.range b).countP q = (List.range b).countP p := by
        apply List.countP_congr
        intro j hj
        rw [same j (Nat.ne_of_lt (List.mem_range.mp hj))]
      simp [below, hp, hq]
    · have top : [n].countP q = [n].countP p := by
        simp [same n (Ne.symm hn)]
      rw [ih (by omega), top]
      omega

theorem freeCount_markUsed (m : FreeMap) {b : Nat} (h : m.isFree b = true) :
    (m.markUsed b).freeCount + 1 = m.freeCount := by
  have hb := m.lt_of_isFree h
  have count : (m.markUsed b).blockCount = m.blockCount := rfl
  rw [freeCount_eq_countP, freeCount_eq_countP, count]
  refine (countP_range_add_one hb ?_ h fun j hj => ?_).symm
  · rw [m.isFree_markUsed hb, if_pos rfl]
  · rw [m.isFree_markUsed hb, if_neg hj]

theorem freeCount_markFree (m : FreeMap) {b : Nat} (hb : b < m.blockCount.toNat) (h : m.isFree b = false) :
    (m.markFree b).freeCount = m.freeCount + 1 := by
  have count : (m.markFree b).blockCount = m.blockCount := rfl
  rw [freeCount_eq_countP, freeCount_eq_countP, count]
  refine countP_range_add_one hb h ?_ fun j hj => ?_
  · rw [m.isFree_markFree hb, if_pos rfl]
  · rw [m.isFree_markFree hb, if_neg hj]

theorem freeCount_congr {m m' : FreeMap} (count : m'.blockCount = m.blockCount)
    (bits : ∀ j, m'.bit j = m.bit j) : m'.freeCount = m.freeCount := by
  rw [freeCount_eq_countP, freeCount_eq_countP, count]
  apply List.countP_congr
  intro j _
  rw [isFree_eq, isFree_eq, count, bits]

theorem lowestFree_eq_some (m : FreeMap) {b : Nat} (h : m.lowestFree = some b) : m.isFree b = true := by
  rw [lowestFree_eq_find?] at h
  exact List.find?_some h

theorem le_of_lowestFree (m : FreeMap) {b : Nat} (h : m.lowestFree = some b) : firstMapBlock.toNat ≤ b := by
  rw [lowestFree_eq_find?] at h
  exact (List.mem_range'_1.mp (List.mem_of_find?_eq_some h)).1

theorem exists_lowestFree (m : FreeMap) {j : Nat} (hj : firstMapBlock.toNat ≤ j) (hfree : m.isFree j = true) :
    ∃ b ≤ j, m.lowestFree = some b := by
  have hlt := m.lt_of_isFree hfree
  rw [lowestFree_eq_find?]
  cases hfind : (List.range' firstMapBlock.toNat (m.blockCount.toNat - firstMapBlock.toNat)).find? m.isFree with
  | none => exact absurd hfree (List.find?_eq_none.mp hfind j (List.mem_range'_1.mpr ⟨hj, by omega⟩))
  | some b =>
    refine ⟨b, ?_, rfl⟩
    by_contra hlater
    have hpassed := (List.find?_range'_eq_some.mp hfind).2.2 j hj (by omega)
    rw [hfree] at hpassed
    cases hpassed

theorem lowestFree_eq_none_iff (m : FreeMap) (h : ∀ b < firstMapBlock.toNat, m.isFree b = false) :
    m.lowestFree = none ↔ m.freeCount = 0 := by
  rw [lowestFree_eq_find?, freeCount_eq_countP, List.find?_eq_none, List.countP_eq_zero]
  constructor
  · intro hnone b hb
    by_cases hlow : b < firstMapBlock.toNat
    · simp [h b hlow]
    · have := List.mem_range.mp hb
      exact hnone b (List.mem_range'_1.mpr ⟨by omega, by omega⟩)
  · intro hzero b hb
    have := List.mem_range'_1.mp hb
    exact hzero b (List.mem_range.mpr (by omega))

end ImageFS.FreeMap
