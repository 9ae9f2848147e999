import ImageFS.Superblock

/-!
# The free map

One bit for each block of the volume, set when the block is free. The map is kept as the blocks that
hold it on the device: bit `i` is bit `i % 8` of byte `i / 8`. Blocks below `firstData` hold the
metadata and are never given back.
-/

set_option autoImplicit false

namespace ImageFS

def testBit (b : UInt8) (k : Nat) : Bool := b.toBitVec.getLsbD k

def setBit (b : UInt8) (k : Nat) : UInt8 := b ||| (1 <<< UInt8.ofNat k)

def clearBit (b : UInt8) (k : Nat) : UInt8 := b &&& ~~~(1 <<< UInt8.ofNat k)

def ofBits (bit : Nat → Bool) : UInt8 :=
  (List.range 8).foldl (fun b k => if bit k then setBit b k else b) 0

def setBits (b : UInt8) : Nat :=
  let bit (k : UInt8) : UInt8 := b >>> k &&& 1
  (bit 0 + bit 1 + bit 2 + bit 3 + bit 4 + bit 5 + bit 6 + bit 7).toNat

theorem testBit_setBit (b : UInt8) {k j : Nat} (hk : k < 8) (hj : j < 8) :
    testBit (setBit b k) j = (decide (j = k) || testBit b j) := by
  have key : ∀ k < 8, ∀ j < 8, (1 <<< UInt8.ofNat k : UInt8).toBitVec.getLsbD j = decide (j = k) := by
    decide
  unfold testBit setBit
  rw [UInt8.toBitVec_or, BitVec.getLsbD_or, key k hk j hj, Bool.or_comm]

theorem testBit_clearBit (b : UInt8) {k j : Nat} (hk : k < 8) (hj : j < 8) :
    testBit (clearBit b k) j = (!decide (j = k) && testBit b j) := by
  have key : ∀ k < 8, ∀ j < 8, (~~~(1 <<< UInt8.ofNat k : UInt8)).toBitVec.getLsbD j = !decide (j = k) := by
    decide
  unfold testBit clearBit
  rw [UInt8.toBitVec_and, BitVec.getLsbD_and, key k hk j hj, Bool.and_comm]

theorem testBit_ofBits (bit : Nat → Bool) {j : Nat} (hj : j < 8) : testBit (ofBits bit) j = bit j := by
  have key : ∀ (l : List Nat) (b : UInt8), (∀ k ∈ l, k < 8) →
      testBit (l.foldl (fun b k => if bit k then setBit b k else b) b) j =
        (testBit b j || (l.contains j && bit j)) := by
    intro l
    induction l with
    | nil => simp
    | cons k l ih =>
      intro b hl
      rw [List.foldl_cons, ih _ fun i hi => hl i (List.mem_cons_of_mem _ hi)]
      by_cases hk : bit k
      · rw [if_pos hk, testBit_setBit b (hl k List.mem_cons_self) hj]
        by_cases hjk : j = k
        · subst hjk
          simp [hk]
        · simp [hjk]
      · rw [if_neg hk]
        by_cases hjk : j = k
        · subst hjk
          simp [hk]
        · simp [hjk]
  unfold ofBits
  rw [key _ _ fun k hk => List.mem_range.mp hk]
  have : testBit 0 j = false := by simp [testBit]
  simp [this, hj]

theorem setBits_eq (b : UInt8) : setBits b = (List.range 8).countP (testBit b) := by
  have key : ∀ n < 256, setBits (.ofNat n) = (List.range 8).countP (testBit (.ofNat n)) := by decide +kernel
  have := key b.toNat b.toNat_lt
  rwa [UInt8.ofNat_toNat] at this

structure FreeMap where
  blockCount : UInt32
  firstData : UInt32
  blocks : Vector Block (Superblock.mapBlocksFor blockCount).toNat
deriving DecidableEq

namespace FreeMap

def part (m : FreeMap) (b : Nat) : Block := m.blocks[b / bitsPerBlock]?.getD .zero

def place (b : Nat) : Nat := b % bitsPerBlock / 8

def byteOf (m : FreeMap) (b : Nat) : UInt8 := (m.part b).byte (place b)

def isFree (m : FreeMap) (b : Nat) : Bool := b < m.blockCount.toNat && testBit (m.byteOf b) (b % 8)

def updateByte (m : FreeMap) (b : Nat) (f : UInt8 → UInt8) : FreeMap :=
  { m with blocks := ⟨m.blocks.toArray.modify (b / bitsPerBlock) fun part =>
      part.patch (place b) [f (part.byte (place b))].toByteArray, by simp⟩ }

def markFree (m : FreeMap) (b : Nat) : FreeMap := m.updateByte b (setBit · (b % 8))

def markUsed (m : FreeMap) (b : Nat) : FreeMap := m.updateByte b (clearBit · (b % 8))

/-- The first free block from `first` on among those that so many bytes tell of, from the one for block
`8 * i` on. Bytes without a set bit are passed over. -/
def firstFree (m : FreeMap) (first : Nat) : Nat → Nat → Option Nat
  | 0, _ => none
  | bytes + 1, i =>
    if m.byteOf (8 * i) = 0 then m.firstFree first bytes (i + 1)
    else
      match (List.range' (8 * i) 8).find? fun b => first ≤ b && m.isFree b with
      | some b => some b
      | none => m.firstFree first bytes (i + 1)

/-- The lowest free block from the map's own first block on. -/
def lowestFree (m : FreeMap) : Option Nat :=
  m.firstFree firstMapBlock.toNat (ceilDiv m.blockCount.toNat 8) 0

def freeInByte (m : FreeMap) (i : Nat) : Nat :=
  if 8 * i + 8 ≤ m.blockCount.toNat then setBits (m.byteOf (8 * i))
  else (List.range' (8 * i) 8).countP m.isFree

def freeCount (m : FreeMap) : Nat :=
  (ceilDiv m.blockCount.toNat 8).fold (fun i _ count => count + m.freeInByte i) 0

def allFree : Block := .ofFn fun _ => 0xFF

/-- The part of the map from block `base` on in which the blocks from `first` to before `stop` are free. -/
def freeBetween (first stop base : Nat) : Block :=
  if first ≤ base ∧ base + bitsPerBlock ≤ stop then allFree
  else .ofFn fun i => ofBits fun k => first ≤ base + 8 * i + k && base + 8 * i + k < stop

def fresh (s : Superblock) : FreeMap where
  blockCount := s.blockCount
  firstData := s.firstDataBlock
  blocks := .ofFn fun i => freeBetween s.firstDataBlock.toNat s.blockCount.toNat (bitsPerBlock * i)

def home (b : Nat) : UInt32 := firstMapBlock + .ofNat (b / bitsPerBlock)

def homes (s : Superblock) : Vector UInt32 s.mapBlocks.toNat :=
  Vector.ofFn fun i => firstMapBlock + .ofNat i

def read (d : Device) (s : Superblock) : Except Error FreeMap := do
  let blocks ← (homes s).mapM d.readBlock
  return { blockCount := s.blockCount, firstData := s.firstDataBlock, blocks := blocks }

theorem part_lt (m : FreeMap) {b : Nat} (h : b < m.blockCount.toNat) :
    b / bitsPerBlock < (Superblock.mapBlocksFor m.blockCount).toNat := by
  have := m.blockCount.toNat_lt
  simp only [Superblock.mapBlocksFor, ceilDiv, bitsPerBlock, UInt32.toNat_ofNat']
  omega

theorem place_lt (b : Nat) : place b < blockSize := by
  simp only [place, bitsPerBlock, blockSize]
  omega

theorem part_updateByte (m : FreeMap) (f : UInt8 → UInt8) {b : Nat} (h : b < m.blockCount.toNat) (j : Nat) :
    (m.updateByte b f).part j =
      if j / bitsPerBlock = b / bitsPerBlock then
        (m.part b).patch (place b) [f ((m.part b).byte (place b))].toByteArray
      else m.part j := by
  have hb := m.part_lt h
  have cell : ∀ m : FreeMap, ∀ i, m.part i = m.blocks.toArray[i / bitsPerBlock]?.getD .zero := by
    intro m i
    simp [part]
  rw [cell, cell, cell]
  simp only [updateByte, Array.getElem?_modify]
  by_cases hpart : j / bitsPerBlock = b / bitsPerBlock
  · rw [if_pos hpart.symm, if_pos hpart, hpart]
    simp [hb]
  · rw [if_neg (Ne.symm hpart), if_neg hpart]

theorem byteOf_updateByte (m : FreeMap) (f : UInt8 → UInt8) {b : Nat} (h : b < m.blockCount.toNat) (j : Nat) :
    (m.updateByte b f).byteOf j = if j / 8 = b / 8 then f (m.byteOf b) else m.byteOf j := by
  have eighth : j / bitsPerBlock = b / bitsPerBlock ∧ place j = place b ↔ j / 8 = b / 8 := by
    simp only [place, bitsPerBlock]
    omega
  unfold byteOf
  rw [part_updateByte m f h]
  by_cases hpart : j / bitsPerBlock = b / bitsPerBlock
  · have same : m.part j = m.part b := by rw [part, part, hpart]
    have size : [f ((m.part b).byte (place b))].toByteArray.size = 1 := by simp
    rw [if_pos hpart, Block.byte_patch _ (by rw [size]; exact place_lt b), size, same]
    by_cases hplace : place j = place b
    · rw [if_pos (by omega), if_pos (eighth.mp ⟨hpart, hplace⟩), hplace, Nat.sub_self]
      simp
    · rw [if_neg (by omega), if_neg fun heq => hplace (eighth.mpr heq).2]
  · rw [if_neg hpart, if_neg fun heq => hpart (eighth.mpr heq).1]

theorem byteOf_eq (m : FreeMap) {a b : Nat} (h : a / 8 = b / 8) : m.byteOf a = m.byteOf b := by
  have hpart : a / bitsPerBlock = b / bitsPerBlock := by
    simp only [bitsPerBlock]
    omega
  have hplace : place a = place b := by
    simp only [place, bitsPerBlock]
    omega
  rw [byteOf, byteOf, part, part, hpart, hplace]

theorem isFree_of_le (m : FreeMap) {b : Nat} (h : m.blockCount.toNat ≤ b) : m.isFree b = false := by
  simp [isFree, Nat.not_lt.mpr h]

theorem isFree_updateByte (m : FreeMap) (f : UInt8 → UInt8) (bit : Bool) {b : Nat} (h : b < m.blockCount.toNat)
    (hf : ∀ byte, ∀ k < 8, testBit (f byte) k = if k = b % 8 then bit else testBit byte k) (j : Nat) :
    (m.updateByte b f).isFree j = if j = b then bit else m.isFree j := by
  have count : (m.updateByte b f).blockCount = m.blockCount := rfl
  unfold isFree
  rw [byteOf_updateByte m f h, count]
  by_cases hj : j = b
  · subst hj
    rw [if_pos rfl, if_pos rfl, hf _ _ (by omega), if_pos rfl]
    simp [h]
  · rw [if_neg hj]
    by_cases heq : j / 8 = b / 8
    · rw [if_pos heq, hf _ _ (by omega), if_neg (by omega), m.byteOf_eq heq]
    · rw [if_neg heq]

theorem isFree_markFree (m : FreeMap) {b : Nat} (h : b < m.blockCount.toNat) (j : Nat) :
    (m.markFree b).isFree j = if j = b then true else m.isFree j := by
  refine isFree_updateByte m _ true h (fun byte k hk => ?_) j
  rw [testBit_setBit byte (by omega) hk]
  by_cases hkb : k = b % 8 <;> simp [hkb]

theorem isFree_markUsed (m : FreeMap) {b : Nat} (h : b < m.blockCount.toNat) (j : Nat) :
    (m.markUsed b).isFree j = if j = b then false else m.isFree j := by
  refine isFree_updateByte m _ false h (fun byte k hk => ?_) j
  rw [testBit_clearBit byte (by omega) hk]
  by_cases hkb : k = b % 8 <;> simp [hkb]

theorem testBit_fresh (s : Superblock) (b : Nat) :
    testBit ((fresh s).byteOf b) (b % 8) = decide (s.firstDataBlock.toNat ≤ b ∧ b < s.blockCount.toNat) := by
  by_cases hpart : b / bitsPerBlock < (Superblock.mapBlocksFor (fresh s).blockCount).toNat
  · have hb : b = bitsPerBlock * (b / bitsPerBlock) + 8 * place b + b % 8 := by
      simp only [place, bitsPerBlock]
      omega
    have cell : (fresh s).part b =
        freeBetween s.firstDataBlock.toNat s.blockCount.toNat (bitsPerBlock * (b / bitsPerBlock)) := by
      unfold part
      rw [Vector.getElem?_eq_getElem hpart]
      simp [fresh]
    unfold byteOf
    rw [cell]
    unfold freeBetween
    by_cases hall : s.firstDataBlock.toNat ≤ bitsPerBlock * (b / bitsPerBlock) ∧
        bitsPerBlock * (b / bitsPerBlock) + bitsPerBlock ≤ s.blockCount.toNat
    · have ones : ∀ k < 8, testBit 0xFF k = true := by decide
      have hplace := place_lt b
      have hlast : b % bitsPerBlock < bitsPerBlock := Nat.mod_lt _ (by decide)
      have hsplit := Nat.div_add_mod b bitsPerBlock
      rw [if_pos hall, allFree, Block.byte_ofFn _ hplace, ones _ (by omega), eq_comm, decide_eq_true_eq]
      omega
    · rw [if_neg hall, Block.byte_ofFn _ (place_lt b), testBit_ofBits _ (by omega), ← hb]
      simp
  · have hout : s.blockCount.toNat ≤ b := Nat.le_of_not_lt fun hlt => hpart ((fresh s).part_lt hlt)
    have cell : (fresh s).part b = .zero := by
      unfold part
      rw [Vector.getElem?_eq_none (Nat.le_of_not_lt hpart), Option.getD_none]
    rw [byteOf, cell, Block.byte_zero, eq_comm, decide_eq_false (by omega)]
    simp [testBit]

theorem isFree_fresh (s : Superblock) (b : Nat) :
    (fresh s).isFree b = decide (s.firstDataBlock.toNat ≤ b ∧ b < s.blockCount.toNat) := by
  have count : (fresh s).blockCount = s.blockCount := rfl
  rw [isFree, testBit_fresh, count, ← Bool.decide_and, decide_eq_decide]
  omega

theorem firstFree_eq_find? (m : FreeMap) (first bytes i : Nat) :
    m.firstFree first bytes i = (List.range' (8 * i) (8 * bytes)).find? fun b => first ≤ b && m.isFree b := by
  induction bytes generalizing i with
  | zero => rfl
  | succ bytes ih =>
    have split : List.range' (8 * i) (8 * (bytes + 1)) =
        List.range' (8 * i) 8 ++ List.range' (8 * (i + 1)) (8 * bytes) := by
      rw [show 8 * (i + 1) = 8 * i + 8 by omega, List.range'_append_1, show 8 * (bytes + 1) = 8 + 8 * bytes by omega]
    rw [firstFree, split, List.find?_append, ih]
    by_cases hbyte : m.byteOf (8 * i) = 0
    · have hnone : (List.range' (8 * i) 8).find? (fun b => first ≤ b && m.isFree b) = none := by
        refine List.find?_eq_none.mpr fun b hb => ?_
        have hb := List.mem_range'_1.mp hb
        rw [isFree, m.byteOf_eq (show b / 8 = 8 * i / 8 by omega), hbyte]
        simp [testBit]
      rw [if_pos hbyte, hnone, Option.none_or]
    · rw [if_neg hbyte]
      cases (List.range' (8 * i) 8).find? fun b => first ≤ b && m.isFree b <;> rfl

theorem lowestFree_eq_find? (m : FreeMap) :
    m.lowestFree =
      (List.range' firstMapBlock.toNat (m.blockCount.toNat - firstMapBlock.toNat)).find? m.isFree := by
  have inside : ∀ b, m.isFree b = true → b < m.blockCount.toNat := fun b hb =>
    Nat.lt_of_not_le fun hle => by simp [m.isFree_of_le hle] at hb
  unfold lowestFree ceilDiv
  rw [firstFree_eq_find?]
  generalize firstMapBlock.toNat = first
  apply Option.ext
  intro b
  simp only [List.find?_range'_eq_some, List.mem_range'_1, Bool.and_eq_true, decide_eq_true_eq, Bool.not_eq_true',
    Bool.and_eq_false_imp]
  constructor
  · rintro ⟨⟨hle, hb⟩, _, hmin⟩
    have := inside b hb
    exact ⟨hb, by omega, fun j hj hjb => hmin j (by omega) hjb hj⟩
  · rintro ⟨hb, hmem, hmin⟩
    have := inside b hb
    exact ⟨⟨hmem.1, hb⟩, by omega, fun j _ hjb hj => hmin j hj hjb⟩

theorem freeInByte_eq (m : FreeMap) (i : Nat) :
    m.freeInByte i = (List.range' (8 * i) 8).countP m.isFree := by
  unfold freeInByte
  by_cases h : 8 * i + 8 ≤ m.blockCount.toNat
  · rw [if_pos h, setBits_eq, List.range'_eq_map_range, List.countP_map]
    refine List.countP_congr fun k hk => ?_
    have hk := List.mem_range.mp hk
    rw [Function.comp, isFree, m.byteOf_eq (show (8 * i + k) / 8 = 8 * i / 8 by omega),
      show (8 * i + k) % 8 = k by omega]
    simp [show 8 * i + k < m.blockCount.toNat by omega]
  · rw [if_neg h]

theorem freeCount_eq_countP (m : FreeMap) :
    m.freeCount = (List.range m.blockCount.toNat).countP m.isFree := by
  have sum : ∀ bytes, bytes.fold (fun i _ count => count + m.freeInByte i) 0 =
      (List.range' 0 (8 * bytes)).countP m.isFree := by
    intro bytes
    induction bytes with
    | zero => rfl
    | succ bytes ih =>
      have split := @List.range'_append_1 0 (8 * bytes) 8
      rw [Nat.zero_add] at split
      rw [Nat.fold_succ, ih, freeInByte_eq, show 8 * (bytes + 1) = 8 * bytes + 8 by omega, ← split,
        List.countP_append]
  have rest : (List.range' m.blockCount.toNat
      (8 * ceilDiv m.blockCount.toNat 8 - m.blockCount.toNat)).countP m.isFree = 0 := by
    refine List.countP_eq_zero.mpr fun b hb => ?_
    simp [m.isFree_of_le (List.mem_range'_1.mp hb).1]
  have split := @List.range'_append_1 0 m.blockCount.toNat (8 * ceilDiv m.blockCount.toNat 8 - m.blockCount.toNat)
  have fits : m.blockCount.toNat + (8 * ceilDiv m.blockCount.toNat 8 - m.blockCount.toNat) =
      8 * ceilDiv m.blockCount.toNat 8 := by
    unfold ceilDiv
    omega
  rw [Nat.zero_add, fits] at split
  rw [freeCount, sum, ← split, List.countP_append, rest, List.range_eq_range']
  rfl

end FreeMap

end ImageFS
