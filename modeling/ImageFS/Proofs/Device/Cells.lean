import ImageFS.Store
import ImageFS.Proofs.Bytes
import Mathlib.Tactic.Ring

/-!
# A sound device is an array of blocks

On a device without faults whose sectors fill blocks evenly, reading a block gives its cell and
writing one replaces that cell: the sectors below can be forgotten.
-/

set_option autoImplicit false

namespace ImageFS

abbrev Memory := UInt32 → Block

namespace Device

structure FaultFree (d : Device) : Prop where
  readable : ∀ sector, d.faults.unreadable sector = false
  writable : ∀ sector, d.faults.fragile sector = false
  flushes : d.faults.flush = false

structure Sound (d : Device) : Prop extends FaultFree d where
  sectors : d.checkSectorSize = .ok ()

/-- The contents of a block, past all faults. -/
def cell (d : Device) : Memory := fun b =>
  .ofFn fun i => byteAt d.bytes (b.toNat * blockSize + i)

def put (d : Device) (b : UInt32) (block : Block) : Device :=
  { d with bytes := overwrite d.bytes (b.toNat * blockSize) block.bytes }

variable {d : Device}

theorem cell_congr {d' : Device} (bytes : d'.bytes = d.bytes) : d'.cell = d.cell := by
  funext b
  rw [cell, cell, bytes]

theorem byte_cell (d : Device) (b : UInt32) {i : Nat} (hi : i < blockSize) :
    byteAt (d.cell b).bytes i = byteAt d.bytes (b.toNat * blockSize + i) :=
  Block.byte_ofFn _ hi

theorem sector_size (hs : d.checkSectorSize = .ok ()) :
    0 < d.sectorSize ∧ d.sectorsPerBlock * d.sectorSize = blockSize := by
  unfold checkSectorSize at hs
  split at hs
  · cases hs
  · rename_i hn
    have hdvd : blockSize % d.sectorSize = 0 := by
      by_contra hc
      exact hn (.inr (.inr hc))
    exact ⟨Nat.pos_of_ne_zero fun hz => hn (.inl hz), Nat.div_mul_cancel (Nat.dvd_of_mod_eq_zero hdvd)⟩

theorem sectorCount_mul_le (d : Device) : d.sectorCount * d.sectorSize ≤ d.bytes.size :=
  Nat.div_mul_le_self _ _

theorem Sound.blockCount_eq (h : d.Sound) : d.blockCount = d.bytes.size / blockSize := by
  obtain ⟨hpos, hmul⟩ := sector_size h.sectors
  rw [blockCount, size, sectorCount, ← hmul, Nat.mul_div_mul_right _ _ hpos, Nat.div_div_eq_div_mul, Nat.mul_comm]

theorem blank_sound {bytes sectorSize : Nat} (hs : (blank bytes sectorSize).checkSectorSize = .ok ()) :
    (blank bytes sectorSize).Sound := ⟨⟨fun _ => rfl, fun _ => rfl, rfl⟩, hs⟩

theorem blockCount_blank (bytes sectorSize : Nat) : (blank bytes sectorSize).blockCount =
    bytes / max sectorSize 1 * max sectorSize 1 / sectorSize * sectorSize / blockSize := by
  rw [blockCount, size, sectorCount, blank, size_zeros]

theorem block_sectors (hs : d.checkSectorSize = .ok ()) {b : UInt32} (hb : b.toNat < d.blockCount) :
    b.toNat * d.sectorsPerBlock + d.sectorsPerBlock ≤ d.sectorCount := by
  obtain ⟨hpos, hmul⟩ := sector_size hs
  have hcount : (b.toNat + 1) * blockSize ≤ d.sectorCount * d.sectorSize := by
    apply Nat.le_trans (Nat.mul_le_mul_right _ hb)
    exact Nat.div_mul_le_self _ _
  have : (b.toNat + 1) * d.sectorsPerBlock * d.sectorSize ≤ d.sectorCount * d.sectorSize := by
    rw [Nat.mul_assoc, hmul]
    exact hcount
  have := Nat.le_of_mul_le_mul_right this hpos
  rwa [Nat.add_mul, Nat.one_mul] at this

theorem block_bytes {b : UInt32} (hb : b.toNat < d.blockCount) :
    b.toNat * blockSize + blockSize ≤ d.bytes.size := by
  have hcount : (b.toNat + 1) * blockSize ≤ d.size :=
    Nat.le_trans (Nat.mul_le_mul_right _ hb) (Nat.div_mul_le_self _ _)
  have hsize : d.size ≤ d.bytes.size := d.sectorCount_mul_le
  rw [Nat.add_mul, Nat.one_mul] at hcount
  omega

theorem sectors_of_block (hs : d.checkSectorSize = .ok ()) {b sector : Nat} (h : sector * d.sectorSize / blockSize = b) :
    b * d.sectorsPerBlock ≤ sector ∧ sector < b * d.sectorsPerBlock + d.sectorsPerBlock := by
  obtain ⟨hpos, hmul⟩ := sector_size hs
  have hblock : 0 < d.sectorsPerBlock := Nat.pos_of_mul_pos_right (hmul ▸ (by decide : 0 < blockSize))
  rw [← hmul, Nat.mul_div_mul_right _ _ hpos] at h
  have := (Nat.div_eq_iff hblock).mp h
  omega

theorem sector_block (hs : d.checkSectorSize = .ok ()) {b sector : Nat} (hlow : b * d.sectorsPerBlock ≤ sector)
    (hhigh : sector < b * d.sectorsPerBlock + d.sectorsPerBlock) : sector * d.sectorSize / blockSize = b := by
  obtain ⟨hpos, hmul⟩ := sector_size hs
  rw [← hmul, Nat.mul_div_mul_right _ _ hpos]
  exact Nat.div_eq_of_lt_le hlow (by rw [Nat.succ_mul]; exact hhigh)

theorem readSector_eq {sector : Nat} (hr : d.faults.unreadable sector = false) (hs : sector < d.sectorCount) :
    d.readSector sector =
      .ok (d.bytes.extract (sector * d.sectorSize) (sector * d.sectorSize + d.sectorSize)) := by
  rw [readSector, hr, if_neg (by decide), if_pos hs]

theorem readSectors_eq (count first : Nat)
    (hr : ∀ sector, first ≤ sector → sector < first + count → d.faults.unreadable sector = false)
    (hc : first + count ≤ d.sectorCount) :
    d.readSectors first count =
      .ok (d.bytes.extract (first * d.sectorSize) ((first + count) * d.sectorSize)) := by
  induction count generalizing first with
  | zero =>
    rw [readSectors, ByteArray.extract_eq_empty_iff.mpr (by simp only [Nat.add_zero]; omega)]
  | succ count ih =>
    rw [readSectors, readSector_eq (hr first (Nat.le_refl _) (by omega)) (by omega),
      ih (first + 1) (fun sector hlow hhigh => hr sector (by omega) (by omega)) (by omega)]
    have hmid : first * d.sectorSize + d.sectorSize = (first + 1) * d.sectorSize := by ring
    have hend : first + 1 + count = first + (count + 1) := by omega
    have hle : (first + 1) * d.sectorSize ≤ (first + (count + 1)) * d.sectorSize :=
      Nat.mul_le_mul_right _ (by omega)
    have hlow : first * d.sectorSize ≤ (first + 1) * d.sectorSize := Nat.mul_le_mul_right _ (by omega)
    rw [hmid, hend]
    change Except.ok _ = _
    rw [ByteArray.extract_append_extract, Nat.min_eq_left hlow, Nat.max_eq_right hle]

theorem readBlock_sturdy (hs : d.checkSectorSize = .ok ()) {b : UInt32} (hb : b.toNat < d.blockCount)
    (hr : ∀ sector, b.toNat * d.sectorsPerBlock ≤ sector → sector < b.toNat * d.sectorsPerBlock + d.sectorsPerBlock →
      d.faults.unreadable sector = false) : d.readBlock b = .ok (d.cell b) := by
  have hsectors := block_sectors hs hb
  have hbytes := block_bytes hb
  have hmul := (sector_size hs).2
  have hstart : b.toNat * d.sectorsPerBlock * d.sectorSize = b.toNat * blockSize := by
    rw [Nat.mul_assoc, hmul]
  have hstop : (b.toNat * d.sectorsPerBlock + d.sectorsPerBlock) * d.sectorSize =
      b.toNat * blockSize + blockSize := by
    rw [Nat.add_mul, hstart, hmul]
  have hsize : (d.bytes.extract (b.toNat * blockSize) (b.toNat * blockSize + blockSize)).size = blockSize := by
    rw [ByteArray.size_extract]
    omega
  rw [readBlock, if_pos hb, readSectors_eq _ _ hr hsectors, hstart, hstop]
  simp only [Block.ofBytes?, hsize, dite_true]
  refine congrArg Except.ok (Block.ext_byte fun i hi => ?_)
  rw [cell, Block.byte_ofFn _ hi, Block.byte, byteAt_extract, if_pos (by omega)]

theorem readBlock_eq (h : d.Sound) {b : UInt32} (hb : b.toNat < d.blockCount) :
    d.readBlock b = .ok (d.cell b) :=
  readBlock_sturdy h.sectors hb fun sector _ _ => h.readable sector

theorem Faults.tried_eq {f : Faults} {sector : Nat} (h : f.fragile sector = false) : f.tried sector = f := by
  rw [Faults.tried, h, if_neg (by decide)]

theorem writeSector_eq {sector : Nat} {data : ByteArray} (hw : d.faults.fragile sector = false)
    (hs : sector < d.sectorCount) (hd : data.size = d.sectorSize) :
    writeSector sector data d = .ok () { d with bytes := overwrite d.bytes (sector * d.sectorSize) data } := by
  obtain ⟨sectorSize, bytes, faults⟩ := d
  have hn : ¬ bytes.size / sectorSize ≤ sector := Nat.not_le_of_lt hs
  simp only at hw
  simp only [writeSector, Faults.refuses, hw, Bool.false_and, Bool.false_eq_true, if_false, hn, hd,
    ne_eq, not_true_eq_false, Faults.tried_eq hw]

theorem writeSectors_eq (count : Nat) (d : Device) (data : ByteArray) (first offset : Nat)
    (hw : ∀ sector, first ≤ sector → sector < first + count → d.faults.fragile sector = false)
    (hc : first + count ≤ d.sectorCount) (hd : offset + count * d.sectorSize ≤ data.size) :
    writeSectors d.sectorSize data first offset count d =
      .ok () { d with
        bytes := overwrite d.bytes (first * d.sectorSize)
          (data.extract offset (offset + count * d.sectorSize)) } := by
  -- The rest is written on the device that the first sector leaves, so that device is generalised too.
  induction count generalizing d first offset with
  | zero =>
    rw [writeSectors, ByteArray.extract_eq_empty_iff.mpr (by simp), overwrite_empty]
    rfl
  | succ count ih =>
    have hsplit : (count + 1) * d.sectorSize = d.sectorSize + count * d.sectorSize := by ring
    have hroom : (first + 1 + count) * d.sectorSize ≤ d.bytes.size :=
      Nat.le_trans (Nat.mul_le_mul_right _ (by omega)) d.sectorCount_mul_le
    have hplace : (first + 1 + count) * d.sectorSize =
        first * d.sectorSize + (d.sectorSize + count * d.sectorSize) := by ring
    have hnext : (first + 1) * d.sectorSize = first * d.sectorSize + d.sectorSize := by ring
    have hhead : (data.extract offset (offset + d.sectorSize)).size = d.sectorSize := by
      rw [ByteArray.size_extract]
      omega
    let d' : Device := { d with
      bytes := overwrite d.bytes (first * d.sectorSize)
        (data.extract offset (offset + d.sectorSize)) }
    have hstep : writeSectors d.sectorSize data first offset (count + 1) d =
        writeSectors d'.sectorSize data (first + 1) (offset + d'.sectorSize) count d' := by
      change (writeSector first _ >>= fun _ => writeSectors d.sectorSize data _ _ count) d = _
      simp only [bind, EStateM.bind]
      rw [writeSector_eq (hw first (Nat.le_refl _) (by omega)) (by omega) hhead]
    have hcount : d'.sectorCount = d.sectorCount := by
      have hsize : d'.bytes.size = d.bytes.size := size_overwrite (by omega)
      simp only [sectorCount, hsize]
      rfl
    rw [hstep, ih d' (first + 1) (offset + d'.sectorSize) (fun sector hlow hhigh => hw sector (by omega) (by omega))
      (by omega) (by simp only [d']; omega)]
    simp only [d']
    rw [hnext, overwrite_extract (by omega) (by omega), ← hsplit]

/-- No sector of the block is fragile. -/
def Sturdy (d : Device) (b : UInt32) : Prop :=
  ∀ sector, b.toNat * d.sectorsPerBlock ≤ sector → sector < b.toNat * d.sectorsPerBlock + d.sectorsPerBlock →
    d.faults.fragile sector = false

theorem FaultFree.sturdy (h : d.FaultFree) (b : UInt32) : d.Sturdy b := fun sector _ _ => h.writable sector

theorem writeBlock_sturdy (hs : d.checkSectorSize = .ok ()) {b : UInt32} (hb : b.toNat < d.blockCount)
    (hw : d.Sturdy b) (block : Block) : writeBlock b block d = .ok () (d.put b block) := by
  have hmul := (sector_size hs).2
  have hstart : b.toNat * d.sectorsPerBlock * d.sectorSize = b.toNat * blockSize := by
    rw [Nat.mul_assoc, hmul]
  have hwhole : block.bytes.extract 0 (0 + d.sectorsPerBlock * d.sectorSize) = block.bytes := by
    rw [hmul, Nat.zero_add, ← block.size_bytes, ByteArray.extract_zero_size]
  rw [writeBlock, if_pos hb]
  simp only [EStateM.adaptExcept]
  rw [writeSectors_eq _ d _ _ _ hw (block_sectors hs hb) (by rw [hmul, block.size_bytes]; omega), hwhole, hstart]
  rfl

theorem writeBlock_eq (h : d.Sound) {b : UInt32} (hb : b.toNat < d.blockCount) (block : Block) :
    writeBlock b block d = .ok () (d.put b block) :=
  writeBlock_sturdy h.sectors hb (h.sturdy b) block

theorem size_put (b : UInt32) (block : Block) (hb : b.toNat < d.blockCount) :
    (d.put b block).bytes.size = d.bytes.size :=
  size_overwrite (by rw [block.size_bytes]; exact block_bytes hb)

theorem blockCount_put {b : UInt32} (block : Block) (hb : b.toNat < d.blockCount) :
    (d.put b block).blockCount = d.blockCount := by
  rw [blockCount, blockCount, size, size, sectorCount, sectorCount, size_put b block hb]
  rfl

theorem Sound.put (h : d.Sound) (b : UInt32) (block : Block) : (d.put b block).Sound :=
  ⟨⟨h.readable, h.writable, h.flushes⟩, h.sectors⟩

theorem byteAt_put {b : UInt32} (block : Block) (hb : b.toNat < d.blockCount) (i : Nat) :
    byteAt (d.put b block).bytes i =
      if b.toNat * blockSize ≤ i ∧ i < b.toNat * blockSize + blockSize then block.byte (i - b.toNat * blockSize)
      else byteAt d.bytes i := by
  have hfit : b.toNat * blockSize + block.bytes.size ≤ d.bytes.size := by
    rw [block.size_bytes]
    exact block_bytes hb
  rw [put, byteAt_overwrite hfit, block.size_bytes]
  rfl

theorem byteAt_put_patch {b : UInt32} {offset : Nat} {data : ByteArray} (hb : b.toNat < d.blockCount)
    (hfit : offset + data.size ≤ blockSize) (k : Nat) :
    byteAt (d.put b ((d.cell b).patch offset data)).bytes k =
      if b.toNat * blockSize + offset ≤ k ∧ k < b.toNat * blockSize + offset + data.size then
        byteAt data (k - (b.toNat * blockSize + offset))
      else byteAt d.bytes k := by
  have hbyte : ∀ j < blockSize, (d.cell b).byte j = byteAt d.bytes (b.toNat * blockSize + j) :=
    fun j hj => byte_cell d b hj
  rw [byteAt_put _ hb, Block.byte_patch _ hfit]
  generalize b.toNat * blockSize = start at hbyte ⊢
  by_cases hblock : start ≤ k ∧ k < start + blockSize
  · rw [if_pos hblock, hbyte (k - start) (by omega), Nat.add_sub_cancel' hblock.1, Nat.sub_sub]
    by_cases hpatch : start + offset ≤ k ∧ k < start + offset + data.size
    · rw [if_pos hpatch, if_pos (by omega)]
    · rw [if_neg hpatch, if_neg (by omega)]
  · rw [if_neg hblock, if_neg (by omega)]

theorem cell_put {b : UInt32} (block : Block) (hb : b.toNat < d.blockCount) (x : UInt32) :
    (d.put b block).cell x = if x = b then block else d.cell x := by
  apply Block.ext_byte
  intro i hi
  rw [Block.byte, byte_cell _ x hi, byteAt_put block hb]
  by_cases hx : x = b
  · subst hx
    rw [if_pos rfl, if_pos ⟨Nat.le_add_right _ _, Nat.add_lt_add_left hi _⟩, Nat.add_sub_cancel_left]
  · have hne : x.toNat ≠ b.toNat := fun he => hx (UInt32.toNat_inj.mp he)
    have hout : ¬ (b.toNat * blockSize ≤ x.toNat * blockSize + i ∧
        x.toNat * blockSize + i < b.toNat * blockSize + blockSize) := by
      simp only [blockSize] at hi ⊢
      omega
    rw [if_neg hx, if_neg hout, Block.byte, byte_cell _ x hi]

theorem put_faults (d : Device) (f : Faults) (b : UInt32) (block : Block) :
    put { d with faults := f } b block = { d.put b block with faults := f } := rfl

theorem sectorSize_put (d : Device) (b : UInt32) (block : Block) : (d.put b block).sectorSize = d.sectorSize := rfl

attribute [irreducible] put

end Device

end ImageFS
