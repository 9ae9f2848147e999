import ImageFS.Proofs.Action
import ImageFS.Proofs.Device.Cells
import ImageFS.Proofs.FreeMap.Bits

/-!
# Sound volumes

A volume is sound when its device is, all its blocks are on the device, and its map has no block of
the metadata as free. On a sound volume blocks are taken, given back, read and written
without failures other than a lack of space, and each of these steps leaves a sound volume.
-/

set_option autoImplicit false

namespace ImageFS.Volume

/-- The contents of a block of the volume. -/
def cell (v : Volume) : Memory := v.device.cell

def put (v : Volume) (b : UInt32) (block : Block) : Volume := { v with device := v.device.put b block }

def InMap (v : Volume) (b : UInt32) : Prop :=
  firstMapBlock.toNat ≤ b.toNat ∧
    b.toNat < firstMapBlock.toNat + (Superblock.mapBlocksFor v.freeMap.blockCount).toNat

/-- The first block behind the metadata, to which the blocks in front of the data belong and those of the
map, wherever the superblock has the data begin. -/
def dataStart (v : Volume) : Nat :=
  max v.freeMap.firstData.toNat (firstMapBlock.toNat + (Superblock.mapBlocksFor v.freeMap.blockCount).toNat)

def IsData (v : Volume) (b : UInt32) : Prop := v.dataStart ≤ b.toNat ∧ b.toNat < v.freeMap.blockCount.toNat

def Busy (v : Volume) (b : UInt32) : Prop := v.freeMap.bit b.toNat = false

structure Sound (v : Volume) : Prop where
  device : v.device.Sound
  fits : v.freeMap.blockCount.toNat ≤ v.device.blockCount
  room : v.freeMap.firstData.toNat ≤ v.freeMap.blockCount.toNat
  guarded : ∀ b < v.dataStart, v.freeMap.isFree b = false

/-- The device holds the free map as it is in memory. -/
def Synced (v : Volume) : Prop :=
  ∀ b < v.freeMap.blockCount.toNat, v.cell (FreeMap.home b) = v.freeMap.part b

/-- A sound volume that has come from another one, with the same layout. -/
structure Evolves (v w : Volume) : Prop where
  sound : w.Sound
  superblock : w.superblock = v.superblock
  count : w.freeMap.blockCount = v.freeMap.blockCount
  first : w.freeMap.firstData = v.freeMap.firstData
  synced : v.Synced → w.Synced

variable {v w u : Volume}

theorem Evolves.refl (h : v.Sound) : Evolves v v := ⟨h, rfl, rfl, rfl, id⟩

theorem Evolves.trans (h : Evolves v w) (h' : Evolves w u) : Evolves v u :=
  ⟨h'.sound, h'.superblock.trans h.superblock, h'.count.trans h.count, h'.first.trans h.first,
    fun s => h'.synced (h.synced s)⟩

theorem Evolves.inMap_iff (h : Evolves v w) (b : UInt32) : w.InMap b ↔ v.InMap b := by
  unfold InMap
  rw [h.count]

theorem firstData_le_dataStart (v : Volume) : v.freeMap.firstData.toNat ≤ v.dataStart := Nat.le_max_left _ _

theorem map_le_dataStart (v : Volume) :
    firstMapBlock.toNat + (Superblock.mapBlocksFor v.freeMap.blockCount).toNat ≤ v.dataStart :=
  Nat.le_max_right _ _

theorem IsData.firstData_le {b : UInt32} (hb : v.IsData b) : v.freeMap.firstData.toNat ≤ b.toNat :=
  Nat.le_trans v.firstData_le_dataStart hb.1

theorem IsData.range {b : UInt32} (hb : v.IsData b) : v.freeMap.firstData ≤ b ∧ b < v.freeMap.blockCount :=
  ⟨UInt32.le_iff_toNat_le.mpr hb.firstData_le, UInt32.lt_iff_toNat_lt.mpr hb.2⟩

theorem Evolves.dataStart_eq (h : Evolves v w) : w.dataStart = v.dataStart := by
  rw [dataStart, dataStart, h.count, h.first]

theorem Evolves.isData_iff (h : Evolves v w) (b : UInt32) : w.IsData b ↔ v.IsData b := by
  unfold IsData
  rw [h.dataStart_eq, h.count]

theorem IsData.not_inMap {b : UInt32} (hb : v.IsData b) : ¬ v.InMap b := by
  intro hm
  have := v.map_le_dataStart
  have := hm.2
  have := hb.1
  omega

theorem IsData.ne_null {b : UInt32} (hb : v.IsData b) : b ≠ nullPointer := by
  intro hz
  have := v.map_le_dataStart
  have := hb.1
  have hzero : b.toNat = 0 := by
    rw [hz]
    rfl
  have hfirst : firstMapBlock.toNat = 2 := rfl
  omega

theorem Sound.busy_of_lt (h : v.Sound) {b : Nat} (hb : b < v.freeMap.firstData.toNat) : v.freeMap.bit b = false := by
  have hfree := h.guarded b (Nat.lt_of_lt_of_le hb v.firstData_le_dataStart)
  rwa [FreeMap.isFree_eq_bit _ (Nat.lt_of_lt_of_le hb h.room)] at hfree

theorem Sound.in_range (h : v.Sound) {b : UInt32} (hb : b.toNat < v.freeMap.blockCount.toNat) :
    b.toNat < v.device.blockCount :=
  Nat.lt_of_lt_of_le hb h.fits

theorem readBlock_eq (h : v.Sound) {b : UInt32} (hb : b.toNat < v.freeMap.blockCount.toNat) :
    v.readBlock b = .ok (v.cell b) :=
  Device.readBlock_eq h.device (h.in_range hb)

theorem writeBlock_sturdy (hs : v.device.checkSectorSize = .ok ()) {b : UInt32} (hb : b.toNat < v.device.blockCount)
    (hw : v.device.Sturdy b) (block : Block) : writeBlock b block v = .ok () (v.put b block) := by
  obtain ⟨device, superblock, freeMap⟩ := v
  simp only [writeBlock, Device.writeBlock_sturdy hs hb hw]
  rfl

theorem writeBlock_device (h : v.device.Sound) {b : UInt32} (hb : b.toNat < v.device.blockCount) (block : Block) :
    writeBlock b block v = .ok () (v.put b block) :=
  writeBlock_sturdy h.sectors hb (h.sturdy b) block

theorem writeBlock_eq (h : v.Sound) {b : UInt32} (hb : b.toNat < v.freeMap.blockCount.toNat) (block : Block) :
    writeBlock b block v = .ok () (v.put b block) :=
  writeBlock_device h.device (h.in_range hb) block

theorem updateBlock_device (h : v.device.Sound) {b : UInt32} (hb : b.toNat < v.device.blockCount) (f : Block → Block) :
    updateBlock b f v = .ok () (v.put b (f (v.cell b))) := by
  have hread : v.readBlock b = .ok (v.cell b) := Device.readBlock_eq h hb
  rw [updateBlock, bind_of_ok (ask_of_ok hread), writeBlock_device h hb]

theorem updateBlock_eq (h : v.Sound) {b : UInt32} (hb : b.toNat < v.freeMap.blockCount.toNat) (f : Block → Block) :
    updateBlock b f v = .ok () (v.put b (f (v.cell b))) :=
  updateBlock_device h.device (h.in_range hb) f

theorem readPointer_eq (h : v.Sound) {b : UInt32} (hb : b.toNat < v.freeMap.blockCount.toNat) {slot : Nat}
    (hs : slot < pointersPerBlock) : v.readPointer b slot = .ok ((v.cell b).pointer slot) := by
  rw [readPointer, checkPointerSlot, if_neg (Nat.not_le_of_lt hs), readBlock_eq h hb]
  rfl

theorem writePointer_eq (h : v.Sound) {b : UInt32} (hb : b.toNat < v.freeMap.blockCount.toNat) {slot : Nat}
    (hs : slot < pointersPerBlock) (target : UInt32) :
    writePointer b slot target v = .ok () (v.put b ((v.cell b).setPointer slot target)) := by
  have hcheck : ask (fun _ => checkPointerSlot slot) v = .ok () v := by
    apply ask_of_ok
    rw [checkPointerSlot, if_neg (Nat.not_le_of_lt hs)]
  rw [writePointer, bind_of_ok hcheck, updateBlock_eq h hb]

@[simp] theorem freeMap_put (b : UInt32) (block : Block) : (v.put b block).freeMap = v.freeMap := rfl

theorem cell_put (h : v.Sound) {b : UInt32} (hb : b.toNat < v.freeMap.blockCount.toNat) (block : Block) (x : UInt32) :
    (v.put b block).cell x = if x = b then block else v.cell x :=
  Device.cell_put block (h.in_range hb) x

theorem Sound.put_device (h : v.Sound) {b : UInt32} (hb : b.toNat < v.device.blockCount) (block : Block) :
    (v.put b block).Sound where
  device := h.device.put b block
  fits := by
    change _ ≤ (v.device.put b block).blockCount
    rw [Device.blockCount_put block hb]
    exact h.fits
  room := h.room
  guarded := h.guarded

theorem Sound.put (h : v.Sound) {b : UInt32} (hb : b.toNat < v.freeMap.blockCount.toNat) (block : Block) :
    (v.put b block).Sound :=
  h.put_device (h.in_range hb) block

theorem toNat_home {b : Nat} (hb : b < UInt32.size) :
    (FreeMap.home b).toNat = firstMapBlock.toNat + b / bitsPerBlock := by
  have hfirst : firstMapBlock.toNat = 2 := rfl
  rw [FreeMap.home, UInt32.toNat_add, UInt32.toNat_ofNat', hfirst]
  simp only [UInt32.size, bitsPerBlock] at hb ⊢
  omega

theorem inMap_home {b : Nat} (hb : b < v.freeMap.blockCount.toNat) : v.InMap (FreeMap.home b) := by
  have hpart := v.freeMap.part_lt hb
  rw [InMap, toNat_home (Nat.lt_trans hb v.freeMap.blockCount.toNat_lt)]
  exact ⟨Nat.le_add_right _ _, Nat.add_lt_add_left hpart _⟩

theorem toNat_mapBlocksFor (count : UInt32) :
    (Superblock.mapBlocksFor count).toNat = ceilDiv count.toNat bitsPerBlock := by
  have := count.toNat_lt
  apply UInt32.toNat_ofNat_of_lt'
  simp only [ceilDiv, bitsPerBlock, UInt32.size]
  omega

theorem inMap_add {i : Nat} (hi : i < (Superblock.mapBlocksFor v.freeMap.blockCount).toNat) :
    v.InMap (firstMapBlock + .ofNat i) := by
  rw [toNat_mapBlocksFor] at hi
  have hb : i * bitsPerBlock < v.freeMap.blockCount.toNat := by
    simp only [ceilDiv, bitsPerBlock] at *
    omega
  have hhome := inMap_home hb
  rwa [FreeMap.home, Nat.mul_div_cancel i (show 0 < bitsPerBlock by decide)] at hhome

theorem Sound.evolves_put (h : v.Sound) {b : UInt32} (hb : b.toNat < v.freeMap.blockCount.toNat)
    (hm : ¬ v.InMap b) (block : Block) : Evolves v (v.put b block) where
  sound := h.put hb block
  superblock := rfl
  count := rfl
  first := rfl
  synced hs i hi := by
    have hne : FreeMap.home i ≠ b := fun he => hm (he ▸ inMap_home hi)
    rw [cell_put h hb, if_neg hne]
    exact hs i hi

theorem Sound.evolves_put_data (h : v.Sound) {b : UInt32} (hb : v.IsData b) (block : Block) :
    Evolves v (v.put b block) :=
  h.evolves_put hb.2 hb.not_inMap block

end ImageFS.Volume
