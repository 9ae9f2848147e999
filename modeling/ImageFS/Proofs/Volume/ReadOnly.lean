import ImageFS.Proofs.Volume.Allocation
import ImageFS.Proofs.Volume.Marking
import ImageFS.Proofs.Volume.Table

/-!
# Devices that refuse all writes

Reads go on as before on a device that has become read-only, and no write changes it. What is left of
giving back a block is its mark in memory.
-/

set_option autoImplicit false

namespace ImageFS

structure Faults.ReadOnly (f : Faults) : Prop where
  readable : ∀ sector, f.unreadable sector = false
  fragile : ∀ sector, f.fragile sector = true
  fails : ∀ attempt, f.fails attempt = true

theorem Faults.ReadOnly.tried {f : Faults} (h : f.ReadOnly) (sector : Nat) : (f.tried sector).ReadOnly := by
  rw [Faults.tried, if_pos (h.fragile sector)]
  exact ⟨h.readable, h.fragile, h.fails⟩

theorem Faults.ReadOnly.refuses {f : Faults} (h : f.ReadOnly) (sector : Nat) : f.refuses sector = true := by
  rw [Faults.refuses, h.fragile, h.fails]
  rfl

namespace Device

variable {d d' : Device}

theorem readSectors_congr (bytes : d'.bytes = d.bytes) (sectorSize : d'.sectorSize = d.sectorSize)
    (h : ∀ sector, d.faults.unreadable sector = false) (h' : ∀ sector, d'.faults.unreadable sector = false)
    (count first : Nat) : d'.readSectors first count = d.readSectors first count := by
  induction count generalizing first with
  | zero => rfl
  | succ count ih =>
    have hhead : d'.readSector first = d.readSector first := by
      rw [readSector, readSector, sectorCount, sectorCount, bytes, sectorSize, h, h']
    rw [readSectors, readSectors, hhead, ih]

theorem readBlock_congr (bytes : d'.bytes = d.bytes) (sectorSize : d'.sectorSize = d.sectorSize)
    (h : ∀ sector, d.faults.unreadable sector = false) (h' : ∀ sector, d'.faults.unreadable sector = false)
    (b : UInt32) : d'.readBlock b = d.readBlock b := by
  have hsectors := readSectors_congr bytes sectorSize h h'
  have hcount : d'.blockCount = d.blockCount := by
    rw [blockCount, blockCount, size, size, sectorCount, sectorCount, bytes, sectorSize]
  rw [readBlock, readBlock, hcount, sectorsPerBlock, sectorsPerBlock, sectorSize, hsectors]

theorem writeSector_refused {sector : Nat} (h : d.faults.refuses sector = true) (data : ByteArray) :
    writeSector sector data d = .error (.broken sector) { d with faults := d.faults.tried sector } := by
  obtain ⟨sectorSize, bytes, faults⟩ := d
  simp only [writeSector, if_pos h]

theorem writeBlock_refused (hs : d.checkSectorSize = .ok ()) {b : UInt32} (hb : b.toNat < d.blockCount)
    (h : d.faults.refuses (b.toNat * d.sectorsPerBlock) = true) (block : Block) :
    ∃ sector, writeBlock b block d =
      .error (.device (.broken sector)) { d with faults := d.faults.tried sector } := by
  have hsectors : 0 < d.sectorsPerBlock := Nat.pos_of_ne_zero fun hz => by
    have hmul := (sector_size hs).2
    rw [hz, Nat.zero_mul] at hmul
    cases hmul
  obtain ⟨count, hcount⟩ := Nat.exists_eq_succ_of_ne_zero (Nat.ne_of_gt hsectors)
  refine ⟨b.toNat * d.sectorsPerBlock, ?_⟩
  rw [hcount] at h
  rw [writeBlock, if_pos hb]
  simp only [EStateM.adaptExcept, hcount, writeSectors, bind_of_error (writeSector_refused h _)]

end Device

namespace Volume

def withFaults (v : Volume) (f : Faults) : Volume := { v with device := { v.device with faults := f } }

variable {v w : Volume} {f : Faults}

theorem superblock_withFaults (v : Volume) (f : Faults) : (v.withFaults f).superblock = v.superblock := rfl

theorem Sound.withFaults (hv : v.Sound) (hf : (v.withFaults f).device.FaultFree) : (v.withFaults f).Sound :=
  ⟨⟨hf, hv.device.sectors⟩, hv.fits, hv.room, hv.guarded⟩

theorem readBlock_withFaults (hv : v.Sound) (hf : f.ReadOnly) (b : UInt32) :
    (v.withFaults f).readBlock b = v.readBlock b := by
  have hbytes : (v.withFaults f).device.bytes = v.device.bytes := rfl
  exact Device.readBlock_congr hbytes rfl hv.device.readable hf.readable b

theorem writeBlock_refused (hv : v.Sound) (hf : f.ReadOnly) (m : FreeMap) {b : UInt32}
    (hb : b.toNat < v.freeMap.blockCount.toNat) (block : Block) :
    ∃ sector f', f'.ReadOnly ∧ writeBlock b block { v.withFaults f with freeMap := m } =
      .error (.device (.broken sector)) { v.withFaults f' with freeMap := m } := by
  obtain ⟨sector, hrun⟩ := Device.writeBlock_refused (d := { v.device with faults := f }) hv.device.sectors
    (hv.in_range hb) (hf.refuses _) block
  refine ⟨sector, f.tried sector, hf.tried sector, ?_⟩
  simp only [writeBlock, withFaults, hrun]

theorem free_refused (hv : v.Sound) (hf : f.ReadOnly) {b : UInt32} (hb : v.IsData b) :
    ∃ sector f', f'.ReadOnly ∧ free b (v.withFaults f) =
      .error (.device (.broken sector)) { v.withFaults f' with freeMap := v.freeMap.markFree b.toNat } := by
  obtain ⟨sector, f', hf', hrun⟩ := writeBlock_refused hv hf (v.freeMap.markFree b.toNat) (home_in_range hb.1 hb.2)
    ((v.freeMap.markFree b.toNat).part b.toNat)
  exact ⟨sector, f', hf', (free_of_data (v := v.withFaults f) hb.range).trans hrun⟩

theorem updateBlock_refused (hv : v.Sound) (hf : f.ReadOnly) (m : FreeMap) {b : UInt32}
    (hb : b.toNat < v.freeMap.blockCount.toNat) (change : Block → Block) :
    ∃ sector f', f'.ReadOnly ∧ updateBlock b change { v.withFaults f with freeMap := m } =
      .error (.device (.broken sector)) { v.withFaults f' with freeMap := m } := by
  have hread : readBlock { v.withFaults f with freeMap := m } b = .ok (v.cell b) :=
    (readBlock_withFaults hv hf b).trans (readBlock_eq hv hb)
  obtain ⟨sector, f', hf', hwrite⟩ := writeBlock_refused hv hf m hb (change (v.cell b))
  exact ⟨sector, f', hf', (bind_of_ok (ask_of_ok hread)).trans hwrite⟩

theorem writeInode_refused (l : v.LaidOut) (hv : v.Sound) (hf : f.ReadOnly) (m : FreeMap) {i : Inode}
    (h : i.id.toNat < v.superblock.inodeCount.toNat) :
    ∃ sector f', f'.ReadOnly ∧ writeInode i { v.withFaults f with freeMap := m } =
      .error (.device (.broken sector)) { v.withFaults f' with freeMap := m } := by
  have hcheck : checkInode { v.withFaults f with freeMap := m } i.id = .ok () :=
    if_neg (by rw [UInt32.le_iff_toNat_le]; exact Nat.not_le_of_lt h)
  obtain ⟨sector, f', hf', hwrite⟩ := updateBlock_refused hv hf m (l.inodeBlock_in_range hv h)
    (·.patch (inodeOffset i.id) i.encode)
  exact ⟨sector, f', hf', (bind_of_ok (ask_of_ok hcheck)).trans hwrite⟩

end Volume

end ImageFS
