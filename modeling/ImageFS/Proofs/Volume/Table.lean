import ImageFS.Proofs.Volume.Records

/-!
# The inode table

Between the free map and the data blocks lie the records of the inodes. Every record of a laid-out
volume can be read; writing one replaces it and changes no other block. The number handed out for a new
inode is the lowest one whose record is free.
-/

set_option autoImplicit false

namespace ImageFS.Volume

/-- The inode table fills the blocks between the free map and the data. -/
structure Arranged (v : Volume) : Prop where
  table : v.superblock.firstInodeBlock.toNat =
    firstMapBlock.toNat + (Superblock.mapBlocksFor v.freeMap.blockCount).toNat
  firstData : v.freeMap.firstData.toNat =
    v.superblock.firstInodeBlock.toNat + ceilDiv v.superblock.inodeCount.toNat inodesPerBlock
  inodes : 2 < v.superblock.inodeCount.toNat
  superblock : v.superblock = .plan v.freeMap.blockCount v.superblock.inodeCount

structure LaidOut (v : Volume) : Prop extends Arranged v where
  recorded : v.cell superblockBlock = v.superblock.block

variable {v w : Volume} {ino other : UInt32}

theorem toNat_plan (count inodes : UInt32) :
    (Superblock.plan count inodes).firstInodeBlock.toNat =
        firstMapBlock.toNat + (Superblock.mapBlocksFor count).toNat ∧
      (Superblock.plan count inodes).firstDataBlock.toNat =
        (Superblock.plan count inodes).firstInodeBlock.toNat + ceilDiv inodes.toNat inodesPerBlock := by
  have hcount := count.toNat_lt
  have hinodes := inodes.toNat_lt
  have hmap := toNat_mapBlocksFor count
  have htwo : firstMapBlock.toNat = 2 := rfl
  have hfirst : (Superblock.plan count inodes).firstInodeBlock.toNat =
      firstMapBlock.toNat + (Superblock.mapBlocksFor count).toNat := by
    rw [Superblock.plan, UInt32.toNat_add]
    simp only [hmap, htwo, ceilDiv, bitsPerBlock]
    omega
  have htable : (Superblock.plan count inodes).inodeBlocks.toNat = ceilDiv inodes.toNat inodesPerBlock :=
    Superblock.toNat_inodeBlocks _
  refine ⟨hfirst, ?_⟩
  rw [Superblock.firstDataBlock, UInt32.toNat_add, htable, hfirst]
  simp only [hmap, htwo, ceilDiv, bitsPerBlock, inodesPerBlock]
  omega

theorem Arranged.map_le (l : v.Arranged) :
    firstMapBlock.toNat + (Superblock.mapBlocksFor v.freeMap.blockCount).toNat ≤ v.freeMap.firstData.toNat := by
  have := l.table
  have := l.firstData
  omega

theorem Arranged.dataStart_eq (l : v.Arranged) : v.dataStart = v.freeMap.firstData.toNat := Nat.max_eq_left l.map_le

theorem Arranged.blockCount_eq (l : v.Arranged) : v.superblock.blockCount = v.freeMap.blockCount := by
  rw [l.superblock]
  rfl

theorem Arranged.magic_eq (l : v.Arranged) : v.superblock.magic = superblockMagic := by
  rw [l.superblock]
  rfl

theorem Arranged.firstData_eq (l : v.Arranged) : v.superblock.firstDataBlock = v.freeMap.firstData := by
  have hplan := (toNat_plan v.freeMap.blockCount v.superblock.inodeCount).2
  rw [← l.superblock] at hplan
  exact UInt32.toNat_inj.mp (hplan.trans l.firstData.symm)

theorem Arranged.isData_iff (l : v.Arranged) {b : UInt32} :
    v.IsData b ↔ v.superblock.firstDataBlock ≤ b ∧ b < v.superblock.blockCount := by
  rw [IsData, l.dataStart_eq, UInt32.le_iff_toNat_le, UInt32.lt_iff_toNat_lt, l.firstData_eq, l.blockCount_eq]

theorem Arranged.tableEnd_eq (l : v.Arranged) : v.superblock.tableEnd = v.freeMap.firstData.toNat := l.firstData.symm

theorem Arranged.toNat_inodeBlock (l : v.Arranged) (h : ino.toNat < v.superblock.inodeCount.toNat) :
    (v.inodeBlock ino).toNat = v.superblock.firstInodeBlock.toNat + ino.toNat / 16 ∧
      (v.inodeBlock ino).toNat < v.freeMap.firstData.toNat := by
  have hexact : v.superblock.tableEnd < UInt32.size := by
    rw [l.tableEnd_eq]
    exact v.freeMap.firstData.toNat_lt
  have hsum := toNat_inodeBlock_of_tableEnd hexact h
  refine ⟨hsum, ?_⟩
  rw [hsum, ← l.tableEnd_eq, Superblock.tableEnd, ceilDiv]
  simp only [inodesPerBlock]
  omega

theorem Arranged.inodeBlock_in_range (l : v.Arranged) (hv : v.Sound) (h : ino.toNat < v.superblock.inodeCount.toNat) :
    (v.inodeBlock ino).toNat < v.freeMap.blockCount.toNat :=
  Nat.lt_of_lt_of_le (l.toNat_inodeBlock h).2 hv.room

theorem Arranged.in_range (l : v.Arranged) (hv : v.Sound) {b : UInt32}
    (hb : b.toNat < firstMapBlock.toNat + (Superblock.mapBlocksFor v.freeMap.blockCount).toNat) :
    b.toNat < v.freeMap.blockCount.toNat :=
  Nat.lt_of_lt_of_le hb (Nat.le_trans l.map_le hv.room)

theorem Arranged.home_in_range (l : v.Arranged) (hv : v.Sound) {b : Nat} (hb : b < v.freeMap.blockCount.toNat) :
    (FreeMap.home b).toNat < v.freeMap.blockCount.toNat :=
  l.in_range hv (inMap_home hb).2

theorem Arranged.not_inMap (l : v.Arranged) (h : ino.toNat < v.superblock.inodeCount.toNat) :
    ¬ v.InMap (v.inodeBlock ino) := by
  intro hm
  have := hm.2
  have := (l.toNat_inodeBlock h).1
  have := l.table
  omega

theorem Arranged.not_isData (l : v.Arranged) (h : ino.toNat < v.superblock.inodeCount.toNat) :
    ¬ v.IsData (v.inodeBlock ino) := by
  intro hd
  have := hd.firstData_le
  have := (l.toNat_inodeBlock h).2
  omega

theorem Arranged.tabled (l : v.Arranged) (hv : v.Sound) : v.Tabled where
  device := hv.device
  inside := by
    rw [l.tableEnd_eq]
    exact Nat.le_trans hv.room hv.fits

theorem readInode_eq (l : v.Arranged) (hv : v.Sound) (h : ino.toNat < v.superblock.inodeCount.toNat) :
    v.readInode ino = v.record ino :=
  (l.tabled hv).readInode_eq h

theorem writeInode_eq (l : v.Arranged) (hv : v.Sound) {i : Inode} (h : i.id.toNat < v.superblock.inodeCount.toNat) :
    writeInode i v = .ok () (v.putInode i) :=
  (l.tabled hv).writeInode_eq h

section

variable (l : v.Arranged) (hv : v.Sound) {i : Inode} (h : i.id.toNat < v.superblock.inodeCount.toNat)

include l hv h

theorem evolves_putInode : Evolves v (v.putInode i) :=
  hv.evolves_put (l.inodeBlock_in_range hv h) (l.not_inMap h) _

theorem cell_putInode (x : UInt32) : (v.putInode i).cell x =
    if x = v.inodeBlock i.id then (v.cell (v.inodeBlock i.id)).patch (inodeOffset i.id) i.encode else v.cell x :=
  (l.tabled hv).cell_putInode h x

theorem record_putInode (hfits : Inode.Fits i.body) (other : UInt32) :
    (v.putInode i).record other = if other = i.id then .ok i else v.record other :=
  (l.tabled hv).record_putInode h hfits other

end

theorem record_congr (superblock : w.superblock = v.superblock) (h : w.cell (v.inodeBlock ino) = v.cell (v.inodeBlock ino)) :
    w.record ino = v.record ino := by
  have hhome : w.inodeBlock ino = v.inodeBlock ino := by rw [inodeBlock, inodeBlock, superblock]
  rw [record, record, hhome, h]

theorem Arranged.evolves (l : v.Arranged) (e : Evolves v w) : w.Arranged where
  table := by rw [e.superblock, e.count, l.table]
  firstData := by rw [e.first, e.superblock, l.firstData]
  inodes := by
    rw [e.superblock]
    exact l.inodes
  superblock := by
    rw [e.superblock, e.count]
    exact l.superblock

theorem LaidOut.evolves (l : v.LaidOut) (e : Evolves v w) (h : w.cell superblockBlock = v.cell superblockBlock) :
    w.LaidOut where
  toArranged := l.toArranged.evolves e
  recorded := by rw [h, e.superblock, l.recorded]

end ImageFS.Volume
