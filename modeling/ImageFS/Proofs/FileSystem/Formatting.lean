import ImageFS.Proofs.FileSystem.Consistent
import ImageFS.Proofs.Volume.Filling

/-!
# New file systems

Formatting a device without faults gives a consistent file system, whatever the device held before: the
root is empty and all other inodes are free.
-/

set_option autoImplicit false

namespace ImageFS.Volume

variable {v w : Volume}

variable {device d : Device} {inodes : UInt32}

theorem blueprint_eq (h : blueprint device inodes = .ok v) :
    device.checkSectorSize = .ok () ∧ device.blockCount < UInt32.size ∧ 2 < inodes.toNat ∧
      v.superblock.firstDataBlock.toNat < v.superblock.blockCount.toNat ∧
      v = ⟨device, .plan (.ofNat device.blockCount) inodes, .fresh (.plan (.ofNat device.blockCount) inodes)⟩ := by
  unfold blueprint at h
  cases hs : device.checkSectorSize with
  | error e =>
    rw [hs] at h
    cases h
  | ok u =>
    rw [hs] at h
    simp only [bind, Except.bind, pure, Except.pure, throw, throwThe, MonadExceptOf.throw] at h
    split_ifs at h with hblocks hinodes hroom
    rw [UInt32.le_iff_toNat_le] at hroom hinodes
    have htwo : (rootInode + 1).toNat = 2 := rfl
    cases h
    exact ⟨rfl, Nat.lt_of_not_le hblocks, by omega, Nat.lt_of_not_le hroom, rfl⟩

theorem blueprint_congr {d' : Device} (check : d'.checkSectorSize = d.checkSectorSize)
    (blocks : d'.blockCount = d.blockCount) (inodes : UInt32) :
    blueprint d' inodes = (blueprint d inodes).map fun v => { v with device := d' } := by
  rw [blueprint, blueprint, check, blocks]
  cases d.checkSectorSize with
  | error e => rfl
  | ok _ =>
    simp only [ok_bind]
    split_ifs <;> rfl

theorem guarded_fresh {s : Superblock} (hroom : s.firstDataBlock.toNat < s.blockCount.toNat) :
    ∀ b < s.firstDataBlock.toNat, (FreeMap.fresh s).bit b = false := by
  intro b hb
  rw [← FreeMap.isFree_eq_bit _ (Nat.lt_trans hb hroom), FreeMap.isFree_fresh, decide_eq_false_iff_not]
  omega

/-- The volume before anything is written. -/
structure Planned (device : Device) (inodes : UInt32) (v : Volume) : Prop where
  sound : v.Sound
  count : v.freeMap.blockCount = .ofNat device.blockCount
  superblock : v.superblock = .plan v.freeMap.blockCount inodes
  map : v.freeMap = .fresh v.superblock
  room : v.superblock.firstDataBlock.toNat < v.superblock.blockCount.toNat
  inodes : 2 < inodes.toNat

theorem blueprint_planned (hd : device.FaultFree) (h : blueprint device inodes = .ok v) : Planned device inodes v := by
  obtain ⟨hs, hblocks, hinodes, hroom, rfl⟩ := blueprint_eq h
  have hcount : (UInt32.ofNat device.blockCount).toNat = device.blockCount := UInt32.toNat_ofNat_of_lt' hblocks
  exact ⟨sound_fresh ⟨hd, hs⟩ (Nat.le_of_eq hcount) hroom, rfl, rfl, rfl, hroom, hinodes⟩

theorem Planned.counts (p : Planned device inodes v) :
    v.superblock.blockCount = v.freeMap.blockCount ∧ v.superblock.inodeCount = inodes := by
  have := p.superblock
  exact ⟨by rw [this]; rfl, by rw [this]; rfl⟩

theorem Planned.bounds (p : Planned device inodes v) :
    v.superblock.firstInodeBlock.toNat =
        firstMapBlock.toNat + (Superblock.mapBlocksFor v.freeMap.blockCount).toNat ∧
      v.freeMap.firstData.toNat =
        v.superblock.firstInodeBlock.toNat + ceilDiv v.superblock.inodeCount.toNat inodesPerBlock := by
  obtain ⟨hfirst, hdata⟩ := toNat_plan v.freeMap.blockCount inodes
  rw [← p.superblock] at hfirst hdata
  have hmap : v.freeMap.firstData = v.superblock.firstDataBlock := by
    rw [p.map]
    rfl
  exact ⟨hfirst, by rw [hmap, hdata, p.counts.2]⟩

theorem Planned.free (p : Planned device inodes v) {b : UInt32} (h : v.IsData b) : v.freeMap.bit b.toNat = true := by
  have hlow := h.firstData_le
  have hhigh := h.2
  rw [← FreeMap.isFree_eq_bit _ hhigh]
  rw [p.map] at hlow hhigh ⊢
  rw [FreeMap.isFree_fresh, decide_eq_true_eq]
  exact ⟨hlow, hhigh⟩

theorem Planned.map_le (p : Planned device inodes v) :
    firstMapBlock.toNat + (Superblock.mapBlocksFor v.freeMap.blockCount).toNat ≤ v.freeMap.firstData.toNat := by
  obtain ⟨hfirst, hdata⟩ := p.bounds
  omega

theorem Planned.toNat_table (p : Planned device inodes v) {k : Nat}
    (hk : k < ceilDiv v.superblock.inodeCount.toNat inodesPerBlock) :
    (v.superblock.firstInodeBlock + .ofNat k).toNat = v.superblock.firstInodeBlock.toNat + k := by
  have hlimit : v.freeMap.blockCount.toNat < UInt32.size := v.freeMap.blockCount.toNat_lt
  have hdata := p.bounds.2
  have hroom := p.sound.room
  exact toNat_offset (by omega)

section

variable (p : Planned device inodes v) (hw : w.Sound) (map : w.freeMap = v.freeMap)

include p hw map

theorem writeTable_ok :
    ∃ u, (List.range v.superblock.inodeBlocks.toNat).forM
        (fun k => writeBlock (v.superblock.firstInodeBlock + .ofNat k) .zero) w = .ok () u ∧
      Filled w (List.range (ceilDiv v.superblock.inodeCount.toNat inodesPerBlock))
        (fun k => v.superblock.firstInodeBlock + .ofNat k) (fun _ => .zero) u := by
  have hdata := p.bounds.2
  have hroom := p.sound.room
  rw [Superblock.toNat_inodeBlocks]
  apply writeBlocks_ok hw
  · intro k hk
    have hk := List.mem_range.mp hk
    rw [p.toNat_table hk, map]
    omega
  · exact fun _ _ _ _ _ => rfl

end

/-- All blocks of the metadata are written, those of the table with zeros. -/
structure Written (v u : Volume) : Prop where
  sound : u.Sound
  superblock : u.superblock = v.superblock
  map : u.freeMap = v.freeMap
  recorded : u.cell superblockBlock = v.superblock.block
  parts : ∀ i < (Superblock.mapBlocksFor v.freeMap.blockCount).toNat,
    u.cell (firstMapBlock + .ofNat i) = v.freeMap.part (i * bitsPerBlock)
  table : ∀ k < ceilDiv v.superblock.inodeCount.toNat inodesPerBlock,
    u.cell (v.superblock.firstInodeBlock + .ofNat k) = .zero

theorem layOut_eq (p : Planned device inodes v) :
    ∃ u, Written v u ∧ layOut v = (do
      writeInode (.directory rootInode rootMode)
      ask fun v => v.device.flush.mapError .device : VolumeM Unit) u := by
  obtain ⟨hfirst, hdata⟩ := p.bounds
  have htwo : firstMapBlock.toNat = 2 := rfl
  have hroom := p.sound.room
  have hboot : bootBlock.toNat < v.freeMap.blockCount.toNat := by
    change 0 < _
    omega
  have hsuper : superblockBlock.toNat < v.freeMap.blockCount.toNat := by
    change 1 < _
    omega
  have hone : superblockBlock.toNat = 1 := rfl
  obtain ⟨v₁, hrun₁, f₁⟩ := writeBlock_ok p.sound hboot .zero
  obtain ⟨v₂, hrun₂, f₂⟩ := writeBlock_ok f₁.sound (f₁.map ▸ hsuper) v.superblock.block
  have hmap₂ : v₂.freeMap = v.freeMap := f₂.map.trans f₁.map
  have hsuper₂ : v₂.superblock = v.superblock := f₂.superblock.trans f₁.superblock
  obtain ⟨v₃, hrun₃, f₃⟩ := writeMap_ok f₂.sound (by rw [hsuper₂, hmap₂, p.counts.1])
    (by rw [hmap₂]; exact Nat.le_trans p.map_le hroom)
  rw [hsuper₂, hmap₂] at f₃
  obtain ⟨v₄, hrun₄, f₄⟩ := writeTable_ok p f₃.sound (f₃.map.trans hmap₂)
  refine ⟨v₄, ⟨f₄.sound, f₄.superblock.trans (f₃.superblock.trans hsuper₂), f₄.map.trans (f₃.map.trans hmap₂), ?_,
    fun i hi => ?_, fun k hk => f₄.inside k (List.mem_range.mpr hk)⟩, ?_⟩
  · rw [f₄.outside _ fun k hk he => ?_, f₃.outside _ fun q hq he => ?_]
    · exact f₂.inside _ List.mem_cons_self
    · obtain ⟨i, hi, rfl⟩ := (mem_parts p.counts.1).mp hq
      have hnat := congrArg UInt32.toNat he
      rw [toNat_mapPart hi] at hnat
      omega
    · have hnat := congrArg UInt32.toNat he
      rw [p.toNat_table (List.mem_range.mp hk)] at hnat
      omega
  · rw [f₄.outside _ fun k hk he => ?_]
    · exact f₃.inside (_, v.freeMap.part (i * bitsPerBlock)) ((mem_parts p.counts.1).mpr ⟨i, hi, rfl⟩)
    · have hnat := congrArg UInt32.toNat he
      rw [p.toNat_table (List.mem_range.mp hk), toNat_mapPart hi] at hnat
      omega
  · have hask : ask (fun v => .ok v.superblock) v₁ = .ok v.superblock v₁ := ask_of_ok (by rw [f₁.superblock])
    rw [layOut, bind_of_ok hrun₁, bind_of_ok hask, bind_of_ok hrun₂, bind_of_ok hrun₃]
    exact bind_of_ok hrun₄

/-- The metadata of a new volume is written; only the root is missing in the table. -/
structure Cleared (v u : Volume) : Prop where
  sound : u.Sound
  synced : u.Synced
  laidOut : u.LaidOut
  superblock : u.superblock = v.superblock
  map : u.freeMap = v.freeMap
  table : ∀ k < ceilDiv v.superblock.inodeCount.toNat inodesPerBlock,
    u.cell (v.superblock.firstInodeBlock + .ofNat k) = .zero

theorem Written.cleared (c : Written v w) (p : Planned device inodes v) : Cleared v w := by
  obtain ⟨hfirst, hdata⟩ := p.bounds
  refine ⟨c.sound, fun b hb => ?_, ⟨⟨?_, ?_, ?_, ?_⟩, ?_⟩, c.superblock, c.map, c.table⟩
  · rw [c.map] at hb ⊢
    exact cell_home_of_parts c.parts hb
  · rw [c.map, c.superblock, hfirst]
  · rw [c.map, c.superblock, hdata]
  · rw [c.superblock, p.counts.2]
    exact p.inodes
  · rw [c.map, c.superblock, p.counts.2]
    exact p.superblock
  · rw [c.recorded, c.superblock]

theorem layOut_ok (p : Planned device inodes v) :
    ∃ u, Cleared v u ∧ layOut v = .ok () (u.putInode (.directory rootInode rootMode)) := by
  obtain ⟨u, written, hrun⟩ := layOut_eq p
  have c := written.cleared p
  have hroot : rootInode.toNat < u.superblock.inodeCount.toNat := Nat.lt_trans (by decide) c.laidOut.inodes
  have hwrite := writeInode_eq c.laidOut.toArranged c.sound (i := .directory rootInode rootMode) hroot
  have hflush : ask (fun v => v.device.flush.mapError .device) (u.putInode (.directory rootInode rootMode)) =
      .ok () (u.putInode (.directory rootInode rootMode)) := by
    apply ask_of_ok
    have hsound := (evolves_putInode c.laidOut.toArranged c.sound (i := .directory rootInode rootMode) hroot).sound
    rw [Device.flush, hsound.device.flushes]
    rfl
  exact ⟨u, c, by rw [hrun, bind_of_ok hwrite, hflush]⟩

end ImageFS.Volume

namespace ImageFS.FileSystem

open Volume

def unused (ino : UInt32) : Inode := ⟨ino, 0, .regular 0 .empty⟩

theorem readAt_zero (offset : Nat) (ino : UInt32) : Inode.readAt Block.zero.bytes offset ino = .ok (unused ino) := by
  have hword : ∀ place, wordAt Block.zero.bytes place = 0 := by
    intro place
    simp [wordAt, Block.zero]
  have hchain : Inode.chainAt Block.zero.bytes offset = .empty := by
    simp only [Inode.chainAt, hword]
    rfl
  simp only [Inode.readAt, Inode.nlinkAt, Inode.bodyAt, hword, hchain]
  rfl

variable {v u w : Volume} {device d : Device} {inodes ino : UInt32}

theorem ledger_cleared (p : Planned device inodes v) (c : Cleared v u) : Ledger u unused fun _ => none where
  sound := c.sound
  synced := c.synced
  laidOut := c.laidOut
  records ino hino := by
    rw [c.superblock] at hino
    have hblock : u.inodeBlock ino = v.superblock.firstInodeBlock + .ofNat (ino.toNat / 16) := by
      have hdiv : ino / 16 = .ofNat (ino.toNat / 16) := by
        rw [← toNat_div_sixteen, UInt32.ofNat_toNat]
      rw [inodeBlock, c.superblock, hdiv]
    rw [record, hblock, c.table _ (by simp only [ceilDiv, inodesPerBlock]; omega), readAt_zero]
  accounts := by
    refine ⟨fun ino chain hchain => ?_, fun i j chain chain' b hchain => ?_, fun b hdata hbusy => ?_⟩
    · cases hchain
    · cases hchain
    · rw [IsData, dataStart, c.map] at hdata
      rw [Busy, c.map, p.free hdata] at hbusy
      cases hbusy

theorem chains_unused (v : Volume) : chains v unused = fun _ => none := by
  funext ino
  exact if_neg fun h => h.2 rfl

def initial : UInt32 → Inode := Function.update unused rootInode (.directory rootInode rootMode)

theorem consistent_initial (p : Planned device inodes v) (c : Cleared v u)
    (hw : w = u.putInode (.directory rootInode rootMode)) : Consistent w initial := by
  subst hw
  have hroot : rootInode.toNat < u.superblock.inodeCount.toNat := Nat.lt_trans (by decide) c.laidOut.inodes
  have ledger := ((ledger_cleared p c).add rootInode rfl).putInode (i := .directory rootInode rootMode)
    hroot trivial
  have hchains := chains_update (v := u) (w := u.putInode (.directory rootInode rootMode)) (T := unused)
    (i := .directory rootInode rootMode) superblock_putInode hroot
  have hone : ¬ (Inode.directory rootInode rootMode).nlink = 0 := by decide
  rw [if_neg hone, chains_unused] at hchains
  have hself : initial rootInode = .directory rootInode rootMode := Function.update_self _ _ _
  have hother : ∀ j, j ≠ rootInode → initial j = unused j := fun j hj => Function.update_of_ne hj _ _
  have hchain : rootChain initial = .empty := rootChain_put _ _ _
  have hslots : (rootChain initial).slotCount = 0 := by
    rw [hchain]
    rfl
  refine ⟨?_, ?_, ?_, ?_, ?_, fun j hj hin => ?_, ?_⟩
  · rw [show initial = Function.update unused rootInode (.directory rootInode rootMode) from rfl, hchains]
    exact ledger
  · rw [hself]
    rfl
  · rw [hself]
    rfl
  · rw [hchain]
    rfl
  · rw [hother 0 (by decide)]
    rfl
  · exact absurd (congrArg Inode.nlink (hother j (ne_root hj))) hin.2
  · rw [hslots]
    refine ⟨fun s hs => absurd hs (Nat.not_lt_zero s), fun s hs => absurd hs (Nat.not_lt_zero s), fun j hj _ => ?_⟩
    rw [hother j (ne_root hj)]
    rfl

theorem format_cases (hd : device.FaultFree) (h : Volume.format inodes device = .ok w d) :
    ∃ v u, Planned device inodes v ∧ Cleared v u ∧ w = u.putInode (.directory rootInode rootMode) := by
  unfold Volume.format at h
  cases hplan : blueprint device inodes with
  | error e =>
    rw [hplan] at h
    cases h
  | ok v =>
    have p := blueprint_planned hd hplan
    obtain ⟨u, c, hrun⟩ := layOut_ok p
    rw [hplan] at h
    simp only [hrun] at h
    cases h
    exact ⟨v, u, p, c, rfl⟩

theorem format_consistent (hd : device.FaultFree) (h : Volume.format inodes device = .ok w d) :
    Consistent w initial := by
  obtain ⟨v, u, p, c, hw⟩ := format_cases hd h
  exact consistent_initial p c hw

theorem format_layout (hd : device.FaultFree) (h : Volume.format inodes device = .ok w d) :
    w.superblock = .plan (.ofNat device.blockCount) inodes ∧ w.freeMap = .fresh w.superblock := by
  obtain ⟨v, u, p, c, hw⟩ := format_cases hd h
  have hsuper : w.superblock = v.superblock := by rw [hw, superblock_putInode, c.superblock]
  have hmap : w.freeMap = v.freeMap := by rw [hw, freeMap_putInode, c.map]
  exact ⟨by rw [hsuper, p.superblock, p.count], by rw [hmap, hsuper, p.map]⟩

theorem format_room (hd : device.FaultFree) (h : Volume.format inodes device = .ok w d) : 0 < w.freeBlocks := by
  obtain ⟨v, u, p, c, hw⟩ := format_cases hd h
  have hmap : w.freeMap = .fresh v.superblock := by rw [hw, freeMap_putInode, c.map, p.map]
  rw [freeBlocks, hmap, FreeMap.freeCount_eq_countP]
  refine List.countP_pos_iff.mpr ⟨v.superblock.firstDataBlock.toNat, List.mem_range.mpr p.room, ?_⟩
  rw [FreeMap.isFree_fresh, decide_eq_true_eq]
  exact ⟨Nat.le_refl _, p.room⟩

theorem format_ok (hd : device.FaultFree) (h : blueprint device inodes = .ok v) :
    ∃ w, Volume.format inodes device = .ok w w.device := by
  obtain ⟨u, -, hrun⟩ := layOut_ok (blueprint_planned hd h)
  unfold Volume.format
  rw [h]
  simp only [hrun]
  exact ⟨_, rfl⟩

end ImageFS.FileSystem
