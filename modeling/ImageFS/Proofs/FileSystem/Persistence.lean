import ImageFS.Proofs.Reference.Refinement

/-!
# The device holds the file system

Nothing of a reachable file system is in memory alone: at any time, mounting the bytes of its device gives
a file system that answers every further run of calls as the live one does.
-/

set_option autoImplicit false

namespace ImageFS.FileSystem

open Volume

variable {v w : Volume} {T : UInt32 → Inode} {d : Device}

theorem Reachable.room (h : Reachable v) : v.superblock.firstDataBlock.toNat < v.superblock.blockCount.toNat := by
  induction h with
  | format hd hrun =>
    obtain ⟨u, w, p, c, rfl⟩ := format_cases hd hrun
    rw [superblock_putInode, c.superblock]
    exact p.room
  | call c _ ih =>
    rw [(alike_run c _).superblock]
    exact ih

theorem Consistent.restored_copy (h : Consistent v T) (hd : d.Sound) (bytes : d.bytes = v.device.bytes) :
    Restored v { v with device := d } := by
  have hv := h.ledger.sound
  have hcell : cell { v with device := d } = v.cell := Device.cell_congr bytes
  have hfits : v.freeMap.blockCount.toNat ≤ d.blockCount := by
    rw [hd.blockCount_eq, bytes, ← hv.device.blockCount_eq]
    exact hv.fits
  refine ⟨⟨⟨hd, hfits, hv.room, hv.guarded⟩, rfl, rfl, rfl, fun synced b hb => ?_⟩, fun _ => rfl,
    fun b _ _ => by rw [hcell]⟩
  rw [hcell]
  exact synced b hb

theorem Consistent.mount_eq (h : Consistent v T)
    (hroom : v.superblock.firstDataBlock.toNat < v.superblock.blockCount.toNat) : mount v.device = .ok v :=
  Volume.mount_eq h.ledger.laidOut h.ledger.sound h.ledger.synced hroom (h.ledger.readInode_eq h.root_lt) h.rootKind

/-- What mounting needs: a consistent file system, and room behind its metadata. -/
def Mountable (v : Volume) : Prop :=
  (∃ T, Consistent v T) ∧ v.superblock.firstDataBlock.toNat < v.superblock.blockCount.toNat

theorem mountable_format {device : Device} {inodes : UInt32} (hd : device.FaultFree)
    (hrun : Volume.format inodes device = .ok v d) : Mountable v :=
  ⟨⟨_, format_consistent hd hrun⟩, (Reachable.format hd hrun).room⟩

/-- A new volume of sixteen blocks. -/
theorem exists_mounted : ∃ v, Consistent v initial ∧ v.superblock = .plan 16 16 ∧ mount v.device = .ok v := by
  obtain ⟨v, d, hrun⟩ := exists_new
  have hd := blank_faultFree 16384 512
  have hnew := format_consistent hd hrun
  refine ⟨v, hnew, ?_, hnew.mount_eq (Reachable.format hd hrun).room⟩
  rw [(format_layout hd hrun).1, blockCount_blank]
  rfl

namespace Mountable

variable (h : Mountable v)

include h

theorem call (c : Call) : Mountable (c.run v).2 := by
  obtain ⟨⟨T, hT⟩, hroom⟩ := h
  rw [Mountable, (alike_run c v).superblock]
  exact ⟨hT.call c, hroom⟩

theorem after (calls : List Call) : Mountable (after v calls) := by
  obtain ⟨⟨T, hT⟩, hroom⟩ := h
  rw [Mountable, (alike_after v calls).superblock]
  exact ⟨hT.after calls, hroom⟩

theorem mount_copy (hd : d.Sound) (bytes : d.bytes = v.device.bytes) :
    mount d = .ok { v with device := d } ∧ Mountable { v with device := d } ∧ state { v with device := d } = state v := by
  obtain ⟨⟨T, hT⟩, hroom⟩ := h
  have s := hT.restored (hT.restored_copy hd bytes)
  have hw := s.consistent
  refine ⟨?_, ⟨⟨T, hw⟩, hroom⟩, s.state⟩
  exact hw.mount_eq hroom

theorem mounted (hd : d.FaultFree) (bytes : d.bytes = v.device.bytes) (hmount : mount d = .ok w) :
    Mountable w ∧ state w = state v := by
  obtain ⟨-, sectors, -⟩ := mount_eq_ok.mp hmount
  obtain ⟨hcopy, hsame⟩ := h.mount_copy ⟨hd, sectors⟩ bytes
  obtain rfl := Except.ok.inj (hcopy.symm.trans hmount)
  exact hsame

end Mountable

/-- Whatever calls were made, the device alone gives the file system again: with the same superblock, the
same blocks free, and the same answers to all further calls. -/
theorem device_holds_file_system (h : Reachable v) (faultFree : d.FaultFree) (sectors : d.checkSectorSize = .ok ())
    (bytes : d.bytes = v.device.bytes) :
    ∃ w, mount d = .ok w ∧ w.superblock = v.superblock ∧ w.freeMap = v.freeMap ∧
      ∀ calls, outcomes w calls = outcomes v calls := by
  obtain ⟨T, hT⟩ := h.consistent
  have s := hT.restored (hT.restored_copy ⟨faultFree, sectors⟩ bytes)
  have hw := s.consistent
  refine ⟨{ v with device := d }, ?_, rfl, rfl, hT.outcomes_congr hw s.state⟩
  exact hw.mount_eq h.room

theorem device_holds_file_system_file : ∃ v w, Reachable v ∧ nameMap v ['a'.toUInt8] = some 2 ∧
    mount ⟨1024, v.device.bytes, .none⟩ = .ok w ∧ w.superblock = v.superblock ∧ w.freeMap = v.freeMap ∧
      ∀ calls, outcomes w calls = outcomes v calls := by
  obtain ⟨v, hv, hmap, -⟩ := exists_file
  obtain ⟨w, hmount, hsame⟩ := device_holds_file_system (d := ⟨1024, v.device.bytes, .none⟩) hv
    ⟨fun _ => rfl, fun _ => rfl, rfl⟩ (if_neg (by dsimp only; decide)) rfl
  exact ⟨v, w, hv, hmap, hmount, hsame⟩

end ImageFS.FileSystem
