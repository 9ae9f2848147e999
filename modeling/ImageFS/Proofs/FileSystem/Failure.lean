import ImageFS.Proofs.Reference.Refinement
import ImageFS.Proofs.Volume.Remount

/-!
# Calls that fail

A call that fails leaves nothing behind: not in the inode table, in the contents of the files or in the
records of the root, and the same blocks are free, in memory and on the device.
-/

set_option autoImplicit false

namespace ImageFS.FileSystem

open Volume

def records (v : Volume) (dir : UInt32) : Except Error (List Entry) := do
  let dir ← liveDirectory v dir
  dir.entries v

/-- Nothing tells `w` from `v`. The inodes are those of the whole table, free ones too. -/
structure Same (v w : Volume) : Prop where
  superblock : w.superblock = v.superblock
  inodes : ∀ ino, w.readInode ino = v.readInode ino
  contents : ∀ ino, contents w ino = contents v ino
  records : ∀ dir, records w dir = records v dir
  freeMap : w.freeMap = v.freeMap
  stored : FreeMap.read w.device w.superblock = .ok w.freeMap ∧ FreeMap.read v.device v.superblock = .ok v.freeMap

variable {v w : Volume} {T : UInt32 → Inode} {ino dir : UInt32} {e : Error}

namespace Consistent

variable (h : Consistent v T)

include h

theorem records_root : records v rootInode = .ok (rootEntries v) := by
  obtain ⟨mode, hroot⟩ := h.root_eq
  rw [records, h.liveDirectory_of_root hroot, h.rootEntries_eq]
  exact Directory.entries_eq ⟨rootInode, 1, mode, rootChain T⟩ h.held_root h.ledger.sound

theorem freeMap_stored : FreeMap.read v.device v.superblock = .ok v.freeMap :=
  freeMap_read h.ledger.laidOut h.ledger.sound h.ledger.synced

theorem readInode_congr (h' : Consistent w T) (superblock : w.superblock = v.superblock) :
    w.readInode ino = v.readInode ino := by
  by_cases hin : ino.toNat < v.superblock.inodeCount.toNat
  · rw [h.ledger.readInode_eq hin, h'.ledger.readInode_eq (by rw [superblock]; exact hin)]
  · rw [readInode_of_le (Nat.le_of_not_lt hin), readInode_of_le (by rw [superblock]; exact Nat.le_of_not_lt hin)]

theorem records_congr (h' : Consistent w T) (inodes : ∀ ino, SameInode v w ino)
    (entries : rootEntries w = rootEntries v) : records w dir = records v dir := by
  by_cases hdir : dir = rootInode
  · rw [hdir, h.records_root, h'.records_root, entries]
  · -- no other number names a directory, so both sides fail, and with the same error
    have hlive : liveDirectory w dir = liveDirectory v dir := by rw [liveDirectory, liveDirectory, (inodes dir).1]
    obtain ⟨e, herror⟩ := h.liveDirectory_error hdir
    rw [records, records, hlive, herror]
    rfl

theorem same_of_spared (s : Spared v T w) : Same v w where
  superblock := s.evolves.superblock
  inodes _ := h.readInode_congr s.consistent s.evolves.superblock
  contents ino := (s.inodes ino).2
  records _ := h.records_congr s.consistent s.inodes s.entries
  freeMap := FreeMap.ext_bit s.evolves.count s.evolves.first s.bits
  stored := ⟨s.consistent.freeMap_stored, h.freeMap_stored⟩

end Consistent

/-- Whatever is asked of a reachable file system, if the answer is an error then nothing has changed. -/
theorem failed_call_changes_nothing (h : Reachable v) (c : Call) (hfail : (c.run v).1 = .error e) :
    Same v (c.run v).2 := by
  obtain ⟨T, hT⟩ := h.consistent
  exact hT.same_of_spared (hT.failed hfail)

theorem failed_call_changes_nothing_file : ∃ v, Reachable v ∧
    (Call.run (.read 2 0 3) v).1 = .ok (.bytes ⟨#[1, 2, 3]⟩) ∧ v.freeBlocks = 10 ∧
    (Call.run (.setSize 2 12288) v).1 = .error .noSpace ∧ Same v (Call.run (.setSize 2 12288) v).2 := by
  obtain ⟨v, hv, hstate⟩ := exists_written
  obtain ⟨T, hT⟩ := hv.consistent
  have hread : (Call.run (.read 2 0 3) v).1 = .ok (.bytes ⟨#[1, 2, 3]⟩) := by
    rw [hT.run_fst, hstate]
    rfl
  have hfree : v.freeBlocks = 10 := by
    rw [← hT.freeBlocks_state, hstate]
    rfl
  have hfail : (Call.run (.setSize 2 12288) v).1 = .error .noSpace := by
    rw [hT.run_fst, hstate]
    rfl
  exact ⟨v, hv, hread, hfree, hfail, failed_call_changes_nothing hv _ hfail⟩

end ImageFS.FileSystem
