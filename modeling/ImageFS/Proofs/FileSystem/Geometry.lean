import ImageFS.Proofs.FileSystem.Creation
import ImageFS.Proofs.FileSystem.Persistence
import Mathlib.Order.Interval.Finset.Nat

/-!
# The geometry of new volumes

Which sizes of devices and of inode tables a volume can be made of, and how it is laid out then. All
numbers are exact: the sums of block numbers do not wrap for any size, also where formatting refuses.
-/

set_option autoImplicit false

namespace ImageFS

theorem Device.checkSectorSize_of_dvd {d : Device} (h : d.sectorSize ∣ blockSize) : d.checkSectorSize = .ok () := by
  refine if_neg fun hbad => ?_
  obtain hzero | hlarge | hrest := hbad
  · rw [hzero, Nat.zero_dvd] at h
    cases h
  · exact absurd (Nat.le_of_dvd (by decide) h) (Nat.not_le_of_lt hlarge)
  · exact hrest (Nat.mod_eq_zero_of_dvd h)

/-- The blocks of the metadata: boot block, superblock, free map and inode table. -/
def Superblock.regions (s : Superblock) : List (Finset Nat) :=
  [{bootBlock.toNat}, {superblockBlock.toNat}, Finset.Ico firstMapBlock.toNat s.firstInodeBlock.toNat,
    Finset.Ico s.firstInodeBlock.toNat s.firstDataBlock.toNat]

theorem Superblock.regions_apart {s : Superblock} (hmap : firstMapBlock.toNat ≤ s.firstInodeBlock.toNat)
    (htable : s.firstInodeBlock.toNat ≤ s.firstDataBlock.toNat) :
    s.regions.Pairwise Disjoint ∧ ∀ r ∈ s.regions, ∀ b ∈ r, b < s.firstDataBlock.toNat := by
  have htwo : firstMapBlock.toNat = 2 := rfl
  have hone : superblockBlock.toNat = 1 := rfl
  have hzero : bootBlock.toNat = 0 := rfl
  rw [htwo] at hmap
  constructor
  · simp only [regions, List.pairwise_cons, List.mem_cons, List.not_mem_nil, or_false, forall_eq_or_imp, forall_eq,
      Finset.disjoint_left, Finset.mem_singleton, Finset.mem_Ico, htwo, hone, hzero]
    refine ⟨⟨by decide, by omega, by omega⟩, ⟨by omega, by omega⟩, fun b hb hb' => ?_, by simp⟩
    omega
  · simp only [regions, List.mem_cons, List.not_mem_nil, or_false, forall_eq_or_imp, forall_eq, Finset.mem_singleton,
      Finset.mem_Ico, htwo, hone, hzero]
    exact ⟨by omega, by omega, fun b hb => by omega, fun b hb => hb.2⟩

def Superblock.Roomy (blocks inodes : Nat) : Prop :=
  blocks < UInt32.size ∧ 3 ≤ inodes ∧ 2 + ceilDiv blocks bitsPerBlock + ceilDiv inodes inodesPerBlock < blocks

theorem Superblock.plan_exact {blocks : Nat} (h : blocks < UInt32.size) (inodes : UInt32) :
    (plan (.ofNat blocks) inodes).blockCount.toNat = blocks ∧
    (plan (.ofNat blocks) inodes).firstInodeBlock.toNat = 2 + ceilDiv blocks bitsPerBlock ∧
    (plan (.ofNat blocks) inodes).firstDataBlock.toNat =
      2 + ceilDiv blocks bitsPerBlock + ceilDiv inodes.toNat inodesPerBlock := by
  have hcount : (UInt32.ofNat blocks).toNat = blocks := UInt32.toNat_ofNat_of_lt' h
  obtain ⟨hfirst, hdata⟩ := Volume.toNat_plan (.ofNat blocks) inodes
  have hmap := Volume.toNat_mapBlocksFor (.ofNat blocks)
  rw [hcount] at hmap
  rw [hmap] at hfirst
  exact ⟨hcount, hfirst, by rw [hdata, hfirst]; rfl⟩

namespace FileSystem

open Volume

variable {device d : Device} {w : Volume} {inodes : UInt32}

theorem blueprint_cases (hs : device.checkSectorSize = .ok ()) (inodes : UInt32) :
    (Superblock.Roomy device.blockCount inodes.toNat ∧ ∃ v, blueprint device inodes = .ok v) ∨
      (¬ Superblock.Roomy device.blockCount inodes.toNat ∧ ∃ g, blueprint device inodes = .error (.geometry g)) := by
  unfold blueprint
  rw [hs]
  simp only [bind, Except.bind, pure, Except.pure, throw, throwThe, MonadExceptOf.throw]
  split_ifs with hblocks hinodes hroom
  · exact .inr ⟨fun h => Nat.not_le_of_lt h.1 hblocks, _, rfl⟩
  · rw [UInt32.le_iff_toNat_le] at hinodes
    have htwo : (rootInode + 1).toNat = 2 := rfl
    exact .inr ⟨fun h => by have := h.2.1; omega, _, rfl⟩
  · obtain ⟨hcount, -, hdata⟩ := Superblock.plan_exact (Nat.lt_of_not_le hblocks) inodes
    rw [UInt32.le_iff_toNat_le, hcount, hdata] at hroom
    exact .inr ⟨fun h => by have := h.2.2; omega, _, rfl⟩
  · obtain ⟨hcount, -, hdata⟩ := Superblock.plan_exact (Nat.lt_of_not_le hblocks) inodes
    rw [UInt32.le_iff_toNat_le, hcount, hdata] at hroom
    rw [UInt32.le_iff_toNat_le] at hinodes
    have htwo : (rootInode + 1).toNat = 2 := rfl
    exact .inl ⟨⟨Nat.lt_of_not_le hblocks, by omega, by omega⟩, _, rfl⟩

/-- A new volume of so many blocks and inodes. -/
structure New (blocks : Nat) (inodes : UInt32) (w : Volume) : Prop where
  blockCount : w.superblock.blockCount.toNat = blocks
  inodeCount : w.superblock.inodeCount = inodes
  firstInodeBlock : w.superblock.firstInodeBlock.toNat = 2 + ceilDiv blocks bitsPerBlock
  firstDataBlock : w.superblock.firstDataBlock.toNat =
    2 + ceilDiv blocks bitsPerBlock + ceilDiv inodes.toNat inodesPerBlock
  apart : w.superblock.regions.Pairwise Disjoint
  inside : ∀ r ∈ w.superblock.regions, ∀ b ∈ r, b < blocks
  /-- The blocks of the data are free, and no others. -/
  free : ∀ b, w.freeMap.isFree b = true ↔ w.superblock.firstDataBlock.toNat ≤ b ∧ b < blocks
  /-- The map goes on past the end with no bit set. -/
  past : ∀ b, blocks ≤ b → w.freeMap.bit b = false
  freeInodes : w.freeInodes = .ok (inodes.toNat - 2)
  root : w.readInode rootInode = .ok (.directory rootInode rootMode)
  /-- Any device with these bytes mounts as the volume that was made. -/
  mounts : ∀ d : Device, d.FaultFree → d.sectorSize ∣ blockSize → d.bytes = w.device.bytes →
    mount d = .ok ⟨d, w.superblock, w.freeMap⟩

theorem freeInodes_initial (h : Consistent w initial) :
    w.freeInodes = .ok (w.superblock.inodeCount.toNat - 2) := by
  have hvacant : ∀ n ∈ List.range' 2 (w.superblock.inodeCount.toNat - 2), w.Vacant n := fun n hn => by
    obtain ⟨hlow, hcount⟩ := List.mem_range'_1.mp hn
    have hcount : n < w.superblock.inodeCount.toNat := by omega
    have hnat : (UInt32.ofNat n).toNat = n :=
      UInt32.toNat_ofNat_of_lt' (Nat.lt_trans hcount w.superblock.inodeCount.toNat_lt)
    have hne : UInt32.ofNat n ≠ rootInode := fun he => by
      have := congrArg UInt32.toNat he
      rw [hnat] at this
      exact absurd this (by change n ≠ 1; omega)
    refine ⟨hlow, hcount, ?_⟩
    rw [h.ledger.nlinkOf_eq (by rw [hnat]; exact hcount), initial, Function.update_of_ne hne]
    rfl
  rw [(h.ledger.laidOut.tabled h.ledger.sound).freeInodes_eq, filter_vacant (Nat.le_of_lt h.ledger.laidOut.inodes),
    List.filter_eq_self.mpr fun n hn => decide_eq_true (hvacant n hn), List.length_range']

theorem format_new (hd : device.FaultFree) (hblocks : device.blockCount < UInt32.size)
    (h : Volume.format inodes device = .ok w d) : New device.blockCount inodes w := by
  have hnew := format_consistent hd h
  obtain ⟨hsuper, hmap⟩ := format_layout hd h
  obtain ⟨hcount, hfirst, hdata⟩ := Superblock.plan_exact hblocks inodes
  rw [← hsuper] at hcount hfirst hdata
  have hroom : w.superblock.firstDataBlock.toNat < w.superblock.blockCount.toNat := (Reachable.format hd h).room
  have htwo : firstMapBlock.toNat = 2 := rfl
  obtain ⟨apart, inside⟩ := Superblock.regions_apart (s := w.superblock) (by omega) (by omega)
  have hinodes : w.superblock.inodeCount = inodes := by rw [hsuper]; rfl
  refine ⟨hcount, hinodes, hfirst, hdata, apart, fun r hr b hb => ?_, fun b => ?_, fun b hb => ?_, ?_, ?_,
    fun d' hd' hs bytes => ?_⟩
  · exact Nat.lt_trans (inside r hr b hb) (hcount ▸ hroom)
  · rw [hmap, FreeMap.isFree_fresh, decide_eq_true_eq, hcount]
  · rw [hmap, FreeMap.bit_fresh, hcount]
    exact decide_eq_false fun h => Nat.not_le_of_lt h.2 hb
  · rw [freeInodes_initial hnew, hinodes]
  · rw [hnew.ledger.readInode_eq hnew.root_lt]
    rfl
  · have hcopy := (hnew.restored (hnew.restored_copy ⟨hd', Device.checkSectorSize_of_dvd hs⟩ bytes)).consistent
    exact hcopy.mount_eq hroom

/-- Formatting a device without faults, for every size. It succeeds just when the metadata leaves room for
data; a refusal is one of geometry and leaves the device as it was. What it leaves is a new volume. -/
theorem format_geometry (hd : device.FaultFree) (hs : device.sectorSize ∣ blockSize) (inodes : UInt32) {blocks : Nat}
    (hblocks : device.bytes.size / blockSize = blocks) :
    ((∃ w d, Volume.format inodes device = .ok w d) ↔
      blocks < 2 ^ 32 ∧ 3 ≤ inodes.toNat ∧
        2 + ceilDiv blocks bitsPerBlock + ceilDiv inodes.toNat inodesPerBlock < blocks) ∧
    (blocks < 2 ^ 32 →
      (Superblock.plan (.ofNat blocks) inodes).blockCount.toNat = blocks ∧
      (Superblock.plan (.ofNat blocks) inodes).firstInodeBlock.toNat = 2 + ceilDiv blocks bitsPerBlock ∧
      (Superblock.plan (.ofNat blocks) inodes).firstDataBlock.toNat =
        2 + ceilDiv blocks bitsPerBlock + ceilDiv inodes.toNat inodesPerBlock) ∧
    (∀ e d, Volume.format inodes device = .error e d → (∃ g, e = .geometry g) ∧ d = device) ∧
    ∀ w d, Volume.format inodes device = .ok w d → d = w.device ∧ New blocks inodes w := by
  have hsectors := Device.checkSectorSize_of_dvd hs
  have hcount : device.blockCount = blocks := by rw [Device.Sound.blockCount_eq ⟨hd, hsectors⟩, hblocks]
  subst hcount
  obtain ⟨hroomy, v, hplan⟩ | ⟨htight, g, hplan⟩ := blueprint_cases hsectors inodes
  · obtain ⟨w, hrun⟩ := format_ok hd hplan
    refine ⟨⟨fun _ => hroomy, fun _ => ⟨w, _, hrun⟩⟩, fun h => Superblock.plan_exact h inodes, fun e d h => ?_,
      fun w' d h => ?_⟩
    · rw [hrun] at h
      cases h
    · have hsame := h
      rw [hrun] at hsame
      cases hsame
      exact ⟨rfl, format_new hd hroomy.1 h⟩
  · have hrun : Volume.format inodes device = .error (.geometry g) device := by rw [Volume.format, hplan]
    refine ⟨⟨fun ⟨w, d, h⟩ => ?_, fun h => absurd h htight⟩, fun h => Superblock.plan_exact h inodes, fun e d h => ?_,
      fun w d h => ?_⟩
    · rw [hrun] at h
      cases h
    · rw [hrun] at h
      cases h
      exact ⟨⟨g, rfl⟩, rfl⟩
    · rw [hrun] at h
      cases h

theorem format_geometry_smallest :
    (Device.blank 5120 512).FaultFree ∧ (Device.blank 5120 512).sectorSize ∣ blockSize ∧
    (∃ w d, Volume.format 3 (.blank 5120 512) = .ok w d ∧ w.superblock.firstDataBlock.toNat = 4 ∧ New 5 3 w) ∧
    ∃ g, Volume.format 3 (.blank 4096 512) = .error (.geometry g) (.blank 4096 512) := by
  have hsectors : ∀ bytes, (Device.blank bytes 512).sectorSize ∣ blockSize := fun _ => show 512 ∣ 1024 by decide
  have hblocks : ∀ bytes, (Device.blank bytes 512).bytes.size / blockSize = bytes / 1024 := fun bytes => by
    have hmax : max 512 1 = 512 := rfl
    rw [Device.blank, size_zeros, hmax]
    simp only [blockSize]
    omega
  obtain ⟨hfive, -, -, hnew⟩ := format_geometry (blank_faultFree 5120 512) (hsectors _) 3 (hblocks 5120)
  obtain ⟨hfour, -, herror, -⟩ := format_geometry (blank_faultFree 4096 512) (hsectors _) 3 (hblocks 4096)
  refine ⟨blank_faultFree _ _, hsectors _, ?_, ?_⟩
  · obtain ⟨w, d, hrun⟩ := hfive.mpr (by decide)
    have hw := (hnew w d hrun).2
    exact ⟨w, d, hrun, hw.firstDataBlock, hw⟩
  · cases hrun : Volume.format 3 (.blank 4096 512) with
    | ok w d => exact absurd (hfour.mp ⟨w, d, hrun⟩) (by decide)
    | error e d =>
      obtain ⟨⟨g, rfl⟩, rfl⟩ := herror e d hrun
      exact ⟨g, rfl⟩

end FileSystem

end ImageFS
