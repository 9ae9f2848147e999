import ImageFS.Proofs.Device.Torn
import ImageFS.Proofs.FileSystem.Persistence

/-!
# What mounting checks of the layout

The words of a superblock are taken from the device as they are. Mounting adds up where the inode table ends
before it compares that with the size of the volume. The comparison is right in whole numbers, so all records of
a mounted volume lie on it, but a sum past 32 bits ends the program where it should be an error.
-/

set_option autoImplicit false

namespace ImageFS

namespace Superblock

variable {s : Superblock}

theorem toNat_mapBlock {i : Nat} (hi : i < s.mapBlocks.toNat) :
    (firstMapBlock + .ofNat i).toNat = firstMapBlock.toNat + i := by
  have hcount := s.blockCount.toNat_lt
  have htwo : firstMapBlock.toNat = 2 := rfl
  rw [mapBlocks, Volume.toNat_mapBlocksFor, ceilDiv] at hi
  simp only [bitsPerBlock] at hi
  have hnat : (UInt32.ofNat i).toNat = i := UInt32.toNat_ofNat_of_lt' (by simp only [UInt32.size]; omega)
  rw [UInt32.toNat_add, hnat, htwo]
  omega

theorem read_of_cell {d : Device} (hd : d.Sound) (hin : superblockBlock.toNat < d.blockCount)
    (hcell : d.cell superblockBlock = s.block) (hmagic : s.magic = superblockMagic) : read d = .ok s := by
  have hblock := Device.readBlock_eq hd hin
  rw [hcell] at hblock
  rw [read_of_block hblock, decode_block hmagic]

end Superblock

namespace Volume

variable {v : Volume} {d : Device} {s : Superblock} {root : Inode} {ino : UInt32}

theorem two_le_of_readInode_root (h : v.readInode rootInode = .ok root) : 2 ≤ v.superblock.inodeCount.toNat := by
  by_contra hlt
  have hle : v.superblock.inodeCount.toNat ≤ rootInode.toNat := Nat.le_of_lt_succ (Nat.lt_of_not_le hlt)
  rw [readInode_of_le hle] at h
  cases h

theorem recordPlace_of_tableEnd (hend : v.superblock.tableEnd < v.superblock.blockCount.toNat)
    (hino : ino.toNat < v.superblock.inodeCount.toNat) :
    v.recordPlace ino + inodeSize ≤ v.superblock.blockCount.toNat * blockSize := by
  have hoffset := inodeOffset_le ino
  have hsum := toNat_inodeBlock_of_tableEnd (Nat.lt_trans hend v.superblock.blockCount.toNat_lt) hino
  have hin : (v.inodeBlock ino).toNat + 1 ≤ v.superblock.blockCount.toNat := by
    simp only [Superblock.tableEnd, ceilDiv, inodesPerBlock] at hend hsum
    omega
  calc v.recordPlace ino + inodeSize
    _ = (v.inodeBlock ino).toNat * blockSize + (inodeOffset ino + inodeSize) := Nat.add_assoc _ _ _
    _ ≤ (v.inodeBlock ino).toNat * blockSize + blockSize := Nat.add_le_add_left hoffset _
    _ = ((v.inodeBlock ino).toNat + 1) * blockSize := (Nat.succ_mul _ _).symm
    _ ≤ v.superblock.blockCount.toNat * blockSize := Nat.mul_le_mul_right blockSize hin

theorem readBlock_ne_overrun (d : Device) (b : UInt32) : d.readBlock b ≠ .error (.corrupt .metadataOverrun) := by
  intro h
  rw [Device.readBlock] at h
  split at h
  · split at h
    · cases h
    · split at h <;> cases h
  · cases h

theorem superblock_read_ne_overrun (d : Device) : Superblock.read d ≠ .error (.corrupt .metadataOverrun) := by
  intro h
  rcases error_of_bind h with hblock | ⟨block, -, h⟩
  · exact readBlock_ne_overrun _ _ hblock
  · rw [Superblock.decode] at h
    split at h
    · cases h
    · split at h <;> cases h

theorem freeMap_read_ne_overrun (d : Device) (s : Superblock) :
    FreeMap.read d s ≠ .error (.corrupt .metadataOverrun) := by
  intro h
  rcases error_of_bind h with hblocks | ⟨blocks, -, h⟩
  · obtain ⟨b, -, hblock⟩ := error_of_mapM_vector hblocks
    exact readBlock_ne_overrun d b hblock
  · cases h

theorem readInode_ne_overrun (v : Volume) (ino : UInt32) : v.readInode ino ≠ .error (.corrupt .metadataOverrun) := by
  intro h
  rcases error_of_bind h with hino | ⟨_, -, h⟩
  · rw [checkInode] at hino
    split at hino <;> cases hino
  rcases error_of_bind h with hblock | ⟨block, -, h⟩
  · exact readBlock_ne_overrun _ _ hblock
  · cases (Inode.readAt_eq_error_iff.mp h).2

theorem load_ne_overrun (d : Device) (s : Superblock) : load d s ≠ .error (.corrupt .metadataOverrun) := by
  intro h
  rcases error_of_bind h with hmap | ⟨m, -, h⟩
  · exact freeMap_read_ne_overrun d s hmap
  rcases error_of_bind h with hroot | ⟨root, -, h⟩
  · exact readInode_ne_overrun _ rootInode hroot
  split at h <;> cases h

/-- A stop that only the check of the layout comes to is the stop of mounting exactly where the check is made. -/
theorem mount_eq_error_iff {stop : Stop} (hsectors : ∀ e, d.checkSectorSize = .error e → stop ≠ .failed e)
    (hread : ∀ e, Superblock.read d = .error e → stop ≠ .failed e)
    (hload : ∀ s e, load d s = .error e → stop ≠ .failed e) :
    mount d = .error stop ↔
      d.checkSectorSize = .ok () ∧ ∃ s, Superblock.read d = .ok s ∧ checkLayout d s = .error stop := by
  constructor
  · intro h
    rcases error_of_bind h with h | ⟨⟨⟩, hsize, h⟩
    · obtain ⟨e, he, rfl⟩ := error_of_mapError h
      exact absurd rfl (hsectors e he)
    rcases error_of_bind h with h | ⟨s, hs, h⟩
    · obtain ⟨e, he, rfl⟩ := error_of_mapError h
      exact absurd rfl (hread e he)
    rcases error_of_bind h with h | ⟨_, -, h⟩
    · exact ⟨ok_of_mapError hsize, s, ok_of_mapError hs, h⟩
    · obtain ⟨e, he, rfl⟩ := error_of_mapError h
      exact absurd rfl (hload s e he)
  · rintro ⟨hsize, s, hs, h⟩
    rw [mount, hsize, hs]
    simp only [Except.mapError, ok_bind, h]
    rfl

theorem checkLayout_eq_overrun : checkLayout d s = .error (.failed (.corrupt .metadataOverrun)) ↔
    s.blockCount.toNat ≤ d.blockCount ∧ s.blockCount.toNat ≤ s.tableEnd ∧ s.tableEnd < UInt32.size := by
  rw [checkLayout_eq]
  constructor
  · intro h
    split_ifs at h with hfits hexact hroom
    · cases h
    · cases h
    · exact ⟨Nat.le_of_not_lt hfits, hroom, Nat.lt_of_not_le hexact⟩
  · rintro ⟨hfits, hroom, hexact⟩
    rw [if_neg (Nat.not_lt_of_le hfits), if_neg (Nat.not_le_of_lt hexact), if_pos hroom]

theorem checkLayout_eq_aborted :
    checkLayout d s = .error .aborted ↔ s.blockCount.toNat ≤ d.blockCount ∧ UInt32.size ≤ s.tableEnd := by
  rw [checkLayout_eq]
  constructor
  · intro h
    split_ifs at h with hfits hexact hroom
    · cases h
    · exact ⟨Nat.le_of_not_lt hfits, hexact⟩
    · cases h
  · rintro ⟨hfits, hexact⟩
    rw [if_neg (Nat.not_lt_of_le hfits), if_pos hexact]

theorem mount_eq_overrun_iff : mount d = .error (.failed (.corrupt .metadataOverrun)) ↔
    d.checkSectorSize = .ok () ∧ ∃ s, Superblock.read d = .ok s ∧ s.blockCount.toNat ≤ d.blockCount ∧
      s.blockCount.toNat ≤ s.tableEnd ∧ s.tableEnd < UInt32.size := by
  have hsectors : ∀ e, d.checkSectorSize = .error e → Stop.failed (.corrupt .metadataOverrun) ≠ .failed e := by
    rintro e he h
    cases h
    rw [Device.checkSectorSize] at he
    split at he <;> cases he
  rw [mount_eq_error_iff hsectors (fun e he h => superblock_read_ne_overrun d (Stop.failed.inj h ▸ he))
    fun s e he h => load_ne_overrun d s (Stop.failed.inj h ▸ he)]
  refine and_congr_right fun _ => exists_congr fun s => and_congr_right fun _ => ?_
  exact checkLayout_eq_overrun

theorem mount_eq_aborted_iff : mount d = .error .aborted ↔
    d.checkSectorSize = .ok () ∧ ∃ s, Superblock.read d = .ok s ∧ s.blockCount.toNat ≤ d.blockCount ∧
      UInt32.size ≤ s.tableEnd := by
  rw [mount_eq_error_iff (fun _ _ h => by cases h) (fun _ _ h => by cases h) fun _ _ _ h => by cases h]
  refine and_congr_right fun _ => exists_congr fun s => and_congr_right fun _ => ?_
  exact checkLayout_eq_aborted

/-- A mounted volume ends behind its inode table and lies on its device, in whole numbers, and all its records are on
it. A superblock that places the end of the table behind the volume is an error only as long as that end is a number of
32 bits. If it is not, the program ends, and every superblock of this kind that fits a device does that to it. -/
theorem mount_exact_or_aborts (d : Device) :
    (∀ v, mount d = .ok v →
      v.superblock.tableEnd < v.superblock.blockCount.toNat ∧ v.superblock.blockCount.toNat ≤ d.blockCount ∧
      2 ≤ v.superblock.inodeCount.toNat ∧ (∃ root, v.readInode rootInode = .ok root ∧ root.kind = .directory) ∧
      v.freeMap.firstData.toNat = v.superblock.tableEnd ∧
      ∀ ino : UInt32, ino.toNat < v.superblock.inodeCount.toNat →
        (v.inodeBlock ino).toNat = v.superblock.firstInodeBlock.toNat + ino.toNat / inodesPerBlock ∧
        v.recordPlace ino + inodeSize ≤ v.superblock.blockCount.toNat * blockSize) ∧
    (∀ (s : Superblock) (i : Nat), i < s.mapBlocks.toNat →
      (firstMapBlock + .ofNat i).toNat = firstMapBlock.toNat + i) ∧
    (mount d = .error (.failed (.corrupt .metadataOverrun)) ↔
      d.checkSectorSize = .ok () ∧ ∃ s, Superblock.read d = .ok s ∧ s.blockCount.toNat ≤ d.blockCount ∧
        s.blockCount.toNat ≤ s.tableEnd ∧ s.tableEnd < UInt32.size) ∧
    (mount d = .error .aborted ↔
      d.checkSectorSize = .ok () ∧ ∃ s, Superblock.read d = .ok s ∧ s.blockCount.toNat ≤ d.blockCount ∧
        UInt32.size ≤ s.tableEnd) ∧
    (d.Sound → ∀ s : Superblock, s.magic = superblockMagic → superblockBlock.toNat < d.blockCount →
      s.blockCount.toNat ≤ d.blockCount → UInt32.size ≤ s.tableEnd →
      s.blockCount.toNat ≤ s.tableEnd ∧ mount (d.put superblockBlock s.block) = .error .aborted) := by
  refine ⟨fun v h => ?_, fun s i hi => Superblock.toNat_mapBlock hi, mount_eq_overrun_iff, mount_eq_aborted_iff,
    fun hd s hmagic hin hfits hpast => ?_⟩
  -- The end of the table lies in front of a block number, so that it is one itself and no sum wraps.
  · obtain ⟨rfl, -, -, hfits, hroom, hmap, root, hroot, hkind⟩ := mount_eq_ok.mp h
    have hexact := Nat.lt_trans hroom v.superblock.blockCount.toNat_lt
    refine ⟨hroom, hfits, two_le_of_readInode_root hroot, ⟨root, hroot, hkind⟩, ?_, fun ino hino =>
      ⟨toNat_inodeBlock_of_tableEnd hexact hino, recordPlace_of_tableEnd hroom hino⟩⟩
    rw [(layout_of_read hmap).2, Superblock.toNat_firstDataBlock hexact]
  · have hsound := hd.put superblockBlock s.block
    have hcount := Device.blockCount_put s.block hin
    have hread : Superblock.read (d.put superblockBlock s.block) = .ok s :=
      Superblock.read_of_cell hsound (hcount.symm ▸ hin) (by rw [Device.cell_put _ hin, if_pos rfl]) hmagic
    exact ⟨Nat.le_trans (Nat.le_of_lt s.blockCount.toNat_lt) hpast,
      mount_eq_aborted_iff.mpr ⟨hsound.sectors, s, hread, hcount.symm ▸ hfits, hpast⟩⟩

theorem mount_exact_or_aborts_small :
    (∃ v, mount v.device = .ok v ∧ v.superblock = .plan 16 16 ∧ v.recordPlace 15 + inodeSize ≤ 16 * blockSize) ∧
    let s : Superblock := ⟨superblockMagic, 64, 16, 4294967295⟩
    s.tableEnd = 4294967296 ∧ mount ((Device.blank 65536 512).put superblockBlock s.block) = .error .aborted := by
  constructor
  · obtain ⟨v, -, hsuper, hmount⟩ := FileSystem.exists_mounted
    obtain ⟨-, -, -, -, -, hrecords⟩ := (mount_exact_or_aborts v.device).1 v hmount
    have hlast := (hrecords 15 (by rw [hsuper]; decide)).2
    rw [hsuper] at hlast
    exact ⟨v, hmount, hsuper, hlast⟩
  · intro s
    have hcount : (Device.blank 65536 512).blockCount = 64 := Device.blockCount_blank 65536 512
    obtain ⟨-, -, -, -, haborts⟩ := mount_exact_or_aborts (Device.blank 65536 512)
    exact ⟨by decide, (haborts (Device.blank_sound (by decide)) s rfl (by rw [hcount]; decide) (by rw [hcount]; decide)
      (by decide)).2⟩

end Volume

end ImageFS
