import ImageFS.Proofs.Volume.Allocation
import ImageFS.Proofs.Volume.Table

/-!
# Mounting what is on the device

The superblock and the free map on the device of a volume are the ones in memory, so mounting the device
gives the volume again.
-/

set_option autoImplicit false

namespace ImageFS

variable {v w : Volume} {d : Device}

theorem Superblock.decode_block {s : Superblock} (h : s.magic = superblockMagic) : decode s.block.bytes = .ok s := by
  have hlength : s.encode.length = 16 := by
    rw [encode, length_encodeWords]
    rfl
  have hsize : s.encode.toByteArray.size = 16 := by rw [List.size_toByteArray, hlength]
  have hbyte : ∀ k < 16, byteAt s.block.bytes (0 + k) = (s.encode ++ []).getD k 0 := by
    intro k hk
    have hfit : 0 + s.encode.toByteArray.size ≤ blockSize := by
      rw [hsize]
      decide
    have hpatch := Block.byte_patch Block.zero hfit k
    rw [if_pos (by omega), Nat.sub_zero, byteAt_toByteArray] at hpatch
    rw [Nat.zero_add, List.append_nil]
    exact hpatch
  have hword : ∀ {j : Nat} (hj : j < 4), wordAt s.block.bytes (4 * j) =
      [s.magic, s.blockCount, s.inodeCount, s.firstInodeBlock][j] := by
    intro j hj
    have := wordAt_encodeWords [s.magic, s.blockCount, s.inodeCount, s.firstInodeBlock] [] hj hbyte
    rwa [Nat.zero_add] at this
  have h0 : wordAt s.block.bytes 0 = s.magic := hword (j := 0) (by decide)
  have h1 : wordAt s.block.bytes 4 = s.blockCount := hword (j := 1) (by decide)
  have h2 : wordAt s.block.bytes 8 = s.inodeCount := hword (j := 2) (by decide)
  have h3 : wordAt s.block.bytes 12 = s.firstInodeBlock := hword (j := 3) (by decide)
  rw [decode, s.block.size_bytes, if_neg (by decide), h0, h1, h2, h3, if_neg (fun hne => hne h)]

theorem Superblock.read_of_block {b : Block} (h : d.readBlock superblockBlock = .ok b) : read d = decode b.bytes := by
  rw [read, h]
  rfl

namespace Volume

theorem mapM_vector_ok {ε α β : Type} {n : Nat} {f : α → Except ε β} {g : α → β} {xs : Vector α n}
    (h : ∀ x ∈ xs, f x = .ok (g x)) : xs.mapM f = .ok (xs.map g) := by
  have hlist := mapM_ok f g xs.toList fun x hx => h x (Vector.mem_toList_iff.mp hx)
  have harray : Vector.toArray <$> xs.mapM f = xs.toArray.mapM f := Vector.toArray_mapM
  have hmap : Array.toList <$> xs.toArray.mapM f = xs.toArray.toList.mapM f := Array.toList_mapM
  rw [← harray, Vector.toList_toArray, hlist] at hmap
  cases hrun : xs.mapM f with
  | error e =>
    rw [hrun] at hmap
    cases hmap
  | ok ys =>
    rw [hrun] at hmap
    have hys : ys.toList = xs.toList.map g := Except.ok.inj hmap
    rw [← Vector.toList_map] at hys
    rw [Vector.toList_inj.mp hys]

theorem error_of_mapM_vector {ε α β : Type} {n : Nat} {f : α → Except ε β} {xs : Vector α n} {e : ε}
    (h : xs.mapM f = .error e) : ∃ x ∈ xs, f x = .error e := by
  have harray : Vector.toArray <$> xs.mapM f = xs.toArray.mapM f := Vector.toArray_mapM
  have hlist : Array.toList <$> xs.toArray.mapM f = xs.toArray.toList.mapM f := Array.toList_mapM
  rw [← harray, h] at hlist
  obtain ⟨x, hx, hrun⟩ := error_of_mapM hlist.symm
  exact ⟨x, Vector.mem_toList_iff.mp hx, hrun⟩

theorem part_homes {s : Superblock} (m : Memory) {b : Nat} (hb : b < s.blockCount.toNat) :
    FreeMap.part ⟨s.blockCount, s.firstDataBlock, (FreeMap.homes s).map m⟩ b = m (FreeMap.home b) := by
  have hpart : b / bitsPerBlock < s.mapBlocks.toNat :=
    FreeMap.part_lt ⟨s.blockCount, s.firstDataBlock, (FreeMap.homes s).map m⟩ hb
  have hcell : ((FreeMap.homes s).map m)[b / bitsPerBlock]? = some (m (FreeMap.home b)) := by
    rw [Vector.getElem?_eq_getElem hpart, Vector.getElem_map, FreeMap.homes, Vector.getElem_ofFn]
    rfl
  change Option.getD (((FreeMap.homes s).map m)[b / bitsPerBlock]?) .zero = _
  rw [hcell, Option.getD_some]

theorem freeMap_read_device (hd : d.Sound) {s : Superblock}
    (hin : ∀ i < s.mapBlocks.toNat, (firstMapBlock + .ofNat i).toNat < d.blockCount) :
    FreeMap.read d s = .ok ⟨s.blockCount, s.firstDataBlock, (FreeMap.homes s).map d.cell⟩ := by
  have hread : ∀ b ∈ FreeMap.homes s, d.readBlock b = .ok (d.cell b) := by
    intro b hb
    obtain ⟨i, hi, rfl⟩ := Vector.mem_iff_getElem.mp hb
    rw [FreeMap.homes, Vector.getElem_ofFn]
    exact Device.readBlock_eq hd (hin i hi)
  rw [FreeMap.read, mapM_vector_ok hread]
  rfl

theorem freeMap_read_of_synced (hv : v.Sound) (hcount : v.superblock.blockCount = v.freeMap.blockCount)
    (hfirst : v.superblock.firstDataBlock = v.freeMap.firstData)
    (hmap : firstMapBlock.toNat + (Superblock.mapBlocksFor v.freeMap.blockCount).toNat ≤ v.freeMap.blockCount.toNat)
    (hs : v.Synced) : FreeMap.read v.device v.superblock = .ok v.freeMap := by
  have hin : ∀ i < v.superblock.mapBlocks.toNat, (firstMapBlock + .ofNat i).toNat < v.device.blockCount := by
    intro i hi
    rw [Superblock.mapBlocks, hcount] at hi
    exact hv.in_range (Nat.lt_of_lt_of_le (inMap_add hi).2 hmap)
  rw [freeMap_read_device hv.device hin]
  refine congrArg Except.ok (FreeMap.ext_part hcount hfirst fun b hb => ?_)
  have hin : b < v.freeMap.blockCount.toNat := by
    rw [← hcount]
    exact hb
  exact (part_homes v.cell hb).trans (hs b hin)

section

variable (l : v.LaidOut) (hv : v.Sound)

include l hv

theorem superblock_read : Superblock.read v.device = .ok v.superblock := by
  have hin : superblockBlock.toNat < v.freeMap.blockCount.toNat :=
    l.in_range hv (Nat.lt_of_lt_of_le (by decide) (Nat.le_add_right _ _))
  have hread := readBlock_eq hv hin
  rw [l.recorded] at hread
  rw [Superblock.read_of_block hread, Superblock.decode_block l.magic_eq]

theorem freeMap_read (hs : v.Synced) : FreeMap.read v.device v.superblock = .ok v.freeMap :=
  freeMap_read_of_synced hv l.blockCount_eq l.firstData_eq (Nat.le_trans l.map_le hv.room) hs

end

theorem layout_of_read {s : Superblock} {m : FreeMap} (h : FreeMap.read d s = .ok m) :
    m.blockCount = s.blockCount ∧ m.firstData = s.firstDataBlock := by
  obtain ⟨blocks, -, h⟩ := ok_of_bind h
  cases h
  exact ⟨rfl, rfl⟩

theorem checkLayout_eq (d : Device) (s : Superblock) : checkLayout d s =
    if d.blockCount < s.blockCount.toNat then
      .error (.failed (.geometry (.shortDevice s.blockCount d.blockCount)))
    else if UInt32.size ≤ s.tableEnd then .error .aborted
    else if s.blockCount.toNat ≤ s.tableEnd then .error (.failed (.corrupt .metadataOverrun))
    else .ok () := by
  rw [checkLayout, s.firstDataBlock?_eq]
  by_cases hfits : d.blockCount < s.blockCount.toNat
  · rw [if_pos hfits, if_pos hfits]
  rw [if_neg hfits, if_neg hfits]
  by_cases hexact : s.tableEnd < UInt32.size
  · rw [if_pos hexact, if_neg (Nat.not_le_of_lt hexact)]
    simp only [UInt32.le_iff_toNat_le, Superblock.toNat_firstDataBlock hexact]
  · rw [if_neg hexact, if_pos (Nat.le_of_not_lt hexact)]

theorem checkLayout_eq_ok {s : Superblock} :
    checkLayout d s = .ok () ↔ s.blockCount.toNat ≤ d.blockCount ∧ s.tableEnd < s.blockCount.toNat := by
  have hsize := s.blockCount.toNat_lt
  rw [checkLayout_eq]
  constructor
  · intro h
    split_ifs at h with hfits hexact hroom
    exact ⟨Nat.le_of_not_lt hfits, Nat.lt_of_not_le hroom⟩
  · rintro ⟨hfits, hroom⟩
    rw [if_neg (Nat.not_lt_of_le hfits), if_neg (Nat.not_le_of_lt (Nat.lt_trans hroom hsize)),
      if_neg (Nat.not_le_of_lt hroom)]

theorem load_eq_ok {s : Superblock} : load d s = .ok v ↔
    v.device = d ∧ v.superblock = s ∧ FreeMap.read d s = .ok v.freeMap ∧
      ∃ root, v.readInode rootInode = .ok root ∧ root.kind = .directory := by
  constructor
  · intro h
    obtain ⟨m, hm, h⟩ := ok_of_bind h
    obtain ⟨root, hroot, h⟩ := ok_of_bind h
    by_cases hkind : root.kind ≠ .directory
    · rw [if_pos hkind] at h
      cases h
    rw [if_neg hkind] at h
    cases h
    exact ⟨rfl, rfl, hm, root, hroot, not_not.mp hkind⟩
  · rintro ⟨rfl, rfl, hm, root, hroot, hkind⟩
    rw [load, hm]
    simp only [ok_bind, hroot]
    rw [if_neg (not_not_intro hkind)]
    rfl

/-- What mounting looks at: the size of the sectors, the superblock, whether both fit the device, the map as it
is, and the root. -/
theorem mount_eq_ok : mount d = .ok v ↔
    v.device = d ∧ d.checkSectorSize = .ok () ∧ Superblock.read d = .ok v.superblock ∧
      v.superblock.blockCount.toNat ≤ d.blockCount ∧ v.superblock.tableEnd < v.superblock.blockCount.toNat ∧
      FreeMap.read d v.superblock = .ok v.freeMap ∧
      ∃ root, v.readInode rootInode = .ok root ∧ root.kind = .directory := by
  constructor
  · intro h
    obtain ⟨_, hsectors, h⟩ := ok_of_bind h
    obtain ⟨s, hs, h⟩ := ok_of_bind h
    obtain ⟨_, hlayout, h⟩ := ok_of_bind h
    obtain ⟨hfits, hroom⟩ := checkLayout_eq_ok.mp hlayout
    obtain ⟨rfl, rfl, hm, hroot⟩ := load_eq_ok.mp (ok_of_mapError h)
    exact ⟨rfl, ok_of_mapError hsectors, ok_of_mapError hs, hfits, hroom, hm, hroot⟩
  · rintro ⟨rfl, hsectors, hs, hfits, hroom, hm, hroot⟩
    have hload : load v.device v.superblock = .ok v := load_eq_ok.mpr ⟨rfl, rfl, hm, hroot⟩
    rw [mount, hsectors, hs]
    simp only [Except.mapError, ok_bind, checkLayout_eq_ok.mpr ⟨hfits, hroom⟩, hload]

section

variable (l : v.LaidOut) (hv : v.Sound)

include l hv

theorem mount_eq (hs : v.Synced) (hroom : v.superblock.firstDataBlock.toNat < v.superblock.blockCount.toNat)
    {root : Inode} (hroot : v.readInode rootInode = .ok root) (hkind : root.kind = .directory) :
    mount v.device = .ok v := by
  rw [l.firstData_eq, ← l.tableEnd_eq] at hroom
  exact mount_eq_ok.mpr ⟨rfl, hv.device.sectors, superblock_read l hv, l.blockCount_eq ▸ hv.fits, hroom,
    freeMap_read l hv hs, root, hroot, hkind⟩

theorem mount_put_map (hmount : mount v.device = .ok v) {b : UInt32} (hb : v.InMap b) (block : Block) :
    mount (v.device.put b block) = .ok ⟨v.device.put b block, v.superblock, v.superblock.blockCount,
      v.superblock.firstDataBlock, (FreeMap.homes v.superblock).map (v.device.put b block).cell⟩ := by
  obtain ⟨-, -, hsuper, hfits, hroom, -, root, hroot, hkind⟩ := mount_eq_ok.mp hmount
  have hb' := hv.in_range (l.in_range hv hb.2)
  have hd := hv.device.put b block
  have hcount := Device.blockCount_put block hb'
  have hread : ∀ x : UInt32, x.toNat < v.device.blockCount → ¬ v.InMap x →
      (v.device.put b block).readBlock x = v.device.readBlock x := by
    intro x hx hout
    have hne : x ≠ b := fun he => hout (he ▸ hb)
    rw [Device.readBlock_eq hd (hcount.symm ▸ hx), Device.readBlock_eq hv.device hx,
      Device.cell_put block hb', if_neg hne]
  have hmap : ∀ i < v.superblock.mapBlocks.toNat, (firstMapBlock + .ofNat i).toNat < (v.device.put b block).blockCount := by
    intro i hi
    rw [Superblock.mapBlocks, l.blockCount_eq] at hi
    rw [hcount]
    exact hv.in_range (l.in_range hv (inMap_add hi).2)
  have hone : superblockBlock.toNat < v.device.blockCount :=
    hv.in_range (l.in_range hv (Nat.lt_of_lt_of_le (by decide) (Nat.le_add_right _ _)))
  have hino : rootInode.toNat < v.superblock.inodeCount.toNat := Nat.lt_trans (by decide) l.inodes
  refine mount_eq_ok.mpr ⟨rfl, hd.sectors, ?_, hcount.symm ▸ hfits, hroom, freeMap_read_device hd hmap, root, ?_, hkind⟩
  · rw [Superblock.read, hread superblockBlock hone fun hm => absurd hm.1 (by decide)]
    exact hsuper
  · have htable := hread (v.inodeBlock rootInode) (hv.in_range (l.inodeBlock_in_range hv hino)) (l.not_inMap hino)
    rw [readInode, readBlock] at hroot ⊢
    rw [← htable] at hroot
    exact hroot

end

end Volume

end ImageFS
