import ImageFS.Proofs.Volume.ReadOnly
import ImageFS.Proofs.Volume.Seated

/-!
# Devices whose inode table refuses writes

A volume is put beside the same volume on a device of which only the inode table may refuse writes. Blocks are taken,
given back and written alike on both. The record of an inode is written there as a whole, or up to the sector that
refuses: then the link count in the record is the new one if it lies in front of that sector, and all other link counts
are as before.
-/

set_option autoImplicit false

namespace ImageFS

/-- Everything can be read, and no sectors are fragile but those of the inode table. -/
structure Faults.InTable (f : Faults) (v : Volume) : Prop where
  readable : ∀ sector, f.unreadable sector = false
  fragile : ∀ sector, f.fragile sector = true →
    v.superblock.firstInodeBlock.toNat ≤ sector * v.device.sectorSize / blockSize ∧
      sector * v.device.sectorSize / blockSize < v.superblock.firstDataBlock.toNat

namespace Volume

variable {α β : Type} {f : Faults} {v w x y : Volume} {b : UInt32} {ino j : UInt32} {i : Inode} {sector : Nat}

/-- The sound volume `x` has come from `v`, and `y` is `x` on a device with the faults `f`, which are in the inode
table, however often writes to fragile sectors were tried. -/
structure Beside (f : Faults) (v x y : Volume) : Prop where
  arranged : v.Arranged
  faults : f.InTable v
  evolves : Evolves v x
  sectorSize : x.device.sectorSize = v.device.sectorSize
  eq : ∃ n, y = x.withFaults { f with attempts := n }

namespace Beside

variable (h : Beside f v x y)

include h

theorem sound : x.Sound := h.evolves.sound

theorem sameReads : x.SameReads y := by
  obtain ⟨n, rfl⟩ := h.eq
  exact ⟨rfl, Device.readBlock_congr rfl rfl h.sound.device.readable h.faults.readable⟩

theorem freeMap : y.freeMap = x.freeMap := by
  obtain ⟨n, rfl⟩ := h.eq
  rfl

theorem next (e : Evolves x w) (hs : w.device.sectorSize = x.device.sectorSize) (n : Nat) :
    Beside f v w (w.withFaults { f with attempts := n }) :=
  ⟨h.arranged, h.faults, h.evolves.trans e, hs.trans h.sectorSize, n, rfl⟩

theorem sectors : y.device.checkSectorSize = .ok () := by
  obtain ⟨n, rfl⟩ := h.eq
  exact h.sound.device.sectors

theorem in_range (hb : b.toNat < x.freeMap.blockCount.toNat) : b.toNat < y.device.blockCount := by
  obtain ⟨n, rfl⟩ := h.eq
  exact h.sound.in_range hb

theorem sturdy (hb : b.toNat < v.superblock.firstInodeBlock.toNat ∨ v.superblock.firstDataBlock.toNat ≤ b.toNat) :
    y.device.Sturdy b := by
  obtain ⟨n, rfl⟩ := h.eq
  intro sector hlow hhigh
  by_contra hfragile
  have hrange := h.faults.fragile sector (Bool.not_eq_false _ ▸ hfragile)
  rw [← h.sectorSize, Device.sector_block h.sound.device.sectors hlow hhigh] at hrange
  omega

theorem sturdy_data (hb : v.IsData b) : y.device.Sturdy b := by
  refine h.sturdy (.inr ?_)
  rw [h.arranged.firstData_eq]
  exact hb.firstData_le

theorem sturdy_home {n : Nat} (hn : n < x.freeMap.blockCount.toNat) : y.device.Sturdy (FreeMap.home n) := by
  refine h.sturdy (.inl ?_)
  rw [h.arranged.table]
  exact (inMap_home (h.evolves.count ▸ hn)).2

theorem writeBlock (hb : v.IsData b) (block : Block) :
    Agree (Beside f v) (Volume.writeBlock b block x) (Volume.writeBlock b block y) := by
  have hb' := (h.evolves.isData_iff b).mpr hb
  have hy := writeBlock_sturdy h.sectors (h.in_range hb'.2) (h.sturdy_data hb) block
  obtain ⟨tries, hfaults⟩ := h.eq
  have hput : y.put b block = (x.put b block).withFaults { f with attempts := tries } := by
    rw [hfaults]
    simp only [put, withFaults, Device.put_faults]
  rw [writeBlock_eq h.sound hb'.2, hy, hput]
  exact .ok (h.next (h.sound.evolves_put_data hb' block) (Device.sectorSize_put _ _ _) tries)

theorem updateBlock (hb : v.IsData b) (change : Block → Block) :
    Agree (Beside f v) (Volume.updateBlock b change x) (Volume.updateBlock b change y) :=
  .ask h (h.sameReads.reads b) fun block _ => h.writeBlock hb (change block)

omit h in
theorem respects_writePointer (hb : v.IsData b) (slot : Nat) (target : UInt32) :
    Respects (Beside f v) (Volume.writePointer b slot target) := fun _ _ h =>
  .ask h rfl fun _ _ => h.updateBlock hb _

theorem allocate : Agree (Beside f v) (Volume.allocate x) (Volume.allocate y) := by
  cases hlow : x.freeMap.lowestFree with
  | none =>
    rw [allocate_of_none hlow, allocate_of_none (h.freeMap.symm ▸ hlow)]
    exact .error h
  | some n =>
    have hfree := x.freeMap.lowestFree_eq_some hlow
    have hn := x.freeMap.lt_of_isFree hfree
    have hhome := h.in_range (home_in_range (h.sound.dataStart_le_of_free hfree) hn)
    have hy := allocate_sturdy h.sectors (h.freeMap.symm ▸ hlow) hhome (h.sturdy_home hn)
    obtain ⟨tries, hfaults⟩ := h.eq
    have htake : y.take n = (x.take n).withFaults { f with attempts := tries } := by
      rw [hfaults]
      simp only [take, withFaults, Device.put_faults]
    rw [allocate_eq h.sound hlow, hy, htake]
    exact .ok (h.next (h.sound.evolves_take hfree) (Device.sectorSize_put _ _ _) tries)

omit h in
theorem respects_free (b : UInt32) : Respects (Beside f v) (free b) := by
  intro x y h
  have l := h.arranged.evolves h.evolves
  by_cases hdata : x.freeMap.firstData ≤ b ∧ b < x.freeMap.blockCount
  · have hb : x.IsData b := l.isData_iff.mpr (by rwa [l.firstData_eq, l.blockCount_eq])
    have hy := free_sturdy h.sectors (h.freeMap.symm ▸ hdata) (h.in_range (home_in_range hb.1 hb.2))
      (h.sturdy_home hb.2)
    obtain ⟨tries, hfaults⟩ := h.eq
    have hback : y.giveBack b.toNat = (x.giveBack b.toNat).withFaults { f with attempts := tries } := by
      rw [hfaults]
      simp only [giveBack, withFaults, Device.put_faults]
    rw [free_eq h.sound hb, hy, hback]
    exact .ok (h.next (h.sound.evolves_giveBack hb) (Device.sectorSize_put _ _ _) tries)
  · rw [free_of_not_data hdata, free_of_not_data (h.freeMap.symm ▸ hdata)]
    exact .ok h

theorem withFresh {use : UInt32 → VolumeM α}
    (huse : ∀ b x' y', Fresh x b x' → v.IsData b → Beside f v x' y' → Agree (Beside f v) (use b x') (use b y')) :
    Agree (Beside f v) (Volume.withFresh use x) (Volume.withFresh use y) := by
  refine h.allocate.bind fun b u u' hrun h' => ?_
  obtain ⟨n, hlow, rfl, rfl⟩ : ∃ n, x.freeMap.lowestFree = some n ∧ b = .ofNat n ∧ u = x.take n := by
    cases hlow : x.freeMap.lowestFree with
    | none =>
      rw [allocate_of_none hlow] at hrun
      cases hrun
    | some n =>
      rw [allocate_eq h.sound hlow] at hrun
      cases hrun
      exact ⟨n, rfl, rfl, rfl⟩
  have hfresh := h.sound.fresh hlow
  have hdata := (h.evolves.isData_iff _).mp hfresh.data
  refine Agree.tryCatch ?_ fun e s t _ hst =>
    Respects.bind (.tryCatch (respects_free _) fun _ => .pure _) (fun _ => .throw e) s t hst
  refine (h'.writeBlock hdata .zero).bind fun _ s t hwrite hst => huse _ s t ?_ hdata hst
  rw [writeBlock_eq h'.sound ((h'.evolves.isData_iff _).mpr hdata).2] at hwrite
  cases hwrite
  exact hfresh

end Beside

def linkSector (v : Volume) (ino : UInt32) : Nat :=
  ((v.inodeBlock ino).toNat * blockSize + (inodeOffset ino + 8)) / v.device.sectorSize

theorem linkSector_congr (superblock : w.superblock = v.superblock)
    (sectorSize : w.device.sectorSize = v.device.sectorSize) (ino : UInt32) : w.linkSector ino = v.linkSector ino := by
  rw [linkSector, linkSector, inodeBlock, inodeBlock, superblock, sectorSize]

/-- The volume `w` is `v` with the block of the record of `i` written in front of a sector. -/
structure PutBefore (v : Volume) (i : Inode) (sector : Nat) (w : Volume) : Prop where
  evolves : Evolves v w
  freeMap : w.freeMap = v.freeMap
  sectorSize : w.device.sectorSize = v.device.sectorSize
  cell : ∀ x, x ≠ v.inodeBlock i.id → w.cell x = v.cell x
  byte : ∀ k < blockSize, byteAt (w.cell (v.inodeBlock i.id)).bytes k =
    if ((v.inodeBlock i.id).toNat * blockSize + k) / v.device.sectorSize < sector then
      byteAt ((v.putInode i).cell (v.inodeBlock i.id)).bytes k
    else byteAt (v.cell (v.inodeBlock i.id)).bytes k

theorem nlinkOf_congr (superblock : w.superblock = v.superblock)
    (h : w.cell (v.inodeBlock ino) = v.cell (v.inodeBlock ino)) : w.nlinkOf ino = v.nlinkOf ino := by
  have hhome : w.inodeBlock ino = v.inodeBlock ino := by rw [inodeBlock, inodeBlock, superblock]
  rw [nlinkOf, nlinkOf, hhome, h]

section

variable (l : v.Arranged) (hv : v.Sound) (hi : i.id.toNat < v.superblock.inodeCount.toNat)

include l hv hi

namespace PutBefore

variable (p : PutBefore v i sector w)

include p

omit l hv hi in
theorem inodeBlock_eq (j : UInt32) : w.inodeBlock j = v.inodeBlock j := by
  rw [inodeBlock, inodeBlock, p.evolves.superblock]

theorem nlinkOf_other (hne : j ≠ i.id) : w.nlinkOf j = v.nlinkOf j := by
  by_cases hblock : v.inodeBlock j = v.inodeBlock i.id
  · rw [nlinkOf, nlinkOf, p.inodeBlock_eq]
    refine Inode.nlinkAt_congr fun k hk => ?_
    have hfits := inodeOffset_le j
    rw [hblock, p.byte _ (by omega)]
    split
    · rw [← hblock]
      exact ((v.putInode i).byteAt_record j hk).trans
        (((l.tabled hv).byteAt_putInode_other hi hne hk).trans (v.byteAt_record j hk).symm)
    · rfl
  · exact nlinkOf_congr p.evolves.superblock (p.cell _ hblock)

omit l hv hi in
theorem byte_nlink {k : Nat} (hk : k < 4) :
    byteAt (w.cell (v.inodeBlock i.id)).bytes (inodeOffset i.id + 8 + k) =
      if ((v.inodeBlock i.id).toNat * blockSize + (inodeOffset i.id + 8) + k) / v.device.sectorSize < sector then
        byteAt ((v.putInode i).cell (v.inodeBlock i.id)).bytes (inodeOffset i.id + 8 + k)
      else byteAt (v.cell (v.inodeBlock i.id)).bytes (inodeOffset i.id + 8 + k) := by
  have hfits := inodeOffset_le i.id
  have hsize : inodeSize = 64 := rfl
  rw [p.byte _ (by omega), Nat.add_assoc ((v.inodeBlock i.id).toNat * blockSize)]

omit l hv hi in
theorem nlinkOf_of_le (h : sector ≤ v.linkSector i.id) : w.nlinkOf i.id = v.nlinkOf i.id := by
  rw [nlinkOf, nlinkOf, p.inodeBlock_eq]
  refine wordAt_congr fun k hk => ?_
  have hle : v.linkSector i.id ≤
      ((v.inodeBlock i.id).toNat * blockSize + (inodeOffset i.id + 8) + k) / v.device.sectorSize :=
    Nat.div_le_div_right (Nat.le_add_right _ k)
  rw [p.byte_nlink hk, if_neg (by omega)]

omit l hv hi in
theorem nlinkOf_of_lt (hsize : 4 ∣ v.device.sectorSize) (h : v.linkSector i.id < sector) :
    w.nlinkOf i.id = (v.putInode i).nlinkOf i.id := by
  rw [nlinkOf, nlinkOf, p.inodeBlock_eq]
  refine wordAt_congr fun k hk => ?_
  have hsame : ((v.inodeBlock i.id).toNat * blockSize + (inodeOffset i.id + 8) + k) / v.device.sectorSize =
      v.linkSector i.id := by
    obtain ⟨m, hm⟩ := hsize
    rw [linkSector, hm, ← Nat.div_div_eq_div_mul, ← Nat.div_div_eq_div_mul]
    refine congrArg (· / m) ?_
    simp only [inodeOffset, inodeSize, blockSize]
    omega
  rw [p.byte_nlink hk, if_pos (by omega)]
  rfl

theorem nlinkOf_of_eq (h : v.nlinkOf i.id = i.nlink) : w.nlinkOf i.id = v.nlinkOf i.id := by
  have hput := (l.tabled hv).nlinkOf_putInode hi i.id
  rw [if_pos rfl, ← h, nlinkOf, nlinkOf] at hput
  rw [nlinkOf, nlinkOf, p.inodeBlock_eq]
  refine wordAt_congr fun k hk => ?_
  rw [p.byte_nlink hk]
  split
  · exact byteAt_of_wordAt hput hk
  · rfl

end PutBefore

end

theorem putBefore_torn (l : x.Arranged) (hx : x.Sound) (hi : i.id.toNat < x.superblock.inodeCount.toNat) {k : Nat}
    (hk : k ≤ x.device.sectorsPerBlock) (n : Nat) :
    let block := (x.cell (x.inodeBlock i.id)).patch (inodeOffset i.id) i.encode
    PutBefore x i ((x.inodeBlock i.id).toNat * x.device.sectorsPerBlock + k)
      { x with device := x.device.torn (x.inodeBlock i.id) block k n } := by
  have hs := hx.device.sectors
  have hhome := hx.in_range (l.inodeBlock_in_range hx hi)
  have hput := cell_putInode l hx hi (x.inodeBlock i.id)
  rw [if_pos rfl] at hput
  dsimp only
  rw [← hput]
  generalize hblock : (x.putInode i).cell (x.inodeBlock i.id) = block
  have hcell : ∀ a, a ≠ x.inodeBlock i.id → (x.device.torn (x.inodeBlock i.id) block k n).cell a = x.device.cell a :=
    fun a ha => Device.cell_torn hs hhome hk block n ha
  refine ⟨⟨⟨⟨hx.device.toFaultFree.torn _ _ _ _, sectors_torn hs _ block k n⟩, ?_, hx.room, hx.guarded⟩, rfl, rfl, rfl,
    fun synced a ha => ?_⟩, rfl, Device.sectorSize_torn _ _ _ _ _, hcell, fun a ha => ?_⟩
  · change _ ≤ (x.device.torn _ block k n).blockCount
    rw [Device.blockCount_torn hs hhome hk]
    exact hx.fits
  · have hne : FreeMap.home a ≠ x.inodeBlock i.id := fun he => l.not_inMap hi (he ▸ inMap_home ha)
    exact (hcell _ hne).trans (synced a ha)
  · obtain ⟨hpos, hmul⟩ := Device.sector_size hs
    have hsector : ((x.inodeBlock i.id).toNat * blockSize + a) / x.device.sectorSize <
        (x.inodeBlock i.id).toNat * x.device.sectorsPerBlock + k ↔ a < k * x.device.sectorSize := by
      rw [← hmul, ← Nat.mul_assoc, Nat.add_comm, Nat.add_mul_div_right _ _ hpos, Nat.add_comm, Nat.add_lt_add_iff_left,
        Nat.div_lt_iff_lt_mul hpos]
    rw [if_congr hsector rfl rfl, hblock]
    exact Device.byte_torn hs hhome hk block n ha

theorem putBefore_putInode (l : x.Arranged) (hx : x.Sound) (hi : i.id.toNat < x.superblock.inodeCount.toNat) :
    PutBefore x i ((x.inodeBlock i.id).toNat * x.device.sectorsPerBlock + x.device.sectorsPerBlock) (x.putInode i) := by
  obtain ⟨hpos, hmul⟩ := Device.sector_size hx.device.sectors
  refine ⟨evolves_putInode l hx hi, rfl, Device.sectorSize_put _ _ _, fun a ha => ?_, fun k hk => ?_⟩
  · rw [cell_putInode l hx hi, if_neg ha]
  · rw [if_pos]
    have hblock : x.device.sectorsPerBlock * x.device.sectorSize = blockSize := hmul
    rw [Nat.div_lt_iff_lt_mul hpos, Nat.add_mul, Nat.mul_assoc, hblock]
    omega

theorem Beside.writeInode (h : Beside f v x y) (hi : i.id.toNat < x.superblock.inodeCount.toNat) :
    Ends (fun _ t => Beside f v (x.putInode i) t ∧ ∀ sector,
        sector * v.device.sectorSize / blockSize = (x.inodeBlock i.id).toNat → f.fragile sector = true →
          ∃ m, f.fails m = false)
      (fun e t => ∃ sector u, e = .device (.broken sector) ∧ f.fragile sector = true ∧ PutBefore x i sector u ∧
        Beside f v u t) (Volume.writeInode i y) := by
  have hs := h.sound.device.sectors
  have l := h.arranged.evolves h.evolves
  have hhome := l.inodeBlock_in_range h.sound hi
  have hcheck : y.checkInode i.id = .ok () := by
    rw [h.sameReads.checkInode]
    exact if_neg (by rw [UInt32.le_iff_toNat_le]; exact Nat.not_le_of_lt hi)
  have hblock : ask (fun v => .ok (v.inodeBlock i.id)) y = .ok (x.inodeBlock i.id) y :=
    ask_of_ok (congrArg _ (h.sameReads.inodeBlock _))
  have hread := (h.sameReads.reads (x.inodeBlock i.id)).trans (readBlock_eq h.sound hhome)
  rw [Volume.writeInode, bind_of_ok (ask_of_ok hcheck), bind_of_ok hblock, Volume.updateBlock,
    bind_of_ok (ask_of_ok hread)]
  rcases writeBlock_breaks h.sectors (h.in_range hhome)
      ((x.cell (x.inodeBlock i.id)).patch (inodeOffset i.id) i.encode) with
    ⟨n, hrun, hspares⟩ | ⟨k, n, hk, hfragile, hrun⟩
  · rw [hrun]
    refine .ok ⟨?_, fun sector hsector hfragile => ?_⟩
    · have hnext := h.next (evolves_putInode l h.sound hi) (Device.sectorSize_put _ _ _) n
      obtain ⟨tries, rfl⟩ := h.eq
      rw [Device.torn_whole h.sectors]
      simp only [putInode, put, withFaults, Device.put_faults] at hnext ⊢
      exact hnext
    · rw [← h.sectorSize] at hsector
      obtain ⟨hlow, hhigh⟩ := Device.sectors_of_block hs hsector
      obtain ⟨tries, rfl⟩ := h.eq
      have hplace : (x.inodeBlock i.id).toNat * x.device.sectorsPerBlock +
          (sector - (x.inodeBlock i.id).toNat * x.device.sectorsPerBlock) = sector := Nat.add_sub_of_le hlow
      exact hspares (sector - (x.inodeBlock i.id).toNat * x.device.sectorsPerBlock)
        (show _ < x.device.sectorsPerBlock by omega) (by rw [← hplace] at hfragile; exact hfragile)
  · obtain ⟨tries, rfl⟩ := h.eq
    rw [hrun]
    have hpart := putBefore_torn l h.sound hi (Nat.le_of_lt hk) n
    refine .error ⟨_, _, rfl, hfragile, hpart, ?_⟩
    have hnext := h.next hpart.evolves hpart.sectorSize n
    simp only [withFaults, Device.torn_faults] at hnext ⊢
    exact hnext

end Volume

end ImageFS
