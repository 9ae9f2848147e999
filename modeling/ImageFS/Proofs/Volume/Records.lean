import ImageFS.Proofs.Record.RoundTrip
import ImageFS.Proofs.Volume.Blocks
import Mathlib.Data.List.Sort

/-!
# Tables of inode records

A table of inode records may begin anywhere on a device. Wherever it does, it is an array: what is written as
the record of an inode is read back, and no byte outside that record changes. The scan for free numbers finds
just the ones whose records have no link.
-/

set_option autoImplicit false

namespace ImageFS

/-- The end of the inode table in whole numbers. -/
def Superblock.tableEnd (s : Superblock) : Nat := s.firstInodeBlock.toNat + ceilDiv s.inodeCount.toNat inodesPerBlock

theorem Superblock.toNat_inodeBlocks (s : Superblock) :
    s.inodeBlocks.toNat = ceilDiv s.inodeCount.toNat inodesPerBlock := by
  have := s.inodeCount.toNat_lt
  apply UInt32.toNat_ofNat_of_lt'
  simp only [ceilDiv, inodesPerBlock, UInt32.size]
  omega

theorem Superblock.firstDataBlock?_eq (s : Superblock) :
    s.firstDataBlock? = if s.tableEnd < UInt32.size then some s.firstDataBlock else none := by
  rw [firstDataBlock?, toNat_inodeBlocks]
  rfl

theorem Superblock.toNat_firstDataBlock {s : Superblock} (h : s.tableEnd < UInt32.size) :
    s.firstDataBlock.toNat = s.tableEnd := by
  rw [firstDataBlock, UInt32.toNat_add, toNat_inodeBlocks]
  exact Nat.mod_eq_of_lt h

namespace Volume

/-- The whole inode table is on the device, and no access to that fails. -/
structure Tabled (v : Volume) : Prop where
  device : v.device.Sound
  inside : v.superblock.tableEnd ≤ v.device.blockCount

def recordPlace (v : Volume) (ino : UInt32) : Nat := (v.inodeBlock ino).toNat * blockSize + inodeOffset ino

def record (v : Volume) (ino : UInt32) : Except Error Inode :=
  Inode.readAt (v.cell (v.inodeBlock ino)).bytes (inodeOffset ino) ino

def nlinkOf (v : Volume) (ino : UInt32) : UInt32 :=
  Inode.nlinkAt (v.cell (v.inodeBlock ino)).bytes (inodeOffset ino)

/-- The volume with a record replaced. -/
def putInode (v : Volume) (i : Inode) : Volume :=
  v.put (v.inodeBlock i.id) ((v.cell (v.inodeBlock i.id)).patch (inodeOffset i.id) i.encode)

def Vacant (v : Volume) (n : Nat) : Prop :=
  2 ≤ n ∧ n < v.superblock.inodeCount.toNat ∧ v.nlinkOf (.ofNat n) = 0

instance (v : Volume) (n : Nat) : Decidable (v.Vacant n) := inferInstanceAs (Decidable (_ ∧ _ ∧ _))

def vacant (v : Volume) : List UInt32 :=
  ((List.range v.superblock.inodeCount.toNat).filter fun n => v.Vacant n).map .ofNat

variable {v w : Volume} {ino other : UInt32} {i : Inode}

theorem toNat_div_sixteen (ino : UInt32) : (ino / 16).toNat = ino.toNat / 16 := UInt32.toNat_div ino 16

theorem inodeOffset_le (ino : UInt32) : inodeOffset ino + inodeSize ≤ blockSize := by
  have := Nat.mod_lt ino.toNat (show 0 < 16 by decide)
  rw [inodeOffset, show inodesPerBlock = 16 from rfl, show inodeSize = 64 from rfl, show blockSize = 1024 from rfl]
  omega

theorem toNat_inodeBlock_of_tableEnd (hexact : v.superblock.tableEnd < UInt32.size)
    (hino : ino.toNat < v.superblock.inodeCount.toNat) :
    (v.inodeBlock ino).toNat = v.superblock.firstInodeBlock.toNat + ino.toNat / inodesPerBlock := by
  simp only [Superblock.tableEnd, ceilDiv, inodesPerBlock, UInt32.size] at hexact
  rw [inodeBlock, UInt32.toNat_add, toNat_div_sixteen]
  apply Nat.mod_eq_of_lt
  omega

theorem records_apart (v : Volume) (hne : other ≠ ino) :
    v.recordPlace other + inodeSize ≤ v.recordPlace ino ∨ v.recordPlace ino + inodeSize ≤ v.recordPlace other := by
  have hnat : other.toNat ≠ ino.toNat := fun he => hne (UInt32.toNat_inj.mp he)
  have hfit := inodeOffset_le ino
  have hfit' := inodeOffset_le other
  simp only [recordPlace]
  by_cases hblock : v.inodeBlock other = v.inodeBlock ino
  · have hdiv : (other / 16).toNat = (ino / 16).toNat := congrArg UInt32.toNat ((UInt32.add_right_inj _).mp hblock)
    rw [toNat_div_sixteen, toNat_div_sixteen] at hdiv
    rw [hblock, inodeOffset, inodeOffset]
    simp only [inodesPerBlock, inodeSize]
    omega
  · have hapart : (v.inodeBlock other).toNat ≠ (v.inodeBlock ino).toNat := fun he => hblock (UInt32.toNat_inj.mp he)
    simp only [blockSize, inodeSize] at *
    omega

theorem byteAt_record (v : Volume) (ino : UInt32) {k : Nat} (hk : k < inodeSize) :
    byteAt (v.cell (v.inodeBlock ino)).bytes (inodeOffset ino + k) = byteAt v.device.bytes (v.recordPlace ino + k) := by
  have hfit := inodeOffset_le ino
  rw [cell, Device.byte_cell _ _ (by omega), recordPlace, Nat.add_assoc]

theorem record_eq (v : Volume) (ino : UInt32) : v.record ino = Inode.readAt v.device.bytes (v.recordPlace ino) ino := by
  apply Inode.readAt_congr
  intro k hk
  exact v.byteAt_record ino hk

theorem nlinkOf_eq_nlinkAt (v : Volume) (ino : UInt32) :
    v.nlinkOf ino = Inode.nlinkAt v.device.bytes (v.recordPlace ino) := by
  apply Inode.nlinkAt_congr
  intro k hk
  exact v.byteAt_record ino hk

theorem nlinkOf_eq_zero_iff (v : Volume) (ino : UInt32) :
    v.nlinkOf ino = 0 ↔ ∃ i, v.record ino = .ok i ∧ i.isFree = true := by
  constructor
  · intro hzero
    cases hread : v.record ino with
    | ok i =>
      refine ⟨i, rfl, ?_⟩
      rw [Inode.isFree, decide_eq_true_eq, ← Inode.nlink_of_readAt hread]
      exact hzero
    | error e => exact absurd hzero (Inode.readAt_eq_error_iff.mp hread).1.2
  · rintro ⟨i, hread, hfree⟩
    rw [nlinkOf, Inode.nlink_of_readAt hread]
    simpa [Inode.isFree] using hfree

theorem freeMap_putInode : (v.putInode i).freeMap = v.freeMap := rfl

theorem superblock_putInode : (v.putInode i).superblock = v.superblock := rfl

theorem patch_fits (i : Inode) : inodeOffset i.id + i.encode.size ≤ blockSize := by
  rw [Inode.size_encode]
  exact inodeOffset_le i.id

theorem checkInode_of_lt (h : ino.toNat < v.superblock.inodeCount.toNat) : v.checkInode ino = .ok () := by
  apply if_neg
  rw [UInt32.le_iff_toNat_le]
  omega

theorem checkInode_of_le (h : v.superblock.inodeCount.toNat ≤ ino.toNat) :
    v.checkInode ino = .error (.invalidInode ino.toNat) :=
  if_pos (UInt32.le_iff_toNat_le.mpr h)

theorem readInode_of_le (h : v.superblock.inodeCount.toNat ≤ ino.toNat) :
    v.readInode ino = .error (.invalidInode ino.toNat) := by
  rw [readInode, checkInode_of_le h]
  rfl

theorem writeInode_of_le (h : v.superblock.inodeCount.toNat ≤ i.id.toNat) :
    writeInode i v = .error (.invalidInode i.id.toNat) v :=
  bind_of_error (ask_of_error (checkInode_of_le h))

theorem readInode_of_in_range (hd : v.device.Sound) (h : ino.toNat < v.superblock.inodeCount.toNat)
    (hin : (v.inodeBlock ino).toNat < v.device.blockCount) : v.readInode ino = v.record ino := by
  have hread : v.readBlock (v.inodeBlock ino) = .ok (v.cell (v.inodeBlock ino)) := Device.readBlock_eq hd hin
  rw [readInode, checkInode_of_lt h]
  simp only [bind, Except.bind, hread]
  rfl

namespace Tabled

variable (t : v.Tabled)

include t

theorem inodeBlock_in_range (h : ino.toNat < v.superblock.inodeCount.toNat) :
    (v.inodeBlock ino).toNat < v.device.blockCount := by
  have inside := t.inside
  rw [inodeBlock, UInt32.toNat_add, toNat_div_sixteen]
  apply Nat.lt_of_le_of_lt (Nat.mod_le _ _)
  simp only [Superblock.tableEnd, ceilDiv, inodesPerBlock] at inside
  omega

theorem readInode_eq (h : ino.toNat < v.superblock.inodeCount.toNat) : v.readInode ino = v.record ino :=
  readInode_of_in_range t.device h (t.inodeBlock_in_range h)

theorem writeInode_eq (h : i.id.toNat < v.superblock.inodeCount.toNat) : writeInode i v = .ok () (v.putInode i) := by
  have hcheck : ask (·.checkInode i.id) v = .ok () v := ask_of_ok (checkInode_of_lt h)
  have hhome : ask (fun v => .ok (v.inodeBlock i.id)) v = .ok (v.inodeBlock i.id) v := rfl
  rw [writeInode, bind_of_ok hcheck, bind_of_ok hhome, updateBlock_device t.device (t.inodeBlock_in_range h)]
  rfl

theorem cell_putInode (h : i.id.toNat < v.superblock.inodeCount.toNat) (x : UInt32) : (v.putInode i).cell x =
    if x = v.inodeBlock i.id then (v.cell (v.inodeBlock i.id)).patch (inodeOffset i.id) i.encode else v.cell x :=
  Device.cell_put _ (t.inodeBlock_in_range h) x

theorem byteAt_putInode (h : i.id.toNat < v.superblock.inodeCount.toNat) (k : Nat) :
    byteAt (v.putInode i).device.bytes k =
      if v.recordPlace i.id ≤ k ∧ k < v.recordPlace i.id + inodeSize then byteAt i.encode (k - v.recordPlace i.id)
      else byteAt v.device.bytes k := by
  have hput := Device.byteAt_put_patch (t.inodeBlock_in_range h) (patch_fits i) k
  rw [Inode.size_encode] at hput
  exact hput

theorem putInode (h : i.id.toNat < v.superblock.inodeCount.toNat) : (v.putInode i).Tabled where
  device := t.device.put _ _
  inside := by
    have hcount : (v.putInode i).device.blockCount = v.device.blockCount :=
      Device.blockCount_put _ (t.inodeBlock_in_range h)
    rw [hcount, superblock_putInode]
    exact t.inside

theorem byteAt_putInode_self (h : i.id.toNat < v.superblock.inodeCount.toNat) {k : Nat} (hk : k < inodeSize) :
    byteAt (v.putInode i).device.bytes (v.recordPlace i.id + k) = byteAt i.encode k := by
  rw [t.byteAt_putInode h, if_pos ⟨Nat.le_add_right _ _, Nat.add_lt_add_left hk _⟩, Nat.add_sub_cancel_left]

theorem byteAt_putInode_other (h : i.id.toNat < v.superblock.inodeCount.toNat) (hne : other ≠ i.id) {k : Nat}
    (hk : k < inodeSize) :
    byteAt (v.putInode i).device.bytes (v.recordPlace other + k) = byteAt v.device.bytes (v.recordPlace other + k) := by
  have hapart := v.records_apart hne
  rw [t.byteAt_putInode h, if_neg (by omega)]

theorem record_putInode (h : i.id.toNat < v.superblock.inodeCount.toNat) (hfits : Inode.Fits i.body) (other : UInt32) :
    (v.putInode i).record other = if other = i.id then .ok i else v.record other := by
  have hplace : (v.putInode i).recordPlace other = v.recordPlace other := rfl
  rw [record_eq, hplace]
  by_cases hne : other = i.id
  · rw [if_pos hne, hne]
    exact Inode.readAt_encode i hfits fun k hk => t.byteAt_putInode_self h hk
  · rw [if_neg hne, record_eq]
    exact Inode.readAt_congr fun k hk => t.byteAt_putInode_other h hne hk

theorem readInode_putInode (h : i.id.toNat < v.superblock.inodeCount.toNat) (hfits : Inode.Fits i.body)
    (other : UInt32) : (v.putInode i).readInode other = if other = i.id then .ok i else v.readInode other := by
  by_cases hin : other.toNat < v.superblock.inodeCount.toNat
  · rw [(t.putInode h).readInode_eq hin, t.record_putInode h hfits, t.readInode_eq hin]
  · have hne : other ≠ i.id := by
      rintro rfl
      exact hin h
    have hle := Nat.le_of_not_lt hin
    rw [if_neg hne, readInode_of_le hle]
    exact readInode_of_le hle

theorem nlinkOf_putInode (h : i.id.toNat < v.superblock.inodeCount.toNat) (other : UInt32) :
    (v.putInode i).nlinkOf other = if other = i.id then i.nlink else v.nlinkOf other := by
  have hplace : (v.putInode i).recordPlace other = v.recordPlace other := rfl
  rw [nlinkOf_eq_nlinkAt, hplace]
  by_cases hne : other = i.id
  · rw [if_pos hne, hne]
    exact Inode.wordAt_header i (j := 2) (fun k hk => t.byteAt_putInode_self h hk) (by decide)
  · rw [if_neg hne, nlinkOf_eq_nlinkAt]
    exact Inode.nlinkAt_congr fun k hk => t.byteAt_putInode_other h hne hk

end Tabled

theorem filter_vacant (h : 2 ≤ v.superblock.inodeCount.toNat) :
    (List.range v.superblock.inodeCount.toNat).filter (fun n => v.Vacant n) =
      (List.range' 2 (v.superblock.inodeCount.toNat - 2)).filter fun n => v.Vacant n := by
  have hsplit := @List.range'_append_1 0 2 (v.superblock.inodeCount.toNat - 2)
  rw [Nat.zero_add, Nat.add_sub_cancel' h] at hsplit
  have hfirst : (List.range' 0 2).filter (fun n => v.Vacant n) = [] := by
    refine List.filter_eq_nil_iff.mpr fun n hn => ?_
    have hn := (List.mem_range'_1.mp hn).2
    simpa using fun hvacant : v.Vacant n => absurd hvacant.1 (Nat.not_le_of_lt hn)
  rw [List.range_eq_range', ← hsplit, List.filter_append, hfirst, List.nil_append]

theorem flatMap_records (count : Nat) :
    ((List.range count).flatMap fun k => List.range' (k * inodesPerBlock) inodesPerBlock) =
      List.range (count * inodesPerBlock) := by
  induction count with
  | zero => rfl
  | succ count ih =>
    rw [List.range_succ, List.flatMap_append, ih, List.flatMap_singleton, List.range_eq_range', List.range_eq_range',
      Nat.add_mul, Nat.one_mul, ← List.range'_append_1, Nat.zero_add]

theorem filter_records (v : Volume) :
    (List.range (ceilDiv v.superblock.inodeCount.toNat inodesPerBlock * inodesPerBlock)).filter (fun n => v.Vacant n) =
      (List.range v.superblock.inodeCount.toNat).filter fun n => v.Vacant n := by
  have hle : v.superblock.inodeCount.toNat ≤
      ceilDiv v.superblock.inodeCount.toNat inodesPerBlock * inodesPerBlock := by
    simp only [ceilDiv, inodesPerBlock]
    omega
  obtain ⟨more, hmore⟩ := Nat.exists_eq_add_of_le hle
  rw [hmore, List.range_add, List.filter_append, List.append_right_eq_self, List.filter_eq_nil_iff]
  intro n hn
  obtain ⟨k, -, rfl⟩ := List.mem_map.mp hn
  simpa using fun hvacant : v.Vacant _ => absurd hvacant.2.1 (Nat.not_lt_of_le (Nat.le_add_right _ _))

theorem tableBlocks_cases (v : Volume) :
    v.tableBlocks = List.range (ceilDiv v.superblock.inodeCount.toNat inodesPerBlock) ∨
      v.tableBlocks = [] ∧ ∀ n, ¬ v.Vacant n := by
  have htwo : (2 : UInt32).toNat = 2 := rfl
  rw [tableBlocks, Superblock.toNat_inodeBlocks]
  split_ifs with hfew
  · rw [UInt32.le_iff_toNat_le] at hfew
    exact .inr ⟨rfl, fun n hvacant => by have := hvacant.1; have := hvacant.2.1; omega⟩
  · exact .inl rfl

theorem toNat_ofNat_vacant {n : Nat} (h : v.Vacant n) : (UInt32.ofNat n).toNat = n :=
  UInt32.toNat_ofNat_of_lt' (Nat.lt_trans h.2.1 v.superblock.inodeCount.toNat_lt)

theorem mem_vacant : ino ∈ v.vacant ↔ v.Vacant ino.toNat := by
  constructor
  · intro hmem
    obtain ⟨n, hn, rfl⟩ := List.mem_map.mp hmem
    have hvacant : v.Vacant n := of_decide_eq_true (List.mem_filter.mp hn).2
    rw [toNat_ofNat_vacant hvacant]
    exact hvacant
  · intro hvacant
    apply List.mem_map.mpr
    refine ⟨ino.toNat, List.mem_filter.mpr ⟨List.mem_range.mpr hvacant.2.1, ?_⟩, UInt32.ofNat_toNat⟩
    exact decide_eq_true hvacant

theorem pairwise_vacant (v : Volume) : v.vacant.Pairwise (· < ·) := by
  have hsorted : ((List.range v.superblock.inodeCount.toNat).filter fun n => v.Vacant n).Pairwise (· < ·) :=
    List.pairwise_lt_range.sublist List.filter_sublist
  apply List.pairwise_map.mpr
  apply hsorted.imp_of_mem
  intro a b ha hb hlt
  have ha : v.Vacant a := of_decide_eq_true (List.mem_filter.mp ha).2
  have hb : v.Vacant b := of_decide_eq_true (List.mem_filter.mp hb).2
  rw [UInt32.lt_iff_toNat_lt, toNat_ofNat_vacant ha, toNat_ofNat_vacant hb]
  exact hlt

namespace Tabled

variable (t : v.Tabled) {k : Nat}

include t

theorem freeInodesIn_eq (hk : k < ceilDiv v.superblock.inodeCount.toNat inodesPerBlock) :
    v.freeInodesIn k =
      .ok (((List.range' (k * inodesPerBlock) inodesPerBlock).filter fun n => v.Vacant n).map .ofNat) := by
  have hcount := v.superblock.inodeCount.toNat_lt
  have hk' : k * 16 < v.superblock.inodeCount.toNat := by
    simp only [ceilDiv, inodesPerBlock] at hk
    omega
  -- The scan counts blocks while reading goes by the number of the inode; both come to the same block.
  have hblock : ∀ n, k * 16 ≤ n → n < k * 16 + 16 → n < v.superblock.inodeCount.toNat →
      v.superblock.firstInodeBlock + .ofNat k = v.inodeBlock (.ofNat n) := by
    intro n hlow hhigh hn
    have hnat : (UInt32.ofNat n).toNat = n := UInt32.toNat_ofNat_of_lt' (Nat.lt_trans hn hcount)
    have hdiv : UInt32.ofNat n / 16 = .ofNat k := by
      apply UInt32.toNat_inj.mp
      rw [toNat_div_sixteen, hnat, UInt32.toNat_ofNat_of_lt' (by simp only [UInt32.size]; omega)]
      omega
    rw [inodeBlock, hdiv]
  have hread : v.readBlock (v.superblock.firstInodeBlock + .ofNat k) =
      .ok (v.cell (v.superblock.firstInodeBlock + .ofNat k)) := by
    apply Device.readBlock_eq t.device
    rw [hblock (k * 16) (Nat.le_refl _) (by omega) hk']
    apply t.inodeBlock_in_range
    rw [UInt32.toNat_ofNat_of_lt' (Nat.lt_trans hk' hcount)]
    exact hk'
  rw [freeInodesIn]
  simp only [bind, Except.bind, hread, pure, Except.pure]
  refine congrArg (fun l => Except.ok (l.map UInt32.ofNat)) (List.filter_congr fun n hn => ?_)
  have hn := List.mem_range'_1.mp hn
  refine decide_eq_decide.mpr (and_congr_right fun _ => and_congr_right fun hlt => ?_)
  have hnat : (UInt32.ofNat n).toNat = n := UInt32.toNat_ofNat_of_lt' (Nat.lt_trans hlt hcount)
  rw [nlinkOf, ← hblock n hn.1 hn.2 hlt, inodeOffset, hnat]

theorem firstFreeInode_eq (count k : Nat) (hk : k + count ≤ ceilDiv v.superblock.inodeCount.toNat inodesPerBlock) :
    v.firstFreeInode (List.range' k count) =
      match (List.range' (k * inodesPerBlock) (count * inodesPerBlock)).find? fun n => v.Vacant n with
      | some n => .ok (.ofNat n)
      | none => .error .noInodes := by
  -- By the number of blocks still to be scanned: what the first of them has comes before what the others have.
  induction count generalizing k with
  | zero =>
    rw [Nat.zero_mul]
    rfl
  | succ count ih =>
    have hsplit : List.range' (k * inodesPerBlock) ((count + 1) * inodesPerBlock) =
        List.range' (k * inodesPerBlock) inodesPerBlock ++
          List.range' ((k + 1) * inodesPerBlock) (count * inodesPerBlock) := by
      rw [Nat.add_mul k, Nat.one_mul, List.range'_append_1, Nat.add_mul, Nat.one_mul, Nat.add_comm]
    rw [List.range'_succ, firstFreeInode, t.freeInodesIn_eq (by omega), hsplit, List.find?_append, ih (k + 1) (by omega)]
    simp only [bind, Except.bind]
    cases hfound : (List.range' (k * inodesPerBlock) inodesPerBlock).filter fun n => v.Vacant n with
    | nil =>
      have hnone : (List.range' (k * inodesPerBlock) inodesPerBlock).find? (fun n => v.Vacant n) = none := by
        rw [← List.head?_filter, hfound]
        rfl
      rw [hnone, Option.none_or]
      rfl
    | cons n rest =>
      have hsome : (List.range' (k * inodesPerBlock) inodesPerBlock).find? (fun n => v.Vacant n) = some n := by
        rw [← List.head?_filter, hfound]
        rfl
      rw [hsome, Option.some_or]
      rfl

theorem allocateInode_eq :
    v.allocateInode =
      match (List.range v.superblock.inodeCount.toNat).find? fun n => v.Vacant n with
      | some n => .ok (.ofNat n)
      | none => .error .noInodes := by
  rcases v.tableBlocks_cases with hblocks | ⟨hblocks, hnone⟩
  · rw [allocateInode, hblocks, List.range_eq_range', t.firstFreeInode_eq _ 0 (by omega), Nat.zero_mul,
      ← List.range_eq_range', ← List.head?_filter, filter_records, List.head?_filter]
  · have hfind : (List.range v.superblock.inodeCount.toNat).find? (fun n => v.Vacant n) = none := by simp [hnone]
    rw [allocateInode, hblocks, hfind]
    rfl

theorem freeNumbers_eq : v.freeNumbers = .ok v.vacant := by
  rcases v.tableBlocks_cases with hblocks | ⟨hblocks, hnone⟩
  · have hread := mapM_ok v.freeInodesIn _ v.tableBlocks fun k hk => by
      rw [hblocks] at hk
      exact t.freeInodesIn_eq (List.mem_range.mp hk)
    have hfound := congrArg (List.filter fun n => v.Vacant n)
      (flatMap_records (ceilDiv v.superblock.inodeCount.toNat inodesPerBlock))
    rw [List.filter_flatMap, filter_records] at hfound
    rw [freeNumbers, hread, ok_bind, hblocks, ← List.flatMap_def, ← List.map_flatMap, hfound]
    rfl
  · have hfilter : (List.range v.superblock.inodeCount.toNat).filter (fun n => v.Vacant n) = [] := by simp [hnone]
    rw [freeNumbers, hblocks, vacant, hfilter]
    rfl

theorem freeInodes_eq :
    v.freeInodes = .ok ((List.range v.superblock.inodeCount.toNat).filter fun n => v.Vacant n).length := by
  rw [freeInodes, t.freeNumbers_eq, ok_bind, vacant, List.length_map]
  rfl

theorem allocateInode_ok (h : v.allocateInode = .ok ino) :
    v.Vacant ino.toNat ∧ ∀ n < ino.toNat, ¬ v.Vacant n := by
  rw [t.allocateInode_eq] at h
  cases hfound : (List.range v.superblock.inodeCount.toNat).find? fun n => v.Vacant n with
  | none =>
    rw [hfound] at h
    cases h
  | some n =>
    rw [hfound] at h
    cases h
    rw [List.range_eq_range'] at hfound
    obtain ⟨hvacant, hmem, hmin⟩ := List.find?_range'_eq_some.mp hfound
    have hvacant : v.Vacant n := of_decide_eq_true hvacant
    rw [toNat_ofNat_vacant hvacant]
    refine ⟨hvacant, fun j hj => ?_⟩
    have := hmin j (Nat.zero_le _) hj
    simpa using this

theorem allocateInode_of_full (h : ∀ n, ¬ v.Vacant n) : v.allocateInode = .error .noInodes := by
  have hnone : (List.range v.superblock.inodeCount.toNat).find? (fun n => v.Vacant n) = none :=
    List.find?_eq_none.mpr fun n _ => by simpa using h n
  rw [t.allocateInode_eq, hnone]

theorem allocateInode_of_vacant {n : Nat} (h : v.Vacant n) : ∃ ino, v.allocateInode = .ok ino := by
  rw [t.allocateInode_eq]
  cases hfound : (List.range v.superblock.inodeCount.toNat).find? fun n => v.Vacant n with
  | some n => exact ⟨_, rfl⟩
  | none =>
    have := List.find?_eq_none.mp hfound n (List.mem_range.mpr h.2.1)
    simp [h] at this

theorem allocateInode_head :
    v.allocateInode = match v.vacant with | [] => .error .noInodes | ino :: _ => .ok ino := by
  rw [t.allocateInode_eq, ← List.head?_filter, vacant]
  cases (List.range v.superblock.inodeCount.toNat).filter fun n => v.Vacant n with
  | nil => rfl
  | cons n rest => rfl

end Tabled

theorem Tabled.mem_vacant_iff_isFree (t : v.Tabled) :
    ino ∈ v.vacant ↔ 2 ≤ ino.toNat ∧ ∃ i, v.readInode ino = .ok i ∧ i.isFree = true := by
  rw [mem_vacant, Vacant, UInt32.ofNat_toNat, nlinkOf_eq_zero_iff]
  refine and_congr_right fun _ => ⟨fun h => ?_, fun h => ?_⟩
  · rw [t.readInode_eq h.1]
    exact h.2
  · have hin : ino.toNat < v.superblock.inodeCount.toNat := by
      by_contra hle
      obtain ⟨i, hread, -⟩ := h
      rw [readInode_of_le (Nat.le_of_not_lt hle)] at hread
      cases hread
    rw [t.readInode_eq hin] at h
    exact ⟨hin, h⟩

/-- A table of inode records is an array, wherever on the device it begins. A record that was written is read back,
while all other records and all bytes outside it stay as they are; numbers behind the table are refused. The scan
finds just the numbers from 2 on whose records have no link, which are those that are read as free inodes. -/
theorem table_acts_as_array (t : v.Tabled) :
    (∀ i : Inode, i.id.toNat < v.superblock.inodeCount.toNat → Inode.Fits i.body → ∃ w, writeInode i v = .ok () w ∧
      w = { v with device := w.device } ∧ w.readInode i.id = .ok i ∧
      (∀ ino, ino ≠ i.id → w.readInode ino = v.readInode ino) ∧
      w.device.bytes.size = v.device.bytes.size ∧
      ∀ k, k < v.recordPlace i.id ∨ v.recordPlace i.id + inodeSize ≤ k →
        byteAt w.device.bytes k = byteAt v.device.bytes k) ∧
    (∀ i : Inode, v.superblock.inodeCount.toNat ≤ i.id.toNat →
      writeInode i v = .error (.invalidInode i.id.toNat) v ∧ v.readInode i.id = .error (.invalidInode i.id.toNat)) ∧
    ∃ free, v.freeNumbers = .ok free ∧ free.Pairwise (· < ·) ∧
      (∀ ino, ino ∈ free ↔ 2 ≤ ino.toNat ∧ ino.toNat < v.superblock.inodeCount.toNat ∧
        Inode.nlinkAt v.device.bytes (v.recordPlace ino) = 0) ∧
      (∀ ino, ino ∈ free ↔ 2 ≤ ino.toNat ∧ ∃ i, v.readInode ino = .ok i ∧ i.isFree = true) ∧
      v.allocateInode = (match free with | [] => .error .noInodes | ino :: _ => .ok ino) ∧
      v.freeInodes = .ok free.length := by
  refine ⟨fun i h hfits => ?_, fun i h => ⟨writeInode_of_le h, readInode_of_le h⟩, v.vacant, t.freeNumbers_eq,
    v.pairwise_vacant, fun ino => ?_, fun ino => t.mem_vacant_iff_isFree, t.allocateInode_head, ?_⟩
  · refine ⟨v.putInode i, t.writeInode_eq h, rfl, ?_, fun ino hne => ?_, ?_, fun k hk => ?_⟩
    · rw [t.readInode_putInode h hfits, if_pos rfl]
    · rw [t.readInode_putInode h hfits, if_neg hne]
    · exact Device.size_put _ _ (t.inodeBlock_in_range h)
    · rw [t.byteAt_putInode h, if_neg (by omega)]
  · rw [mem_vacant, Vacant, UInt32.ofNat_toNat, nlinkOf_eq_nlinkAt]
  · rw [t.freeInodes_eq, vacant, List.length_map]

theorem table_acts_as_array_last_blocks :
    let s : Superblock := ⟨0, 0, 40, 13⟩
    let v : Volume := ⟨.blank 16384 512, s, .fresh s⟩
    v.Tabled ∧ (∃ w, writeInode ⟨39, 1, .symlink [97]⟩ v = .ok () w ∧ w.readInode 39 = .ok ⟨39, 1, .symlink [97]⟩ ∧
      w.readInode 38 = v.readInode 38) ∧
    writeInode ⟨40, 0, .regular 0 .empty⟩ v = .error (.invalidInode 40) v ∧
    ∃ free, v.freeNumbers = .ok free ∧ (39 ∈ free ↔ Inode.nlinkAt v.device.bytes (15 * blockSize + 448) = 0) := by
  intro s v
  have hcount : v.device.blockCount = 16 := Device.blockCount_blank 16384 512
  have t : v.Tabled := by
    refine ⟨Device.blank_sound (by decide), ?_⟩
    rw [hcount]
    decide
  obtain ⟨hwrite, hrefuse, free, hfree, -, hmem, -⟩ := table_acts_as_array t
  have hfits : Inode.Fits (.symlink [97]) := ⟨by decide, by simp⟩
  obtain ⟨w, hw, -, hread, hothers, -⟩ := hwrite ⟨39, 1, .symlink [97]⟩ (by decide) hfits
  refine ⟨t, ⟨w, hw, hread, hothers 38 (by decide)⟩, (hrefuse ⟨40, 0, .regular 0 .empty⟩ (Nat.le_refl _)).1, free, hfree, ?_⟩
  rw [hmem]
  exact ⟨fun h => h.2.2, fun h => ⟨by decide, by decide, h⟩⟩

end Volume

end ImageFS
