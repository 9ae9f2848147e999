import ImageFS.Proofs.FileSystem.Ownership
import ImageFS.Proofs.Reference.Refinement
import ImageFS.Proofs.Volume.ReadOnly

/-!
# Devices that fail

Reads and writes may begin and cease to fail between any two calls. Metadata is safe from that: none of
it ever counts as free, so none is handed out for data. Files are not. Taking a block undoes its mark when
the map cannot be written; giving one back leaves its mark, and then a file goes on using a block that the
next file may get.
-/

set_option autoImplicit false

namespace ImageFS.FileSystem

open Volume Holding

/-- What comes of formatting a device, calls, and changes of what fails on the device. -/
inductive Troubled : Volume → Prop
  | format {device d : Device} {inodes : UInt32} {v : Volume} :
      Volume.format inodes device = .ok v d → Troubled v
  | call {v : Volume} (c : Call) : Troubled v → Troubled (c.run v).2
  | faults {v : Volume} (f : Faults) : Troubled v → Troubled (v.withFaults f)

variable {v w u : Volume} {T : UInt32 → Inode} {ino b : UInt32} {c : Chain} {n mode : UInt32} {f : Faults}
  {e : Error} {slot : Slot} {size : Nat} {p : Place}

theorem Reachable.troubled (h : Reachable v) : Troubled v := by
  induction h with
  | format _ hrun => exact .format hrun
  | call c _ ih => exact .call c ih

theorem alike_withFaults (v : Volume) (f : Faults) : Alike v (v.withFaults f) := alike_device v _

/-- The map tells of the blocks that the superblock tells of, and has the metadata as taken. -/
structure Fenced (v : Volume) : Prop where
  count : v.superblock.blockCount = v.freeMap.blockCount
  first : v.superblock.firstDataBlock = v.freeMap.firstData
  guarded : v.Guarded

theorem Fenced.alike (h : Fenced v) (s : Alike v w) : Fenced w :=
  ⟨by rw [s.superblock, s.count, h.count], by rw [s.superblock, s.first, h.first], s.guarded h.guarded⟩

theorem fenced_blueprint {device : Device} {inodes : UInt32} (h : blueprint device inodes = .ok v) : Fenced v := by
  obtain ⟨-, -, -, hroom, rfl⟩ := blueprint_eq h
  exact ⟨rfl, rfl, guarded_fresh hroom⟩

theorem Troubled.induct_layout {P : Volume → Prop} (h : Troubled v)
    (plan : ∀ {device inodes v}, blueprint device inodes = .ok v → P v) (alike : ∀ {v w}, P v → Alike v w → P w) :
    P v := by
  induction h with
  | @format device d inodes w hrun =>
    unfold Volume.format at hrun
    split at hrun
    · cases hrun
    · rename_i u hplan
      split at hrun
      · rename_i hlay
        cases hrun
        exact alike (plan hplan) ((steady_of_respects fun _ => respects_layOut).ok hlay)
      · cases hrun
  | call c _ ih => exact alike ih (alike_run c _)
  | faults f _ ih => exact alike ih (alike_withFaults _ f)

theorem Troubled.fenced (h : Troubled v) : Fenced v := h.induct_layout fenced_blueprint Fenced.alike

theorem metadata_never_free (h : Troubled v) {b : Nat} (hb : b < v.superblock.firstDataBlock.toNat) :
    v.freeMap.isFree b = false := by
  rw [h.fenced.first] at hb
  rw [FreeMap.isFree_eq, h.fenced.guarded b hb, Bool.and_false]

theorem allocate_data (h : Troubled v) (hrun : allocate v = .ok b w) :
    v.superblock.firstDataBlock ≤ b ∧ b < v.superblock.blockCount := by
  have hfree := v.freeMap.lowestFree_eq_some (lowestFree_of_allocate hrun)
  rw [UInt32.le_iff_toNat_le, UInt32.lt_iff_toNat_lt, h.fenced.count]
  refine ⟨?_, v.freeMap.lt_of_isFree hfree⟩
  by_contra hmeta
  rw [metadata_never_free h (Nat.lt_of_not_le hmeta)] at hfree
  cases hfree

section

variable (hlookup : c.lookup v slot = .ok b) (hb : b ≠ nullPointer) (hfree : free b v = .error e w)

include hlookup hb hfree

theorem retract_error : c.retract slot v = .error e w := by
  have hdata := Chain.ask_required hb .data v
  cases slot with
  | direct i =>
    obtain rfl : c.directAt i = b := Except.ok.inj hlookup
    rw [Chain.retract, bind_of_ok hdata, bind_of_error hfree]
  | indirect i =>
    obtain ⟨table, htable, hread⟩ := ok_of_bind hlookup
    rw [Chain.retract, bind_of_ok (ask_of_ok htable), bind_of_ok (ask_of_ok hread), bind_of_ok hdata,
      bind_of_error hfree]
  | doubly outer inner =>
    obtain ⟨top, htop, hlookup⟩ := ok_of_bind hlookup
    obtain ⟨entry, hentry, hlookup⟩ := ok_of_bind hlookup
    obtain ⟨table, htable, hread⟩ := ok_of_bind hlookup
    rw [Chain.retract, bind_of_ok (ask_of_ok htop), bind_of_ok (ask_of_ok hentry), bind_of_ok (ask_of_ok htable),
      bind_of_ok (ask_of_ok hread), bind_of_ok hdata, bind_of_error hfree]

end

theorem resize_error (hshort : c.blockCount ≤ 65802) (hless : blocksForSize size < c.blockCount)
    (hlookup : c.lookup v (Tiers.onDisk.locate (c.blockCount - 1)) = .ok b) (hb : b ≠ nullPointer)
    (hfree : free b v = .error e w) : Chain.resize size (c, v) = .error e (c, w) := by
  have hsize : size ≤ 65802 * blockSize := by
    simp only [blocksForSize, ceilDiv, blockSize] at *
    omega
  have hle : ¬ c.size.toNat < size := by
    intro hlt
    have hmore : c.blockCount ≤ blocksForSize size := Chain.blocksForSize_le (Nat.le_of_lt hlt)
    omega
  have hzero : blocksForSize size - c.blockCount = 0 := by omega
  obtain ⟨n, hn⟩ : ∃ n, c.blockCount - blocksForSize size = n + 1 := ⟨c.blockCount - blocksForSize size - 1, by omega⟩
  have hshrink : c.shrink v = .error e w := by
    rw [Chain.shrink, if_neg (by omega)]
    exact bind_of_error (retract_error hlookup hb hfree)
  have hshrinkBy : Chain.shrinkBy (n + 1) (c, v) = .error e (c, w) := bind_of_error (update_of_error hshrink)
  rw [Chain.resize, object_bind]
  dsimp only
  rw [if_neg (Chain.resize_guard hsize), if_neg hle, hzero,
    bind_of_ok (catch_of_ok (show Chain.growBy 0 (c, v) = .ok () (c, v) from rfl)), hn, bind_of_error hshrinkBy]

theorem setSize_interrupted {e' : Error} (hlive : liveInode v ino = .ok ⟨ino, n, .regular mode c⟩)
    (hresize : Chain.resize size (c, v) = .error e (c, w)) (hkind : e.isRefusal = false)
    (hwrite : writeInode ⟨ino, n, .regular mode c⟩ w = .error e' u) : setSize ino size v = .error e' u := by
  have hinode : Inode.resize size (⟨ino, n, .regular mode c⟩, v) = .error e (⟨ino, n, .regular mode c⟩, w) :=
    Consistent.inode_resize_eq.trans (onPart_of_error hresize)
  have hchange : changing ⟨ino, n, .regular mode c⟩ (Inode.resize size) v = .error e' u := by
    unfold changing
    rw [hinode]
    simp only [hkind]
    exact bind_of_error hwrite
  rw [setSize, bind_of_ok (ask_of_ok hlive), bind_of_error hchange]

theorem Consistent.uses_congr (h : Consistent v T) (superblock : w.superblock = v.superblock)
    (bytes : w.device.bytes = v.device.bytes) (sectorSize : w.device.sectorSize = v.device.sectorSize)
    (readable : ∀ sector, w.device.faults.unreadable sector = false) : Uses w ino p b ↔ Uses v ino p b := by
  have hsame : SameReads v w :=
    ⟨superblock, Device.readBlock_congr bytes sectorSize h.ledger.sound.device.readable readable⟩
  have hcell : w.cell = v.cell := Device.cell_congr bytes
  rw [Uses, Uses, chainOf, chainOf, hsame.liveInode, hcell]

/-- On a device that refuses all writes, making a file shorter by a block or more fails and changes no byte
of the device. So the file has its last block still, but in memory that block is free now, and it stays so
when the device is well again. -/
theorem refused_truncation (h : Reachable v) (hlive : liveInode v ino = .ok ⟨ino, n, .regular mode c⟩)
    (hless : blocksForSize size < c.blockCount) (hf : f.ReadOnly) :
    ∃ b sector w, (Call.setSize ino size).run (v.withFaults f) = (.error (.device (.broken sector)), w) ∧
      w.device.bytes = v.device.bytes ∧ v.freeMap.isFree b.toNat = false ∧ w.freeMap = v.freeMap.markFree b.toNat ∧
      Troubled (w.withFaults .none) ∧ Uses (w.withFaults .none) ino (.data (c.blockCount - 1)) b ∧
      (w.withFaults .none).freeMap.isFree b.toNat = true := by
  obtain ⟨T, hT⟩ := h.consistent
  obtain ⟨hino, hfile⟩ := hT.ledger.liveInode_iff.mp hlive
  have hv := hT.ledger.sound
  have held := hT.held_file hino hfile
  have hlast : c.blockCount - 1 < c.blockCount := by omega
  have hdata := held.isData hlast
  have hne := held.data_ne_null hlast
  have hbusy := held.busy (.data (c.blockCount - 1)) hne
  have hused : Uses v ino (.data (c.blockCount - 1)) (c.pointer v.cell (.data (c.blockCount - 1))) :=
    hT.uses_iff.mpr ⟨c, chains_regular hino (by rw [hfile]), hne, rfl⟩
  have hlookup := Chain.lookup_eq held hv hlast
  generalize c.pointer v.cell (.data (c.blockCount - 1)) = b at hdata hne hbusy hused hlookup
  have hsame : SameReads v (v.withFaults f) := ⟨superblock_withFaults v f, readBlock_withFaults hv hf⟩
  -- The block is marked as free in memory, and then the write of the map is refused.
  obtain ⟨first, f₁, hf₁, hfree⟩ := free_refused hv hf hdata
  have hresize := resize_error held.short hless ((hsame.lookup c _).trans hlookup) hne hfree
  obtain ⟨second, f₂, -, hwrite⟩ := writeInode_refused hT.ledger.laidOut hv hf₁ (v.freeMap.markFree b.toNat)
    (i := ⟨ino, n, .regular mode c⟩) hino.1
  have hkind : (Error.device (.broken first)).isRefusal = false := rfl
  have hset := setSize_interrupted ((hsame.liveInode ino).trans hlive) hresize hkind
    hwrite
  have hrun : (Call.setSize ino size).run (v.withFaults f) = _ := run_of_error (bind_of_error hset)
  have htroubled : Troubled ((Call.setSize ino size).run (v.withFaults f)).2 := .call _ (.faults f h.troubled)
  rw [hrun] at htroubled
  refine ⟨b, second, _, hrun, rfl, ?_, rfl, .faults .none htroubled, ?_, ?_⟩
  · rw [v.freeMap.isFree_eq_bit hdata.2]
    exact hbusy
  · refine (hT.uses_congr ?_ ?_ ?_ ?_).mpr hused
    exacts [rfl, rfl, rfl, fun _ => rfl]
  · exact (v.freeMap.isFree_markFree hdata.2 b.toNat).trans (if_pos rfl)

theorem refused_truncation_block : ∃ v b w, Reachable v ∧ Troubled (w.withFaults .none) ∧
    w = ((Call.setSize 2 0).run (v.withFaults ⟨fun _ => false, fun _ => true, fun _ => true, 0, false⟩)).2 ∧
      Uses (w.withFaults .none) 2 (.data 0) b ∧ (w.withFaults .none).freeMap.isFree b.toNat = true := by
  obtain ⟨v, c, hv, hlive, -, -, hcount⟩ := exists_bytes
  have hf : Faults.ReadOnly ⟨fun _ => false, fun _ => true, fun _ => true, 0, false⟩ :=
    ⟨fun _ => rfl, fun _ => rfl, fun _ => rfl⟩
  have hless : blocksForSize 0 < c.blockCount := by
    rw [hcount]
    decide
  obtain ⟨b, sector, w, hrun, -, -, -, htroubled, hused, hfree⟩ := refused_truncation hv hlive hless hf
  rw [hcount] at hused
  exact ⟨v, b, w, hv, htroubled, by rw [hrun], hused, hfree⟩

end ImageFS.FileSystem
