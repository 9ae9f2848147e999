import ImageFS.Proofs.Chain.Shrinking
import ImageFS.Proofs.FileSystem.FaultyDevice
import ImageFS.Proofs.FileSystem.ImageMap

/-!
# Chains of any content on mounted volumes

A mounted volume is one that was mounted or formatted, whatever the image held, and on which blocks were then taken,
given back and written, while the device failed or not. All that is left of such a volume to rely on is that it lies
on its device. That is enough for taking blocks off a chain that may hold anything.
-/

set_option autoImplicit false

namespace ImageFS

open Volume

variable {α β ε : Type} {v w : Volume} {d : Device} {n : Nat}

theorem ok_of_mapM {f : α → Except ε β} {l : List α} {ys : List β} (h : l.mapM f = .ok ys) :
    ∀ x ∈ l, ∃ y, f x = .ok y := by
  induction l generalizing ys with
  | nil => simp
  | cons x l ih =>
    rw [List.mapM_cons] at h
    obtain ⟨y, hy, h⟩ := ok_of_bind h
    obtain ⟨ys', hys, -⟩ := ok_of_bind h
    intro z hz
    rcases List.mem_cons.mp hz with rfl | hz
    · exact ⟨y, hy⟩
    · exact ih hys z hz

theorem ok_of_mapM_vector {m : Nat} {f : α → Except ε β} {xs : Vector α m} {ys : Vector β m} (h : xs.mapM f = .ok ys) :
    ∀ x ∈ xs, ∃ y, f x = .ok y := by
  have harray : Vector.toArray <$> xs.mapM f = xs.toArray.mapM f := Vector.toArray_mapM
  have hlist : Array.toList <$> xs.toArray.mapM f = xs.toArray.toList.mapM f := Array.toList_mapM
  rw [← harray, h] at hlist
  exact fun x hx => ok_of_mapM hlist.symm x (Vector.mem_toList_iff.mpr hx)

namespace Volume

/-- What comes of mounting a device or formatting one when blocks are taken, given back and written, with or without
success, and the device begins and ceases to fail. -/
inductive Mounted : Volume → Prop
  | mount {d : Device} {v : Volume} : Volume.mount d = .ok v → Mounted v
  | format {d d' : Device} {inodes : UInt32} {v : Volume} : Volume.format inodes d = .ok v d' → Mounted v
  | work {v w : Volume} : Mounted v → Worked v w → Mounted w
  | faults {v : Volume} (f : Faults) : Mounted v → Mounted (v.withFaults f)

theorem Seated.left {act : VolumeM α} (h : Seated n v) (hact : Respects (Along (Seated n)) act) :
    Seated n (left act v) := by
  unfold Volume.left
  rcases hact.cases ⟨rfl, h⟩ with ⟨a, w, _, hrun, -, -, hw⟩ | ⟨e, w, _, hrun, -, -, hw⟩
  · rw [hrun]
    exact hw
  · rw [hrun]
    exact hw

theorem Seated.worked (h : Seated n v) (hw : Worked v w) : Seated n w := by
  induction hw with
  | start => exact h
  | allocate _ ih => exact ih.left Blockwise.allocate
  | free b _ ih => exact ih.left (Blockwise.free b)
  | writeBlock b block _ ih => exact ih.left (Blockwise.writeBlock b block)

theorem seated_mount (h : mount d = .ok v) : Seated d.blockCount v := by
  obtain ⟨rfl, hsectors, -, hblocks, -, hmap, -⟩ := mount_eq_ok.mp h
  refine ⟨hsectors, rfl, ?_, fun b hb => ?_⟩
  · rw [(layout_of_read hmap).1]
    exact hblocks
  rw [(layout_of_read hmap).1] at hb
  obtain ⟨blocks, hblocks, -⟩ := ok_of_bind hmap
  have hpart : b / bitsPerBlock < v.superblock.mapBlocks.toNat :=
    FreeMap.part_lt ⟨v.superblock.blockCount, v.superblock.firstDataBlock, blocks⟩ hb
  have hhome : FreeMap.home b ∈ FreeMap.homes v.superblock := by
    rw [FreeMap.homes, FreeMap.home, Vector.mem_ofFn]
    exact ⟨⟨_, hpart⟩, rfl⟩
  obtain ⟨block, hread⟩ := ok_of_mapM_vector hblocks _ hhome
  exact (Device.readBlock_calm hread).1

theorem seated_blueprint {inodes : UInt32} (h : blueprint d inodes = .ok v) : Seated d.blockCount v := by
  obtain ⟨hsectors, hblocks, -, hroom, rfl⟩ := blueprint_eq h
  obtain ⟨hfirst, hdata⟩ := toNat_plan (.ofNat d.blockCount) inodes
  have hcount : (UInt32.ofNat d.blockCount).toNat = d.blockCount := UInt32.toNat_ofNat_of_lt' hblocks
  refine ⟨hsectors, rfl, Nat.le_of_eq hcount, fun b hb => ?_⟩
  have hhome := (inMap_home hb).2
  have hroom : (Superblock.plan (.ofNat d.blockCount) inodes).firstDataBlock.toNat <
    (UInt32.ofNat d.blockCount).toNat := hroom
  have hmapped : (FreeMap.home b).toNat <
    firstMapBlock.toNat + (Superblock.mapBlocksFor (.ofNat d.blockCount)).toNat := hhome
  omega

theorem seated_format {d' : Device} {inodes : UInt32} (h : format inodes d = .ok v d') : Seated d.blockCount v := by
  unfold format at h
  split at h
  · cases h
  · rename_i p hplan
    have hleft := (seated_blueprint hplan).left respects_layOut
    unfold Volume.left at hleft
    split at h
    · rename_i hlay
      cases h
      rw [hlay] at hleft
      exact hleft
    · cases h

theorem Mounted.seated (h : Mounted v) : ∃ n, Seated n v := by
  induction h with
  | mount hrun => exact ⟨_, seated_mount hrun⟩
  | format hrun => exact ⟨_, seated_format hrun⟩
  | work _ hw ih =>
    obtain ⟨n, hn⟩ := ih
    exact ⟨n, hn.worked hw⟩
  | faults f _ ih =>
    obtain ⟨n, hn⟩ := ih
    exact ⟨n, hn.sectors, hn.blocks, hn.fits, hn.homes⟩

end Volume

namespace FileSystem

open Chain Holding

theorem Troubled.mounted (h : Troubled v) : Mounted v := by
  induction h with
  | format hrun => exact .format hrun
  | @call v c _ ih =>
    refine ih.work ?_
    unfold Call.run
    rcases (respects_perform (R := Course v) c).cases ⟨rfl, .start⟩ with
      ⟨a, w, _, hrun, -, -, hw⟩ | ⟨e, w, _, hrun, -, -, hw⟩
    · rw [hrun]
      exact hw
    · rw [hrun]
      exact hw
  | faults f _ ih => exact ih.faults f

/-- On a device without faults, taking the last block off a chain that may hold anything either finds the image corrupt
and changes nothing, neither the chain nor the map nor the device, or takes off one block; of no blocks, none. So the
loop that takes off the blocks behind the first `wanted` ones ends, after no more steps than there are blocks, and only
a corrupt image ends it early. -/
theorem shrink_all_or_nothing (h : Mounted v) (hd : v.device.FaultFree) (c : Chain) :
    ((∃ cause, (update shrink).run c v = (.error (.corrupt cause), c, v)) ∨
      ∃ c' w, (update shrink).run c v = (.ok (), c', w) ∧ c'.blockCount = c.blockCount - 1) ∧
    ∀ wanted, ∃ k r c' w, ShrinksTo wanted c v k r c' w ∧ k ≤ c.blockCount ∧
      (shrinkBy (c.blockCount - wanted)).run c v = (r, c', w) ∧
      (r = .ok () ∧ c'.blockCount = min c.blockCount wanted ∨ ∃ cause, r = .error (.corrupt cause)) := by
  obtain ⟨n, hn⟩ := h.seated
  have hquiet : Quiet n v := ⟨hn, hd⟩
  refine ⟨?_, fun wanted => ?_⟩
  · rcases shrink_cases hquiet c with ⟨cause, hrun⟩ | ⟨c', w, hrun, hcount, -⟩
    · exact .inl ⟨cause, Holding.run_of_error (update_of_error hrun)⟩
    · exact .inr ⟨c', w, Holding.run_of_ok (update_of_ok hrun), hcount⟩
  · obtain ⟨k, r, c', w, hloop, hk, hrest⟩ := shrinksTo_ends hquiet c wanted
    exact ⟨k, r, c', w, hloop, by omega, hrest⟩

theorem shrink_all_or_nothing_foreign : ∃ (v : Volume) (c d : Chain), Mounted v ∧ v.device.FaultFree ∧
    c.blockCount = 1 ∧ c.directAt 0 = 0xFFFFFFFF ∧ d = { size := 0xFFFFFFFF } ∧
    (∃ c' w, (update shrink).run c v = (.ok (), c', w) ∧ c'.blockCount = 0) ∧
    ∃ cause, (update shrink).run d v = (.error (.corrupt cause), d, v) := by
  obtain ⟨v, _, hformat⟩ := exists_new
  have hv : Mounted v := .format hformat
  have hd := (format_consistent (blank_faultFree 16384 512) hformat).ledger.sound.device.toFaultFree
  obtain ⟨c, hcount, hdirect⟩ : ∃ c : Chain, c.blockCount = 1 ∧ c.directAt 0 = 0xFFFFFFFF :=
    ⟨{ size := 1024, direct := Vector.replicate 10 0xFFFFFFFF }, by decide, rfl⟩
  obtain ⟨d, hnull⟩ : ∃ d : Chain, d = { size := 0xFFFFFFFF } := ⟨_, rfl⟩
  refine ⟨v, c, d, hv, hd, hcount, hdirect, hnull, ?_, ?_⟩
  · rcases (shrink_all_or_nothing hv hd c).1 with ⟨cause, hrun⟩ | ⟨c', w, hrun, hcount'⟩
    · have hfree : free (c.directAt 0) v = .ok () v := by
        refine free_of_not_data fun hdata => ?_
        have hlt := hdata.2
        have := v.freeMap.blockCount.toNat_lt
        rw [hdirect, UInt32.lt_iff_toNat_lt] at hlt
        exact absurd hlt (by change ¬ 4294967295 < _; omega)
      have hretract : c.retract (.direct 0) v = .ok (c.setDirect 0 nullPointer) v := by
        rw [retract, bind_of_ok (ask_required (by rw [hdirect]; decide) .data v)]
        exact bind_of_ok hfree
      have hshrink : c.shrink v =
          .ok { c.setDirect 0 nullPointer with size := .ofNat ((c.blockCount - 1) * blockSize) } v := by
        rw [shrink, if_neg (by omega), hcount]
        exact bind_of_ok hretract
      rw [Holding.run_of_ok (update_of_ok hshrink)] at hrun
      cases hrun
    · exact ⟨c', w, hrun, by omega⟩
  · rcases (shrink_all_or_nothing hv hd d).1 with ⟨cause, hrun⟩ | ⟨c', w, hrun, -⟩
    · exact ⟨cause, hrun⟩
    · have hlocate : Tiers.onDisk.locate (d.blockCount - 1) = .doubly 16382 245 := by
        rw [hnull]
        decide
      have hretract : d.retract (.doubly 16382 245) v = .error (.corrupt (.missing .doublyIndirect)) v := by
        rw [hnull]
        exact bind_of_error (ask_required_null .doublyIndirect v)
      have hshrink : d.shrink v = .error (.corrupt (.missing .doublyIndirect)) v := by
        rw [shrink, if_neg (by rw [hnull]; decide), hlocate]
        exact bind_of_error hretract
      rw [Holding.run_of_error (update_of_error hshrink)] at hrun
      cases hrun

end FileSystem

end ImageFS
