import ImageFS.Proofs.FileSystem.Layout
import ImageFS.Proofs.FileSystem.LooseChains
import ImageFS.Proofs.FileSystem.Persistence

/-!
# Free maps that come with an image

Mounting takes the free map as it stands on the device. Giving back never adds metadata to what is free, but
what the image has as free of it is handed out as any other block: growth does not stop in front of the free
map and the inode table, and clears what it takes.
-/

set_option autoImplicit false

namespace ImageFS

namespace Volume

def left {α : Type} (act : VolumeM α) (v : Volume) : Volume :=
  match act v with
  | .ok _ w | .error _ w => w

/-- What comes of `v` when blocks are taken, given back and written, with or without success. -/
inductive Worked (v : Volume) : Volume → Prop
  | start : Worked v v
  | allocate {w : Volume} : Worked v w → Worked v (left allocate w)
  | free {w : Volume} (b : UInt32) : Worked v w → Worked v (left (free b) w)
  | writeBlock {w : Volume} (b : UInt32) (block : Block) : Worked v w → Worked v (left (writeBlock b block) w)

end Volume

open Volume

variable {α : Type} {v w : Volume} {d : Device}

theorem Steady.left {act : VolumeM α} (h : Steady act) (v : Volume) : Alike v (left act v) := by
  unfold Volume.left
  cases hrun : act v with
  | ok a w => exact h.ok hrun
  | error e w => exact h.error hrun

namespace Volume

theorem Worked.alike (h : Worked v w) : Alike v w := by
  induction h with
  | start => exact .refl v
  | allocate _ ih => exact ih.trans (steady_allocate.left _)
  | free b _ ih => exact ih.trans ((steady_free b).left _)
  | writeBlock b block _ ih => exact ih.trans ((steady_writeBlock b block).left _)

/-- One volume, put beside itself, that has come of `v`. -/
def Course (v w u : Volume) : Prop := w = u ∧ Worked v w

theorem respects_course {act : VolumeM α} (h : ∀ w, Worked v w → Worked v (left act w)) : Respects (Course v) act := by
  rintro w _ ⟨rfl, hw⟩
  have hleft := h w hw
  unfold left at hleft
  cases hrun : act w with
  | ok a u =>
    rw [hrun] at hleft
    exact .ok ⟨rfl, hleft⟩
  | error e u =>
    rw [hrun] at hleft
    exact .error ⟨rfl, hleft⟩

instance blockwise_course (v : Volume) : Blockwise (Course v) where
  indistinct := by
    rintro w _ ⟨rfl, -⟩
    exact .refl w
  writeBlock b block := respects_course fun _ => .writeBlock b block
  allocate := respects_course fun _ => .allocate
  free b := respects_course fun _ => .free b

end Volume

namespace Chain

open Holding

theorem respects_adjustment (R : Volume → Volume → Prop) [Blockwise R] (a : Adjustment) : Respects (InHand R) a.act := by
  cases a with
  | grow => exact .update respects_grow
  | shrink => exact .update respects_shrink
  | resize size => exact respects_resize size

theorem worked_adjustment (h : Worked v w) (c : Chain) (a : Adjustment) : Worked v (a.act.run c w).2.2 := by
  rcases (respects_adjustment (Course v) a).cases_inHand c (show Course v w w from ⟨rfl, h⟩) with
    ⟨_, c', w', _, hrun, -, -, hw⟩ | ⟨e, c', w', _, hrun, -, -, hw⟩
  · rw [Holding.run_of_ok hrun]
    exact hw
  · rw [Holding.run_of_error hrun]
    exact hw

section

variable (hd : v.device.Sound) (hfits : v.freeMap.blockCount.toNat ≤ v.device.blockCount) {i : Nat}
  (hlow : v.freeMap.lowestFree = some i)

include hlow in
theorem toNat_lowestFree : firstMapBlock.toNat ≤ (UInt32.ofNat i).toNat ∧ (UInt32.ofNat i).toNat = i ∧
    i < v.freeMap.blockCount.toNat := by
  have hlt := v.freeMap.lt_of_isFree (v.freeMap.lowestFree_eq_some hlow)
  have hnat : (UInt32.ofNat i).toNat = i := UInt32.toNat_ofNat_of_lt' (Nat.lt_trans hlt v.freeMap.blockCount.toNat_lt)
  exact ⟨hnat.symm ▸ v.freeMap.le_of_lowestFree hlow, hnat, hlt⟩

include hfits hlow in
theorem home_lowestFree : (FreeMap.home i).toNat < v.device.blockCount := by
  obtain ⟨hmap, hnat, hlt⟩ := toNat_lowestFree hlow
  have htwo : firstMapBlock.toNat = 2 := rfl
  rw [toNat_home (Nat.lt_trans hlt v.freeMap.blockCount.toNat_lt)]
  simp only [bitsPerBlock]
  omega

include hfits hlow in
theorem lowestFree_in_range : (UInt32.ofNat i).toNat < (v.take i).device.blockCount := by
  obtain ⟨-, hnat, hlt⟩ := toNat_lowestFree hlow
  rw [take, Device.blockCount_put _ (home_lowestFree hfits hlow), hnat]
  exact Nat.lt_of_lt_of_le hlt hfits

include hd hfits hlow

theorem extend_empty_device : empty.extend (.direct 0) v =
    .ok (empty.setDirect 0 (.ofNat i)) ((v.take i).put (.ofNat i) .zero) := by
  rw [extend, withFresh, bind_of_ok (allocate_device hd hlow (home_lowestFree hfits hlow))]
  exact catch_of_ok (bind_of_ok (writeBlock_device (hd.put _ _) (lowestFree_in_range hfits hlow) .zero))

theorem grow_empty_device :
    ∃ c w, Chain.empty.grow v = .ok c w ∧ c.blockAt w 0 = .ok (.ofNat i) ∧ w.readBlock (.ofNat i) = .ok .zero := by
  obtain ⟨hmap, -, -⟩ := toNat_lowestFree hlow
  have hin := lowestFree_in_range hfits hlow
  have htaken : (v.take i).device.Sound := hd.put _ _
  have hcount : ({ empty.setDirect 0 (.ofNat i) with size := .ofNat (1 * blockSize) } : Chain).blockCount = 1 :=
    blockCount_of_size (by omega) rfl
  refine ⟨{ empty.setDirect 0 (.ofNat i) with size := .ofNat (1 * blockSize) }, (v.take i).put (.ofNat i) .zero,
    ?_, ?_, ?_⟩
  · have hmax : 0 < Tiers.onDisk.maxBlocks := by decide
    rw [grow, blockCount_empty, if_neg (Nat.not_le_of_lt hmax)]
    exact bind_of_ok (extend_empty_device hd hfits hlow)
  · have hdirect : (empty.setDirect 0 (.ofNat i)).root (.data 0) = .ofNat i := by
      rw [root_setDirect (by decide), if_pos rfl]
    have hne : UInt32.ofNat i ≠ nullPointer := fun hz => by
      rw [hz] at hmap
      exact absurd hmap (by decide)
    rw [blockAt, if_neg (by omega), ← required_eq hne .data, ← hdirect]
    rfl
  · have hread := Device.readBlock_eq (htaken.put (.ofNat i) .zero) (b := .ofNat i) (by
      rwa [Device.blockCount_put _ hin])
    rw [Device.cell_put _ hin, if_pos rfl] at hread
    exact hread

end

end Chain

namespace FileSystem

open Chain

/-- After any work on a mounted volume, what is handed out lies on it, behind the superblock; a block of the
metadata is handed out only if the image came with it as free. Changing the lengths of chains, whatever
they hold, is such work. And if the image has a block of the metadata as free, the map's own among them, then the
first block that a chain gets is one, and it is cleared. -/
theorem image_metadata_handed_out (h : mount d = .ok v) :
    (∀ w b u, Worked v w → allocate w = .ok b u →
      firstMapBlock ≤ b ∧ b < v.superblock.blockCount ∧
        (b < v.superblock.firstDataBlock → v.freeMap.isFree b.toNat = true)) ∧
    (∀ w (c : Chain) (a : Adjustment), Worked v w → Worked v (a.act.run c w).2.2) ∧
    (d.FaultFree → ∀ m, firstMapBlock.toNat ≤ m → m < v.superblock.firstDataBlock.toNat → v.freeMap.isFree m = true →
      ∃ c w b, Chain.empty.grow v = .ok c w ∧ c.blockAt w 0 = .ok b ∧ b < v.superblock.firstDataBlock ∧
        w.readBlock b = .ok .zero) := by
  obtain ⟨rfl, hsectors, -, hfits, -, hmap, -⟩ := mount_eq_ok.mp h
  obtain ⟨hcount, hfirst⟩ := layout_of_read hmap
  refine ⟨fun w b u hw hrun => ?_, fun w c a hw => worked_adjustment hw c a, fun hd m hlow hhigh hfree => ?_⟩
  · have hlowest := lowestFree_of_allocate hrun
    have hfree := w.freeMap.lowestFree_eq_some hlowest
    have hlt := w.freeMap.lt_of_isFree hfree
    rw [UInt32.le_iff_toNat_le, UInt32.lt_iff_toNat_lt, UInt32.lt_iff_toNat_lt, ← hcount, ← hfirst]
    rw [hw.alike.count] at hlt
    refine ⟨w.freeMap.le_of_lowestFree hlowest, hlt, fun hmeta => ?_⟩
    rw [w.freeMap.isFree_eq_bit (hw.alike.count.symm ▸ hlt)] at hfree
    rw [v.freeMap.isFree_eq_bit hlt]
    exact hw.alike.metadata _ hmeta hfree
  · obtain ⟨i, hi, hlowest⟩ := v.freeMap.exists_lowestFree hlow hfree
    obtain ⟨c, w, hgrow, hat, hread⟩ := grow_empty_device ⟨hd, hsectors⟩ (hcount.symm ▸ hfits) hlowest
    refine ⟨c, w, .ofNat i, hgrow, hat, ?_, hread⟩
    have hlimit := v.superblock.firstDataBlock.toNat_lt
    rw [UInt32.lt_iff_toNat_lt, UInt32.toNat_ofNat_of_lt' (by simp only [UInt32.size]; omega)]
    omega

theorem image_metadata_handed_out_all : ∃ d v c w b, d.FaultFree ∧ mount d = .ok v ∧
    v.freeMap.isFree firstMapBlock.toNat = true ∧ Chain.empty.grow v = .ok c w ∧ c.blockAt w 0 = .ok b ∧
      b < v.superblock.firstDataBlock ∧ w.readBlock b = .ok .zero := by
  obtain ⟨v, hnew, hsuper, hmount⟩ := exists_mounted
  have l := hnew.ledger.laidOut
  have hv := hnew.ledger.sound
  have hb : v.InMap (FreeMap.home 2) := inMap_home (by rw [← l.blockCount_eq, hsuper]; decide)
  have himage := mount_put_map l hv hmount hb FreeMap.allFree
  have hd : (v.device.put (FreeMap.home 2) FreeMap.allFree).FaultFree := (hv.device.put _ _).toFaultFree
  have hcount : 2 < v.superblock.blockCount.toNat := by
    rw [hsuper]
    decide
  have hfree : FreeMap.isFree ⟨v.superblock.blockCount, v.superblock.firstDataBlock,
      (FreeMap.homes v.superblock).map (v.device.put (FreeMap.home 2) FreeMap.allFree).cell⟩ 2 = true := by
    rw [FreeMap.isFree_eq_bit _ hcount, FreeMap.bit, FreeMap.byteOf, part_homes _ hcount,
      Device.cell_put _ (hv.in_range (l.in_range hv hb.2)), if_pos rfl, FreeMap.allFree,
      Block.byte_ofFn _ (FreeMap.place_lt 2)]
    decide
  obtain ⟨c, w, b, hgrow, hat, hlow, hread⟩ := (image_metadata_handed_out himage).2.2 hd 2 (by decide)
    (by rw [hsuper]; decide) hfree
  exact ⟨_, _, c, w, b, hd, himage, hfree, hgrow, hat, hlow, hread⟩

end FileSystem

end ImageFS
