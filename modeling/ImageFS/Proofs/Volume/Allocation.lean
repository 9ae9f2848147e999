import ImageFS.Proofs.Volume.Blocks
import ImageFS.Proofs.Volume.Marking

/-!
# Taking and giving back blocks

`Fresh v b w` says that `w` is `v` with the free block `b` taken and cleared, `Restored v w` that `w`
is `v` but for the contents of free blocks. A failure for lack of space restores.
-/

set_option autoImplicit false

namespace ImageFS.Volume

def take (v : Volume) (b : Nat) : Volume where
  device := v.device.put (FreeMap.home b) ((v.freeMap.markUsed b).part b)
  superblock := v.superblock
  freeMap := v.freeMap.markUsed b

def giveBack (v : Volume) (b : Nat) : Volume where
  device := v.device.put (FreeMap.home b) ((v.freeMap.markFree b).part b)
  superblock := v.superblock
  freeMap := v.freeMap.markFree b

variable {v w u : Volume}

theorem home_in_range {b : Nat} (hb : v.dataStart ≤ b) (hb' : b < v.freeMap.blockCount.toNat) :
    (FreeMap.home b).toNat < v.freeMap.blockCount.toNat := by
  have := (v.inMap_home hb').2
  have := v.map_le_dataStart
  omega

theorem Sound.evolves_map (h : v.Sound) {b : Nat} (hlow : v.dataStart ≤ b) (hb : b < v.freeMap.blockCount.toNat)
    (f : UInt8 → UInt8) (guarded : ∀ i < v.dataStart, (v.freeMap.updateByte b f).isFree i = false) :
    Evolves v ⟨v.device.put (FreeMap.home b) ((v.freeMap.updateByte b f).part b), v.superblock,
      v.freeMap.updateByte b f⟩ where
  sound := by
    have hp := h.put (home_in_range hlow hb) ((v.freeMap.updateByte b f).part b)
    exact ⟨hp.device, hp.fits, hp.room, guarded⟩
  superblock := rfl
  count := rfl
  first := rfl
  synced hs i hi := by
    have hcell := cell_put h (home_in_range hlow hb) ((v.freeMap.updateByte b f).part b) (FreeMap.home i)
    have hi : i < v.freeMap.blockCount.toNat := hi
    apply hcell.trans
    have hhome : FreeMap.home i = FreeMap.home b ↔ i / bitsPerBlock = b / bitsPerBlock := by
      rw [← UInt32.toNat_inj, toNat_home (Nat.lt_trans hi v.freeMap.blockCount.toNat_lt),
        toNat_home (Nat.lt_trans hb v.freeMap.blockCount.toNat_lt)]
      omega
    by_cases hsame : i / bitsPerBlock = b / bitsPerBlock
    · rw [if_pos (hhome.mpr hsame)]
      exact FreeMap.part_eq _ hsame.symm
    · rw [if_neg fun he => hsame (hhome.mp he), hs i hi]
      exact ((v.freeMap.part_updateByte f hb i).trans (if_neg hsame)).symm

theorem cell_map (h : v.Sound) {b : Nat} (hlow : v.dataStart ≤ b) (hb : b < v.freeMap.blockCount.toNat)
    (block : Block) (m : FreeMap) {x : UInt32} (hx : ¬ v.InMap x) :
    cell ⟨v.device.put (FreeMap.home b) block, v.superblock, m⟩ x = v.cell x := by
  have hne : x ≠ FreeMap.home b := fun he => hx (he ▸ inMap_home hb)
  have hcell := cell_put h (home_in_range hlow hb) block x
  rw [if_neg hne] at hcell
  exact hcell

theorem Sound.isData_of_free (h : v.Sound) {b : Nat} (hb : v.freeMap.isFree b = true) :
    v.IsData (.ofNat b) ∧ (UInt32.ofNat b).toNat = b := by
  have hlt := v.freeMap.lt_of_isFree hb
  have hnat : (UInt32.ofNat b).toNat = b := UInt32.toNat_ofNat_of_lt' (Nat.lt_trans hlt v.freeMap.blockCount.toNat_lt)
  refine ⟨⟨?_, ?_⟩, hnat⟩
  · rw [hnat]
    by_contra hlow
    rw [h.guarded b (Nat.lt_of_not_le hlow)] at hb
    cases hb
  · rw [hnat]
    exact hlt

theorem Sound.dataStart_le_of_free (h : v.Sound) {b : Nat} (hb : v.freeMap.isFree b = true) : v.dataStart ≤ b := by
  obtain ⟨hdata, hnat⟩ := h.isData_of_free hb
  exact hnat ▸ hdata.1

theorem Sound.evolves_take (h : v.Sound) {b : Nat} (hb : v.freeMap.isFree b = true) : Evolves v (v.take b) := by
  have hlt := v.freeMap.lt_of_isFree hb
  apply h.evolves_map (h.dataStart_le_of_free hb) hlt _
  intro i hi
  apply (v.freeMap.isFree_markUsed hlt i).trans
  by_cases hib : i = b
  · rw [if_pos hib]
  · rw [if_neg hib, h.guarded i hi]

theorem Sound.evolves_giveBack (h : v.Sound) {b : UInt32} (hb : v.IsData b) : Evolves v (v.giveBack b.toNat) := by
  apply h.evolves_map hb.1 hb.2 _
  intro i hi
  have hib : i ≠ b.toNat := fun he => by
    have := hb.1
    omega
  apply (v.freeMap.isFree_markFree hb.2 i).trans
  rw [if_neg hib, h.guarded i hi]

theorem writeMapPart_sturdy (hs : v.device.checkSectorSize = .ok ()) {b : Nat}
    (hb : (FreeMap.home b).toNat < v.device.blockCount) (hw : v.device.Sturdy (FreeMap.home b)) (m : FreeMap) :
    writeMapPart b { v with freeMap := m } =
      .ok () ⟨v.device.put (FreeMap.home b) (m.part b), v.superblock, m⟩ := by
  have hpart : ask (fun v => .ok (v.freeMap.part b)) { v with freeMap := m } = .ok (m.part b) { v with freeMap := m } :=
    rfl
  rw [writeMapPart, bind_of_ok hpart]
  exact writeBlock_sturdy (v := { v with freeMap := m }) hs hb hw (m.part b)

theorem writeMapPart_eq (h : v.device.Sound) {b : Nat} (hb : (FreeMap.home b).toNat < v.device.blockCount)
    (m : FreeMap) :
    writeMapPart b { v with freeMap := m } =
      .ok () ⟨v.device.put (FreeMap.home b) (m.part b), v.superblock, m⟩ :=
  writeMapPart_sturdy h.sectors hb (h.sturdy _) m

theorem allocate_sturdy (hs : v.device.checkSectorSize = .ok ()) {b : Nat} (hb : v.freeMap.lowestFree = some b)
    (hhome : (FreeMap.home b).toNat < v.device.blockCount) (hw : v.device.Sturdy (FreeMap.home b)) :
    allocate v = .ok (.ofNat b) (v.take b) := by
  rw [allocate_of_some hb, bind_of_ok (catch_of_ok (writeMapPart_sturdy hs hhome hw (v.freeMap.markUsed b)))]
  rfl

theorem allocate_device (h : v.device.Sound) {b : Nat} (hb : v.freeMap.lowestFree = some b)
    (hhome : (FreeMap.home b).toNat < v.device.blockCount) : allocate v = .ok (.ofNat b) (v.take b) :=
  allocate_sturdy h.sectors hb hhome (h.sturdy _)

theorem allocate_eq (h : v.Sound) {b : Nat} (hb : v.freeMap.lowestFree = some b) :
    allocate v = .ok (.ofNat b) (v.take b) := by
  have hfree := v.freeMap.lowestFree_eq_some hb
  exact allocate_device h.device hb
    (h.in_range (home_in_range (h.dataStart_le_of_free hfree) (v.freeMap.lt_of_isFree hfree)))

theorem free_sturdy (hs : v.device.checkSectorSize = .ok ()) {b : UInt32}
    (hdata : v.freeMap.firstData ≤ b ∧ b < v.freeMap.blockCount)
    (hhome : (FreeMap.home b.toNat).toNat < v.device.blockCount) (hw : v.device.Sturdy (FreeMap.home b.toNat)) :
    free b v = .ok () (v.giveBack b.toNat) := by
  rw [free_of_data hdata, writeMapPart_sturdy hs hhome hw]
  rfl

theorem free_eq (h : v.Sound) {b : UInt32} (hb : v.IsData b) : free b v = .ok () (v.giveBack b.toNat) :=
  free_sturdy h.device.sectors hb.range (h.in_range (home_in_range hb.1 hb.2)) (h.device.sturdy _)

structure Fresh (v : Volume) (b : UInt32) (w : Volume) : Prop where
  evolves : Evolves v w
  lowest : v.freeMap.lowestFree = some b.toNat
  data : v.IsData b
  free : v.freeMap.bit b.toNat = true
  bits : ∀ i, w.freeMap.bit i = if i = b.toNat then false else v.freeMap.bit i
  cell : ∀ x, ¬ v.InMap x → w.cell x = if x = b then .zero else v.cell x
  freeBlocks : w.freeBlocks + 1 = v.freeBlocks

structure Restored (v w : Volume) : Prop where
  evolves : Evolves v w
  bits : ∀ i, w.freeMap.bit i = v.freeMap.bit i
  cell : ∀ x, ¬ v.InMap x → v.Busy x → w.cell x = v.cell x

theorem Restored.refl (h : v.Sound) : Restored v v := ⟨Evolves.refl h, fun _ => rfl, fun _ _ _ => rfl⟩

theorem Restored.freeBlocks (h : Restored v w) : w.freeBlocks = v.freeBlocks :=
  FreeMap.freeCount_congr h.evolves.count h.bits

theorem Sound.fresh (h : v.Sound) {b : Nat} (hb : v.freeMap.lowestFree = some b) :
    Fresh v (.ofNat b) ((v.take b).put (.ofNat b) .zero) := by
  have hfree := v.freeMap.lowestFree_eq_some hb
  obtain ⟨hdata, hnat⟩ := h.isData_of_free hfree
  have hlt := v.freeMap.lt_of_isFree hfree
  have htake := h.evolves_take hfree
  have hdata' : (v.take b).IsData (.ofNat b) := (htake.isData_iff _).mpr hdata
  refine ⟨htake.trans (htake.sound.evolves_put_data hdata' .zero), ?_, hdata, ?_, fun i => ?_, fun x hx => ?_, ?_⟩
  · rw [hnat, hb]
  · rw [hnat, ← v.freeMap.isFree_eq_bit hlt, hfree]
  · rw [hnat]
    exact v.freeMap.bit_markUsed hlt i
  · rw [cell_put htake.sound hdata'.2]
    by_cases hxb : x = .ofNat b
    · rw [if_pos hxb, if_pos hxb]
    · rw [if_neg hxb, if_neg hxb]
      exact cell_map h (h.dataStart_le_of_free hfree) hlt _ _ hx
  · exact v.freeMap.freeCount_markUsed hfree

theorem Sound.lowestFree_none (h : v.Sound) : v.freeMap.lowestFree = none ↔ v.freeBlocks = 0 := by
  apply v.freeMap.lowestFree_eq_none_iff
  intro b hb
  have := v.map_le_dataStart
  exact h.guarded b (by omega)

theorem withFresh_of_ok {α : Type} (h : v.Sound) (hfree : v.freeBlocks ≠ 0) {use : UInt32 → VolumeM α}
    {P : α → Volume → Prop} (huse : ∀ b w, Fresh v b w → ∃ a u, use b w = .ok a u ∧ P a u) :
    ∃ a u, withFresh use v = .ok a u ∧ P a u := by
  cases hlow : v.freeMap.lowestFree with
  | none => exact absurd (h.lowestFree_none.mp hlow) hfree
  | some b =>
    have hfresh := h.fresh hlow
    obtain ⟨a, u, hrun, hP⟩ := huse _ _ hfresh
    have hzero : writeBlock (.ofNat b) .zero (v.take b) = .ok () ((v.take b).put (.ofNat b) .zero) := by
      have htake := h.evolves_take (v.freeMap.lowestFree_eq_some hlow)
      exact writeBlock_eq htake.sound ((htake.isData_iff _).mpr hfresh.data).2 .zero
    refine ⟨a, u, ?_, hP⟩
    rw [withFresh, bind_of_ok (allocate_eq h hlow)]
    exact catch_of_ok ((bind_of_ok hzero).trans hrun)

theorem withFresh_of_full {α : Type} (h : v.Sound) (hfree : v.freeBlocks = 0) (use : UInt32 → VolumeM α) :
    withFresh use v = .error .noSpace v := by
  rw [withFresh, bind_of_error (allocate_of_none (h.lowestFree_none.mpr hfree))]

theorem restored_giveBack {b : UInt32} (evolves : Evolves v u) (hdata : v.IsData b)
    (free : v.freeMap.bit b.toNat = true)
    (bits : ∀ i, u.freeMap.bit i = if i = b.toNat then false else v.freeMap.bit i)
    (cell : ∀ x, ¬ v.InMap x → v.Busy x → u.cell x = v.cell x) : Restored v (u.giveBack b.toNat) := by
  have hdata' : u.IsData b := (evolves.isData_iff b).mpr hdata
  refine ⟨evolves.trans (evolves.sound.evolves_giveBack hdata'), fun i => ?_, fun x hm hx => ?_⟩
  · have hbit := u.freeMap.bit_markFree hdata'.2 i
    apply hbit.trans
    rw [bits]
    by_cases hi : i = b.toNat
    · rw [if_pos hi, hi, free]
    · rw [if_neg hi, if_neg hi]
  · have hback : (u.giveBack b.toNat).cell x = u.cell x :=
      cell_map evolves.sound hdata'.1 hdata'.2 _ _ fun hin => hm ((evolves.inMap_iff x).mp hin)
    rw [hback, cell x hm hx]

theorem Fresh.restored {b : UInt32} (fresh : Fresh v b w) (hu : Restored w u) : Restored v (u.giveBack b.toNat) := by
  refine restored_giveBack (fresh.evolves.trans hu.evolves) fresh.data fresh.free (fun i => ?_) fun x hm hx => ?_
  · rw [hu.bits, fresh.bits]
  · have hne : x ≠ b := fun he => by
      rw [he, Busy, fresh.free] at hx
      cases hx
    have hxw : w.Busy x := by
      rw [Busy, fresh.bits]
      split
      · rfl
      · exact hx
    rw [hu.cell x (fun hin => hm ((fresh.evolves.inMap_iff x).mp hin)) hxw, fresh.cell x hm, if_neg hne]

theorem withFresh_of_noSpace {α : Type} (h : v.Sound) {use : UInt32 → VolumeM α}
    (huse : ∀ b w, Fresh v b w → ∃ u, use b w = .error .noSpace u ∧ Restored w u) :
    ∃ u, withFresh use v = .error .noSpace u ∧ Restored v u := by
  cases hlow : v.freeMap.lowestFree with
  | none => exact ⟨v, withFresh_of_full h (h.lowestFree_none.mp hlow) use, .refl h⟩
  | some b =>
    have hfresh := h.fresh hlow
    obtain ⟨u, hrun, hu⟩ := huse _ _ hfresh
    generalize hw : (v.take b).put (.ofNat b) .zero = w at hfresh hrun hu
    have hzero : writeBlock (.ofNat b) .zero (v.take b) = .ok () w := by
      have htake := h.evolves_take (v.freeMap.lowestFree_eq_some hlow)
      rw [← hw]
      exact writeBlock_eq htake.sound ((htake.isData_iff _).mpr hfresh.data).2 .zero
    have hdata : u.IsData (.ofNat b) := ((hfresh.evolves.trans hu.evolves).isData_iff _).mpr hfresh.data
    have hrelease : release (.ofNat b) u = .ok () (u.giveBack (UInt32.ofNat b).toNat) :=
      catch_of_ok (free_eq hu.evolves.sound hdata)
    refine ⟨u.giveBack (UInt32.ofNat b).toNat, ?_, hfresh.restored hu⟩
    rw [withFresh, bind_of_ok (allocate_eq h hlow), catch_of_error ((bind_of_ok hzero).trans hrun),
      bind_of_ok hrelease]
    rfl

structure Given (v : Volume) (b : UInt32) (w : Volume) : Prop where
  evolves : Evolves v w
  bits : ∀ i, w.freeMap.bit i = true ↔ v.freeMap.bit i = true ∨ b.toNat = i
  cell : ∀ x, ¬ v.InMap x → w.cell x = v.cell x
  freeBlocks : w.freeBlocks = v.freeBlocks + 1

theorem Sound.given (h : v.Sound) {b : UInt32} (hb : v.IsData b) (busy : v.Busy b) :
    Given v b (v.giveBack b.toNat) where
  evolves := h.evolves_giveBack hb
  bits i := by
    have hbit : (v.giveBack b.toNat).freeMap.bit i = if i = b.toNat then true else v.freeMap.bit i :=
      v.freeMap.bit_markFree hb.2 i
    rw [hbit]
    by_cases hi : i = b.toNat
    · simp [hi]
    · simp [hi, Ne.symm hi]
  cell x hx := cell_map h hb.1 hb.2 _ _ hx
  freeBlocks := by
    apply v.freeMap.freeCount_markFree hb.2
    rw [v.freeMap.isFree_eq_bit hb.2]
    exact busy

/-- The volume `w` is `v` with the given free blocks taken and cleared. -/
structure Taken (v : Volume) (bs : List UInt32) (w : Volume) : Prop where
  evolves : Evolves v w
  nodup : bs.Nodup
  data : ∀ b ∈ bs, v.IsData b
  free : ∀ b ∈ bs, v.freeMap.bit b.toNat = true
  bits : ∀ i, w.freeMap.bit i = true ↔ v.freeMap.bit i = true ∧ ∀ b ∈ bs, b.toNat ≠ i
  cell : ∀ x, ¬ v.InMap x → w.cell x = if x ∈ bs then .zero else v.cell x
  freeBlocks : w.freeBlocks + bs.length = v.freeBlocks

theorem Taken.nil (h : v.Sound) : Taken v [] v where
  evolves := .refl h
  nodup := List.nodup_nil
  data b hb := by cases hb
  free b hb := by cases hb
  bits i := by simp
  cell x _ := by simp
  freeBlocks := rfl

theorem Taken.snoc {bs : List UInt32} {b : UInt32} (h : Taken v bs w) (h' : Fresh w b u) : Taken v (bs ++ [b]) u where
  evolves := h.evolves.trans h'.evolves
  nodup := by
    have hout : b ∉ bs := fun hb => ((h.bits b.toNat).mp h'.free).2 b hb rfl
    exact List.nodup_append.mpr ⟨h.nodup, by simp, fun x hx y hy => by
      rw [List.mem_singleton.mp hy]
      exact fun he => hout (he ▸ hx)⟩
  data x hx := by
    rcases List.mem_append.mp hx with hx | hx
    · exact h.data x hx
    · rw [List.mem_singleton.mp hx]
      exact (h.evolves.isData_iff b).mp h'.data
  free x hx := by
    rcases List.mem_append.mp hx with hx | hx
    · exact h.free x hx
    · rw [List.mem_singleton.mp hx]
      exact ((h.bits b.toNat).mp h'.free).1
  bits i := by
    rw [h'.bits]
    by_cases hi : i = b.toNat
    · simp [hi]
    · rw [if_neg hi, h.bits]
      simp only [List.mem_append, List.mem_singleton]
      constructor
      · rintro ⟨hv, hbs⟩
        refine ⟨hv, fun x hx => ?_⟩
        rcases hx with hx | rfl
        · exact hbs x hx
        · exact Ne.symm hi
      · rintro ⟨hv, hbs⟩
        exact ⟨hv, fun x hx => hbs x (.inl hx)⟩
  cell x hx := by
    rw [h'.cell x fun hm => hx ((h.evolves.inMap_iff x).mp hm), h.cell x hx]
    by_cases hxb : x = b
    · simp [hxb]
    · simp [hxb]
  freeBlocks := by
    have := h.freeBlocks
    have := h'.freeBlocks
    rw [List.length_append, List.length_singleton]
    omega

theorem Fresh.taken {b : UInt32} (hv : v.Sound) (h : Fresh v b w) : Taken v [b] w := (Taken.nil hv).snoc h

theorem Taken.not_mem_of_busy {bs : List UInt32} (h : Taken v bs w) {b : UInt32} (hb : v.Busy b) : b ∉ bs := by
  intro hmem
  rw [Busy, h.free b hmem] at hb
  cases hb

theorem Taken.cell_mem {bs : List UInt32} (h : Taken v bs w) {b : UInt32} (hb : b ∈ bs) :
    w.cell b = .zero := by
  rw [h.cell b (IsData.not_inMap (h.data b hb)), if_pos hb]

theorem Taken.isData {bs : List UInt32} (h : Taken v bs w) {b : UInt32} (hb : b ∈ bs) : w.IsData b :=
  (h.evolves.isData_iff b).mpr (h.data b hb)

end ImageFS.Volume
