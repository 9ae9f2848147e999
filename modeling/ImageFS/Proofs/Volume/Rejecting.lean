import ImageFS.Proofs.Volume.ReadOnly
import ImageFS.Proofs.Volume.Seated

/-!
# Devices some of whose blocks reject writes

A volume is put beside the same volume on a device that rejects every write to some blocks behind the metadata. Both
runs of an action come to the same as long as nothing is written to such a block. An action that takes blocks and
clears them goes on only with blocks that take writes; when a write is rejected behind them, it gives all of them back.
-/

set_option autoImplicit false

namespace ImageFS

variable {B : Set Nat} {sectorSize : Nat}

/-- Everything can be read, and just the sectors of the blocks in `B` reject every write. -/
structure Faults.Rejects (f : Faults) (sectorSize : Nat) (B : Set Nat) : Prop where
  readable : ∀ sector, f.unreadable sector = false
  fragile : ∀ sector, f.fragile sector = true ↔ sector * sectorSize / blockSize ∈ B
  fails : ∀ attempt, f.fails attempt = true

theorem Faults.Rejects.tried {f : Faults} (h : f.Rejects sectorSize B) (sector : Nat) :
    (f.tried sector).Rejects sectorSize B := by
  obtain ⟨n, hn⟩ := f.exists_tried sector
  rw [hn]
  exact ⟨h.readable, h.fragile, h.fails⟩

theorem Faults.rejects_ofBlocks (sectorSize : Nat) (blocks : List Nat) (flush : Bool) :
    (Faults.ofBlocks sectorSize [] blocks 0 flush).Rejects sectorSize {b | b ∈ blocks} where
  readable _ := rfl
  fragile _ := List.contains_iff_mem
  fails _ := rfl

namespace Device

variable {d : Device} {b : UInt32}

theorem writeBlock_spared (hs : d.checkSectorSize = .ok ()) (h : d.faults.Rejects d.sectorSize B)
    (hb : b.toNat < d.blockCount) (hB : b.toNat ∉ B) (block : Block) :
    writeBlock b block d = .ok () (d.put b block) := by
  refine writeBlock_sturdy hs hb (fun sector hlow hhigh => ?_) block
  rw [← Bool.not_eq_true, h.fragile, sector_block hs hlow hhigh]
  exact hB

theorem writeBlock_rejected (hs : d.checkSectorSize = .ok ()) (h : d.faults.Rejects d.sectorSize B)
    (hb : b.toNat < d.blockCount) (hB : b.toNat ∈ B) (block : Block) :
    ∃ sector, writeBlock b block d = .error (.device (.broken sector)) { d with faults := d.faults.tried sector } := by
  refine writeBlock_refused hs hb ?_ block
  obtain ⟨hpos, hmul⟩ := sector_size hs
  have hfirst : b.toNat * d.sectorsPerBlock * d.sectorSize / blockSize = b.toNat := by
    rw [Nat.mul_assoc, hmul, Nat.mul_div_cancel _ (by decide)]
  have hfragile : d.faults.fragile (b.toNat * d.sectorsPerBlock) = true := by
    rw [h.fragile, hfirst]
    exact hB
  rw [Faults.refuses, hfragile, h.fails]
  rfl

end Device

namespace Volume

variable {α β : Type} {v w x y u : Volume} {b t : UInt32} {slot : Nat}

/-- The volume `y` is the sound volume `x` on a device that rejects the writes to `B`. Nothing in `B` has changed
since `v`, and nothing of it was taken. -/
structure Rejecting (B : Set Nat) (v x y : Volume) : Prop where
  sound : x.Sound
  mapped : x.dataStart = x.freeMap.firstData.toNat
  behind : ∀ b ∈ B, x.freeMap.firstData.toNat ≤ b
  rejects : ∃ f : Faults, f.Rejects x.device.sectorSize B ∧ y = x.withFaults f
  cell : ∀ b : UInt32, b.toNat ∈ B → x.cell b = v.cell b
  busy : ∀ b : UInt32, b.toNat ∈ B → x.Busy b → v.Busy b

namespace Rejecting

theorem rebase (h : Rejecting B v x y) : Rejecting B x x y :=
  ⟨h.sound, h.mapped, h.behind, h.rejects, fun _ _ => rfl, fun _ _ => id⟩

theorem trans (h : Rejecting B v x y) (h' : Rejecting B x u w) : Rejecting B v u w :=
  ⟨h'.sound, h'.mapped, h'.behind, h'.rejects, fun b hb => (h'.cell b hb).trans (h.cell b hb),
    fun b hb hbusy => h.busy b hb (h'.busy b hb hbusy)⟩

theorem sameReads (h : Rejecting B v x y) : x.SameReads y := by
  obtain ⟨f, hf, rfl⟩ := h.rejects
  exact ⟨rfl, Device.readBlock_congr rfl rfl h.sound.device.readable hf.readable⟩

theorem freeMap (h : Rejecting B v x y) : y.freeMap = x.freeMap := by
  obtain ⟨f, -, rfl⟩ := h.rejects
  rfl

theorem put (h : Rejecting B v x y) (hb : b.toNat < x.device.blockCount) (hB : b.toNat ∉ B) (block : Block) :
    Rejecting B v (x.put b block) (y.put b block) where
  sound := h.sound.put_device hb block
  mapped := h.mapped
  behind := h.behind
  rejects := by
    obtain ⟨f, hf, rfl⟩ := h.rejects
    refine ⟨f, ?_, ?_⟩
    · rw [Volume.put, Device.sectorSize_put]
      exact hf
    · simp only [Volume.put, withFaults, Device.put_faults]
  cell a ha := by
    have hne : a ≠ b := fun he => hB (he ▸ ha)
    exact ((Device.cell_put block hb a).trans (if_neg hne)).trans (h.cell a ha)
  busy := h.busy

theorem setMap (h : Rejecting B v x y) {m : FreeMap} (count : m.blockCount = x.freeMap.blockCount)
    (first : m.firstData = x.freeMap.firstData) (guarded : ∀ i < x.dataStart, m.isFree i = false) :
    Rejecting B { x with freeMap := m } { x with freeMap := m } { y with freeMap := m } where
  sound := by
    refine ⟨h.sound.device, ?_, ?_, fun i hi => guarded i ?_⟩
    · rw [count]
      exact h.sound.fits
    · rw [first, count]
      exact h.sound.room
    · rwa [dataStart, count, first] at hi
  mapped := by
    rw [dataStart, count, first]
    exact h.mapped
  behind := by
    rw [first]
    exact h.behind
  rejects := by
    obtain ⟨f, hf, rfl⟩ := h.rejects
    exact ⟨f, hf, rfl⟩
  cell _ _ := rfl
  busy _ _ := id

end Rejecting

theorem respects_writeBlock_spared (hB : b.toNat ∉ B) (block : Block) :
    Respects (Rejecting B v) (writeBlock b block) := by
  intro x y h
  by_cases hb : b.toNat < x.device.blockCount
  · have hput := h.put hb hB block
    obtain ⟨f, hf, rfl⟩ := h.rejects
    have hrun : writeBlock b block (x.withFaults f) = .ok () ((x.withFaults f).put b block) := by
      have hdevice :=
        Device.writeBlock_spared (d := { x.device with faults := f }) h.sound.device.sectors hf hb hB block
      simp only [writeBlock, withFaults, hdevice]
      rfl
    rw [writeBlock_device h.sound.device hb, hrun]
    exact .ok hput
  · have hx := writeBlock_out_of_range (Nat.le_of_not_lt hb) block
    have hy : writeBlock b block y = .error (.corrupt (.blockOutOfRange b x.device.blockCount)) y := by
      obtain ⟨f, -, rfl⟩ := h.rejects
      exact writeBlock_out_of_range (v := x.withFaults f) (Nat.le_of_not_lt hb) block
    rw [hx, hy]
    exact .error h

theorem Rejecting.writeBlock (h : Rejecting B v x y) (hb : b.toNat < x.device.blockCount) (hB : b.toNat ∈ B)
    (block : Block) : ∃ e y', Volume.writeBlock b block y = .error (.device e) y' ∧ Rejecting B v x y' := by
  obtain ⟨f, hf, rfl⟩ := h.rejects
  obtain ⟨sector, hrun⟩ :=
    Device.writeBlock_rejected (d := { x.device with faults := f }) h.sound.device.sectors hf hb hB block
  refine ⟨.broken sector, x.withFaults (f.tried sector), ?_, { h with rejects := ⟨_, hf.tried sector, rfl⟩ }⟩
  simp only [Volume.writeBlock, withFaults, hrun]

theorem respects_updateBlock_spared (hB : b.toNat ∉ B) (f : Block → Block) :
    Respects (Rejecting B v) (updateBlock b f) :=
  .bind (.ask_of_eq fun _ _ h => h.sameReads.reads b) fun _ => respects_writeBlock_spared hB _

theorem respects_writePointer_spared (hB : t.toNat ∉ B) (slot : Nat) (target : UInt32) :
    Respects (Rejecting B v) (writePointer t slot target) :=
  .bind (.ask_of_eq fun _ _ _ => rfl) fun _ => respects_updateBlock_spared hB _

theorem Rejecting.home_not_mem (h : Rejecting B v x y) {i : Nat} (hi : i < x.freeMap.blockCount.toNat) :
    (FreeMap.home i).toNat ∉ B := fun hB => by
  have := h.behind _ hB
  have := (inMap_home hi).2
  have := x.map_le_dataStart
  have := h.mapped
  omega

theorem respects_writeMapPart (h : Rejecting B v x y) {i : Nat} (hi : i < x.freeMap.blockCount.toNat) :
    Agree (Rejecting B v) (writeMapPart i x) (writeMapPart i y) := by
  refine Agree.bind (Respects.ask_of_eq (fun x y h => by rw [h.freeMap]) _ _ h) fun part x' y' hpart h' => ?_
  obtain rfl : x = x' := by
    cases hpart
    rfl
  exact respects_writeBlock_spared (h.home_not_mem hi) part x y' h'

theorem respects_free_rejecting (b : UInt32) : Respects (Rejecting B v) (free b) := by
  intro x y h
  by_cases hdata : x.freeMap.firstData ≤ b ∧ b < x.freeMap.blockCount
  · have hhigh := UInt32.lt_iff_toNat_lt.mp hdata.2
    have hguarded : ∀ i < x.dataStart, (x.freeMap.markFree b.toNat).isFree i = false := by
      intro i hi
      have hlow := UInt32.le_iff_toNat_le.mp hdata.1
      rw [h.mapped] at hi
      rw [x.freeMap.isFree_markFree hhigh, if_neg (by omega), h.sound.guarded i (h.mapped ▸ hi)]
    have hbusy : ∀ a : UInt32, a.toNat ∈ B → (x.freeMap.markFree b.toNat).bit a.toNat = false → v.Busy a := by
      intro a ha hbit
      rw [x.freeMap.bit_markFree hhigh] at hbit
      split at hbit
      · cases hbit
      · exact h.busy a ha hbit
    have hmark := h.setMap (m := x.freeMap.markFree b.toNat) rfl rfl hguarded
    rw [free_of_data hdata, free_of_data (h.freeMap.symm ▸ hdata), h.freeMap]
    exact respects_writeMapPart { hmark with cell := h.cell, busy := hbusy } hhigh
  · rw [free_of_not_data hdata, free_of_not_data (h.freeMap.symm ▸ hdata)]
    exact .ok h

theorem Rejecting.allocate (h : Rejecting B v v y) :
    (Volume.allocate v = .error .noSpace v ∧ Volume.allocate y = .error .noSpace y) ∨
      ∃ i w, v.freeMap.lowestFree = some i ∧ Volume.allocate v = .ok (.ofNat i) (v.take i) ∧
        Volume.allocate y = .ok (.ofNat i) w ∧ Rejecting B (v.take i) (v.take i) w := by
  cases hlow : v.freeMap.lowestFree with
  | none => exact .inl ⟨allocate_of_none hlow, allocate_of_none (h.freeMap.symm ▸ hlow)⟩
  | some i =>
    have hfree := v.freeMap.lowestFree_eq_some hlow
    have hlt := v.freeMap.lt_of_isFree hfree
    have hguarded : ∀ j < v.dataStart, (v.freeMap.markUsed i).isFree j = false :=
      (h.sound.evolves_take hfree).sound.guarded
    have hmark := h.setMap (m := v.freeMap.markUsed i) rfl rfl hguarded
    have hrun := allocate_eq h.sound hlow
    have hagree : Agree (Rejecting B { v with freeMap := v.freeMap.markUsed i }) (Volume.allocate v)
        (Volume.allocate y) := by
      rw [allocate_of_some hlow, allocate_of_some (h.freeMap.symm ▸ hlow), h.freeMap]
      refine Agree.bind ?_ fun _ _ _ _ h' => .ok h'
      refine (respects_writeMapPart hmark hlt).tryCatch fun e x' y' hwrite _ => ?_
      rw [writeMapPart_eq h.sound.device (h.sound.in_range (home_in_range (h.sound.dataStart_le_of_free hfree) hlt))]
        at hwrite
      cases hwrite
    obtain ⟨w, hy, hw⟩ := hagree.of_ok hrun
    exact .inr ⟨i, w, rfl, hrun, hy, hw.rebase⟩

theorem Rejecting.release (h : Rejecting B v x y) (hb : x.IsData b) :
    ∃ w, Volume.release b y = .ok () w ∧ Rejecting B v (x.giveBack b.toNat) w := by
  obtain ⟨w, hw, hxw⟩ := (respects_free_rejecting b x y h).of_ok (free_eq h.sound hb)
  exact ⟨w, catch_of_ok hw, hxw⟩

theorem Rejecting.catch_release (h : Rejecting B v x y) (hb : x.IsData b) {act : VolumeM α} {e : Error}
    (hrun : act w = .error e y) :
    ∃ w', tryCatch act (fun e => do Volume.release b; throw e) w = .error e w' ∧
      Rejecting B v (x.giveBack b.toNat) w' := by
  obtain ⟨w', hrelease, hw'⟩ := h.release hb
  refine ⟨w', ?_, hw'⟩
  rw [catch_of_error hrun, bind_of_ok hrelease]
  rfl

theorem Rejecting.not_inMap (h : Rejecting B v x y) (hb : b.toNat ∈ B) : ¬ x.InMap b := by
  intro hm
  have := h.behind _ hb
  have := hm.2
  have := x.map_le_dataStart
  have := h.mapped
  omega

theorem Rejecting.since_fresh (h' : Rejecting B x x y) (h : Rejecting B v v w) (fresh : Fresh v b x)
    (hB : b.toNat ∉ B) : Rejecting B v x y := by
  have hne : ∀ {a : UInt32}, a.toNat ∈ B → a ≠ b := fun ha he => hB (he ▸ ha)
  refine { h' with cell := fun a ha => ?_, busy := fun a ha hbusy => ?_ }
  · rw [fresh.cell a (h.not_inMap ha), if_neg (hne ha)]
  · rwa [Busy, fresh.bits, if_neg fun he => hne ha (UInt32.toNat_inj.mp he)] at hbusy

/-- Both runs of an action come to the same, or a write is rejected and all is as it was at `v`, but for what free
blocks hold. -/
def Bounces (B : Set Nat) (v : Volume) (r r' : EStateM.Result Error Volume α) : Prop :=
  Agree (Rejecting B v) r r' ∨
    ∃ e u u', r' = .error (.device e) u' ∧ Rejecting B v u u' ∧ Restored v u

section

variable {act : VolumeM α} {next : α → VolumeM β} (h : Rejecting B v v w)

theorem Bounces.bind (hact : Bounces B v (act v) (act w)) (hnext : ∀ a, Respects (Rejecting B v) (next a)) :
    Bounces B v ((act >>= next) v) ((act >>= next) w) := by
  rcases hact with hact | ⟨e, u, u', hrun, hu, hr⟩
  · exact .inl (hact.bind fun a x y _ hxy => hnext a x y hxy)
  · exact .inr ⟨e, u, u', bind_of_error hrun, hu, hr⟩

include h

theorem bounces_ask {g : Volume → Except Error α} (hg : g w = g v)
    (hnext : ∀ a, g v = .ok a → Bounces B v (next a v) (next a w)) :
    Bounces B v ((ask g >>= next) v) ((ask g >>= next) w) := by
  cases hv : g v with
  | ok a =>
    rw [bind_of_ok (ask_of_ok hv), bind_of_ok (ask_of_ok (hg.trans hv))]
    exact hnext a hv
  | error e =>
    rw [bind_of_error (ask_of_error hv), bind_of_error (ask_of_error (hg.trans hv))]
    exact .inl (.error h)

theorem Rejecting.writePointer (hB : t.toNat ∈ B) (slot : Nat) :
    (∃ e, ∀ target y, Rejecting B v v y →
      Volume.writePointer t slot target v = .error e v ∧ Volume.writePointer t slot target y = .error e y) ∨
    ∀ target y, Rejecting B v v y →
      ∃ e y', Volume.writePointer t slot target y = .error (.device e) y' ∧ Rejecting B v v y' := by
  cases hcheck : checkPointerSlot slot with
  | error e =>
    exact .inl ⟨e, fun target y _ => ⟨bind_of_error (ask_of_error hcheck), bind_of_error (ask_of_error hcheck)⟩⟩
  | ok _ =>
    have hstart : ∀ target y, Volume.writePointer t slot target y = updateBlock t (·.setPointer slot target) y :=
      fun target y => bind_of_ok (ask_of_ok hcheck)
    simp only [hstart, updateBlock]
    by_cases hb : t.toNat < v.device.blockCount
    · right
      intro target y hy
      have hread : y.readBlock t = .ok (v.cell t) :=
        (hy.sameReads.reads t).trans (Device.readBlock_eq h.sound.device hb)
      rw [bind_of_ok (ask_of_ok hread)]
      exact hy.writeBlock hb hB _
    · left
      have hread : v.readBlock t = .error (.corrupt (.blockOutOfRange t v.device.blockCount)) := if_neg hb
      refine ⟨_, fun target y hy => ⟨bind_of_error (ask_of_error hread), bind_of_error (ask_of_error ?_)⟩⟩
      rw [hy.sameReads.reads, hread]

theorem bounces_writePointer (t : UInt32) (slot : Nat) (target : UInt32) :
    Bounces B v (writePointer t slot target v) (writePointer t slot target w) := by
  by_cases hB : t.toNat ∈ B
  · rcases h.writePointer hB slot with ⟨e, hfails⟩ | hrejected
    · obtain ⟨hv, hw⟩ := hfails target w h
      rw [hv, hw]
      exact .inl (.error h)
    · obtain ⟨e, w', hrun, hw'⟩ := hrejected target w h
      exact .inr ⟨e, v, w', hrun, hw', .refl h.sound⟩
  · exact .inl (respects_writePointer_spared hB slot target v w h)

theorem bounces_withFresh {use : UInt32 → VolumeM α}
    (huse : ∀ b x y, b.toNat ∉ B → Rejecting B x x y → Fresh v b x → Bounces B x (use b x) (use b y)) :
    Bounces B v (withFresh use v) (withFresh use w) := by
  rcases h.allocate with ⟨hv, hw⟩ | ⟨i, y, hlow, hv, hw, hy⟩
  · rw [withFresh, bind_of_error hv, bind_of_error hw]
    exact .inl (.error h)
  · have hfree := v.freeMap.lowestFree_eq_some hlow
    have hfresh := h.sound.fresh hlow
    obtain ⟨hdata, hnat⟩ := h.sound.isData_of_free hfree
    have htake := h.sound.evolves_take hfree
    have hrange := htake.sound.in_range ((htake.isData_iff _).mpr hdata).2
    rw [withFresh, bind_of_ok hv, bind_of_ok hw]
    -- A block that rejects writes cannot be cleared and goes back; any other is cleared in both runs.
    by_cases hB : (UInt32.ofNat i).toNat ∈ B
    · right
      obtain ⟨e, y', hzero, hy'⟩ := hy.writeBlock hrange hB .zero
      obtain ⟨w', hrun, hw'⟩ := hy'.catch_release ((htake.isData_iff _).mpr hdata)
        (bind_of_error (f := fun _ => use (.ofNat i)) hzero)
      have hcell : ∀ x, ¬ v.InMap x → (v.take i).cell x = v.cell x := fun x hx =>
        cell_map h.sound (h.sound.dataStart_le_of_free hfree) (v.freeMap.lt_of_isFree hfree) _ _ hx
      have hrestored : Restored v ((v.take i).giveBack (UInt32.ofNat i).toNat) := by
        refine restored_giveBack htake hdata hfresh.free (fun j => ?_) fun x hx _ => hcell x hx
        rw [hnat]
        exact v.freeMap.bit_markUsed (v.freeMap.lt_of_isFree hfree) j
      refine ⟨e, _, w', hrun, { hw' with cell := fun a ha => ?_, busy := fun a _ hbusy => ?_ }, hrestored⟩
      · exact (hw'.cell a ha).trans (hcell a (h.not_inMap ha))
      · rwa [Busy, hrestored.bits] at hbusy
    · have hx := writeBlock_device htake.sound.device hrange .zero
      obtain ⟨z, hz, hxz⟩ := (respects_writeBlock_spared hB .zero _ _ hy).of_ok hx
      have hxz := hxz.rebase.since_fresh h hfresh hB
      rcases huse _ _ _ hB hxz.rebase hfresh with hagree | ⟨e, u, u', hrun, hu, hr⟩
      · left
        refine Agree.tryCatch (R := Rejecting B v) ?_ fun e s t _ hst => ?_
        · rw [bind_of_ok hx, bind_of_ok hz]
          exact hagree.imp fun _ _ => hxz.trans
        · exact (Respects.bind (.tryCatch (respects_free_rejecting _) fun _ => .pure _) fun _ => .throw e) s t hst
      · right
        have hdata' := ((hfresh.evolves.trans hr.evolves).isData_iff _).mpr hdata
        obtain ⟨w', hrun', hw'⟩ := (hxz.trans hu).catch_release hdata'
          ((bind_of_ok (f := fun _ => use (.ofNat i)) hz).trans hrun)
        exact ⟨e, _, w', hrun', hw', hfresh.restored hr⟩

end

end Volume

end ImageFS
