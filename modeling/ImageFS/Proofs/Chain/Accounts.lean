import ImageFS.Proofs.Directory.Slots
import Mathlib.Logic.Function.Basic

/-!
# Many chains on one volume

The accounts of a volume are exact when every block that the map has as taken behind the metadata stands
in just one of the chains. A step that moves one of the chains keeps the accounts, and does not touch
the blocks of the others.
-/

set_option autoImplicit false

namespace ImageFS.Chain

open Volume

variable {c c' d : Chain} {v w u : Volume} {b : UInt32} {k s : Nat}

def Untouched (c : Chain) (v w : Volume) : Prop := ∀ b, c.Owns v b → w.cell b = v.cell b

theorem Untouched.cell (h : c.Untouched v w) {p : Place} (hp : c.pointer v.cell p ≠ nullPointer) :
    w.cell (c.pointer v.cell p) = v.cell (c.pointer v.cell p) := h _ ⟨hp, p, rfl⟩

theorem Untouched.pointer (h : c.Untouched v w) (p : Place) : c.pointer w.cell p = c.pointer v.cell p :=
  pointer_congr (fun _ _ hq => h.cell hq) p

theorem Untouched.byte (h : c.Untouched v w) (held : c.Held v) (hk : k / blockSize < c.blockCount) :
    c.byte w.cell k = c.byte v.cell k := by
  unfold Chain.byte
  rw [h.pointer, h.cell (held.data_ne_null hk)]

theorem Untouched.contents (h : c.Untouched v w) (held : c.Held v) : c.contents w.cell = c.contents v.cell :=
  contents_congr rfl fun _ hk => h.byte held (lt_blockCount hk)

theorem Untouched.entry (h : c.Untouched v w) (held : c.Held v) (hs : s < c.slotCount) :
    c.entry w.cell s = c.entry v.cell s := by
  unfold Chain.entry
  rw [h.pointer, h.cell (held.data_ne_null (slot_block hs))]

theorem Untouched.occupied (h : c.Untouched v w) (held : c.Held v) : c.occupied w.cell = c.occupied v.cell :=
  occupied_congr (Nat.le_refl _) (fun _ hs => .inl (h.entry held hs)) fun _ hlow hhigh =>
    absurd hhigh (Nat.not_lt_of_le hlow)

theorem Untouched.owns_iff (h : c.Untouched v w) (b : UInt32) : c.Owns w b ↔ c.Owns v b := owns_congr h.pointer b

theorem Untouched.trans (h : c.Untouched v w) (h' : c.Untouched w u) : c.Untouched v u := fun b hb => by
  rw [h' b ((h.owns_iff b).mpr hb), h b hb]

theorem Untouched.held (h : c.Untouched v w) (held : c.Held v) (evolves : Evolves v w)
    (busy : ∀ b, c.Owns v b → w.Busy b) : c.Held w :=
  held.congr evolves rfl h.pointer fun p hp => busy _ ⟨hp, p, rfl⟩

theorem Held.owns_data (h : c.Held v) (hb : c.Owns v b) : v.IsData b ∧ v.Busy b := by
  obtain ⟨hne, p, rfl⟩ := hb
  exact ⟨h.data p hne, h.busy p hne⟩

theorem Held.untouched (h : c.Held v) (hr : Restored v w) : c.Untouched v w := fun b hb =>
  hr.cell b (IsData.not_inMap (h.owns_data hb).1) (h.owns_data hb).2

theorem Moves.cell_metadata (m : Moves c v c' w) (h : c.Held v) (hv : v.Sound) (hmap : ¬ v.InMap b)
    (hb : b.toNat < v.freeMap.firstData.toNat) : w.cell b = v.cell b := by
  apply m.cell b hmap (hv.busy_of_lt hb)
  intro ho
  have := (h.owns_data ho).1.firstData_le
  omega

end Chain

open Chain Volume

/-- The chains of a volume hold just the blocks behind the metadata that are taken, each of them once. -/
structure Volume.Accounts {ι : Type} (v : Volume) (χ : ι → Option Chain) : Prop where
  held : ∀ i c, χ i = some c → c.Held v
  apart : ∀ i j c d b, χ i = some c → χ j = some d → c.Owns v b → d.Owns v b → i = j
  owned : ∀ b, v.IsData b → v.Busy b → ∃ i c, χ i = some c ∧ c.Owns v b

namespace Volume.Accounts

variable {ι : Type} {v w : Volume} {χ : ι → Option Chain} {c c' d : Chain} {i j : ι}

section

variable (a : v.Accounts χ)

include a

theorem untouched (hi : χ i = some c) (m : Moves c v c' w) (hj : χ j = some d) (hne : j ≠ i) :
    d.Untouched v w ∧ ∀ b, d.Owns v b → w.Busy b ∧ ¬ c'.Owns w b := by
  have hout : ∀ b, d.Owns v b → ¬ c.Owns v b := fun b hd hc => hne (a.apart j i d c b hj hi hd hc)
  refine ⟨fun b hd => ?_, fun b hd => ?_⟩
  · obtain ⟨hdata, hbusy⟩ := (a.held j d hj).owns_data hd
    exact m.cell b (IsData.not_inMap hdata) hbusy (hout b hd)
  · exact (m.others b).mpr ⟨((a.held j d hj).owns_data hd).2, hout b hd⟩

theorem moves [DecidableEq ι] (hi : χ i = some c) (m : Moves c v c' w) :
    w.Accounts (Function.update χ i (some c')) := by
  have hother : ∀ j d, j ≠ i → χ j = some d →
      d.Held w ∧ (∀ b, d.Owns w b ↔ d.Owns v b) ∧ ∀ b, d.Owns v b → ¬ c'.Owns w b := by
    intro j d hne hj
    obtain ⟨hsame, hbusy⟩ := a.untouched hi m hj hne
    exact ⟨hsame.held (a.held j d hj) m.evolves fun b hb => (hbusy b hb).1, hsame.owns_iff, fun b hb => (hbusy b hb).2⟩
  refine ⟨fun j d hj => ?_, fun j k d e b hj hk hd he => ?_, fun b hdata hbusy => ?_⟩
  · by_cases hji : j = i
    · rw [hji, Function.update_self, Option.some.injEq] at hj
      exact hj ▸ m.held
    · rw [Function.update_of_ne hji] at hj
      exact (hother j d hji hj).1
  · by_cases hji : j = i <;> by_cases hki : k = i
    · rw [hji, hki]
    · rw [hji, Function.update_self, Option.some.injEq] at hj
      rw [Function.update_of_ne hki] at hk
      obtain ⟨-, hsame, hnot⟩ := hother k e hki hk
      exact absurd (hj ▸ hd) (hnot b ((hsame b).mp he))
    · rw [hki, Function.update_self, Option.some.injEq] at hk
      rw [Function.update_of_ne hji] at hj
      obtain ⟨-, hsame, hnot⟩ := hother j d hji hj
      exact absurd (hk ▸ he) (hnot b ((hsame b).mp hd))
    · rw [Function.update_of_ne hji] at hj
      rw [Function.update_of_ne hki] at hk
      exact a.apart j k d e b hj hk (((hother j d hji hj).2.1 b).mp hd) (((hother k e hki hk).2.1 b).mp he)
  -- What the moved chain does not own was taken before, by a chain that did not move.
  · by_cases hown : c'.Owns w b
    · exact ⟨i, c', Function.update_self i _ χ, hown⟩
    · obtain ⟨hbusyv, hnot⟩ := (m.others b).mp ⟨hbusy, hown⟩
      obtain ⟨j, d, hj, hd⟩ := a.owned b ((m.evolves.isData_iff b).mp hdata) hbusyv
      have hji : j ≠ i := by
        rintro rfl
        rw [hi, Option.some.injEq] at hj
        exact hnot (hj ▸ hd)
      exact ⟨j, d, by rw [Function.update_of_ne hji, hj], ((hother j d hji hj).2.1 b).mpr hd⟩

theorem frame (evolves : Evolves v w) (map : w.freeMap = v.freeMap)
    (cell : ∀ b, v.IsData b → w.cell b = v.cell b) : w.Accounts χ := by
  have hsame : ∀ j d, χ j = some d → d.Untouched v w := fun j d hj b hb =>
    cell b ((a.held j d hj).owns_data hb).1
  have hbusy : ∀ b, w.Busy b ↔ v.Busy b := fun b => by rw [Busy, Busy, map]
  refine ⟨fun j d hj => ?_, fun j k d e b hj hk hd he => ?_, fun b hdata hb => ?_⟩
  · exact (hsame j d hj).held (a.held j d hj) evolves fun b hb => (hbusy b).mpr ((a.held j d hj).owns_data hb).2
  · exact a.apart j k d e b hj hk (((hsame j d hj).owns_iff b).mp hd) (((hsame k e hk).owns_iff b).mp he)
  · obtain ⟨j, d, hj, hd⟩ := a.owned b ((evolves.isData_iff b).mp hdata) ((hbusy b).mp hb)
    exact ⟨j, d, hj, ((hsame j d hj).owns_iff b).mpr hd⟩

end

theorem not_owns_of_empty (h : c.Held v) (hc : c.blockCount = 0) (b : UInt32) : ¬ c.Owns v b := by
  rintro ⟨hne, p, rfl⟩
  have := (h.shape p).mp hne
  omega

theorem congr_empty {χ' : ι → Option Chain} (a : v.Accounts χ)
    (held : ∀ i c, χ' i = some c → c.Held v)
    (same : ∀ i c, c.blockCount ≠ 0 → (χ' i = some c ↔ χ i = some c)) : v.Accounts χ' := by
  have hne : ∀ {i c b}, χ' i = some c → c.Owns v b → χ i = some c := fun {i c b} hi hb =>
    (same i c fun hc => not_owns_of_empty (held i c hi) hc b hb).mp hi
  refine ⟨held, fun i j c d b hi hj hc hd => ?_, fun b hdata hbusy => ?_⟩
  · exact a.apart i j c d b (hne hi hc) (hne hj hd) hc hd
  · obtain ⟨i, c, hi, hc⟩ := a.owned b hdata hbusy
    exact ⟨i, c, (same i c fun hz => not_owns_of_empty (a.held i c hi) hz b hc).mpr hi, hc⟩

end Volume.Accounts

end ImageFS
