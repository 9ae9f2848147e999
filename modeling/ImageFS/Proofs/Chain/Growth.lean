import ImageFS.Proofs.Chain.Held
import Mathlib.Data.List.Nodup

/-!
# Growing a chain

A held chain that is not too long grows by one zeroed block when the volume has the blocks that this
takes, and otherwise stays as it is. Which pointers are written depends on the tier and on the index
blocks that are there already; in each case just the places born with the new block are filled.
-/

set_option autoImplicit false

namespace ImageFS.Chain

open Volume

variable {c c' : Chain} {v w u : Volume} {bs : List UInt32}

theorem Held.pointer_taken (h : c.Held v) (taken : Taken v bs w) (p : Place) :
    c.pointer w.cell p = c.pointer v.cell p := by
  refine pointer_congr (fun q _ hq => ?_) p
  rw [taken.cell _ (IsData.not_inMap (h.data q hq)), if_neg (taken.not_mem_of_busy (h.busy q hq))]

theorem Held.pointer_ne_taken (h : c.Held v) (taken : Taken v bs w) {b : UInt32} (hb : b ∈ bs)
    (p : Place) : c.pointer v.cell p ≠ b := by
  intro he
  have hne : c.pointer v.cell p ≠ nullPointer := by
    rw [he]
    exact IsData.ne_null (taken.data b hb)
  exact taken.not_mem_of_busy (h.busy p hne) (he ▸ hb)

/-- What extending a chain by one block does: the blocks `bs` are taken for the places that are born
with it, and pointers to them are written into index blocks. -/
structure Extended (c : Chain) (v : Volume) (bs : List UInt32) (c' : Chain) (u : Volume) : Prop where
  taken : ∃ w, Taken v bs w ∧ Evolves w u ∧ u.freeMap = w.freeMap ∧
    ∀ x, ¬ v.InMap x → x ∉ bs →
      (∀ q : Place, q.IsIndex → c.pointer v.cell q ≠ nullPointer → c.pointer v.cell q ≠ x) → u.cell x = w.cell x
  new : (Place.bornAt c.blockCount).map (c'.pointer u.cell) = bs
  old : ∀ p : Place, p.birth ≠ c.blockCount → c'.pointer u.cell p = c.pointer v.cell p
  zero : u.cell (c'.pointer u.cell (.data c.blockCount)) = .zero

section

variable (h : c.Held v) (hv : v.Sound) (ext : Extended c v bs c' u)

include ext

theorem Extended.mem_new {p : Place} (hp : p.birth = c.blockCount) : c'.pointer u.cell p ∈ bs := by
  have hmem := List.mem_map_of_mem (f := c'.pointer u.cell) ((Place.mem_bornAt c.blockCount p).mpr hp)
  rwa [ext.new] at hmem

theorem Extended.exists_new {b : UInt32} (hb : b ∈ bs) : ∃ p : Place, p.birth = c.blockCount ∧ c'.pointer u.cell p = b := by
  rw [← ext.new] at hb
  obtain ⟨p, hp, he⟩ := List.mem_map.mp hb
  exact ⟨p, (Place.mem_bornAt c.blockCount p).mp hp, he⟩

theorem Extended.new_injective {p q : Place} (hp : p.birth = c.blockCount) (hq : q.birth = c.blockCount)
    (he : c'.pointer u.cell p = c'.pointer u.cell q) : p = q := by
  obtain ⟨w, taken, -, -, -⟩ := ext.taken
  have hnodup : ((Place.bornAt c.blockCount).map (c'.pointer u.cell)).Nodup := ext.new ▸ taken.nodup
  exact List.inj_on_of_nodup_map hnodup ((Place.mem_bornAt _ p).mpr hp) ((Place.mem_bornAt _ q).mpr hq) he

theorem Extended.evolves : Evolves v u := by
  obtain ⟨w, taken, evolves, -, -⟩ := ext.taken
  exact taken.evolves.trans evolves

theorem Extended.busy_iff (b : UInt32) : u.Busy b ↔ v.Busy b ∨ b ∈ bs := by
  obtain ⟨w, taken, -, map, -⟩ := ext.taken
  rw [Busy, map, ← Bool.not_eq_true, taken.bits, Busy]
  constructor
  · intro hno
    by_cases hb : b ∈ bs
    · exact .inr hb
    · left
      rw [← Bool.not_eq_true]
      exact fun hv => hno ⟨hv, fun x hx he => hb (UInt32.toNat_inj.mp he ▸ hx)⟩
  · rintro (hb | hb) ⟨hv, hno⟩
    · rw [hb] at hv
      cases hv
    · exact hno b hb rfl

theorem Extended.owns_iff (h : c.Held v) (b : UInt32) : c'.Owns u b ↔ c.Owns v b ∨ b ∈ bs := by
  obtain ⟨w, taken, -, -, -⟩ := ext.taken
  constructor
  · rintro ⟨hne, p, rfl⟩
    by_cases hp : p.birth = c.blockCount
    · exact .inr (ext.mem_new hp)
    · rw [ext.old p hp] at hne ⊢
      exact .inl ⟨hne, p, rfl⟩
  · rintro (⟨hne, p, rfl⟩ | hb)
    · have hp : p.birth ≠ c.blockCount := fun hp => hne ((h.null_iff p).mpr (Nat.le_of_eq hp.symm))
      exact ⟨hne, p, ext.old p hp⟩
    · obtain ⟨p, -, he⟩ := ext.exists_new hb
      exact ⟨IsData.ne_null (taken.data b hb), p, he⟩

theorem Extended.held (h : c.Held v) (count : c'.blockCount = c.blockCount + 1) : c'.Held u := by
  obtain ⟨w, taken, -, -, -⟩ := ext.taken
  have hnew : ∀ p : Place, p.birth = c.blockCount → c'.pointer u.cell p ∈ bs := fun p hp => ext.mem_new hp
  have hdiff : ∀ p q : Place, p.birth = c.blockCount → q.birth ≠ c.blockCount →
      c'.pointer u.cell p ≠ c'.pointer u.cell q := by
    intro p q hp hq he
    rw [ext.old q hq] at he
    exact h.pointer_ne_taken taken (hnew p hp) q he.symm
  -- Places born with the new block hold what was taken, all others what they held before.
  refine ⟨fun p => ?_, fun p q hp he => ?_, fun p hp => ?_, fun p hp => ?_⟩
  · rw [count]
    by_cases hb : p.birth = c.blockCount
    · exact iff_of_true (IsData.ne_null (taken.data _ (hnew p hb))) (by omega)
    · rw [ext.old p hb, h.shape]
      omega
  · by_cases hpb : p.birth = c.blockCount <;> by_cases hqb : q.birth = c.blockCount
    · exact ext.new_injective hpb hqb he
    · exact absurd he (hdiff p q hpb hqb)
    · exact absurd he.symm (hdiff q p hqb hpb)
    · rw [ext.old p hpb] at hp he
      rw [ext.old q hqb] at he
      exact h.apart p q hp he
  · rw [ext.evolves.isData_iff]
    by_cases hb : p.birth = c.blockCount
    · exact taken.data _ (hnew p hb)
    · rw [ext.old p hb] at hp ⊢
      exact h.data p hp
  · rw [ext.busy_iff]
    by_cases hb : p.birth = c.blockCount
    · exact .inr (hnew p hb)
    · rw [ext.old p hb] at hp ⊢
      exact .inl (h.busy p hp)

theorem Extended.moves (h : c.Held v) (count : c'.blockCount = c.blockCount + 1) :
    Moves c v c' u := by
  refine ⟨ext.evolves, ext.held h count, fun b => ?_, fun b hm hb ho => ?_⟩
  · obtain ⟨w, taken, -, -, -⟩ := ext.taken
    rw [ext.busy_iff, ext.owns_iff h]
    constructor
    · rintro ⟨hb | hb, ho⟩
      · exact ⟨hb, fun hc => ho (.inl hc)⟩
      · exact absurd (.inr hb) ho
    · rintro ⟨hb, ho⟩
      exact ⟨.inl hb, fun hc => hc.elim ho (taken.not_mem_of_busy hb)⟩
  · obtain ⟨w, taken, -, -, cell⟩ := ext.taken
    have hbs : b ∉ bs := taken.not_mem_of_busy hb
    have hidx : ∀ q : Place, q.IsIndex → c.pointer v.cell q ≠ nullPointer → c.pointer v.cell q ≠ b :=
      fun q _ hq he => ho ⟨he ▸ hq, q, he⟩
    rw [cell b hm hbs hidx, taken.cell b hm, if_neg hbs]

theorem Extended.extends (h : c.Held v) (count : c'.blockCount = c.blockCount + 1) :
    Extends c v c' u := by
  obtain ⟨w, taken, -, map, cell⟩ := ext.taken
  refine ⟨by omega, fun p hp => ext.old p (by omega), fun k hk => ?_, fun i => ?_, ?_⟩
  · have hp := (h.shape (.data k)).mpr hk
    have hm := IsData.not_inMap (h.data _ hp)
    have hbs := taken.not_mem_of_busy (h.busy _ hp)
    have hidx : ∀ q : Place, q.IsIndex → c.pointer v.cell q ≠ nullPointer →
        c.pointer v.cell q ≠ c.pointer v.cell (.data k) := by
      intro q hq hne he
      obtain rfl := h.apart q _ hne he
      exact hq
    rw [cell _ hm hbs hidx, taken.cell _ hm, if_neg hbs]
  · rw [map, taken.bits]
    constructor
    · intro hi
      by_cases hmem : ∃ b ∈ bs, b.toNat = i
      · obtain ⟨b, hb, he⟩ := hmem
        obtain ⟨p, hp, hpb⟩ := ext.exists_new hb
        exact .inr ⟨p, by omega, by omega, by rw [hpb, he]⟩
      · exact .inl ⟨hi, fun b hb he => hmem ⟨b, hb, he⟩⟩
    · rintro (hi | ⟨p, hlow, hhigh, he⟩)
      · exact hi.1
      · have hmem := ext.mem_new (p := p) (by omega)
        rw [← he]
        exact taken.free _ hmem
  · have hlen := congrArg List.length ext.new
    rw [List.length_map] at hlen
    have hfree := taken.freeBlocks
    have hcount : u.freeBlocks = w.freeBlocks := by
      rw [Volume.freeBlocks, map]
      rfl
    rw [count, cost_succ, hcount]
    omega

end

end ImageFS.Chain
