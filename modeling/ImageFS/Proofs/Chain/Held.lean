import ImageFS.Proofs.Chain.Places
import ImageFS.Proofs.Volume.Allocation

/-!
# Chains that hold their blocks

A chain is held by a volume when just the places born before its length are filled, with different
blocks that the map has as taken. `Moves` says that an action on a held chain left it held and all
other taken blocks alone; `Extends` that one chain continues another and that the map tells so.
-/

set_option autoImplicit false

namespace ImageFS

namespace Place

/-- The places that a chain of `n` blocks lacks for one block more, from the top. -/
def bornAt (n : Nat) : List Place :=
  if n = 10 then [indirect, data n]
  else if n = 266 then [doubly, table 0, data n]
  else if 266 < n ∧ (n - 266) % 256 = 0 then [table ((n - 266) / 256), data n]
  else [data n]

theorem mem_bornAt (n : Nat) (p : Place) : p ∈ bornAt n ↔ p.birth = n := by
  unfold bornAt
  split_ifs with h10 h266 htable <;> cases p <;>
    simp [birth_data, birth_indirect, birth_doubly, birth_table] <;> omega

end Place

namespace Chain

/-- Blocks of a chain of `n` data blocks, the index blocks among them. -/
def cost (n : Nat) : Nat :=
  if n ≤ 10 then n else if n ≤ 266 then n + 1 else n + 2 + ceilDiv (n - 266) 256

theorem cost_succ (n : Nat) : cost (n + 1) = cost n + (Place.bornAt n).length := by
  unfold cost Place.bornAt ceilDiv
  split_ifs <;> simp only [List.length_cons, List.length_nil] <;> omega

theorem cost_mono {m n : Nat} (h : m ≤ n) : cost m ≤ cost n := by
  induction n, h using Nat.le_induction with
  | base => exact Nat.le_refl _
  | succ n _ ih =>
    rw [cost_succ]
    omega

open Volume

structure Held (c : Chain) (v : Volume) : Prop where
  shape : ∀ p, c.pointer v.cell p ≠ nullPointer ↔ p.birth < c.blockCount
  apart : ∀ p q, c.pointer v.cell p ≠ nullPointer → c.pointer v.cell p = c.pointer v.cell q → p = q
  data : ∀ p, c.pointer v.cell p ≠ nullPointer → v.IsData (c.pointer v.cell p)
  busy : ∀ p, c.pointer v.cell p ≠ nullPointer → v.Busy (c.pointer v.cell p)

def Owns (c : Chain) (v : Volume) (b : UInt32) : Prop := b ≠ nullPointer ∧ ∃ p, c.pointer v.cell p = b

/-- `c'` on `w` is what an action made of `c` on `v`. -/
structure Moves (c : Chain) (v : Volume) (c' : Chain) (w : Volume) : Prop where
  evolves : Evolves v w
  held : c'.Held w
  others : ∀ b, w.Busy b ∧ ¬ c'.Owns w b ↔ v.Busy b ∧ ¬ c.Owns v b
  cell : ∀ b, ¬ v.InMap b → v.Busy b → ¬ c.Owns v b → w.cell b = v.cell b

/-- `c'` on `w` is `c` on `v` with more blocks behind its own, which were free. -/
structure Extends (c : Chain) (v : Volume) (c' : Chain) (w : Volume) : Prop where
  count : c.blockCount ≤ c'.blockCount
  kept : ∀ p : Place, p.birth < c.blockCount → c'.pointer w.cell p = c.pointer v.cell p
  contents : ∀ k < c.blockCount, w.cell (c.pointer v.cell (.data k)) = v.cell (c.pointer v.cell (.data k))
  bits : ∀ i, v.freeMap.bit i = true ↔ w.freeMap.bit i = true ∨
    ∃ p : Place, c.blockCount ≤ p.birth ∧ p.birth < c'.blockCount ∧ (c'.pointer w.cell p).toNat = i
  freeBlocks : v.freeBlocks + cost c.blockCount = w.freeBlocks + cost c'.blockCount

variable {c c' c'' : Chain} {v w u : Volume}

theorem Moves.trans (h : Moves c v c' w) (h' : Moves c' w c'' u) : Moves c v c'' u where
  evolves := h.evolves.trans h'.evolves
  held := h'.held
  others b := (h'.others b).trans (h.others b)
  cell b hm hb ho := by
    have hw := (h.others b).mpr ⟨hb, ho⟩
    rw [h'.cell b (fun hin => hm ((h.evolves.inMap_iff b).mp hin)) hw.1 hw.2, h.cell b hm hb ho]

theorem Extends.trans (h : Extends c v c' w) (h' : Extends c' w c'' u) : Extends c v c'' u where
  count := Nat.le_trans h.count h'.count
  kept p hp := (h'.kept p (Nat.lt_of_lt_of_le hp h.count)).trans (h.kept p hp)
  contents k hk := by
    have hpointer := h.kept (.data k) hk
    have hcontents := h'.contents k (Nat.lt_of_lt_of_le hk h.count)
    rw [hpointer] at hcontents
    rw [hcontents, h.contents k hk]
  bits i := by
    have hcount := h.count
    have hcount' := h'.count
    rw [h.bits, h'.bits]
    constructor
    · rintro ((hu | ⟨p, hlow, hhigh, hp⟩) | ⟨p, hlow, hhigh, hp⟩)
      · exact .inl hu
      · exact .inr ⟨p, by omega, hhigh, hp⟩
      · exact .inr ⟨p, hlow, by omega, by rw [h'.kept p hhigh, hp]⟩
    · rintro (hu | ⟨p, hlow, hhigh, hp⟩)
      · exact .inl (.inl hu)
      · by_cases hmid : p.birth < c'.blockCount
        · exact .inr ⟨p, hlow, hmid, by rw [← h'.kept p hmid, hp]⟩
        · exact .inl (.inr ⟨p, by omega, hhigh, hp⟩)
  freeBlocks := by
    have := h.freeBlocks
    have := h'.freeBlocks
    omega

theorem Extends.refl : Extends c v c v where
  count := Nat.le_refl _
  kept _ _ := rfl
  contents _ _ := rfl
  bits i := by
    constructor
    · exact .inl
    · rintro (hv | ⟨p, hlow, hhigh, _⟩)
      · exact hv
      · omega
  freeBlocks := rfl

theorem Held.null_iff (h : c.Held v) (p : Place) : c.pointer v.cell p = nullPointer ↔ c.blockCount ≤ p.birth := by
  have := h.shape p
  constructor
  · intro hp
    by_contra hb
    exact (this.mpr (Nat.lt_of_not_le hb)) hp
  · intro hb
    by_contra hp
    have := this.mp hp
    omega

theorem Held.short (h : c.Held v) : c.blockCount ≤ 65802 := by
  by_contra hlong
  refine (h.shape (.table 256)).mpr ?_ (follow_of_le v.cell c.doubly (Nat.le_refl _))
  rw [Place.birth_table]
  omega

theorem Held.congr (h : c.Held v) (evolves : Evolves v w) (count : c'.blockCount = c.blockCount)
    (same : ∀ p, c'.pointer w.cell p = c.pointer v.cell p)
    (busy : ∀ p, c.pointer v.cell p ≠ nullPointer → w.Busy (c.pointer v.cell p)) : c'.Held w where
  shape p := by rw [same, count, h.shape]
  apart p q := by
    rw [same, same]
    exact h.apart p q
  data p := by
    rw [same, evolves.isData_iff]
    exact h.data p
  busy p := by
    rw [same]
    exact busy p

theorem owns_congr (same : ∀ p, c'.pointer w.cell p = c.pointer v.cell p) (b : UInt32) :
    c'.Owns w b ↔ c.Owns v b := by
  unfold Owns
  simp only [same]

theorem Held.pointer_restored (h : c.Held v) (hr : Restored v w) (p : Place) :
    c.pointer w.cell p = c.pointer v.cell p :=
  pointer_congr (fun q _ hq => hr.cell _ (IsData.not_inMap (h.data q hq)) (h.busy q hq)) p

theorem Held.moves_restored (h : c.Held v) (hr : Restored v w) : Moves c v c w := by
  have same := h.pointer_restored hr
  refine ⟨hr.evolves, h.congr hr.evolves rfl same fun p hp => ?_, fun b => ?_, fun b hm hb _ => hr.cell b hm hb⟩
  · exact (hr.bits _).trans (h.busy p hp)
  · rw [owns_congr same, Busy, Busy, hr.bits]

theorem Held.extends_restored (h : c.Held v) (hr : Restored v w) : Extends c v c w where
  count := Nat.le_refl _
  kept p _ := h.pointer_restored hr p
  contents k hk := by
    have hp := (h.shape (.data k)).mpr hk
    exact hr.cell _ (IsData.not_inMap (h.data _ hp)) (h.busy _ hp)
  bits i := by
    rw [hr.bits]
    constructor
    · exact .inl
    · rintro (hv | ⟨p, hlow, hhigh, _⟩)
      · exact hv
      · omega
  freeBlocks := by rw [hr.freeBlocks]

theorem Held.moves_refl (h : c.Held v) (hv : v.Sound) : Moves c v c v := h.moves_restored (.refl hv)

end Chain

end ImageFS
