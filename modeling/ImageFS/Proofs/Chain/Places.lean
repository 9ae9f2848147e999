import ImageFS.Chain.Resize
import ImageFS.Proofs.Chain.Tiers
import ImageFS.Proofs.Device.Cells

/-!
# Places of a chain

The blocks of a chain stand at places: data blocks by number, the indirect block, the doubly-indirect
block, and the tables that it names. Each place but the roots is a slot of the block at its parent.
A place is born with the first data block that needs it, so that a chain of `n` blocks is to have the
places born before `n`. Replacing one pointer changes what stands at one place.
-/

set_option autoImplicit false

namespace ImageFS

inductive Place where
  | data (k : Nat)
  | indirect
  | doubly
  | table (outer : Nat)
deriving DecidableEq

namespace Place

/-- The data block with which a place is needed first. -/
def birth : Place → Nat
  | data k => k
  | indirect => directPointers
  | doubly => directPointers + pointersPerBlock
  | table outer => directPointers + pointersPerBlock + outer * pointersPerBlock

/-- The place whose block names this one, and the slot. -/
def parent? : Place → Option (Place × Nat)
  | data k =>
    match Tiers.onDisk.locate k with
    | .direct _ => none
    | .indirect i => some (indirect, i)
    | .doubly outer inner => some (table outer, inner)
  | indirect => none
  | doubly => none
  | table outer => some (doubly, outer)

def IsIndex : Place → Prop
  | data _ => False
  | _ => True

theorem birth_data (k : Nat) : (data k).birth = k := rfl

theorem birth_indirect : indirect.birth = 10 := rfl

theorem birth_doubly : doubly.birth = 266 := rfl

theorem birth_table (outer : Nat) : (table outer).birth = 266 + outer * 256 := rfl

theorem locate_direct {k : Nat} (h : k < 10) : Tiers.onDisk.locate k = .direct k :=
  Tiers.locate_of_isDirect (decide_eq_true h)

theorem locate_indirect {k : Nat} (h : 10 ≤ k) (h' : k < 266) : Tiers.onDisk.locate k = .indirect (k - 10) :=
  Tiers.locate_of_isIndirect (decide_eq_true ⟨h, h'⟩)

theorem locate_doubly {k : Nat} (h : 266 ≤ k) :
    Tiers.onDisk.locate k = .doubly ((k - 266) / 256) ((k - 266) % 256) := by
  have hdoubly := Tiers.locate_of_isDoubly (t := .onDisk) (decide_eq_true h)
  rw [Nat.sub_sub] at hdoubly
  exact hdoubly

theorem parent_direct {k : Nat} (h : k < 10) : (data k).parent? = none := by
  rw [parent?, locate_direct h]

theorem parent_indirect {k : Nat} (h : 10 ≤ k) (h' : k < 266) : (data k).parent? = some (indirect, k - 10) := by
  rw [parent?, locate_indirect h h']

theorem parent_doubly {k : Nat} (h : 266 ≤ k) :
    (data k).parent? = some (table ((k - 266) / 256), (k - 266) % 256) := by
  rw [parent?, locate_doubly h]

theorem parent_table (outer : Nat) : (table outer).parent? = some (doubly, outer) := rfl

theorem tier_cases (k : Nat) : k < 10 ∨ (10 ≤ k ∧ k < 266) ∨ 266 ≤ k := by
  omega

variable {p q r : Place} {i j : Nat}

theorem parent_cases (h : p.parent? = some (q, i)) :
    (∃ k, p = data k ∧ 10 ≤ k ∧ k < 266 ∧ q = indirect ∧ i = k - 10) ∨
    (∃ k, p = data k ∧ 266 ≤ k ∧ q = table ((k - 266) / 256) ∧ i = (k - 266) % 256) ∨
    (p = table i ∧ q = doubly) := by
  cases p with
  | indirect => cases h
  | doubly => cases h
  | table outer =>
    cases h
    exact .inr (.inr ⟨rfl, rfl⟩)
  | data k =>
    rcases tier_cases k with hk | hk | hk
    · rw [parent_direct hk] at h
      cases h
    · rw [parent_indirect hk.1 hk.2] at h
      cases h
      exact .inl ⟨k, rfl, hk.1, hk.2, rfl, rfl⟩
    · rw [parent_doubly hk] at h
      cases h
      exact .inr (.inl ⟨k, rfl, hk, rfl, rfl⟩)

theorem isIndex_parent (h : p.parent? = some (q, i)) : q.IsIndex := by
  rcases parent_cases h with ⟨k, rfl, hk, hk', rfl, hi⟩ | ⟨k, rfl, hk, rfl, hi⟩ | ⟨rfl, rfl⟩ <;> trivial

theorem parent_ne (h : p.parent? = some (q, i)) : q ≠ p := by
  rcases parent_cases h with ⟨k, rfl, hk, hk', rfl, hi⟩ | ⟨k, rfl, hk, rfl, hi⟩ | ⟨rfl, rfl⟩ <;>
    exact Place.noConfusion

theorem parent_injective (h : p.parent? = some (q, i)) (h' : r.parent? = some (q, i)) : p = r := by
  rcases parent_cases h with ⟨k, rfl, hk, hk', rfl, hi⟩ | ⟨k, rfl, hk, rfl, hi⟩ | ⟨rfl, rfl⟩ <;>
    rcases parent_cases h' with ⟨l, rfl, hl, hl', hq, hj⟩ | ⟨l, rfl, hl, hq, hj⟩ | ⟨rfl, hq⟩ <;>
    simp only [table.injEq, reduceCtorEq] at hq
  · exact congrArg data (by omega)
  · exact congrArg data (by omega)
  · rfl

theorem birth_parent_le (h : p.parent? = some (q, i)) : q.birth ≤ p.birth := by
  rcases parent_cases h with ⟨k, rfl, hk, hk', rfl, hi⟩ | ⟨k, rfl, hk, rfl, hi⟩ | ⟨rfl, rfl⟩
  · rw [birth_indirect, birth_data]
    exact hk
  · rw [birth_table, birth_data]
    omega
  · rw [birth_doubly, birth_table]
    omega

theorem slot_lt (h : p.parent? = some (q, i)) (hb : p.birth < 65802) : i < 256 := by
  rcases parent_cases h with ⟨k, rfl, hk, hk', rfl, hi⟩ | ⟨k, rfl, hk, rfl, hi⟩ | ⟨rfl, rfl⟩
  · omega
  · omega
  · rw [birth_table] at hb
    omega

/-- What holds of a place if it does of its parent holds of all places. -/
theorem induct_parent {P : Place → Prop} (step : ∀ p, (∀ q i, p.parent? = some (q, i) → P q) → P p) (p : Place) :
    P p := by
  have hroot : ∀ p : Place, p.parent? = none → P p := fun p hp =>
    step p fun q i h => by
      rw [hp] at h
      cases h
  apply step p
  intro q i h
  rcases parent_cases h with ⟨k, rfl, hk, hk', rfl, hi⟩ | ⟨k, rfl, hk, rfl, hi⟩ | ⟨rfl, rfl⟩
  · exact hroot _ rfl
  · apply step _
    intro q i h
    cases h
    exact hroot _ rfl
  · exact hroot _ rfl

end Place

def follow (m : Memory) (b : UInt32) (slot : Nat) : UInt32 :=
  if b = nullPointer then nullPointer else (m b).pointer slot

theorem follow_null (m : Memory) (slot : Nat) : follow m nullPointer slot = nullPointer := if_pos rfl

theorem follow_of_ne (m : Memory) {b : UInt32} (h : b ≠ nullPointer) (slot : Nat) :
    follow m b slot = (m b).pointer slot := if_neg h

theorem Block.pointer_of_le (b : Block) {slot : Nat} (h : pointersPerBlock ≤ slot) : b.pointer slot = 0 := by
  have hsize := b.size_bytes
  have h : 256 ≤ slot := h
  have hb : ∀ k < 4, byteAt b.bytes (4 * slot + k) = 0 := fun k _ => byteAt_of_size_le (by
    rw [hsize]
    change 1024 ≤ _
    omega)
  have h0 := hb 0 (by decide)
  rw [Nat.add_zero] at h0
  rw [pointer, word, wordAt, h0, hb 1 (by decide), hb 2 (by decide), hb 3 (by decide)]
  rfl

theorem follow_of_le (m : Memory) (b : UInt32) {slot : Nat} (h : pointersPerBlock ≤ slot) :
    follow m b slot = nullPointer := by
  unfold follow
  split
  · rfl
  · exact (m b).pointer_of_le h

namespace Chain

/-- The block at a place; null if there is none. -/
def pointer (c : Chain) (m : Memory) : Place → UInt32
  | .data k =>
    match Tiers.onDisk.locate k with
    | .direct i => c.directAt i
    | .indirect i => follow m c.indirect i
    | .doubly outer inner => follow m (follow m c.doubly outer) inner
  | .indirect => c.indirect
  | .doubly => c.doubly
  | .table outer => follow m c.doubly outer

def root (c : Chain) : Place → UInt32
  | .data k => c.directAt k
  | .indirect => c.indirect
  | .doubly => c.doubly
  | .table _ => nullPointer

variable {c c' : Chain} {m m' : Memory} {p q r : Place} {i : Nat}

theorem pointer_doubly (c : Chain) (m : Memory) : c.pointer m .doubly = c.doubly := rfl

theorem pointer_of_parent (h : p.parent? = some (q, i)) : c.pointer m p = follow m (c.pointer m q) i := by
  rcases Place.parent_cases h with ⟨k, rfl, hk, hk', rfl, hi⟩ | ⟨k, rfl, hk, rfl, hi⟩ | ⟨rfl, rfl⟩
  · rw [pointer, Place.locate_indirect hk hk', hi]
    rfl
  · rw [pointer, Place.locate_doubly hk, hi]
    rfl
  · rfl

theorem pointer_of_root (h : p.parent? = none) : c.pointer m p = c.root p := by
  cases p with
  | indirect => rfl
  | doubly => rfl
  | table outer => cases h
  | data k =>
    rcases Place.tier_cases k with hk | hk | hk
    · rw [pointer, Place.locate_direct hk]
      rfl
    · rw [Place.parent_indirect hk.1 hk.2] at h
      cases h
    · rw [Place.parent_doubly hk] at h
      cases h

theorem pointer_congr_of_birth {n : Nat} (h : ∀ q : Place, q.IsIndex → q.birth < n → c.pointer m q ≠ nullPointer →
    m' (c.pointer m q) = m (c.pointer m q)) : ∀ r : Place, r.birth < n → c.pointer m' r = c.pointer m r := by
  intro r
  induction r using Place.induct_parent with
  | step r ih =>
    intro hbirth
    cases hr : r.parent? with
    | none => rw [pointer_of_root hr, pointer_of_root hr]
    | some s =>
      obtain ⟨q, i⟩ := s
      have hq := Nat.lt_of_le_of_lt (Place.birth_parent_le hr) hbirth
      rw [pointer_of_parent hr, pointer_of_parent hr, ih q i hr hq]
      by_cases hnull : c.pointer m q = nullPointer
      · rw [hnull, follow_null, follow_null]
      · rw [follow_of_ne m' hnull, follow_of_ne m hnull, h q (Place.isIndex_parent hr) hq hnull]

theorem pointer_congr (h : ∀ q : Place, q.IsIndex → c.pointer m q ≠ nullPointer →
    m' (c.pointer m q) = m (c.pointer m q)) (r : Place) : c.pointer m' r = c.pointer m r :=
  pointer_congr_of_birth (fun q hq _ => h q hq) r (Nat.lt_succ_self _)

/-- Writing a pointer into a slot of an index block changes what stands at the place of that slot, if
nothing stood below it and nothing comes in below it. -/
theorem pointer_link {t b : UInt32} (hp : p.parent? = some (q, i)) (hi : i < 256) (hq : c.pointer m q = t)
    (ht : t ≠ nullPointer) (hm : ∀ x, m' x = if x = t then (m t).setPointer i b else m x)
    (only : ∀ r : Place, c.pointer m r = t → r = q)
    (below : ∀ (r : Place) (j : Nat), r.parent? = some (p, j) → c.pointer m r = nullPointer)
    (fresh : ∀ (r : Place) (j : Nat), r.parent? = some (p, j) → follow m' b j = nullPointer) :
    ∀ r, c.pointer m' r = if r = p then b else c.pointer m r := by
  intro r
  -- By the parent: what stands at a place is a slot of the block at its parent, and of all blocks only `t` was written.
  induction r using Place.induct_parent with
  | step r ih =>
    cases hr : r.parent? with
    | none =>
      have hne : r ≠ p := fun he => by
        rw [he, hp] at hr
        cases hr
      rw [if_neg hne, pointer_of_root hr, pointer_of_root hr]
    | some s =>
      obtain ⟨q', j⟩ := s
      rw [pointer_of_parent hr, ih q' j hr]
      by_cases hqp : q' = p
      · subst hqp
        have hne : r ≠ q' := (Place.parent_ne hr).symm
        rw [if_pos rfl, if_neg hne, fresh r j hr, below r j hr]
      · rw [if_neg hqp]
        by_cases hqt : c.pointer m q' = t
        · obtain rfl : q' = q := only q' hqt
          rw [hqt, follow_of_ne m' ht, hm, if_pos rfl, Block.pointer_setPointer _ hi]
          by_cases hj : j = i
          · subst hj
            rw [if_pos rfl, if_pos (Place.parent_injective hr hp)]
          · have hne : r ≠ p := fun he => by
              rw [he, hp] at hr
              cases hr
              exact hj rfl
            rw [if_neg hj, if_neg hne, pointer_of_parent hr, hqt, follow_of_ne m ht]
        · have hne : r ≠ p := fun he => by
            rw [he, hp] at hr
            cases hr
            exact hqt hq
          rw [if_neg hne, pointer_of_parent hr]
          by_cases hz : c.pointer m q' = nullPointer
          · rw [hz, follow_null, follow_null]
          · rw [follow_of_ne m' hz, follow_of_ne m hz, hm, if_neg hqt]

theorem pointer_reroot {b : UInt32} (hp : p.parent? = none)
    (hc : ∀ r : Place, r.parent? = none → c'.root r = if r = p then b else c.root r)
    (below : ∀ (r : Place) (j : Nat), r.parent? = some (p, j) → c.pointer m r = nullPointer)
    (fresh : ∀ (r : Place) (j : Nat), r.parent? = some (p, j) → follow m b j = nullPointer) :
    ∀ r, c'.pointer m r = if r = p then b else c.pointer m r := by
  intro r
  induction r using Place.induct_parent with
  | step r ih =>
    cases hr : r.parent? with
    | none => rw [pointer_of_root hr, pointer_of_root hr, hc r hr]
    | some s =>
      obtain ⟨q, j⟩ := s
      have hne : r ≠ p := fun he => by
        rw [he, hp] at hr
        cases hr
      rw [if_neg hne, pointer_of_parent hr, ih q j hr]
      by_cases hqp : q = p
      · subst hqp
        rw [if_pos rfl, fresh r j hr, below r j hr]
      · rw [if_neg hqp, pointer_of_parent hr]

theorem ext_pointer (m m' : UInt32 → Block) (size : c.size = c'.size) (h : ∀ r, c.pointer m r = c'.pointer m' r) : c = c' := by
  obtain ⟨s, d, i, t⟩ := c
  obtain ⟨s', d', i', t'⟩ := c'
  have hi : i = i' := h .indirect
  have ht : t = t' := h .doubly
  have hd : d = d' := by
    apply Vector.ext
    intro k hk
    have hdata := h (.data k)
    rw [pointer_of_root (Place.parent_direct hk), pointer_of_root (Place.parent_direct hk)] at hdata
    simpa [root, directAt, hk] using hdata
  cases size
  rw [hi, ht, hd]

end Chain

end ImageFS
