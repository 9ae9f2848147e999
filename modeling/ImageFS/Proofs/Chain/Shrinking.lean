import ImageFS.Proofs.Chain.Payload
import ImageFS.Proofs.Volume.Seated

/-!
# Shrinking any chain

What is missing from a chain, or lies beyond the device, is found before anything is given back, and from then
on nothing can fail. So taking the last block off a chain changes nothing or takes off one block, whatever the
chain names and whatever stands there, and going on with it comes to an end.
-/

set_option autoImplicit false

namespace ImageFS.Chain

open Volume Holding

variable {n wanted : Nat} {c c' c'' : Chain} {v w u : Volume}

theorem ask_required_null (part : ChainPart) (v : Volume) :
    ask (fun _ => required nullPointer part) v = .error (.corrupt (.missing part)) v :=
  ask_of_error (if_pos rfl)

/-- The image was corrupt and nothing has changed, or all has been done. -/
def AllOrNothing (n : Nat) (act : VolumeM Chain) (v : Volume) : Prop :=
  (∃ cause, act v = .error (.corrupt cause) v) ∨ ∃ c w, act v = .ok c w ∧ Quiet n w

section

variable (h : Quiet n v)

include h

theorem retract_direct_cases (c : Chain) (i : Nat) : AllOrNothing n (c.retract (.direct i)) v := by
  by_cases hdata : c.directAt i = nullPointer
  · rw [AllOrNothing, retract, hdata]
    exact .inl ⟨_, bind_of_error (ask_required_null .data v)⟩
  · obtain ⟨w, hfree, hw⟩ := h.free_ok (c.directAt i)
    refine .inr ⟨c.setDirect i nullPointer, w, ?_, hw⟩
    rw [retract, bind_of_ok (ask_required hdata .data v)]
    exact bind_of_ok hfree

theorem retract_indirect_cases (c : Chain) (i : Nat) : AllOrNothing n (c.retract (.indirect i)) v := by
  by_cases hindirect : c.indirect = nullPointer
  · rw [AllOrNothing, retract, hindirect]
    exact .inl ⟨_, bind_of_error (ask_required_null .indirect v)⟩
  rcases h.readPointer_cases c.indirect i with ⟨hi, htable, hread⟩ | ⟨cause, hread⟩
  · by_cases hdata : (v.cell c.indirect).pointer i = nullPointer
    · rw [AllOrNothing, retract, bind_of_ok (ask_required hindirect .indirect v), bind_of_ok (ask_of_ok hread), hdata]
      exact .inl ⟨_, bind_of_error (ask_required_null .data v)⟩
    -- from here on nothing fails
    obtain ⟨x, hfree, hx⟩ := h.free_ok ((v.cell c.indirect).pointer i)
    obtain ⟨u, hwrite, hu⟩ := hx.writePointer_ok htable hi nullPointer
    rw [AllOrNothing, retract_indirect hindirect hread hdata hfree hwrite]
    split
    · obtain ⟨w, hfree', hw⟩ := hu.free_ok c.indirect
      exact .inr ⟨_, w, bind_of_ok hfree', hw⟩
    · exact .inr ⟨c, u, rfl, hu⟩
  · rw [AllOrNothing, retract, bind_of_ok (ask_required hindirect .indirect v)]
    exact .inl ⟨cause, bind_of_error (ask_of_error hread)⟩

theorem retract_doubly_cases (c : Chain) (outer inner : Nat) :
    AllOrNothing n (c.retract (.doubly outer inner)) v := by
  by_cases hdoubly : c.doubly = nullPointer
  · rw [AllOrNothing, retract, hdoubly]
    exact .inl ⟨_, bind_of_error (ask_required_null .doublyIndirect v)⟩
  rcases h.readPointer_cases c.doubly outer with ⟨houter, htop, hentry⟩ | ⟨cause, hentry⟩
  · generalize htable : (v.cell c.doubly).pointer outer = table at hentry
    by_cases hnull : table = nullPointer
    · rw [AllOrNothing, retract, bind_of_ok (ask_required hdoubly .doublyIndirect v), bind_of_ok (ask_of_ok hentry),
        hnull]
      exact .inl ⟨_, bind_of_error (ask_required_null .indirect v)⟩
    rcases h.readPointer_cases table inner with ⟨hinner, hin, hread⟩ | ⟨cause, hread⟩
    · by_cases hdata : (v.cell table).pointer inner = nullPointer
      · rw [AllOrNothing, retract, bind_of_ok (ask_required hdoubly .doublyIndirect v), bind_of_ok (ask_of_ok hentry),
          bind_of_ok (ask_required hnull .indirect v), bind_of_ok (ask_of_ok hread), hdata]
        exact .inl ⟨_, bind_of_error (ask_required_null .data v)⟩
      -- from here on nothing fails
      obtain ⟨x, hfree, hx⟩ := h.free_ok ((v.cell table).pointer inner)
      obtain ⟨u, hwrite, hu⟩ := hx.writePointer_ok hin hinner nullPointer
      rw [AllOrNothing, retract_doubly hdoubly hentry hnull hread hdata hfree hwrite]
      split
      · obtain ⟨y, hfree', hy⟩ := hu.free_ok table
        obtain ⟨w, hwrite', hw⟩ := hy.writePointer_ok htop houter nullPointer
        rw [bind_of_ok hfree', bind_of_ok hwrite']
        split
        · obtain ⟨w', hfree'', hw'⟩ := hw.free_ok c.doubly
          exact .inr ⟨_, w', bind_of_ok hfree'', hw'⟩
        · exact .inr ⟨c, w, rfl, hw⟩
      · exact .inr ⟨c, u, rfl, hu⟩
    · rw [AllOrNothing, retract, bind_of_ok (ask_required hdoubly .doublyIndirect v), bind_of_ok (ask_of_ok hentry),
        bind_of_ok (ask_required hnull .indirect v)]
      exact .inl ⟨cause, bind_of_error (ask_of_error hread)⟩
  · rw [AllOrNothing, retract, bind_of_ok (ask_required hdoubly .doublyIndirect v)]
    exact .inl ⟨cause, bind_of_error (ask_of_error hentry)⟩

theorem retract_cases (c : Chain) (slot : Slot) : AllOrNothing n (c.retract slot) v := by
  cases slot with
  | direct i => exact retract_direct_cases h c i
  | indirect i => exact retract_indirect_cases h c i
  | doubly outer inner => exact retract_doubly_cases h c outer inner

theorem shrink_cases (c : Chain) :
    (∃ cause, c.shrink v = .error (.corrupt cause) v) ∨
      ∃ c' w, c.shrink v = .ok c' w ∧ c'.blockCount = c.blockCount - 1 ∧ Quiet n w := by
  rw [shrink]
  by_cases hzero : c.blockCount = 0
  · rw [if_pos hzero]
    exact .inr ⟨c, v, rfl, by omega, h⟩
  rw [if_neg hzero]
  rcases retract_cases h c (Tiers.onDisk.locate (c.blockCount - 1)) with ⟨cause, hrun⟩ | ⟨c', w, hrun, hw⟩
  · exact .inl ⟨cause, bind_of_error hrun⟩
  · refine .inr ⟨_, w, bind_of_ok hrun, blockCount_of_size ?_ rfl, hw⟩
    have := c.blockCount_le
    omega

end

/-- Shrinking `c` on `v` for as long as it has more than `wanted` blocks ends after so many steps, with this outcome,
chain and volume. -/
inductive ShrinksTo (wanted : Nat) : Chain → Volume → Nat → Except Error Unit → Chain → Volume → Prop
  | done {c : Chain} {v : Volume} : c.blockCount ≤ wanted → ShrinksTo wanted c v 0 (.ok ()) c v
  | stop {c c' : Chain} {v w : Volume} {e : Error} : wanted < c.blockCount →
      (update shrink).run c v = (.error e, c', w) → ShrinksTo wanted c v 1 (.error e) c' w
  | step {c c' c'' : Chain} {v w u : Volume} {k : Nat} {r : Except Error Unit} : wanted < c.blockCount →
      (update shrink).run c v = (.ok (), c', w) → ShrinksTo wanted c' w k r c'' u →
      ShrinksTo wanted c v (k + 1) r c'' u

theorem shrinksTo_ends (h : Quiet n v) (c : Chain) (wanted : Nat) :
    ∃ k r c' w, ShrinksTo wanted c v k r c' w ∧ k ≤ c.blockCount - wanted ∧
      (shrinkBy (c.blockCount - wanted)).run c v = (r, c', w) ∧
      (r = .ok () ∧ c'.blockCount = min c.blockCount wanted ∨ ∃ cause, r = .error (.corrupt cause)) := by
  generalize hm : c.blockCount - wanted = m
  induction m generalizing c v with
  | zero => exact ⟨0, .ok (), c, v, .done (by omega), Nat.le_refl _, rfl, .inl ⟨rfl, by omega⟩⟩
  | succ m ih =>
    have hmore : wanted < c.blockCount := by omega
    rcases shrink_cases h c with ⟨cause, hrun⟩ | ⟨c', w, hrun, hcount, hw⟩
    · exact ⟨1, _, c, v, .stop hmore (run_of_error (update_of_error hrun)), by omega,
        run_of_error (bind_of_error (update_of_error hrun)), .inr ⟨cause, rfl⟩⟩
    · obtain ⟨k, r, c'', u, hloop, hk, hrest, hend⟩ := ih hw c' (by omega)
      refine ⟨k + 1, r, c'', u, .step hmore (run_of_ok (update_of_ok hrun)) hloop, by omega, ?_, ?_⟩
      · rw [← hrest, Holding.run, Holding.run, shrinkBy, bind_of_ok (update_of_ok hrun)]
      · rw [show min c.blockCount wanted = min c'.blockCount wanted by omega]
        exact hend

end ImageFS.Chain
