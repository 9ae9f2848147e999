import ImageFS.Proofs.Reference.Steps

/-!
# What calls do to the records

No call moves a record. A name comes into the first empty slot of the row, or into a new one behind it, and
a name that goes leaves its slot empty.
-/

set_option autoImplicit false

namespace ImageFS.Entry

variable {slots : List Entry} {e e' : Entry} {k : Nat} {name : Name}

theorem length_withRoom (slots : List Entry) :
    (withRoom slots).length = if slots.any isEmpty then slots.length else slots.length + entriesPerBlock := by
  unfold withRoom
  split
  · rfl
  · rw [List.length_append, List.length_replicate]

theorem findIdx_lt_withRoom (slots : List Entry) : slots.findIdx isEmpty < (withRoom slots).length := by
  rw [length_withRoom]
  split
  · rename_i hany
    exact List.findIdx_lt_length_of_exists (List.any_eq_true.mp hany)
  · exact Nat.lt_of_le_of_lt List.findIdx_le_length (Nat.lt_add_of_pos_right (by decide))

theorem length_putFirst (e : Entry) (slots : List Entry) :
    (putFirst e slots).length = if slots.any isEmpty then slots.length else slots.length + entriesPerBlock := by
  rw [putFirst, List.length_set, length_withRoom]

theorem getElem?_putFirst_self (e : Entry) (slots : List Entry) :
    (putFirst e slots)[slots.findIdx isEmpty]? = some e := by
  rw [putFirst, List.getElem?_set_self (findIdx_lt_withRoom slots)]

theorem mem_putFirst {x : Entry} (hx : x ∈ putFirst e slots) (hempty : x.isEmpty = false) : x = e ∨ x ∈ slots := by
  obtain hx | hx := List.mem_or_eq_of_mem_set hx
  · unfold withRoom at hx
    split at hx
    · exact .inr hx
    · obtain hx | hx := List.mem_append.mp hx
      · exact .inr hx
      · rw [List.eq_of_mem_replicate hx] at hempty
        cases hempty
  · exact .inl hx

theorem getElem?_putFirst (hk : slots[k]? = some e) (he : e.isEmpty = false) : (putFirst e' slots)[k]? = some e := by
  have hroom : (withRoom slots)[k]? = some e := by
    unfold withRoom
    split
    · exact hk
    · rw [List.getElem?_append_left (List.getElem?_eq_some_iff.mp hk).1, hk]
  have hne : slots.findIdx isEmpty ≠ k := by
    rintro rfl
    obtain ⟨hlt, hget⟩ := List.getElem?_eq_some_iff.mp hk
    have hempty : (slots[slots.findIdx isEmpty]).isEmpty = true := List.findIdx_getElem
    rw [hget, he] at hempty
    cases hempty
  rw [putFirst, List.getElem?_set_ne hne, hroom]

theorem find?_putFirst {p : Entry → Bool} (hp : ∀ x, p x = true → x.isEmpty = false) (he : p e = true)
    (hnone : slots.find? p = none) : (putFirst e slots).find? p = some e := by
  cases hfound : (putFirst e slots).find? p with
  | none => exact absurd he (List.find?_eq_none.mp hfound e (List.mem_of_getElem? (getElem?_putFirst_self e slots)))
  | some x =>
    have hx := List.find?_some hfound
    obtain rfl | hold := mem_putFirst (List.mem_of_find?_eq_some hfound) (hp x hx)
    · rfl
    · exact absurd hx (List.find?_eq_none.mp hnone x hold)

theorem getElem?_clearName (hk : slots[k]? = some e) (he : e.name ≠ name) : (clearName name slots)[k]? = some e := by
  have hne : (slots.findIdx fun e => !e.isEmpty && e.name = name) ≠ k := by
    intro hidx
    obtain ⟨hlt, hget⟩ := List.getElem?_eq_some_iff.mp hk
    rw [← hidx] at hlt
    have htest := List.findIdx_getElem (w := hlt)
    simp only [hidx, hget, Bool.and_eq_true, decide_eq_true_eq] at htest
    exact he htest.2
  rw [clearName, List.getElem?_set_ne hne, hk]

end ImageFS.Entry

namespace ImageFS.Reference

open FileSystem (Call Answer)

/-- A step of the reference leaves the row of records, puts one that is not empty into an empty slot, or empties
the slot of a name. -/
inductive RowStep (slots : List Entry) : List Entry → Prop
  | kept : RowStep slots slots
  | put {e : Entry} (filled : e.isEmpty = false) : RowStep slots (Entry.putFirst e slots)
  | cleared (name : Name) : RowStep slots (Entry.clearName name slots)

variable {s s' : State}

theorem Step.slots (hzero : s.file 0 = none) (h : Step s s') : RowStep s.slots s'.slots := by
  cases h with
  | kept => exact .kept
  | moded => exact .kept
  | changed => exact .kept
  | @added ino f name fresh same =>
    refine .put (decide_eq_false fun (hino : ino = 0) => ?_)
    subst hino
    exact fresh hzero rfl
  | removed name => exact .cleared name

theorem perform_slots {c : Call} {answer : Answer} (hzero : s.file 0 = none) (h : perform s c = .ok (answer, s')) :
    RowStep s.slots s'.slots :=
  (perform_step h).slots hzero

end ImageFS.Reference
