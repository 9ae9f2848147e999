import ImageFS.Symlink
import Mathlib.Data.List.Basic
import Mathlib.Data.List.TakeWhile

/-!
# Symlink destinations

Two parts that are joined to a conditional destination come apart again at the first separator, which the
first part must not have for that. A destination sends all callers to itself when it has no two parts, and
not otherwise.
-/

set_option autoImplicit false

namespace ImageFS.Symlink

variable {target root other rest : List UInt8}

@[simp] theorem length_conditionalMark : conditionalMark.length = 5 := rfl

theorem validate_eq_ok : validate target = .ok () ↔ target ≠ [] ∧ 0 ∉ target ∧ target.length ≤ maxTargetLength := by
  unfold validate
  split_ifs with hempty hzero hlong
  · simp [List.isEmpty_iff.mp hempty]
  · simp [List.contains_iff_mem.mp hzero]
  · simp [Nat.not_le_of_lt hlong]
  · simp only [List.isEmpty_iff, List.contains_iff_mem] at hempty hzero
    simp [hempty, hzero, Nat.le_of_not_lt hlong]

theorem conditional_eq_ok : conditional root other = .ok target ↔
    separator ∉ root ∧ validate target = .ok () ∧ target = conditionalMark ++ root ++ separator :: other := by
  unfold conditional
  split_ifs with hroot
  · rw [List.contains_iff_mem] at hroot
    exact ⟨fun h => (by cases h), fun h => absurd hroot h.1⟩
  · rw [List.contains_iff_mem] at hroot
    cases hvalid : validate (conditionalMark ++ root ++ separator :: other) with
    | error e =>
      refine ⟨fun h => ?_, fun h => ?_⟩
      · simp only [bind, Except.bind, hvalid] at h
        cases h
      · rw [h.2.2, hvalid] at h
        exact absurd h.2.1 (by simp)
    | ok _ =>
      simp only [bind, Except.bind, pure, Except.pure, hvalid]
      refine ⟨fun h => ?_, fun h => by rw [h.2.2]⟩
      cases h
      exact ⟨hroot, hvalid, rfl⟩

theorem exists_conditional : (∃ target, conditional root other = .ok target) ↔
    separator ∉ root ∧ 0 ∉ root ∧ 0 ∉ other ∧ 6 + root.length + other.length ≤ maxTargetLength := by
  have hmark : (0 : UInt8) ∉ conditionalMark := by decide
  have hseparator : (0 : UInt8) ≠ separator := by decide
  have hlength : (conditionalMark ++ root ++ separator :: other).length = 6 + root.length + other.length := by
    rw [List.length_append, List.length_append, List.length_cons, length_conditionalMark]
    omega
  have hzero : 0 ∉ conditionalMark ++ root ++ separator :: other ↔ 0 ∉ root ∧ 0 ∉ other := by
    simp only [List.mem_append, List.mem_cons, hmark, hseparator, false_or, not_or]
  have hvalid : validate (conditionalMark ++ root ++ separator :: other) = .ok () ↔ _ := validate_eq_ok
  rw [hlength, hzero] at hvalid
  constructor
  · rintro ⟨target, h⟩
    obtain ⟨hroot, hcheck, rfl⟩ := conditional_eq_ok.mp h
    obtain ⟨-, ⟨hr, ho⟩, hlong⟩ := hvalid.mp hcheck
    exact ⟨hroot, hr, ho, hlong⟩
  · rintro ⟨hroot, hr, ho, hlong⟩
    exact ⟨_, conditional_eq_ok.mpr ⟨hroot, hvalid.mpr ⟨by simp, ⟨hr, ho⟩, hlong⟩, rfl⟩⟩

theorem parts?_mark (rest : List UInt8) : parts? (conditionalMark ++ rest) =
    match rest.dropWhile (· ≠ separator) with
    | [] => none
    | _ :: other => some (rest.takeWhile (· ≠ separator), other) := by
  rw [parts?, List.isPrefixOf?_eq_some_iff_append_eq.mpr rfl]
  rfl

theorem parts?_joined (h : separator ∉ root) :
    parts? (conditionalMark ++ root ++ separator :: other) = some (root, other) := by
  have hpass : ∀ x ∈ root, decide (x ≠ separator) = true := fun x hx => decide_eq_true fun he => h (he ▸ hx)
  rw [List.append_assoc, parts?_mark, List.dropWhile_append_of_pos hpass, List.takeWhile_append_of_pos hpass,
    List.dropWhile_cons_of_neg (by simp), List.takeWhile_cons_of_neg (by simp), List.append_nil]

theorem parts?_eq_none : parts? target = none ↔
    ¬ (conditionalMark <+: target ∧ separator ∈ target.drop conditionalMark.length) := by
  by_cases hmark : conditionalMark <+: target
  · obtain ⟨rest, rfl⟩ := hmark
    have hsplit : rest.dropWhile (· ≠ separator) = [] ↔ separator ∉ rest := by
      rw [List.dropWhile_eq_nil_iff]
      exact ⟨fun h hmem => by simpa using h _ hmem, fun h x hx => decide_eq_true fun he => h (he ▸ hx)⟩
    rw [List.drop_left, parts?_mark, and_iff_right (List.prefix_append _ _), ← hsplit]
    cases rest.dropWhile (· ≠ separator) <;> simp
  · have hnone : conditionalMark.isPrefixOf? target = none := by
      rw [Option.eq_none_iff_forall_ne_some]
      exact fun rest h => hmark ⟨rest, List.isPrefixOf?_eq_some_iff_append_eq.mp h⟩
    rw [parts?, hnone]
    simp [hmark]

theorem length_of_parts? (h : parts? target = some (root, other)) : root.length < target.length := by
  have hmark : conditionalMark <+: target := by
    by_contra hno
    rw [parts?_eq_none.mpr fun hboth => hno hboth.1] at h
    cases h
  obtain ⟨rest, rfl⟩ := hmark
  rw [parts?_mark] at h
  split at h
  · cases h
  · cases h
    have htake := (List.takeWhile_prefix (l := rest) (· ≠ separator)).length_le
    rw [List.length_append, length_conditionalMark]
    omega

theorem resolve_of_conditional (h : conditional root other = .ok target) (privileged : Bool) :
    resolve target privileged = if privileged then root else other := by
  obtain ⟨hroot, -, rfl⟩ := conditional_eq_ok.mp h
  rw [resolve, parts?_joined hroot]

theorem resolve_eq_self : (∀ privileged, resolve target privileged = target) ↔
    ¬ (conditionalMark <+: target ∧ separator ∈ target.drop conditionalMark.length) := by
  rw [← parts?_eq_none]
  cases hparts : parts? target with
  | none =>
    refine ⟨fun _ => rfl, fun _ privileged => ?_⟩
    rw [resolve, hparts]
  | some parts =>
    obtain ⟨root, other⟩ := parts
    refine ⟨fun h => ?_, fun h => nomatch h⟩
    have hself := h true
    rw [resolve, hparts] at hself
    have hshort := length_of_parts? hparts
    rw [← hself] at hshort
    exact absurd hshort (Nat.lt_irrefl _)

end ImageFS.Symlink
