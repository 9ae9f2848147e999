import ImageFS.Proofs.FreeMap.Bits
import ImageFS.Proofs.Record.Entry

/-!
# Names and link counts

The rules that bind the slots of the one directory to the link counts of the inodes: names are valid and
different, and every inode but the first two is named as often as its count says. Adding or removing one
record together with one link keeps the rules.
-/

set_option autoImplicit false

namespace ImageFS

def refs (slots : Nat) (E : Nat → Entry) (ino : UInt32) : Nat := (List.range slots).countP fun s => (E s).ino = ino

/-- The slots `E` of the directory agree with the link counts of the inodes. -/
structure Named (count slots : Nat) (E : Nat → Entry) (nlink : UInt32 → UInt32) : Prop where
  valid : ∀ s < slots, (E s).ino ≠ 0 → (E s).name.Valid ∧ 2 ≤ (E s).ino.toNat ∧ (E s).ino.toNat < count
  distinct : ∀ s < slots, ∀ t < slots, (E s).ino ≠ 0 → (E t).ino ≠ 0 → (E s).name = (E t).name → s = t
  links : ∀ ino : UInt32, 2 ≤ ino.toNat → ino.toNat < count → (nlink ino).toNat = refs slots E ino

variable {count slots more slot : Nat} {E E' : Nat → Entry} {nlink nlink' : UInt32 → UInt32} {ino : UInt32}
  {name : Name}

theorem refs_congr (h : ∀ s < slots, E' s = E s) (ino : UInt32) : refs slots E' ino = refs slots E ino := by
  apply List.countP_congr
  intro s hs
  rw [h s (List.mem_range.mp hs)]

theorem refs_le (slots : Nat) (E : Nat → Entry) (ino : UInt32) : refs slots E ino ≤ slots := by
  have := (List.range slots).countP_le_length (p := fun s => (E s).ino = ino)
  rwa [List.length_range] at this

theorem refs_pos {s : Nat} (hs : s < slots) (h : (E s).ino = ino) : 0 < refs slots E ino :=
  List.countP_pos_iff.mpr ⟨s, List.mem_range.mpr hs, by simpa using h⟩

theorem refs_fill (hslot : slot < slots) (hne : ino ≠ 0) (hempty : (E slot).ino = 0) (hfull : (E' slot).ino = ino)
    (same : ∀ s, s ≠ slot → E' s = E s) (j : UInt32) (hj : j ≠ 0) :
    refs slots E' j = if j = ino then refs slots E j + 1 else refs slots E j := by
  by_cases hji : j = ino
  · rw [if_pos hji]
    refine FreeMap.countP_range_add_one hslot ?_ ?_ fun s hs => ?_
    · rw [hempty, hji]
      exact decide_eq_false hne.symm
    · rw [hfull, hji]
      exact decide_eq_true rfl
    · rw [same s hs]
  · rw [if_neg hji]
    apply List.countP_congr
    intro s _
    by_cases hs : s = slot
    · rw [hs, hfull, hempty, decide_eq_true_eq, decide_eq_true_eq]
      exact iff_of_false (Ne.symm hji) (Ne.symm hj)
    · rw [same s hs]

namespace Named

variable (n : Named count slots E nlink)

include n

theorem linked {s : Nat} (hs : s < slots) (h : (E s).ino ≠ 0) : nlink (E s).ino ≠ 0 := by
  obtain ⟨-, hlow, hhigh⟩ := n.valid s hs h
  intro hzero
  have hlinks := n.links _ hlow hhigh
  have hpos := refs_pos (E := E) hs rfl
  rw [hzero, UInt32.toNat_zero] at hlinks
  omega

theorem exists_slot (hlow : 2 ≤ ino.toNat) (hhigh : ino.toNat < count) (h : nlink ino ≠ 0) :
    ∃ s < slots, (E s).ino = ino := by
  have hpos : 0 < refs slots E ino := by
    rw [← n.links ino hlow hhigh]
    exact Nat.pos_of_ne_zero fun hz => h (UInt32.toNat_inj.mp hz)
  obtain ⟨s, hs, he⟩ := List.countP_pos_iff.mp hpos
  exact ⟨s, List.mem_range.mp hs, by simpa using he⟩

theorem congr (entries : ∀ s < slots, E' s = E s)
    (links : ∀ ino : UInt32, 2 ≤ ino.toNat → nlink' ino = nlink ino) : Named count slots E' nlink' where
  valid s hs := by
    rw [entries s hs]
    exact n.valid s hs
  distinct s hs t ht := by
    rw [entries s hs, entries t ht]
    exact n.distinct s hs t ht
  links ino hlow hhigh := by
    rw [links ino hlow, refs_congr entries, n.links ino hlow hhigh]

theorem grow (hle : slots ≤ more) (old : ∀ s < slots, E' s = E s)
    (new : ∀ s, slots ≤ s → s < more → (E' s).ino = 0) : Named count more E' nlink := by
  have hold : ∀ s < more, (E' s).ino ≠ 0 → s < slots := by
    intro s hs hne
    by_contra hout
    exact hne (new s (Nat.le_of_not_lt hout) hs)
  refine ⟨fun s hs hne => ?_, fun s hs t ht hne hne' hname => ?_, fun ino hlow hhigh => ?_⟩
  · have hin := hold s hs hne
    rw [old s hin] at hne ⊢
    exact n.valid s hin hne
  · have hin := hold s hs hne
    have hin' := hold t ht hne'
    rw [old s hin] at hne hname
    rw [old t hin'] at hne' hname
    exact n.distinct s hin t hin' hne hne' hname
  · have hsplit : List.range more = List.range slots ++ (List.range (more - slots)).map (slots + ·) := by
      rw [← List.range_add, Nat.add_sub_cancel' hle]
    have hnew : ((List.range (more - slots)).map (slots + ·)).countP (fun s => (E' s).ino = ino) = 0 := by
      apply List.countP_eq_zero.mpr
      intro s hs
      obtain ⟨k, hk, rfl⟩ := List.mem_map.mp hs
      have hk := List.mem_range.mp hk
      rw [new _ (Nat.le_add_right _ _) (by omega), decide_eq_true_eq]
      rintro rfl
      exact absurd hlow (by decide)
    rw [n.links ino hlow hhigh, ← refs_congr old, refs, refs, hsplit, List.countP_append, hnew]
    rfl

theorem add (hslot : slot < slots) (hempty : (E slot).ino = 0) (hname : name.Valid)
    (fresh : ∀ s < slots, (E s).ino ≠ 0 → (E s).name ≠ name) (hlow : 2 ≤ ino.toNat) (hhigh : ino.toNat < count)
    (hslots : slots < UInt32.size) (filled : E' slot = ⟨ino, name⟩) (same : ∀ s, s ≠ slot → E' s = E s)
    (links : ∀ j, nlink' j = if j = ino then nlink ino + 1 else nlink j) : Named count slots E' nlink' := by
  have hne : ino ≠ 0 := by
    rintro rfl
    exact absurd hlow (by decide)
  -- The new name is none of the old ones, and there are fewer slots than a link count can tell.
  refine ⟨fun s hs hs0 => ?_, fun s hs t ht hs0 ht0 heq => ?_, fun j hjlow hjhigh => ?_⟩
  · by_cases hse : s = slot
    · rw [hse, filled]
      exact ⟨hname, hlow, hhigh⟩
    · rw [same s hse] at hs0 ⊢
      exact n.valid s hs hs0
  · by_cases hse : s = slot <;> by_cases hte : t = slot
    · rw [hse, hte]
    · rw [hse, filled, same t hte] at heq
      rw [same t hte] at ht0
      exact absurd heq.symm (fresh t ht ht0)
    · rw [hte, filled, same s hse] at heq
      rw [same s hse] at hs0
      exact absurd heq (fresh s hs hs0)
    · rw [same s hse] at hs0 heq
      rw [same t hte] at ht0 heq
      exact n.distinct s hs t ht hs0 ht0 heq
  · have hj : j ≠ 0 := by
      rintro rfl
      exact absurd hjlow (by decide)
    rw [refs_fill hslot hne hempty (by rw [filled]) same j hj, links]
    by_cases hji : j = ino
    · have hlink := n.links ino hlow hhigh
      have hle : refs slots E' ino ≤ slots := refs_le _ _ _
      rw [refs_fill hslot hne hempty (by rw [filled]) same ino hne, if_pos rfl] at hle
      rw [if_pos hji, if_pos hji, hji, UInt32.toNat_add, hlink]
      exact Nat.mod_eq_of_lt (Nat.lt_of_le_of_lt hle hslots)
    · rw [if_neg hji, if_neg hji, n.links j hjlow hjhigh]

theorem remove (hslot : slot < slots) (hne : (E slot).ino ≠ 0) (emptied : (E' slot).ino = 0)
    (same : ∀ s, s ≠ slot → E' s = E s)
    (links : ∀ j, nlink' j = if j = (E slot).ino then nlink j - 1 else nlink j) : Named count slots E' nlink' := by
  obtain ⟨-, hlow, hhigh⟩ := n.valid slot hslot hne
  have hother : ∀ s, (E' s).ino ≠ 0 → s ≠ slot := by
    rintro s hs rfl
    exact hs emptied
  refine ⟨fun s hs hs0 => ?_, fun s hs t ht hs0 ht0 heq => ?_, fun j hjlow hjhigh => ?_⟩
  · have hse := hother s hs0
    rw [same s hse] at hs0 ⊢
    exact n.valid s hs hs0
  · have hse := hother s hs0
    have hte := hother t ht0
    rw [same s hse] at hs0 heq
    rw [same t hte] at ht0 heq
    exact n.distinct s hs t ht hs0 ht0 heq
  · have hj : j ≠ 0 := by
      rintro rfl
      exact absurd hjlow (by decide)
    have hcount := refs_fill hslot hne emptied rfl (fun s hs => (same s hs).symm) j hj
    rw [links]
    have hlink := n.links j hjlow hjhigh
    by_cases hji : j = (E slot).ino
    · rw [if_pos hji] at hcount
      have hone : (1 : UInt32) ≤ nlink j := by
        rw [UInt32.le_iff_toNat_le, hlink, hcount]
        exact Nat.le_add_left _ _
      rw [if_pos hji, UInt32.toNat_sub_of_le _ _ hone, hlink, hcount]
      exact Nat.add_sub_cancel _ _
    · rw [if_neg hji] at hcount
      rw [if_neg hji, hlink, hcount]

end Named

end ImageFS
