import ImageFS.Proofs.Action
import ImageFS.Proofs.Reference.State

/-!
# What calls do to the reference

A call that succeeds changes one file at most, and one slot of the row of records at most. It gives no symlink
another destination and makes no file one of another kind: what comes under the number of a file is the same
file with other bytes, another mode or another number of names.
-/

set_option autoImplicit false

namespace ImageFS.Reference

open Volume
open FileSystem (Call Answer)

def File.target? : File → Option (List UInt8)
  | .regular _ _ _ => none
  | .symlink _ target => some target

@[simp] theorem File.target?_linked (n : UInt32) (f : File) : (f.linked n).target? = f.target? := by
  cases f <;> rfl

/-- All that a call may do to a state. A name comes with a file that is new or had the same destination before. -/
inductive Step (s : State) : State → Prop
  | kept : Step s s
  | moded (mode : UInt32) : Step s { s with rootMode := mode }
  | changed {ino : UInt32} {f g : File} (before : s.file ino = some f) (same : g.target? = f.target?) :
      Step s (s.setFile ino (some g))
  | added {ino : UInt32} {f : File} (name : Name) (fresh : s.file ino = none → ino ≠ 0)
      (same : ∀ g, s.file ino = some g → f.target? = g.target?) :
      Step s { s.setFile ino (some f) with slots := Entry.putFirst ⟨ino, name⟩ s.slots }
  | removed {ino : UInt32} {left : Option File} (name : Name)
      (same : ∀ f g, s.file ino = some f → left = some g → g.target? = f.target?) :
      Step s { s.setFile ino left with slots := Entry.clearName name s.slots }

variable {s s' : State} {ino dir : UInt32} {f : File} {name : Name} {m : Metadata} {n : Nat}

theorem State.fileAt_eq_ok : s.fileAt ino = .ok f ↔ s.file ino = some f := by
  rw [State.fileAt]
  cases s.file ino <;> simp

theorem State.free_of_vacant (h : n ∈ s.vacant) : s.file (.ofNat n) = none ∧ 2 ≤ (UInt32.ofNat n).toNat := by
  obtain ⟨hrange, hfree⟩ := List.mem_filter.mp h
  obtain ⟨hlow, hhigh⟩ := List.mem_range'_1.mp hrange
  have hcount := s.superblock.inodeCount.toNat_lt
  have hnat : (UInt32.ofNat n).toNat = n := UInt32.toNat_ofNat_of_lt' (by simp only [UInt32.size]; omega)
  rw [hnat]
  exact ⟨Option.isNone_iff_eq_none.mp hfree, hlow⟩

/-- The file `f` has got a name: all that calls do that give names. -/
structure Named (s : State) (dir : UInt32) (name : Name) (ino : UInt32) (f : File) (m : Metadata) (s' : State) : Prop where
  directory : s.checkDirectory dir = .ok ()
  valid : name.Valid
  fresh : s.named name = none
  ne_root : ino ≠ rootInode
  metadata : m = f.metadata ino
  state : s' = { s.setFile ino (some f) with slots := Entry.putFirst ⟨ino, name⟩ s.slots }

theorem named_of_addName (h : s.addName ino f name = .ok (m, s')) (directory : s.checkDirectory dir = .ok ())
    (valid : Name.check name = .ok ()) (ne_root : ino ≠ rootInode) : Named s dir name ino f m s' := by
  unfold State.addName at h
  by_cases htaken : (s.named name).isSome = true
  · rw [if_pos htaken] at h
    cases h
  · rw [if_neg htaken] at h
    obtain ⟨-, -, h⟩ := ok_of_bind h
    cases h
    exact ⟨directory, Name.check_ok.mp valid, Option.not_isSome_iff_eq_none.mp htaken, ne_root, rfl, rfl⟩

theorem addNew_eq_ok (h : s.addNew dir name f = .ok (m, s')) :
    ∃ ino, s.file ino = none ∧ ino ≠ 0 ∧ Named s dir name ino f m s' := by
  unfold State.addNew at h
  obtain ⟨_, valid, h⟩ := ok_of_bind h
  obtain ⟨_, directory, h⟩ := ok_of_bind h
  by_cases htaken : (s.named name).isSome = true
  · rw [if_pos htaken] at h
    cases h
  · rw [if_neg htaken] at h
    cases hvacant : s.vacant with
    | nil =>
      rw [hvacant] at h
      cases h
    | cons n rest =>
      obtain ⟨hfree, hlow⟩ := State.free_of_vacant (hvacant ▸ List.mem_cons_self : n ∈ s.vacant)
      rw [hvacant] at h
      refine ⟨.ofNat n, hfree, fun hzero => ?_, named_of_addName h directory valid fun hroot => ?_⟩
      · exact absurd (congrArg UInt32.toNat hzero) (Nat.ne_of_gt (Nat.lt_of_lt_of_le (by decide) hlow))
      · exact absurd (congrArg UInt32.toNat hroot) (Nat.ne_of_gt (Nat.lt_of_lt_of_le (by decide) hlow))

theorem link_eq_ok (h : s.link ino dir name = .ok (m, s')) :
    ∃ f, s.file ino = some f ∧ Named s dir name ino (f.linked (f.nlink + 1)) m s' := by
  unfold State.link at h
  obtain ⟨-, -, h⟩ := ok_of_bind h
  obtain ⟨_, directory, h⟩ := ok_of_bind h
  obtain ⟨_, valid, h⟩ := ok_of_bind h
  by_cases hroot : ino = rootInode
  · rw [if_pos hroot] at h
    cases h
  · rw [if_neg hroot] at h
    obtain ⟨f, hfound, h⟩ := ok_of_bind h
    exact ⟨f, State.fileAt_eq_ok.mp hfound, named_of_addName h directory valid hroot⟩

theorem addNew_step (h : s.addNew dir name f = .ok (m, s')) : Step s s' := by
  obtain ⟨ino, hfree, hzero, named⟩ := addNew_eq_ok h
  rw [named.state]
  refine .added name (fun _ => hzero) fun g hg => ?_
  rw [hfree] at hg
  cases hg

theorem link_step (h : s.link ino dir name = .ok (m, s')) : Step s s' := by
  obtain ⟨f, hfile, named⟩ := link_eq_ok h
  rw [named.state]
  refine .added name (fun hnone => ?_) fun g hg => ?_
  · rw [hfile] at hnone
    cases hnone
  · cases hfile.symm.trans hg
    exact f.target?_linked _

theorem unlink_step (h : s.unlink dir name = .ok s') : Step s s' := by
  unfold State.unlink at h
  obtain ⟨-, -, h⟩ := ok_of_bind h
  by_cases hlong : maxNameLength < name.length
  · rw [if_pos hlong] at h
    cases h
  · rw [if_neg hlong] at h
    cases hnamed : s.named name with
    | none =>
      rw [hnamed] at h
      cases h
    | some ino =>
      rw [hnamed] at h
      cases h
      refine .removed name fun f g hbefore hleft => ?_
      rw [hbefore, Option.bind_some] at hleft
      split at hleft
      · cases hleft
      · cases hleft
        exact f.target?_linked _

structure Changed (s : State) (ino : UInt32) (f g : File) (m : Metadata) (s' : State) : Prop where
  before : s.file ino = some f
  target : g.target? = f.target?
  ne_root : ino ≠ rootInode
  metadata : m = g.metadata ino
  state : s' = s.setFile ino (some g)

theorem Changed.step {g : File} (c : Changed s ino f g m s') : Step s s' := by
  rw [c.state]
  exact .changed c.before c.target

theorem setSize_eq_ok {size : Nat} (h : s.setSize ino size = .ok (m, s')) : ∃ f g, Changed s ino f g m s' := by
  unfold State.setSize at h
  by_cases hroot : ino = rootInode
  · rw [if_pos hroot] at h
    cases h
  · rw [if_neg hroot] at h
    obtain ⟨f, hfound, h⟩ := ok_of_bind h
    cases f with
    | symlink => cases h
    | regular links mode bytes =>
      obtain ⟨-, -, h⟩ := ok_of_bind h
      cases h
      exact ⟨_, .regular links mode (fitTo size bytes), State.fileAt_eq_ok.mp hfound, rfl, hroot, rfl, rfl⟩

theorem setMode_eq_ok {mode : UInt32} (h : s.setMode ino mode = .ok (m, s')) :
    (ino = rootInode ∧ s' = { s with rootMode := Mode.permissions mode } ∧ m = s'.rootMetadata) ∨
      ∃ f g, Changed s ino f g m s' := by
  unfold State.setMode at h
  by_cases hroot : ino = rootInode
  · rw [if_pos hroot] at h
    cases h
    exact .inl ⟨hroot, rfl, rfl⟩
  · rw [if_neg hroot] at h
    obtain ⟨f, hfound, h⟩ := ok_of_bind h
    cases f with
    | symlink => cases h
    | regular links old bytes =>
      cases h
      exact .inr ⟨_, .regular links (Mode.permissions mode) bytes, State.fileAt_eq_ok.mp hfound, rfl, hroot, rfl, rfl⟩

theorem setSize_step {size : Nat} (h : s.setSize ino size = .ok (m, s')) : Step s s' := by
  obtain ⟨f, g, changed⟩ := setSize_eq_ok h
  exact changed.step

theorem setMode_step {mode : UInt32} (h : s.setMode ino mode = .ok (m, s')) : Step s s' := by
  obtain ⟨-, rfl, -⟩ | ⟨f, g, changed⟩ := setMode_eq_ok h
  · exact .moded _
  · exact changed.step

theorem write_step {offset : Nat} {data : ByteArray} {append : Bool}
    (h : s.write ino offset data append = .ok (n, s')) : Step s s' := by
  unfold State.write at h
  split at h
  · cases h
  · obtain ⟨f, hfound, h⟩ := ok_of_bind h
    cases f with
    | symlink => cases h
    | regular =>
      obtain ⟨-, -, h⟩ := ok_of_bind h
      cases h
      exact .changed (State.fileAt_eq_ok.mp hfound) rfl

theorem perform_step {c : Call} {answer : Answer} (h : perform s c = .ok (answer, s')) : Step s s' := by
  unfold perform at h
  cases c with
  | create dir name mode =>
    obtain ⟨⟨m, t⟩, hrun, h⟩ := ok_of_bind h
    cases h
    exact addNew_step hrun
  | link ino dir name =>
    obtain ⟨⟨m, t⟩, hrun, h⟩ := ok_of_bind h
    cases h
    exact link_step hrun
  | symlink dir name target =>
    obtain ⟨-, -, h⟩ := ok_of_bind h
    obtain ⟨⟨m, t⟩, hrun, h⟩ := ok_of_bind h
    cases h
    exact addNew_step hrun
  | symlinkConditional dir name root other =>
    obtain ⟨target, -, h⟩ := ok_of_bind h
    obtain ⟨⟨m, t⟩, hrun, h⟩ := ok_of_bind h
    cases h
    exact addNew_step hrun
  | unlink dir name =>
    obtain ⟨t, hrun, h⟩ := ok_of_bind h
    cases h
    exact unlink_step hrun
  | setSize ino size =>
    obtain ⟨⟨m, t⟩, hrun, h⟩ := ok_of_bind h
    cases h
    exact setSize_step hrun
  | setMode ino mode =>
    obtain ⟨⟨m, t⟩, hrun, h⟩ := ok_of_bind h
    cases h
    exact setMode_step hrun
  | write ino offset data append =>
    obtain ⟨⟨n, t⟩, hrun, h⟩ := ok_of_bind h
    cases h
    exact write_step hrun
  | stats =>
    cases h
    exact .kept
  | _ =>
    obtain ⟨found, -, h⟩ := ok_of_bind h
    cases h
    exact .kept

theorem Step.target? {g : File} (h : Step s s') (before : s.file ino = some f) (hafter : s'.file ino = some g) :
    g.target? = f.target? := by
  -- The file is either another one than the step is about, or what the step says of that.
  have update : ∀ {j : UInt32} {new : Option File}, (∀ f g, s.file j = some f → new = some g → g.target? = f.target?) →
      Function.update s.file j new ino = some g → g.target? = f.target? := by
    intro j new hsame hafter
    by_cases hj : ino = j
    · subst hj
      rw [Function.update_self] at hafter
      exact hsame f g before hafter
    · rw [Function.update_of_ne hj, before] at hafter
      cases hafter
      rfl
  cases h with
  | kept =>
    cases before.symm.trans hafter
    rfl
  | moded =>
    cases before.symm.trans hafter
    rfl
  | changed hbefore same =>
    refine update (fun x y hx hy => ?_) hafter
    cases hbefore.symm.trans hx
    cases hy
    exact same
  | added _ _ same =>
    refine update (fun x y hx hy => ?_) hafter
    cases hy
    exact same x hx
  | removed _ same => exact update same hafter

end ImageFS.Reference
