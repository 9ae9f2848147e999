import ImageFS.Proofs.FileSystem.Symlinks
import ImageFS.Proofs.Reference.Records

/-!
# Metadata that calls return

A call that answers with metadata answers with what is stored under the number from then on. It leaves the metadata
of all other inodes as it was, but for the size of the root, which grows by a block when a name finds no empty slot.
-/

set_option autoImplicit false

namespace ImageFS.FileSystem

/-- The inode that a call is about, when the caller gives its number. -/
def Call.subject? : Call → Option UInt32
  | .metadata ino | .link ino _ _ | .setSize ino _ | .setMode ino _ => some ino
  | _ => none

def Call.naming? : Call → Option (UInt32 × Name)
  | .create dir name _ | .link _ dir name | .symlink dir name _ | .symlinkConditional dir name _ _ => some (dir, name)
  | _ => none

end ImageFS.FileSystem

namespace ImageFS.Reference

open Volume
open FileSystem (Call Answer)

/-- What a call has done that told the metadata `m`: this is stored under its number, also for the name that the call
gave, and all other files are as they were. -/
structure Told (s : State) (c : Call) (m : Metadata) (s' : State) : Prop where
  subject : ∀ ino, c.subject? = some ino → m.ino = ino
  stored : s'.metadata m.ino = .ok m
  found : ∀ dir name, c.naming? = some (dir, name) → s'.lookup dir name = .ok m
  others : ∀ ino, ino ≠ m.ino → s'.file ino = s.file ino
  mode : m.ino ≠ rootInode → s'.rootMode = s.rootMode
  slots : s'.slots = match c.naming? with
    | some (_, name) => Entry.putFirst ⟨m.ino, name⟩ s.slots
    | none => s.slots

variable {s s' : State} {c : Call} {ino dir : UInt32} {f g : File} {name : Name} {m : Metadata}

theorem File.ino_metadata (ino : UInt32) (f : File) : (f.metadata ino).ino = ino := by
  cases f <;> rfl

theorem State.metadata_file (hne : ino ≠ rootInode) (h : s.file ino = some f) : s.metadata ino = .ok (f.metadata ino) := by
  rw [State.metadata, if_neg hne, State.fileAt_eq_ok.mpr h]
  rfl

theorem State.ino_of_metadata (h : s.metadata ino = .ok m) : m.ino = ino := by
  unfold State.metadata at h
  by_cases hroot : ino = rootInode
  · rw [if_pos hroot] at h
    cases h
    exact hroot.symm
  · rw [if_neg hroot] at h
    obtain ⟨f, -, h⟩ := ok_of_bind h
    cases h
    exact f.ino_metadata ino

theorem State.checkDirectory_ok (h : s.checkDirectory dir = .ok ()) : dir = rootInode := by
  by_contra hne
  rw [State.checkDirectory, if_neg hne] at h
  obtain ⟨-, -, h⟩ := ok_of_bind h
  cases h

theorem told_of_metadata (h : s.metadata ino = .ok m) (subject : ∀ j, c.subject? = some j → j = ino)
    (naming : c.naming? = none) : Told s c m s where
  subject j hj := (State.ino_of_metadata h).trans (subject j hj).symm
  stored := by
    rw [State.ino_of_metadata h]
    exact h
  found dir name hname := by
    rw [naming] at hname
    cases hname
  others _ _ := rfl
  mode _ := rfl
  slots := by rw [naming]

theorem told_of_named (named : Named s dir name ino f m s') (hzero : ino ≠ 0)
    (subject : ∀ j, c.subject? = some j → j = ino) (naming : c.naming? = some (dir, name)) : Told s c m s' := by
  have hino : m.ino = ino := by
    rw [named.metadata]
    exact f.ino_metadata ino
  have hfile : s'.file ino = some f := by
    rw [named.state]
    exact Function.update_self _ _ _
  have hstored : s'.metadata ino = .ok m := by
    rw [named.metadata]
    exact State.metadata_file named.ne_root hfile
  -- The name was new, so that the entry just put into the row is the only one that bears it.
  have hfind : s'.named name = some ino := by
    have hfresh := named.fresh
    rw [State.named, Option.map_eq_none_iff] at hfresh
    rw [State.named, named.state]
    change Option.map _ ((Entry.putFirst ⟨ino, name⟩ s.slots).find? _) = _
    rw [Entry.find?_putFirst (fun x hx => by simpa using (Bool.and_eq_true_iff.mp hx).1)
      (by simpa [Entry.isEmpty] using hzero) hfresh]
    rfl
  refine ⟨fun j hj => hino.trans (subject j hj).symm, hino ▸ hstored, fun dir' name' hname => ?_, fun j hj => ?_,
    fun _ => ?_, ?_⟩
  · cases naming.symm.trans hname
    have hroot := State.checkDirectory_ok named.directory
    have hcheck : s'.checkDirectory dir = .ok () := if_pos hroot
    rw [State.lookup, if_neg (Nat.not_lt_of_le named.valid.short), hcheck, hfind]
    exact hstored
  · rw [named.state]
    exact Function.update_of_ne (hino ▸ hj) _ _
  · rw [named.state]
    rfl
  · rw [naming, named.state, hino]

theorem told_of_addNew (h : s.addNew dir name f = .ok (m, s')) (subject : c.subject? = none)
    (naming : c.naming? = some (dir, name)) : Told s c m s' := by
  obtain ⟨ino, -, hne, named⟩ := addNew_eq_ok h
  refine told_of_named named hne (fun j hj => ?_) naming
  rw [subject] at hj
  cases hj

theorem told_of_changed (changed : Changed s ino f g m s') (subject : ∀ j, c.subject? = some j → j = ino)
    (naming : c.naming? = none) : Told s c m s' := by
  have hino : m.ino = ino := by
    rw [changed.metadata]
    exact g.ino_metadata ino
  have hfile : s'.file ino = some g := by
    rw [changed.state]
    exact Function.update_self _ _ _
  refine ⟨fun j hj => hino.trans (subject j hj).symm, ?_, fun dir name hname => ?_, fun j hj => ?_, fun _ => ?_, ?_⟩
  · rw [hino, changed.metadata]
    exact State.metadata_file changed.ne_root hfile
  · rw [naming] at hname
    cases hname
  · rw [changed.state]
    exact Function.update_of_ne (hino ▸ hj) _ _
  · rw [changed.state]
    rfl
  · rw [naming, changed.state]
    rfl

theorem told_of_rootMode (mode : UInt32) :
    Told s (.setMode rootInode mode) { s with rootMode := Mode.permissions mode }.rootMetadata
      { s with rootMode := Mode.permissions mode } where
  subject ino hino := by
    cases hino
    rfl
  stored := if_pos rfl
  found dir name hname := by cases hname
  others _ _ := rfl
  mode hne := absurd rfl hne
  slots := rfl

theorem told_of_perform (hzero : s.file 0 = none) (h : perform s c = .ok (.metadata m, s')) : Told s c m s' := by
  unfold perform at h
  cases c with
  | metadata ino =>
    obtain ⟨m, hfound, h⟩ := ok_of_bind h
    cases h
    exact told_of_metadata hfound (fun j hj => (Option.some.inj hj).symm) rfl
  | lookup dir name =>
    obtain ⟨m, hfound, h⟩ := ok_of_bind h
    cases h
    unfold State.lookup at hfound
    by_cases hlong : maxNameLength < name.length
    · rw [if_pos hlong] at hfound
      cases hfound
    · rw [if_neg hlong] at hfound
      obtain ⟨-, -, hfound⟩ := ok_of_bind hfound
      cases hnamed : s.named name with
      | none =>
        rw [hnamed] at hfound
        cases hfound
      | some ino =>
        rw [hnamed] at hfound
        exact told_of_metadata hfound (fun j hj => by cases hj) rfl
  | create dir name mode =>
    obtain ⟨⟨m, t⟩, hrun, h⟩ := ok_of_bind h
    cases h
    exact told_of_addNew hrun rfl rfl
  | link ino dir name =>
    obtain ⟨⟨m, t⟩, hrun, h⟩ := ok_of_bind h
    cases h
    obtain ⟨f, hfile, named⟩ := link_eq_ok hrun
    refine told_of_named named ?_ (fun j hj => (Option.some.inj hj).symm) rfl
    rintro rfl
    cases hzero.symm.trans hfile
  | symlink dir name target =>
    obtain ⟨-, -, h⟩ := ok_of_bind h
    obtain ⟨⟨m, t⟩, hrun, h⟩ := ok_of_bind h
    cases h
    exact told_of_addNew hrun rfl rfl
  | symlinkConditional dir name root other =>
    obtain ⟨target, -, h⟩ := ok_of_bind h
    obtain ⟨⟨m, t⟩, hrun, h⟩ := ok_of_bind h
    cases h
    exact told_of_addNew hrun rfl rfl
  | setSize ino size =>
    obtain ⟨⟨m, t⟩, hrun, h⟩ := ok_of_bind h
    cases h
    obtain ⟨f, g, changed⟩ := setSize_eq_ok hrun
    exact told_of_changed changed (fun j hj => (Option.some.inj hj).symm) rfl
  | setMode ino mode =>
    obtain ⟨⟨m, t⟩, hrun, h⟩ := ok_of_bind h
    cases h
    obtain ⟨rfl, rfl, rfl⟩ | ⟨f, g, changed⟩ := setMode_eq_ok hrun
    · exact told_of_rootMode mode
    · exact told_of_changed changed (fun j hj => (Option.some.inj hj).symm) rfl
  -- The other calls do not answer with metadata.
  | stats => cases h
  | _ =>
    obtain ⟨found, -, h⟩ := ok_of_bind h
    cases h

namespace Told

variable (t : Told s c m s')

include t

theorem metadata_other (hne : ino ≠ m.ino) (hroot : ino ≠ rootInode) : s'.metadata ino = s.metadata ino := by
  rw [State.metadata, State.metadata, if_neg hroot, if_neg hroot, State.fileAt, State.fileAt, t.others ino hne]

theorem rootMetadata (hne : m.ino ≠ rootInode) : s'.rootMetadata =
    if c.naming?.isSome && !s.slots.any Entry.isEmpty then
      { s.rootMetadata with size := s.rootMetadata.size + 1024, blocks := s.rootMetadata.blocks + 1 }
    else s.rootMetadata := by
  have hslots := t.slots
  rw [State.rootMetadata, State.rootMetadata, State.rootBlocks, State.rootBlocks, t.mode hne]
  cases hnaming : c.naming? with
  | none =>
    rw [hnaming] at hslots
    rw [hslots]
    rfl
  | some naming =>
    rw [hnaming] at hslots
    have hlength := congrArg List.length hslots
    rw [Entry.length_putFirst] at hlength
    cases hany : s.slots.any Entry.isEmpty with
    | true =>
      rw [hany, if_pos rfl] at hlength
      rw [hlength]
      rfl
    | false =>
      rw [hany, if_neg Bool.false_ne_true] at hlength
      rw [hlength, Nat.add_mul, UInt32.ofNat_add, Nat.add_div_right _ (by decide)]
      rfl

end Told

end ImageFS.Reference

namespace ImageFS.FileSystem

open Volume Reference

variable {v w : Volume} {T : UInt32 → Inode} {c : Call} {m : Metadata}

theorem Consistent.told (h : Consistent v T) (hrun : c.run v = (.ok (.metadata m), w)) :
    Told (state v) c m (state w) ∧ ∃ T', Consistent w T' := by
  have hseen := h.seen_perform c
  cases hperform : c.perform v with
  | error e u =>
    rw [run_of_error hperform] at hrun
    cases hrun
  | ok answer u =>
    rw [run_of_ok hperform] at hrun
    cases hrun
    rw [seen_of_ok hperform] at hseen
    exact ⟨told_of_perform h.file_zero hseen.symm, (h.keeps_perform c).ok hperform⟩

theorem Consistent.metadata_of_subject (h : Consistent v T) (hrun : c.run v = (.ok (.metadata m), w)) {ino : UInt32}
    (hc : c.subject? = some ino) : metadata w ino = .ok m := by
  obtain ⟨told, T', h'⟩ := h.told hrun
  rw [h'.metadata_state, ← told.subject ino hc]
  exact told.stored

/-- The metadata that a call returns is what is stored from then on: the inode has it when asked for by its number and,
where the call gave a name, when looked up by that. All other inodes have the metadata they had before, but for the
root, which has one block more when the name found no empty slot. -/
theorem returned_metadata_stored {device d : Device} {inodes : UInt32} {v₀ : Volume} (faultFree : device.FaultFree)
    (formatted : Volume.format inodes device = .ok v₀ d) (reached : Later (fun _ => True) v₀ v)
    (hrun : c.run v = (.ok (.metadata m), w)) :
    (∀ ino, c.subject? = some ino → m.ino = ino) ∧ metadata w m.ino = .ok m ∧
    (∀ dir name, c.naming? = some (dir, name) → lookup w dir name = .ok m) ∧
    (∀ ino, ino ≠ m.ino → ino ≠ rootInode → metadata w ino = metadata v ino) ∧
    (m.ino ≠ rootInode → ∃ root, metadata v rootInode = .ok root ∧ metadata w rootInode =
      .ok (if c.naming?.isSome && !(rootEntries v).any Entry.isEmpty then
        { root with size := root.size + 1024, blocks := root.blocks + 1 } else root)) := by
  obtain ⟨⟨T, h⟩, -⟩ := reached.mountable (mountable_format faultFree formatted)
  obtain ⟨told, T', h'⟩ := h.told hrun
  refine ⟨told.subject, ?_, fun dir name hname => ?_, fun ino hne hroot => ?_, fun hne => ?_⟩
  · rw [h'.metadata_state]
    exact told.stored
  · rw [h'.lookup_state]
    exact told.found dir name hname
  · rw [h'.metadata_state, h.metadata_state]
    exact told.metadata_other hne hroot
  · refine ⟨(state v).rootMetadata, h.metadata_state rootInode, ?_⟩
    rw [h'.metadata_state]
    exact congrArg Except.ok (told.rootMetadata hne)

theorem returned_metadata_stored_first : ∃ v d m w, Volume.format 16 (.blank 16384 512) = .ok v d ∧
    (Call.create rootInode ['a'.toUInt8] 0o644).run v = (.ok (.metadata m), w) ∧ m.ino = 2 ∧ metadata w 2 = .ok m ∧
      lookup w rootInode ['a'.toUInt8] = .ok m ∧ metadata w rootInode = .ok ⟨1, .directory, 1024, 1, 0o755, 1⟩ := by
  obtain ⟨v, d, hformat⟩ := exists_new
  have hstate := state_format (blank_faultFree _ _) hformat
  obtain ⟨w, hadd, -⟩ := addNew_format (blank_faultFree _ _) hformat (by decide : Name.check ['a'.toUInt8] = .ok ())
    (.inl ⟨Mode.permissions 0o644, rfl⟩)
  have hrun : (Call.create rootInode ['a'.toUInt8] 0o644).run v = (.ok (.metadata _), w) := run_of_ok (bind_of_ok hadd)
  obtain ⟨-, hstored, hfound, -, hroot⟩ := returned_metadata_stored (blank_faultFree _ _) hformat .start hrun
  refine ⟨v, d, _, w, hformat, hrun, rfl, hstored, hfound _ _ rfl, ?_⟩
  obtain ⟨root, hbefore, hafter⟩ := hroot (by decide)
  have hentries : rootEntries v = [] := congrArg State.slots hstate
  have hnew : metadata v rootInode = (State.new _).metadata rootInode :=
    ((format_consistent (blank_faultFree _ _) hformat).metadata_state rootInode).trans
      (congrArg (State.metadata · rootInode) hstate)
  cases hbefore.symm.trans hnew
  rw [hafter, hentries]
  rfl

end ImageFS.FileSystem
