import ImageFS.Proofs.FileSystem.Layout
import ImageFS.Proofs.Reference.Abstraction

/-!
# The file system refines its reference

A call on a consistent volume gives the answer that the reference gives, and leaves a volume that stands
for the state to which the reference goes. So all that a run of calls answers follows from the state at
its start.
-/

set_option autoImplicit false

namespace ImageFS.FileSystem

open Volume Reference

/-- What an action gives, and what the volume stands for after it. -/
def seen {α : Type} (act : VolumeM α) (v : Volume) : Except Error (α × State) :=
  match act v with
  | .ok a w => .ok (a, state w)
  | .error e _ => .error e

inductive NewFile : Body → File → Prop
  | regular (mode : UInt32) : NewFile (.regular mode .empty) (.regular 1 mode .empty)
  | symlink {target : List UInt8} (h : Symlink.validate target = .ok ()) : NewFile (.symlink target) (.symlink 1 target)

variable {v w : Volume} {T T' : UInt32 → Inode} {ino j : UInt32} {i : Inode} {f : File} {name : Name} {body : Body}
  {named : Option UInt32} {bytes : ByteArray} {e : Error} {α β : Type} {act : VolumeM α} {a : α}

theorem seen_of_ok (hrun : act v = .ok a w) : seen act v = .ok (a, state w) := by rw [seen, hrun]

theorem seen_of_error (hrun : act v = .error e w) : seen act v = .error e := by rw [seen, hrun]

theorem seen_map (g : α → β) : seen (do return g (← act)) v = (do
    let (a, s) ← seen act v
    return (g a, s)) := by
  cases hrun : act v with
  | ok a w =>
    rw [seen, bind_of_ok hrun, seen_of_ok hrun]
    rfl
  | error e w =>
    rw [seen, bind_of_error hrun, seen_of_error hrun]
    rfl

theorem seen_answer (g : Volume → Except Error α) (answer : α → Answer) :
    seen (do return answer (← ask g)) v = (do return (answer (← g v), state v)) := by
  rw [seen_map]
  cases hg : g v with
  | ok a =>
    rw [seen_of_ok (ask_of_ok hg)]
    rfl
  | error e =>
    rw [seen_of_error (ask_of_error hg)]
    rfl

theorem NewFile.isNew (n : NewFile body f) : IsNew body := by
  cases n with
  | regular mode => exact .inl ⟨mode, rfl⟩
  | symlink hvalid => exact .inr ⟨_, rfl, hvalid⟩

theorem NewFile.file (n : NewFile body f) (hlive : liveInode v ino = .ok ⟨ino, 1, body⟩)
    (hbytes : contents v ino = (Inode.chain? ⟨ino, 1, body⟩).map fun _ => .empty) : file v ino = some f := by
  rw [file_of_live hlive, hbytes]
  cases n with
  | regular mode => rfl
  | symlink hvalid => rfl

section

variable {n mode : UInt32} {c : Chain} (hne : ino ≠ rootInode) (s : FileStep v ino ⟨ino, n, .regular mode c⟩ bytes w)

include s

theorem FileStep.file : file w ino = some (.regular n mode bytes) := by
  rw [file_of_live s.live, s.bytes]
  rfl

include hne

theorem seen_file {act : VolumeM α} (steady : Steady act) (hrun : act v = .ok a w) :
    seen act v = .ok (a, (state v).setFile ino (some (.regular n mode bytes))) := by
  rw [seen_of_ok hrun, s.state hne (steady.superblock hrun), s.file]

theorem seen_metadata {act : VolumeM Metadata} (steady : Steady act)
    (hrun : act v = .ok (Inode.metadata ⟨ino, n, .regular mode c⟩) w) :
    seen act v = .ok (File.metadata ino (.regular n mode bytes),
      (state v).setFile ino (some (.regular n mode bytes))) := by
  obtain ⟨T', hT'⟩ := s.consistent
  rw [seen_file hne s steady hrun, hT'.metadata_of_file s.live s.file hne]

end

namespace Consistent

variable (h : Consistent v T)

include h

section

variable (hfresh : nameMap v name = none)

omit h in
theorem addName_refused (hmap : nameMap v name = some j) : (state v).addName ino f name = .error .alreadyExists := by
  rw [State.addName, named_state, hmap]
  rfl

include hfresh

theorem addName_error (hfull : slotError v = some e) : (state v).addName ino f name = .error e := by
  rw [State.addName, named_state, hfresh, h.checkRoom_state, hfull]
  rfl

theorem seen_named {act : VolumeM Metadata} (steady : Steady act) (hroom : slotError v = none) (hne : ino ≠ rootInode)
    (hrun : act v = .ok i.metadata w) (s : NameStep v name named ino w)
    (hlive : liveInode w ino = .ok i) (hfile : file w ino = some f)
    (hentries : rootEntries w = Entry.putFirst ⟨ino, name⟩ (rootEntries v)) :
    seen act v = (state v).addName ino f name := by
  obtain ⟨T', hT'⟩ := s.consistent
  rw [seen_of_ok hrun, h.state_named s (steady.superblock hrun), hfile, hentries, hT'.metadata_of_file hlive hfile hne,
    State.addName, named_state, hfresh, h.checkRoom_state, hroom]
  rfl

end

theorem seen_addNew (dir : UInt32) (name : Name) (hnew : NewFile body f) :
    seen (addNew dir name body) v = (state v).addNew dir name f := by
  rw [State.addNew]
  cases hcheck : Name.check name with
  | error e => exact seen_of_error (bind_of_error (ask_of_error hcheck))
  | ok _ =>
    rw [ok_bind]
    rcases h.checkDirectory_cases dir with ⟨rfl, hdir⟩ | ⟨e, hdir, hlive⟩
    · rw [hdir, ok_bind, named_state]
      cases hmap : nameMap v name with
      | some ino => exact seen_of_error (h.addNew_exists hcheck hmap)
      | none =>
        cases hvacant : (state v).vacant with
        | nil => exact seen_of_error (h.addNew_noInodes hcheck hmap (h.all_named hvacant))
        | cons n rest =>
          have hnext := h.next_of_allocate (h.allocateInode_state hvacant)
          change _ = (state v).addName (.ofNat n) f name
          cases hroom : slotError v with
          | some e =>
            obtain ⟨w, hrun, -⟩ := h.addNew_noRoom hcheck hmap hnext hnew.isNew hroom
            rw [seen_of_error hrun, h.addName_error hmap hroom]
          | none =>
            obtain ⟨w, hrun, hstep, hlive, hbytes, hentries⟩ := h.addNew_ok hcheck hmap hnext hnew.isNew hroom
            exact h.seen_named hmap (steady_of_respects fun _ => respects_addNew _ _ _) hroom (ne_root hnext.low) hrun
              hstep hlive (hnew.file hlive hbytes) hentries
    · rw [hdir]
      refine seen_of_error (w := v) ?_
      rw [addNew, bind_of_ok (ask_of_ok hcheck), bind_of_error (ask_of_error hlive)]

theorem seen_symlink (dir : UInt32) (name : Name) (target : List UInt8) :
    seen (symlink dir name target) v = (do
      Symlink.validate target
      (state v).addNew dir name (.symlink 1 target)) := by
  cases hvalid : Symlink.validate target with
  | error e => exact seen_of_error (bind_of_error (ask_of_error hvalid))
  | ok _ =>
    rw [ok_bind, ← h.seen_addNew dir name (.symlink hvalid), seen, symlink, bind_of_ok (ask_of_ok hvalid)]
    rfl

theorem seen_symlinkConditional (dir : UInt32) (name : Name) (root other : List UInt8) :
    seen (symlinkConditional dir name root other) v = (do
      let target ← Symlink.conditional root other
      (state v).addNew dir name (.symlink 1 target)) := by
  cases htarget : Symlink.conditional root other with
  | error e => exact seen_of_error (bind_of_error (ask_of_error htarget))
  | ok target =>
    have hvalid := validate_of_conditional htarget
    rw [ok_bind, ← h.seen_addNew dir name (.symlink hvalid), seen, symlinkConditional, bind_of_ok (ask_of_ok htarget)]
    rfl

theorem exists_file (hino : InUse v T ino) (hne : ino ≠ rootInode) :
    ∃ f, (state v).file ino = some f ∧ f.nlink = (T ino).nlink := by
  cases h.stands hne with
  | free hfree => exact absurd hino hfree
  | regular _ htable _ hfile => exact ⟨_, hfile, by rw [htable]; rfl⟩
  | symlink _ htable _ hfile => exact ⟨_, hfile, by rw [htable]; rfl⟩

theorem file_linked (hino : InUse v T ino) (hne : ino ≠ rootInode) (n : UInt32)
    (hlive : liveInode w ino = .ok ⟨ino, n, (T ino).body⟩) (hbytes : contents w ino = contents v ino) :
    file w ino = ((state v).file ino).map (File.linked n) := by
  rw [file_of_live hlive, hbytes]
  cases h.stands hne with
  | free hfree => exact absurd hino hfree
  | regular hino htable _ hfile =>
    rw [hfile, htable, h.contents_file hino htable]
    rfl
  | symlink _ htable _ hfile =>
    rw [hfile, htable]
    rfl

theorem seen_link (ino dir : UInt32) (name : Name) : seen (link ino dir name) v = (state v).link ino dir name := by
  rw [State.link, ← h.metadata_state, metadata]
  by_cases hino : InUse v T ino
  · have hlive := h.ledger.liveInode_ok hino
    rw [hlive, ok_bind]
    change _ = (do
      (state v).checkDirectory dir
      Name.check name
      if ino = rootInode then throw (Error.notPermitted ino)
      let f ← (state v).fileAt ino
      (state v).addName ino (f.linked (f.nlink + 1)) name)
    rcases h.checkDirectory_cases dir with ⟨rfl, hdir⟩ | ⟨e, hdir, hdirectory⟩
    · rw [hdir, ok_bind]
      cases hcheck : Name.check name with
      | error e => exact seen_of_error (h.link_invalid hino hcheck)
      | ok _ =>
        rw [ok_bind]
        by_cases hroot : ino = rootInode
        · rw [if_pos hroot, hroot]
          exact seen_of_error (h.link_root hcheck)
        · obtain ⟨f, hfile, hnlink⟩ := h.exists_file hino hroot
          have hlow := h.two_le_of_ne hino hroot
          rw [if_neg hroot, State.fileAt, hfile]
          change _ = (state v).addName ino (f.linked (f.nlink + 1)) name
          rw [hnlink]
          -- Both sides look for the name before they look for room.
          cases hmap : nameMap v name with
          | some j => rw [addName_refused hmap, seen_of_error (h.link_exists hino hcheck hlow hmap)]
          | none =>
            cases hroom : slotError v with
            | some e =>
              obtain ⟨w, hrun, -⟩ := h.link_noRoom hino hcheck hlow hmap hroom
              rw [seen_of_error hrun, h.addName_error hmap hroom]
            | none =>
              obtain ⟨w, hrun, hstep, hlinked, hbytes, hentries⟩ := h.link_ok hino hcheck hlow hmap hroom
              have hnext := h.file_linked hino hroot _ hlinked hbytes
              rw [hfile, Option.map_some] at hnext
              exact h.seen_named hmap (steady_of_respects fun _ => respects_link _ _ _) hroom hroot hrun hstep
                hlinked hnext hentries
    · rw [hdir]
      refine seen_of_error (w := v) ?_
      rw [link, bind_of_ok (ask_of_ok hlive), bind_of_error (ask_of_error hdirectory)]
  · have hlive := h.ledger.liveInode_error hino
    rw [hlive]
    exact seen_of_error (bind_of_error (ask_of_error hlive))

theorem seen_unlink (dir : UInt32) (name : Name) :
    seen (unlink dir name) v = (do return ((), ← (state v).unlink dir name)) := by
  rw [State.unlink]
  rcases h.checkDirectory_cases dir with ⟨rfl, hdir⟩ | ⟨e, hdir, hlive⟩
  · rw [hdir, ok_bind]
    by_cases hlong : maxNameLength < name.length
    · rw [if_pos hlong]
      exact seen_of_error (h.unlink_tooLong hlong)
    · rw [if_neg hlong, named_state]
      cases hmap : nameMap v name with
      | none => exact seen_of_error (h.unlink_notFound hlong hmap)
      | some ino =>
        obtain ⟨hlow, hino⟩ := h.inUse_of_named hmap
        obtain ⟨w, hrun, hstep, hentries, hleft⟩ := h.unlink_ok hmap
        have hne := ne_root hlow
        have hfile : file w ino = ((state v).file ino).bind fun f =>
            if f.nlink - 1 = 0 then none else some (f.linked (f.nlink - 1)) := by
          obtain ⟨f, hbefore, hnlink⟩ := h.exists_file hino hne
          rw [hbefore, Option.bind_some, hnlink]
          split_ifs at hleft ⊢ with hlast
          · exact file_of_error hleft
          · have hid := h.ledger.id_eq hino.1
            have hlive : liveInode w ino = .ok ⟨ino, (T ino).nlink - 1, (T ino).body⟩ :=
              hleft.1.trans (congrArg (fun id => Except.ok (Inode.mk id _ _)) hid)
            rw [h.file_linked hino hne _ hlive hleft.2, hbefore, Option.map_some]
        have hsteady : Steady (unlink rootInode name) := steady_of_respects fun _ => respects_unlink _ _
        rw [seen_of_ok hrun, h.state_named hstep (hsteady.superblock hrun), hfile, hentries]
        rfl
  · rw [hdir]
    exact seen_of_error (bind_of_error (ask_of_error hlive))

theorem seen_write (ino : UInt32) (offset : Nat) (data : ByteArray) (append : Bool) :
    seen (write ino offset data append) v = (state v).write ino offset data append := by
  by_cases hroot : ino = rootInode
  · obtain ⟨mode, htable⟩ := h.root_eq
    rw [State.write, if_pos hroot, hroot]
    refine seen_of_error (w := v) ?_
    rw [write, bind_of_ok (ask_of_ok (h.ledger.liveInode_ok h.root_inUse)), htable]
    rfl
  · rw [State.write, if_neg hroot, State.fileAt]
    cases h.stands hroot with
    | free _ hlive hfile =>
      rw [hfile]
      exact seen_of_error (bind_of_error (ask_of_error hlive))
    | symlink _ _ hlive hfile =>
      rw [hfile]
      exact seen_of_error (w := v) (by rw [write, bind_of_ok (ask_of_ok hlive)]; rfl)
    | @regular n mode c hino htable _ hfile =>
      have hstart : (if append then (c.contents v.cell).size else offset) = c.startOf offset append := by
        rw [Chain.size_contents, Chain.startOf]
      rw [hfile, ok_bind]
      dsimp only
      rw [hstart, Chain.size_contents, h.checkLength_state]
      cases hlength : lengthError v c (c.startOf offset append + data.size) with
      | some e =>
        obtain ⟨w, hrun, -⟩ := h.write_error hino htable hlength
        exact seen_of_error hrun
      | none =>
        obtain ⟨w, c', hrun, hstep⟩ := h.write_ok hino htable hlength
        exact seen_file hroot hstep (steady_of_respects fun _ => respects_write _ _ _ _) hrun

theorem seen_setSize (ino : UInt32) (size : Nat) : seen (setSize ino size) v = (state v).setSize ino size := by
  by_cases hroot : ino = rootInode
  · obtain ⟨mode, htable⟩ := h.root_eq
    rw [State.setSize, if_pos hroot, hroot]
    refine seen_of_error (w := v) ?_
    rw [setSize, bind_of_ok (ask_of_ok (h.ledger.liveInode_ok h.root_inUse)), htable]
    rfl
  · rw [State.setSize, if_neg hroot, State.fileAt]
    cases h.stands hroot with
    | free _ hlive hfile =>
      rw [hfile]
      exact seen_of_error (bind_of_error (ask_of_error hlive))
    | symlink _ _ hlive hfile =>
      rw [hfile]
      exact seen_of_error (w := v) (by rw [setSize, bind_of_ok (ask_of_ok hlive)]; rfl)
    | @regular n mode c hino htable _ hfile =>
      rw [hfile, ok_bind]
      dsimp only
      rw [Chain.size_contents, h.checkLength_state]
      cases hlength : lengthError v c size with
      | some e =>
        obtain ⟨w, hrun, -⟩ := h.setSize_error hino htable hlength
        exact seen_of_error hrun
      | none =>
        obtain ⟨w, c', hrun, hstep⟩ := h.setSize_ok hino htable hlength
        exact seen_metadata hroot hstep (steady_of_respects fun _ => respects_setSize _ _) hrun

theorem seen_setMode (ino mode : UInt32) : seen (setMode ino mode) v = (state v).setMode ino mode := by
  by_cases hroot : ino = rootInode
  · obtain ⟨w, hrun, ⟨T', hT'⟩, hothers, hentries, hlive⟩ := h.setMode_root mode
    have hfile : file w = file v := by
      funext j
      by_cases hj : j = rootInode
      · rw [hj, h.file_root, hT'.file_root]
      · exact (hothers j hj).file
    have hstate : state w = { state v with rootMode := Mode.permissions mode } := by
      rw [state, (steady_of_respects fun _ => respects_setMode _ _).superblock hrun, hentries, hfile, liveDirectory, hlive]
      rfl
    have hmetadata := hT'.metadata_state rootInode
    rw [metadata, hlive, hstate] at hmetadata
    rw [State.setMode, if_pos hroot, hroot, seen_of_ok hrun, hstate, Except.ok.inj hmetadata]
  · rw [State.setMode, if_neg hroot, State.fileAt]
    cases h.stands hroot with
    | free _ hlive hfile =>
      rw [hfile]
      exact seen_of_error (bind_of_error (ask_of_error hlive))
    | symlink _ _ hlive hfile =>
      rw [hfile]
      exact seen_of_error (w := v) (by rw [setMode, bind_of_ok (ask_of_ok hlive)]; rfl)
    | @regular n old c hino htable _ hfile =>
      obtain ⟨w, hrun, hstep⟩ := h.setMode_ok hino htable mode
      rw [hfile]
      exact seen_metadata hroot hstep (steady_of_respects fun _ => respects_setMode _ _) hrun

/-- Every call acts on the state as the reference does. -/
theorem seen_perform (c : Call) : seen c.perform v = Reference.perform (state v) c := by
  cases c with
  | metadata ino => rw [Call.perform, seen_answer, h.metadata_state, Reference.perform]
  | lookup dir name => rw [Call.perform, seen_answer, h.lookup_state, Reference.perform]
  | readDir dir parent cursor => rw [Call.perform, seen_answer, h.readDir_state, Reference.perform]
  | create dir name mode =>
    rw [Call.perform, seen_map, FileSystem.create, h.seen_addNew dir name (.regular _)]
    rfl
  | link ino dir name =>
    rw [Call.perform, seen_map, h.seen_link]
    rfl
  | symlink dir name target =>
    rw [Call.perform, seen_map, h.seen_symlink, bind_assoc]
    rfl
  | symlinkConditional dir name root other =>
    rw [Call.perform, seen_map, h.seen_symlinkConditional, bind_assoc]
    rfl
  | unlink dir name =>
    refine (seen_map fun _ => Answer.done).trans ?_
    rw [h.seen_unlink, bind_assoc]
    rfl
  | setSize ino size =>
    rw [Call.perform, seen_map, h.seen_setSize]
    rfl
  | setMode ino mode =>
    rw [Call.perform, seen_map, h.seen_setMode]
    rfl
  | read ino offset length => rw [Call.perform, seen_answer, h.read_state, Reference.perform]
  | write ino offset data append =>
    rw [Call.perform, seen_map, h.seen_write]
    rfl
  | readLink ino privileged => rw [Call.perform, seen_answer, h.readLink_state, Reference.perform]
  | stats =>
    rw [Call.perform, seen_answer, h.stats_state]
    rfl

theorem run_fst (c : Call) : (c.run v).1 = (Reference.perform (state v) c).map Prod.fst := by
  have hseen := h.seen_perform c
  cases hrun : c.perform v with
  | ok answer w =>
    rw [seen_of_ok hrun] at hseen
    rw [run_of_ok hrun, ← hseen]
    rfl
  | error e w =>
    rw [seen_of_error hrun] at hseen
    rw [run_of_error hrun, ← hseen]
    rfl

theorem live_of_file {n mode : UInt32} {bytes : ByteArray} (hfile : (state v).file ino = some (.regular n mode bytes)) :
    ∃ c, liveInode v ino = .ok ⟨ino, n, .regular mode c⟩ ∧ contents v ino = some bytes ∧ c.size.toNat = bytes.size := by
  have hne : ino ≠ rootInode := by
    rintro rfl
    cases h.file_root.symm.trans hfile
  cases h.stands hne with
  | free _ _ hnone => cases hnone.symm.trans hfile
  | @regular n mode c hino htable hlive hsome =>
    cases hsome.symm.trans hfile
    exact ⟨c, hlive, h.contents_file hino htable, (Chain.size_contents _ _).symm⟩
  | symlink _ _ _ hsome => cases hsome.symm.trans hfile

theorem outcomes_eq (calls : List Call) : outcomes v calls = Reference.outcomes (state v) calls := by
  -- A call that fails leaves the state, so both runs go on from where they were.
  induction calls generalizing v T with
  | nil => rfl
  | cons c calls ih =>
    have hseen := h.seen_perform c
    cases hrun : c.perform v with
    | ok answer w =>
      obtain ⟨T', hT'⟩ := (h.keeps_perform c).ok hrun
      rw [seen_of_ok hrun] at hseen
      rw [outcomes, run_of_ok hrun, Reference.outcomes, ← hseen, ih hT']
    | error e w =>
      have hsame := (h.keeps_perform c).error hrun
      rw [seen_of_error hrun] at hseen
      rw [outcomes, run_of_error hrun, Reference.outcomes, ← hseen, ih hsame.consistent, hsame.state]

theorem outcomes_congr (h' : Consistent w T') (same : state w = state v) (calls : List Call) :
    outcomes w calls = outcomes v calls := by
  rw [h.outcomes_eq, h'.outcomes_eq, same]

end Consistent

theorem state_format {device d : Device} {inodes : UInt32} (hd : device.FaultFree)
    (hrun : Volume.format inodes device = .ok v d) :
    state v = .new (.plan (.ofNat device.blockCount) inodes) := by
  have h := format_consistent hd hrun
  have hroot : initial rootInode = ⟨rootInode, 1, .directory rootMode (rootChain initial)⟩ := by
    rw [show rootChain initial = .empty from rootChain_put _ _ _, initial, Function.update_self]
    rfl
  have hmode := h.rootMode_state hroot
  have hfile : file v = fun _ => none := by
    funext j
    by_cases hj : j = rootInode
    · rw [hj, h.file_root]
    · refine file_of_error (h.ledger.liveInode_error fun hin => hin.2 ?_)
      rw [initial, Function.update_of_ne hj]
      rfl
  rw [State.new, ← (format_layout hd hrun).1, ← hmode, ← rootEntries_format hd hrun, ← hfile]
  rfl

theorem Reachable.step (h : Reachable v) {c : Call} {answer : Answer} {s : State}
    (hstep : Reference.perform (state v) c = .ok (answer, s)) : ∃ w, Reachable w ∧ state w = s := by
  obtain ⟨T, hT⟩ := h.consistent
  have hseen := (hT.seen_perform c).trans hstep
  cases hrun : c.perform v with
  | ok a w =>
    rw [seen_of_ok hrun] at hseen
    have hnext := Reachable.call c h
    rw [run_of_ok hrun] at hnext
    exact ⟨w, hnext, congrArg Prod.snd (Except.ok.inj hseen)⟩
  | error e w =>
    rw [seen_of_error hrun] at hseen
    cases hseen

theorem exists_written : ∃ v, Reachable v ∧ state v = ⟨.plan 16 16, rootMode,
    ⟨2, ['a'.toUInt8]⟩ :: List.replicate 15 ⟨0, []⟩,
    Function.update (fun _ => none) 2 (some (.regular 1 0o644 ⟨#[1, 2, 3]⟩))⟩ := by
  obtain ⟨v, d, hrun⟩ := exists_new
  have hd := blank_faultFree 16384 512
  have hnew : state v = .new (.plan 16 16) := by
    rw [state_format hd hrun, blockCount_blank]
    rfl
  obtain ⟨u, hu, hcreated⟩ := (Reachable.format hd hrun).step (c := .create rootInode ['a'.toUInt8] 0o644) (by rw [hnew]; rfl)
  obtain ⟨w, hw, hwritten⟩ := hu.step (c := .write 2 0 ⟨#[1, 2, 3]⟩ false) (by rw [hcreated]; rfl)
  exact ⟨w, hw, hwritten.trans (congrArg (State.mk _ _ _) (Function.update_idem _ _ _))⟩

theorem exists_bytes : ∃ v c, Reachable v ∧ liveInode v 2 = .ok ⟨2, 1, .regular 0o644 c⟩ ∧
    contents v 2 = some ⟨#[1, 2, 3]⟩ ∧ c.size.toNat = 3 ∧ c.blockCount = 1 := by
  obtain ⟨v, hv, hstate⟩ := exists_written
  obtain ⟨T, hT⟩ := hv.consistent
  have hfile : (state v).file 2 = some (.regular 1 0o644 ⟨#[1, 2, 3]⟩) := by
    rw [hstate]
    rfl
  obtain ⟨c, hlive, hcontents, hsize⟩ := hT.live_of_file hfile
  have hcount : c.blockCount = 1 := by
    rw [Chain.blockCount, hsize]
    rfl
  exact ⟨v, c, hv, hlive, hcontents, hsize, hcount⟩

end ImageFS.FileSystem
