import ImageFS.Proofs.FileSystem.Reachable

/-!
# The root as a finite map

The names of a reachable file system are a finite map. Looking up asks the map; each of the other
operations changes it at one name and leaves everything else alone, or fails and changes nothing that can
be seen. What it fails with depends on the map, the number of inodes and the blocks that are left.
-/

set_option autoImplicit false

namespace ImageFS.FileSystem

open Volume

def AllNamed (v : Volume) : Prop :=
  ∀ ino : UInt32, 2 ≤ ino.toNat → ino.toNat < v.superblock.inodeCount.toNat → ∃ name, nameMap v name = some ino

/-- What looking a name up gives. -/
structure LooksUp (v : Volume) (name : Name) (outcome : Except Error Metadata) : Prop where
  tooLong : maxNameLength < name.length → outcome = .error .nameTooLong
  missing : ¬ maxNameLength < name.length → nameMap v name = none → outcome = .error .notFound
  found : ∀ ino, nameMap v name = some ino → ∃ i, liveInode v ino = .ok i ∧ outcome = .ok i.metadata

/-- `act` names a new file. -/
structure NamesNew (v : Volume) (name : Name) (body : Body) (act : VolumeM Metadata) : Prop where
  badName : ∀ e, Name.check name = .error e → act v = .error e v
  taken : ∀ ino, Name.check name = .ok () → nameMap v name = some ino → act v = .error .alreadyExists v
  noInodes : Name.check name = .ok () → nameMap v name = none → AllNamed v → act v = .error .noInodes v
  noRoom : ∀ e, Name.check name = .ok () → nameMap v name = none → ¬ AllNamed v → slotError v = some e →
    ∃ w, act v = .error e w ∧ Unchanged v w
  done : Name.check name = .ok () → nameMap v name = none → ¬ AllNamed v → slotError v = none →
    ∃ ino w, IsNext v ino ∧ act v = .ok (Inode.metadata ⟨ino, 1, body⟩) w ∧ NameStep v name (some ino) ino w ∧
      liveInode w ino = .ok ⟨ino, 1, body⟩ ∧ contents w ino = (Inode.chain? ⟨ino, 1, body⟩).map fun _ => .empty

structure NamesAgain (v : Volume) (name : Name) (i : Inode) (act : VolumeM Metadata) : Prop where
  badName : ∀ e, Name.check name = .error e → act v = .error e v
  directory : Name.check name = .ok () → i.kind = .directory → act v = .error (.notPermitted i.id) v
  taken : ∀ ino, Name.check name = .ok () → i.kind ≠ .directory → nameMap v name = some ino →
    act v = .error .alreadyExists v
  noRoom : ∀ e, Name.check name = .ok () → i.kind ≠ .directory → nameMap v name = none → slotError v = some e →
    ∃ w, act v = .error e w ∧ Unchanged v w
  done : Name.check name = .ok () → i.kind ≠ .directory → nameMap v name = none → slotError v = none →
    ∃ w, act v = .ok (Inode.metadata ⟨i.id, i.nlink + 1, i.body⟩) w ∧ NameStep v name (some i.id) i.id w ∧
      liveInode w i.id = .ok ⟨i.id, i.nlink + 1, i.body⟩ ∧ contents w i.id = contents v i.id

structure TakesAway (v : Volume) (name : Name) (act : VolumeM Unit) : Prop where
  tooLong : maxNameLength < name.length → act v = .error .nameTooLong v
  missing : ¬ maxNameLength < name.length → nameMap v name = none → act v = .error .notFound v
  done : ∀ ino, nameMap v name = some ino →
    ∃ i w, liveInode v ino = .ok i ∧ act v = .ok () w ∧ NameStep v name none ino w ∧
      (i.nlink = 1 → liveInode w ino = .error (.invalidInode ino.toNat)) ∧
      (i.nlink ≠ 1 → liveInode w ino = .ok ⟨ino, i.nlink - 1, i.body⟩ ∧ contents w ino = contents v ino)

variable {v : Volume} {T : UInt32 → Inode} {ino : UInt32} {name : Name} {body : Body}

namespace Consistent

variable (h : Consistent v T)

include h

theorem exists_next_of_not_all (hall : ¬ AllNamed v) : ∃ ino, IsNext v ino := by
  unfold AllNamed at hall
  push Not at hall
  exact h.exists_next hall

theorem looksUp (name : Name) : LooksUp v name (lookup v rootInode name) where
  tooLong := lookup_tooLong
  missing := h.lookup_notFound
  found ino hmap := by
    have hlive := h.ledger.liveInode_ok (h.inUse_of_named hmap).2
    refine ⟨T ino, hlive, ?_⟩
    rw [h.lookup_named hmap, metadata, hlive]
    rfl

theorem namesNew {act : VolumeM Metadata} (hbody : IsNew body) (hact : act v = addNew rootInode name body v) :
    NamesNew v name body act where
  badName e hcheck := hact.trans (bind_of_error (ask_of_error hcheck))
  taken ino hcheck hmap := hact.trans (h.addNew_exists hcheck hmap)
  noInodes hcheck hfresh hall := hact.trans (h.addNew_noInodes hcheck hfresh hall)
  noRoom e hcheck hfresh hall hfull := by
    obtain ⟨ino, hnext⟩ := h.exists_next_of_not_all hall
    obtain ⟨w, hrun, hsame⟩ := h.addNew_noRoom hcheck hfresh hnext hbody hfull
    exact ⟨w, hact.trans hrun, hsame.unchanged⟩
  done hcheck hfresh hall hfree := by
    obtain ⟨ino, hnext⟩ := h.exists_next_of_not_all hall
    obtain ⟨w, hrun, hstep, hlive, hbytes, -⟩ := h.addNew_ok hcheck hfresh hnext hbody hfree
    rw [hact]
    exact ⟨ino, w, hnext, hrun, hstep, hlive, hbytes⟩

theorem namesAgain (name : Name) (hino : InUse v T ino) : NamesAgain v name (T ino) (link ino rootInode name) := by
  have hid := h.ledger.id_eq hino.1
  have hlow : (T ino).kind ≠ .directory → 2 ≤ ino.toNat := h.two_le hino
  refine ⟨fun e hcheck => h.link_invalid hino hcheck, fun hcheck hkind => ?_,
    fun j hcheck hkind hmap => h.link_exists hino hcheck (hlow hkind) hmap,
    fun e hcheck hkind hfresh hfull => ?_,
    fun hcheck hkind hfresh hfree => ?_⟩
  · obtain rfl : ino = rootInode := by
      by_contra hne
      exact h.files ino (h.two_le_of_ne hino hne) hino hkind
    rw [h.link_root hcheck, hid]
  · obtain ⟨w, hrun, hsame⟩ := h.link_noRoom hino hcheck (hlow hkind) hfresh hfull
    exact ⟨w, hrun, hsame.unchanged⟩
  · obtain ⟨w, hrun, hstep, hlive, hbytes, -⟩ := h.link_ok hino hcheck (hlow hkind) hfresh hfree
    rw [hid]
    exact ⟨w, hrun, hstep, hlive, hbytes⟩

theorem takesAway (name : Name) : TakesAway v name (unlink rootInode name) where
  tooLong := h.unlink_tooLong
  missing := h.unlink_notFound
  done ino hmap := by
    obtain ⟨-, hino⟩ := h.inUse_of_named hmap
    obtain ⟨w, hrun, hstep, -, hleft⟩ := h.unlink_ok hmap
    have hid := h.ledger.id_eq hino.1
    have hlast : (T ino).nlink - 1 = 0 ↔ (T ino).nlink = 1 := by grind
    refine ⟨T ino, w, h.ledger.liveInode_ok hino, hrun, hstep, fun hone => ?_, fun hmore => ?_⟩
    · rw [if_pos (hlast.mpr hone)] at hleft
      exact hleft
    · rw [if_neg (mt hlast.mp hmore)] at hleft
      change liveInode w ino = .ok ⟨(T ino).id, (T ino).nlink - 1, (T ino).body⟩ ∧ _ at hleft
      rw [hid] at hleft
      exact hleft

end Consistent

/-- The operations on names of the root act as those on a finite map. -/
theorem names_act_as_map (h : Reachable v) (name : Name) :
    LooksUp v name (lookup v rootInode name) ∧
    (∀ mode, NamesNew v name (.regular (Mode.permissions mode) .empty) (create rootInode name mode)) ∧
    (∀ target e, Symlink.validate target = .error e → symlink rootInode name target v = .error e v) ∧
    (∀ target, Symlink.validate target = .ok () →
      NamesNew v name (.symlink target) (symlink rootInode name target)) ∧
    (∀ root other e, Symlink.conditional root other = .error e →
      symlinkConditional rootInode name root other v = .error e v) ∧
    (∀ root other target, Symlink.conditional root other = .ok target →
      NamesNew v name (.symlink target) (symlinkConditional rootInode name root other)) ∧
    (∀ ino e, liveInode v ino = .error e → link ino rootInode name v = .error e v) ∧
    (∀ ino i, liveInode v ino = .ok i → NamesAgain v name i (link ino rootInode name)) ∧
    TakesAway v name (unlink rootInode name) := by
  obtain ⟨T, hT⟩ := h.consistent
  refine ⟨hT.looksUp name, fun mode => hT.namesNew (.inl ⟨_, rfl⟩) rfl, fun target e hvalid => ?_,
    fun target hvalid => ?_, fun root other e htarget => ?_, fun root other target htarget => ?_,
    fun ino e hlive => ?_, fun ino i hlive => ?_, hT.takesAway name⟩
  · exact bind_of_error (ask_of_error hvalid)
  · exact hT.namesNew (.inr ⟨target, rfl, hvalid⟩) (bind_of_ok (ask_of_ok hvalid))
  · exact bind_of_error (ask_of_error htarget)
  · have hvalid := validate_of_conditional htarget
    exact hT.namesNew (.inr ⟨target, rfl, hvalid⟩) (bind_of_ok (ask_of_ok htarget))
  · exact bind_of_error (ask_of_error hlive)
  · obtain ⟨hino, rfl⟩ := hT.ledger.liveInode_iff.mp hlive
    exact hT.namesAgain name hino

theorem names_act_as_map_file : ∃ v w, Reachable v ∧ nameMap v ['a'.toUInt8] = some 2 ∧
    lookup v rootInode ['a'.toUInt8] = .ok (Inode.metadata ⟨2, 1, .regular 0o644 .empty⟩) ∧
    (∀ mode, create rootInode ['a'.toUInt8] mode v = .error .alreadyExists v) ∧
    unlink rootInode ['a'.toUInt8] v = .ok () w ∧ nameMap w ['a'.toUInt8] = none := by
  obtain ⟨v, hv, hmap, hlive, -⟩ := exists_file
  obtain ⟨hlookup, hcreate, -, -, -, -, -, -, hunlink⟩ := names_act_as_map hv ['a'.toUInt8]
  obtain ⟨i, hi, hfound⟩ := hlookup.found 2 hmap
  obtain ⟨-, w, -, hrun, hstep, -⟩ := hunlink.done 2 hmap
  rw [hlive, Except.ok.injEq] at hi
  refine ⟨v, w, hv, hmap, ?_, fun mode => (hcreate mode).taken 2 (by decide) hmap, hrun, ?_⟩
  · rw [hfound, ← hi]
  · rw [hstep.names, Function.update_self]

end ImageFS.FileSystem
