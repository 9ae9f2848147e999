import ImageFS.Proofs.FileSystem.Creation
import ImageFS.Proofs.FileSystem.Files
import ImageFS.Proofs.FileSystem.Formatting
import ImageFS.Proofs.FileSystem.Removal

/-!
# Runs

A reachable volume comes from formatting a device without faults and from any calls after that, whether
they succeed or fail. Every call leaves a consistent file system, so all reachable ones are consistent; a
call that fails leaves the one that it found.
-/

set_option autoImplicit false

namespace ImageFS.FileSystem

open Volume

inductive Reachable : Volume → Prop
  | format {device d : Device} {inodes : UInt32} {v : Volume} :
      device.FaultFree → Volume.format inodes device = .ok v d → Reachable v
  | call {v : Volume} (c : Call) : Reachable v → Reachable (c.run v).2

variable {v w : Volume} {T : UInt32 → Inode} {ino dir : UInt32} {name : Name} {α β : Type} {a : α} {e : Error}

theorem Reachable.after (h : Reachable v) (calls : List Call) : Reachable (after v calls) := by
  induction calls generalizing v with
  | nil => exact h
  | cons c calls ih => exact ih (.call c h)

/-- An action that succeeds leaves a consistent file system, one that fails leaves `v` as it was. -/
def Keeps (act : VolumeM α) (v : Volume) (T : UInt32 → Inode) : Prop :=
  match act v with
  | .ok _ w => ∃ T', Consistent w T'
  | .error _ w => Spared v T w

section

variable {act : VolumeM α}

theorem keeps_of_ok (hrun : act v = .ok a w) (hw : ∃ T', Consistent w T') : Keeps act v T := by
  unfold Keeps
  rw [hrun]
  exact hw

theorem keeps_of_error (hrun : act v = .error e w) (hw : Spared v T w) : Keeps act v T := by
  unfold Keeps
  rw [hrun]
  exact hw

theorem Keeps.ok (h : Keeps act v T) (hrun : act v = .ok a w) : ∃ T', Consistent w T' := by
  unfold Keeps at h
  rw [hrun] at h
  exact h

theorem Keeps.error (h : Keeps act v T) (hrun : act v = .error e w) : Spared v T w := by
  unfold Keeps at h
  rw [hrun] at h
  exact h

theorem Keeps.map (h : Keeps act v T) (f : α → β) : Keeps (do return f (← act)) v T := by
  cases hrun : act v with
  | ok a w => exact keeps_of_ok (bind_of_ok hrun) (h.ok hrun)
  | error e w => exact keeps_of_error (bind_of_error hrun) (h.error hrun)

end

theorem run_of_ok {c : Call} {answer : Answer} (hrun : c.perform v = .ok answer w) : c.run v = (.ok answer, w) := by
  unfold Call.run
  rw [hrun]

theorem run_of_error {c : Call} (hrun : c.perform v = .error e w) : c.run v = (.error e, w) := by
  unfold Call.run
  rw [hrun]

namespace Consistent

variable (h : Consistent v T)

include h

theorem spared_refl : Spared v T v := h.restored (.refl h.ledger.sound)

theorem keeps_ask (f : Volume → Except Error α) : Keeps (ask f) v T := by
  cases hf : f v with
  | ok a => exact keeps_of_ok (ask_of_ok hf) ⟨T, h⟩
  | error e => exact keeps_of_error (ask_of_error hf) h.spared_refl

theorem keeps_addNew (dir : UInt32) (name : Name) {body : Body} (hbody : IsNew body) : Keeps (addNew dir name body) v T := by
  cases hcheck : Name.check name with
  | error e => exact keeps_of_error (bind_of_error (ask_of_error hcheck)) h.spared_refl
  | ok _ =>
    by_cases hdir : dir = rootInode
    · subst hdir
      cases hmap : nameMap v name with
      | some ino => exact keeps_of_error (h.addNew_exists hcheck hmap) h.spared_refl
      | none =>
        by_cases hall : ∀ j : UInt32, 2 ≤ j.toNat → j.toNat < v.superblock.inodeCount.toNat →
            ∃ name, nameMap v name = some j
        · exact keeps_of_error (h.addNew_noInodes hcheck hmap hall) h.spared_refl
        · push Not at hall
          obtain ⟨ino, hnext⟩ := h.exists_next hall
          cases hroom : slotError v with
          | some e =>
            obtain ⟨w, hrun, hsame⟩ := h.addNew_noRoom hcheck hmap hnext hbody hroom
            exact keeps_of_error hrun hsame
          | none =>
            obtain ⟨w, hrun, hstep, -⟩ := h.addNew_ok hcheck hmap hnext hbody hroom
            exact keeps_of_ok hrun hstep.consistent
    · obtain ⟨e, hlive⟩ := h.liveDirectory_error hdir
      refine keeps_of_error (e := e) ?_ h.spared_refl
      rw [addNew, bind_of_ok (ask_of_ok hcheck), bind_of_error (ask_of_error hlive)]

theorem keeps_symlink (dir : UInt32) (name : Name) (target : List UInt8) : Keeps (symlink dir name target) v T := by
  cases hvalid : Symlink.validate target with
  | error e => exact keeps_of_error (bind_of_error (ask_of_error hvalid)) h.spared_refl
  | ok _ =>
    have hkeeps := h.keeps_addNew dir name (.inr ⟨target, rfl, hvalid⟩)
    unfold Keeps at hkeeps ⊢
    rw [symlink, bind_of_ok (ask_of_ok hvalid)]
    exact hkeeps

theorem keeps_symlinkConditional (dir : UInt32) (name : Name) (root other : List UInt8) :
    Keeps (symlinkConditional dir name root other) v T := by
  cases htarget : Symlink.conditional root other with
  | error e => exact keeps_of_error (bind_of_error (ask_of_error htarget)) h.spared_refl
  | ok target =>
    have hvalid := validate_of_conditional htarget
    have hkeeps := h.keeps_addNew dir name (.inr ⟨target, rfl, hvalid⟩)
    unfold Keeps at hkeeps ⊢
    rw [symlinkConditional, bind_of_ok (ask_of_ok htarget)]
    exact hkeeps

theorem keeps_link (ino dir : UInt32) (name : Name) : Keeps (link ino dir name) v T := by
  by_cases hino : InUse v T ino
  · by_cases hdir : dir = rootInode
    · subst hdir
      cases hcheck : Name.check name with
      | error e => exact keeps_of_error (h.link_invalid hino hcheck) h.spared_refl
      | ok _ =>
        by_cases hroot : ino = rootInode
        · subst hroot
          exact keeps_of_error (h.link_root hcheck) h.spared_refl
        · have hlow : 2 ≤ ino.toNat := h.two_le_of_ne hino hroot
          cases hmap : nameMap v name with
          | some j => exact keeps_of_error (h.link_exists hino hcheck hlow hmap) h.spared_refl
          | none =>
            cases hroom : slotError v with
            | some e =>
              obtain ⟨w, hrun, hsame⟩ := h.link_noRoom hino hcheck hlow hmap hroom
              exact keeps_of_error hrun hsame
            | none =>
              obtain ⟨w, hrun, hstep, -⟩ := h.link_ok hino hcheck hlow hmap hroom
              exact keeps_of_ok hrun hstep.consistent
    · obtain ⟨e, hlive⟩ := h.liveDirectory_error hdir
      refine keeps_of_error (e := e) ?_ h.spared_refl
      rw [link, bind_of_ok (ask_of_ok (h.ledger.liveInode_ok hino)), bind_of_error (ask_of_error hlive)]
  · exact keeps_of_error (bind_of_error (ask_of_error (h.ledger.liveInode_error hino))) h.spared_refl

theorem keeps_unlink (dir : UInt32) (name : Name) : Keeps (unlink dir name) v T := by
  by_cases hdir : dir = rootInode
  · subst hdir
    cases hmap : nameMap v name with
    | some ino =>
      obtain ⟨w, hrun, hstep, -⟩ := h.unlink_ok hmap
      exact keeps_of_ok hrun hstep.consistent
    | none =>
      by_cases hlong : maxNameLength < name.length
      · exact keeps_of_error (h.unlink_tooLong hlong) h.spared_refl
      · exact keeps_of_error (h.unlink_notFound hlong hmap) h.spared_refl
  · obtain ⟨e, hlive⟩ := h.liveDirectory_error hdir
    exact keeps_of_error (bind_of_error (ask_of_error hlive)) h.spared_refl

theorem keeps_write (ino : UInt32) (offset : Nat) (data : ByteArray) (append : Bool) :
    Keeps (write ino offset data append) v T := by
  by_cases hino : InUse v T ino
  · by_cases hkind : (T ino).kind = .regular
    · obtain ⟨mode, c, hbody⟩ := exists_regular hkind
      have hfile := h.file_eq hino hbody
      cases hlength : lengthError v c (c.startOf offset append + data.size) with
      | some e =>
        obtain ⟨w, hrun, hsame⟩ := h.write_error hino hfile hlength
        exact keeps_of_error hrun hsame
      | none =>
        obtain ⟨w, c', hrun, hstep⟩ := h.write_ok hino hfile hlength
        exact keeps_of_ok hrun hstep.consistent
    · obtain ⟨e, hrun⟩ := write_refused (h.ledger.liveInode_ok hino) hkind offset data append
      exact keeps_of_error hrun h.spared_refl
  · exact keeps_of_error (bind_of_error (ask_of_error (h.ledger.liveInode_error hino))) h.spared_refl

theorem keeps_setSize (ino : UInt32) (size : Nat) : Keeps (setSize ino size) v T := by
  by_cases hino : InUse v T ino
  · by_cases hkind : (T ino).kind = .regular
    · obtain ⟨mode, c, hbody⟩ := exists_regular hkind
      have hfile := h.file_eq hino hbody
      cases hlength : lengthError v c size with
      | some e =>
        obtain ⟨w, hrun, hsame⟩ := h.setSize_error hino hfile hlength
        exact keeps_of_error hrun hsame
      | none =>
        obtain ⟨w, c', hrun, hstep⟩ := h.setSize_ok hino hfile hlength
        exact keeps_of_ok hrun hstep.consistent
    · obtain ⟨e, hrun⟩ := setSize_refused (h.ledger.liveInode_ok hino) hkind size
      exact keeps_of_error hrun h.spared_refl
  · exact keeps_of_error (bind_of_error (ask_of_error (h.ledger.liveInode_error hino))) h.spared_refl

theorem keeps_setMode (ino mode : UInt32) : Keeps (setMode ino mode) v T := by
  by_cases hino : InUse v T ino
  · by_cases hroot : ino = rootInode
    · subst hroot
      obtain ⟨w, hrun, hnext, -⟩ := h.setMode_root mode
      exact keeps_of_ok hrun hnext
    · have hfiles := h.files ino (h.two_le_of_ne hino hroot) hino
      by_cases hkind : (T ino).kind = .regular
      · obtain ⟨old, c, hbody⟩ := exists_regular hkind
        obtain ⟨w, hrun, hstep⟩ := h.setMode_ok hino (h.file_eq hino hbody) mode
        exact keeps_of_ok hrun hstep.consistent
      · obtain ⟨target, hbody⟩ := exists_symlink hkind hfiles
        refine keeps_of_error (e := .invalidArgument .symlinkMode) ?_ h.spared_refl
        rw [setMode, bind_of_ok (ask_of_ok (h.ledger.liveInode_ok hino)), hbody]
        rfl
  · exact keeps_of_error (bind_of_error (ask_of_error (h.ledger.liveInode_error hino))) h.spared_refl

theorem keeps_perform (c : Call) : Keeps c.perform v T := by
  cases c with
  | metadata ino => exact (h.keeps_ask _).map Answer.metadata
  | lookup dir name => exact (h.keeps_ask _).map Answer.metadata
  | readDir dir parent cursor => exact (h.keeps_ask _).map Answer.items
  | create dir name mode => exact (h.keeps_addNew dir name (.inl ⟨_, rfl⟩)).map Answer.metadata
  | link ino dir name => exact (h.keeps_link ino dir name).map Answer.metadata
  | symlink dir name target => exact (h.keeps_symlink dir name target).map Answer.metadata
  | symlinkConditional dir name root other => exact (h.keeps_symlinkConditional dir name root other).map Answer.metadata
  | unlink dir name => exact (h.keeps_unlink dir name).map fun _ => Answer.done
  | setSize ino size => exact (h.keeps_setSize ino size).map Answer.metadata
  | setMode ino mode => exact (h.keeps_setMode ino mode).map Answer.metadata
  | read ino offset length => exact (h.keeps_ask _).map Answer.bytes
  | write ino offset data append => exact (h.keeps_write ino offset data append).map Answer.count
  | readLink ino privileged => exact (h.keeps_ask _).map Answer.target
  | stats => exact (h.keeps_ask _).map Answer.stats

theorem call (c : Call) : ∃ T', Consistent (c.run v).2 T' := by
  cases hrun : c.perform v with
  | ok a w =>
    rw [run_of_ok hrun]
    exact (h.keeps_perform c).ok hrun
  | error e w =>
    rw [run_of_error hrun]
    exact ⟨T, ((h.keeps_perform c).error hrun).consistent⟩

omit h in
theorem after (h : Consistent v T) (calls : List Call) : ∃ T', Consistent (after v calls) T' := by
  induction calls generalizing v T with
  | nil => exact ⟨T, h⟩
  | cons c calls ih =>
    obtain ⟨T', h'⟩ := h.call c
    exact ih h'

theorem failed {c : Call} (hfail : (c.run v).1 = .error e) : Spared v T (c.run v).2 := by
  cases hrun : c.perform v with
  | ok a w =>
    rw [run_of_ok hrun] at hfail
    cases hfail
  | error e w =>
    rw [run_of_error hrun]
    exact (h.keeps_perform c).error hrun

end Consistent

theorem Reachable.consistent (h : Reachable v) : ∃ T, Consistent v T := by
  induction h with
  | format hd hrun => exact ⟨_, format_consistent hd hrun⟩
  | call c _ ih =>
    obtain ⟨T, h⟩ := ih
    exact h.call c

section

variable {device d : Device} {inodes : UInt32} (hd : device.FaultFree) (h : Volume.format inodes device = .ok v d)

include hd h

theorem rootEntries_format : rootEntries v = [] := (format_consistent hd h).rootEntries_eq

theorem isNext_format : IsNext v 2 := by
  have hnames : ∀ name, nameMap v name = none := by
    intro name
    rw [nameMap, rootEntries_format hd h]
    rfl
  refine ⟨Nat.le_refl 2, (format_consistent hd h).ledger.laidOut.inodes, fun name hmap => ?_, fun j hj hlt => ?_⟩
  · rw [hnames] at hmap
    cases hmap
  · have htwo : (2 : UInt32).toNat = 2 := rfl
    omega

theorem slotError_format : slotError v = none := by
  have hroom := format_room hd h
  have hblocks : rootBlocks v = 0 := (format_consistent hd h).rootBlocks_eq
  have hcost : Chain.cost (0 + 1) - Chain.cost 0 = 1 := rfl
  rw [slotError, rootEntries_format hd h, hblocks, hcost, if_neg (by decide), if_neg (by decide), if_neg (by omega)]

theorem addNew_format {body : Body} (hcheck : Name.check name = .ok ()) (hbody : IsNew body) :
    ∃ w, addNew rootInode name body v = .ok (Inode.metadata ⟨2, 1, body⟩) w ∧ nameMap w name = some 2 ∧
      liveInode w 2 = .ok ⟨2, 1, body⟩ ∧ (contents w 2 = (Inode.chain? ⟨2, 1, body⟩).map fun _ => .empty) ∧
      rootEntries w = ⟨2, name⟩ :: List.replicate 15 ⟨0, []⟩ := by
  have hfresh : nameMap v name = none := by
    rw [nameMap, rootEntries_format hd h]
    rfl
  obtain ⟨w, hrun, hstep, hlive, hbytes, hentries⟩ := (format_consistent hd h).addNew_ok hcheck hfresh (isNext_format hd h)
    hbody (slotError_format hd h)
  refine ⟨w, hrun, by rw [hstep.names, Function.update_self], hlive, hbytes, ?_⟩
  rw [hentries, rootEntries_format hd h]
  rfl

theorem create_format {name : Name} (hcheck : Name.check name = .ok ()) (mode : UInt32) :
    nameMap (Call.run (.create rootInode name mode) v).2 name = some 2 ∧
      liveInode (Call.run (.create rootInode name mode) v).2 2 =
        .ok ⟨2, 1, .regular (Mode.permissions mode) .empty⟩ ∧
      contents (Call.run (.create rootInode name mode) v).2 2 = some .empty ∧
      rootEntries (Call.run (.create rootInode name mode) v).2 = ⟨2, name⟩ :: List.replicate 15 ⟨0, []⟩ := by
  obtain ⟨w, hrun, hmap, hlive, hbytes, hentries⟩ := addNew_format hd h hcheck (.inl ⟨Mode.permissions mode, rfl⟩)
  have hcreate : Call.run (.create rootInode name mode) v = (.ok _, w) := run_of_ok (bind_of_ok hrun)
  rw [hcreate]
  exact ⟨hmap, hlive, hbytes, hentries⟩

end

theorem blank_faultFree (bytes sectorSize : Nat) : (Device.blank bytes sectorSize).FaultFree :=
  ⟨fun _ => rfl, fun _ => rfl, rfl⟩

theorem blockCount_blank : (Device.blank 16384 512).blockCount = 16 := Device.blockCount_blank 16384 512

theorem exists_new : ∃ v d, Volume.format 16 (.blank 16384 512) = .ok v d := by
  have hsectors : (Device.blank 16384 512).checkSectorSize = .ok () := by decide
  have hplan : ∃ v, blueprint (.blank 16384 512) 16 = .ok v := by
    unfold blueprint
    rw [hsectors]
    simp only [bind, Except.bind, blockCount_blank]
    exact ⟨_, rfl⟩
  obtain ⟨v, hplan⟩ := hplan
  obtain ⟨w, hrun⟩ := format_ok (blank_faultFree _ _) hplan
  exact ⟨w, _, hrun⟩

theorem exists_file : ∃ v, Reachable v ∧ nameMap v ['a'.toUInt8] = some 2 ∧
    liveInode v 2 = .ok ⟨2, 1, .regular 0o644 .empty⟩ ∧ contents v 2 = some .empty := by
  obtain ⟨v, d, hrun⟩ := exists_new
  obtain ⟨hmap, hlive, hcontents, -⟩ := create_format (blank_faultFree _ _) hrun
    (by decide : Name.check ['a'.toUInt8] = .ok ()) 0o644
  exact ⟨_, .call _ (.format (blank_faultFree _ _) hrun), hmap, hlive, hcontents⟩

end ImageFS.FileSystem
