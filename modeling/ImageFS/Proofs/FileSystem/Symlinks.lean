import ImageFS.Proofs.FileSystem.Persistence
import ImageFS.Proofs.Record.Destination
import ImageFS.Proofs.Reference.Steps

/-!
# Symlinks stay what they are

A symlink sends its callers where it was made to send them, through all calls that leave it a name, and after
mounting its device again.
-/

set_option autoImplicit false

namespace ImageFS.FileSystem

open Volume Reference

/-- The volumes that come after `v` through calls and through mounting the bytes of the device again. Each call leaves
a volume as wanted. -/
inductive Later (wanted : Volume → Prop) (v : Volume) : Volume → Prop
  | start : Later wanted v v
  | call {w : Volume} (c : Call) : Later wanted v w → wanted (c.run w).2 → Later wanted v (c.run w).2
  | mount {w u : Volume} {d : Device} :
      Later wanted v w → d.FaultFree → d.bytes = w.device.bytes → Volume.mount d = .ok u → Later wanted v u

def Live (ino : UInt32) (v : Volume) : Prop := ∃ i, liveInode v ino = .ok i

/-- A symlink sends callers to `dest`, also on what is mounted from the bytes of the device. -/
structure SendsTo (v : Volume) (ino : UInt32) (dest : Bool → List UInt8) : Prop where
  now : ∀ privileged, readLink v ino privileged = .ok (dest privileged)
  remounted : ∀ d : Device, d.FaultFree → d.checkSectorSize = .ok () → d.bytes = v.device.bytes →
    ∃ w, mount d = .ok w ∧ ∀ privileged, readLink w ino privileged = .ok (dest privileged)

structure Bears (ino : UInt32) (target : List UInt8) (v : Volume) : Prop where
  mountable : Mountable v
  file : ∃ f, (state v).file ino = some f ∧ f.target? = some target

variable {wanted : Volume → Prop} {v w u : Volume} {T : UInt32 → Inode} {ino dir : UInt32} {name : Name}
  {target root other : List UInt8} {m : Metadata} {d : Device}

theorem Later.mountable (h : Mountable v) (later : Later wanted v u) : Mountable u := by
  induction later with
  | start => exact h
  | call c _ _ ih => exact ih.call c
  | mount _ hd bytes hmount ih => exact (ih.mounted hd bytes hmount).1

namespace Consistent

variable (h : Consistent v T)

include h

theorem exists_file_of_live (hlive : Live ino v) (hne : ino ≠ rootInode) : ∃ f, (state v).file ino = some f := by
  obtain ⟨i, hi⟩ := hlive
  cases h.stands hne with
  | free _ hfree _ => cases hi.symm.trans hfree
  | regular _ _ _ hfile => exact ⟨_, hfile⟩
  | symlink _ _ _ hfile => exact ⟨_, hfile⟩

end Consistent

namespace Bears

variable (h : Bears ino target v)

include h

theorem ne_root : ino ≠ rootInode := by
  rintro rfl
  obtain ⟨T, hT⟩ := h.mountable.1
  obtain ⟨f, hfile, -⟩ := h.file
  cases hT.file_root.symm.trans hfile

theorem of_state (hw : Mountable w) (same : state w = state v) : Bears ino target w := ⟨hw, same ▸ h.file⟩

theorem readLink (privileged : Bool) : readLink v ino privileged = .ok (Symlink.resolve target privileged) := by
  obtain ⟨T, hT⟩ := h.mountable.1
  obtain ⟨f, hfile, htarget⟩ := h.file
  rw [hT.readLink_state, State.readLink, if_neg h.ne_root, State.fileAt_eq_ok.mpr hfile]
  cases f with
  | regular => cases htarget
  | symlink n t =>
    cases htarget
    rfl

theorem call (c : Call) (hlive : Live ino (c.run v).2) : Bears ino target (c.run v).2 := by
  refine ⟨h.mountable.call c, ?_⟩
  obtain ⟨T, hT⟩ := h.mountable.1
  have hseen := hT.seen_perform c
  cases hrun : c.perform v with
  | error e w =>
    rw [run_of_error hrun, ((hT.keeps_perform c).error hrun).state]
    exact h.file
  | ok answer w =>
    rw [run_of_ok hrun] at hlive ⊢
    rw [seen_of_ok hrun] at hseen
    obtain ⟨T', hT'⟩ := (hT.keeps_perform c).ok hrun
    -- One call cannot both take the number from the symlink and give it to another file.
    obtain ⟨f, hfile, htarget⟩ := h.file
    obtain ⟨g, hg⟩ := hT'.exists_file_of_live hlive h.ne_root
    exact ⟨g, hg, ((perform_step hseen.symm).target? hfile hg).trans htarget⟩

theorem later (later : Later (Live ino) v u) : Bears ino target u := by
  induction later with
  | start => exact h
  | call c _ hlive ih => exact ih.call c hlive
  | mount _ hd bytes hmount ih =>
    obtain ⟨hw, hsame⟩ := ih.mountable.mounted hd bytes hmount
    exact ih.of_state hw hsame

theorem sendsTo : SendsTo v ino (Symlink.resolve target) where
  now := h.readLink
  remounted d hd sectors bytes := by
    obtain ⟨hmount, hw, hsame⟩ := h.mountable.mount_copy ⟨hd, sectors⟩ bytes
    exact ⟨_, hmount, (h.of_state hw hsame).readLink⟩

end Bears

theorem Mountable.bears_addNew (h : Mountable v) {name : Name} (hvalid : Symlink.validate target = .ok ())
    (hrun : addNew dir name (.symlink target) v = .ok m w) : Bears m.ino target w := by
  obtain ⟨⟨T, hT⟩, hroom⟩ := h
  have hseen := hT.seen_addNew dir name (.symlink hvalid)
  rw [seen_of_ok hrun] at hseen
  obtain ⟨ino, -, -, hnamed⟩ := addNew_eq_ok hseen.symm
  rw [hnamed.metadata]
  refine ⟨⟨?_, ?_⟩, .symlink 1 target, ?_, rfl⟩
  · exact (hT.keeps_addNew dir name (.inr ⟨target, rfl, hvalid⟩)).ok hrun
  · rw [(steady_of_respects fun _ => respects_addNew _ _ _ : Steady (addNew dir name (.symlink target))).superblock hrun]
    exact hroom
  · rw [hnamed.state]
    exact Function.update_self _ _ _

theorem Mountable.bears_symlink (h : Mountable v) (hrun : symlink dir name target v = .ok m w) : Bears m.ino target w := by
  cases hvalid : Symlink.validate target with
  | error e => cases (bind_of_error (ask_of_error hvalid)).symm.trans hrun
  | ok _ =>
    rw [symlink, bind_of_ok (ask_of_ok hvalid)] at hrun
    exact h.bears_addNew hvalid hrun

theorem Mountable.bears_symlinkConditional (h : Mountable v) (hrun : symlinkConditional dir name root other v = .ok m w) :
    ∃ target, Symlink.conditional root other = .ok target ∧ Bears m.ino target w := by
  cases htarget : Symlink.conditional root other with
  | error e => cases (bind_of_error (ask_of_error htarget)).symm.trans hrun
  | ok target =>
    rw [symlinkConditional, bind_of_ok (ask_of_ok htarget)] at hrun
    exact ⟨target, rfl, h.bears_addNew (validate_of_conditional htarget) hrun⟩

/-- Two parts make a conditional destination exactly when they have room in it, no zero, and no separator in the
first. A symlink with such a destination, or with any other that is accepted, sends callers where it was made to
send them, as long as it stays and after mounting again. A destination sends all callers to itself unless it has the
mark and a separator behind that. -/
theorem symlinks_keep_destinations {device d : Device} {inodes : UInt32} {v₀ : Volume} (faultFree : device.FaultFree)
    (formatted : Volume.format inodes device = .ok v₀ d) (reached : Later (fun _ => True) v₀ v) (dir : UInt32) (name : Name) :
    (∀ root other, (∃ target, Symlink.conditional root other = .ok target) ↔
      Symlink.separator ∉ root ∧ 0 ∉ root ∧ 0 ∉ other ∧ 6 + root.length + other.length ≤ maxTargetLength) ∧
    (∀ root other m w, symlinkConditional dir name root other v = .ok m w →
      ∀ u, Later (Live m.ino) w u → SendsTo u m.ino fun privileged => if privileged then root else other) ∧
    (∀ target m w, symlink dir name target v = .ok m w →
      ∀ u, Later (Live m.ino) w u → SendsTo u m.ino (Symlink.resolve target)) ∧
    ∀ target, (∀ privileged, Symlink.resolve target privileged = target) ↔
      ¬ Symlink.conditionalMark <+: target ∨ Symlink.separator ∉ target.drop Symlink.conditionalMark.length := by
  have hv := reached.mountable (mountable_format faultFree formatted)
  refine ⟨fun root other => Symlink.exists_conditional, fun root other m w hrun u later => ?_,
    fun target m w hrun u later => ((hv.bears_symlink hrun).later later).sendsTo, fun target => ?_⟩
  · obtain ⟨target, htarget, hbears⟩ := hv.bears_symlinkConditional hrun
    rw [← funext (Symlink.resolve_of_conditional htarget)]
    exact (hbears.later later).sendsTo
  · rw [Symlink.resolve_eq_self, not_and_or]

theorem symlinks_keep_destinations_first : ∃ v₀ d m w u, Volume.format 16 (.blank 16384 512) = .ok v₀ d ∧
    symlinkConditional rootInode ['a'.toUInt8] [] [Symlink.separator] v₀ = .ok m w ∧
      mount ⟨1024, w.device.bytes, .none⟩ = .ok u ∧
      SendsTo u m.ino fun privileged => if privileged then [] else [Symlink.separator] := by
  obtain ⟨v, d, hformat⟩ := exists_new
  have htarget : Symlink.conditional [] [Symlink.separator] =
      .ok (Symlink.conditionalMark ++ [Symlink.separator, Symlink.separator]) := rfl
  obtain ⟨w, hadd, -⟩ := addNew_format (blank_faultFree _ _) hformat (by decide : Name.check ['a'.toUInt8] = .ok ())
    (.inr ⟨_, rfl, validate_of_conditional htarget⟩)
  have hrun : symlinkConditional rootInode ['a'.toUInt8] [] [Symlink.separator] v = .ok _ w :=
    (bind_of_ok (ask_of_ok htarget)).trans hadd
  obtain ⟨-, hkeeps, -⟩ := symlinks_keep_destinations (blank_faultFree _ _) hformat .start rootInode ['a'.toUInt8]
  have hcopy : Device.FaultFree ⟨1024, w.device.bytes, .none⟩ := ⟨fun _ => rfl, fun _ => rfl, rfl⟩
  obtain ⟨u, hmount, -⟩ := (hkeeps _ _ _ _ hrun w .start).remounted _ hcopy (if_neg (by dsimp only; decide)) rfl
  exact ⟨v, d, _, w, u, hformat, hrun, hmount, hkeeps _ _ _ _ hrun u (.mount .start hcopy rfl hmount)⟩

end ImageFS.FileSystem
