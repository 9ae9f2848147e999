import ImageFS.Kernel.Request
import ImageFS.Proofs.FileSystem.Failure
import ImageFS.Proofs.FileSystem.ReturnedMetadata

/-!
# Requests that fail

A request comes to no change at all or to one call of the file system, and if it is answered by an error
number then the call has failed and left nothing. The one exception sets the mode and the size of a file:
these are two calls, and when the second fails the first is not taken back.
-/

set_option autoImplicit false

namespace ImageFS.FileSystem.Consistent

variable {v w : Volume} {T : UInt32 → Inode} (h : Consistent v T) {ino mode : UInt32} {size : Nat} {m : Metadata}

include h

theorem metadata_setMode (hrun : setMode ino mode v = .ok m w) : metadata w ino = .ok m := by
  have hcall : Call.run (.setMode ino mode) v = (.ok (.metadata m), w) := run_of_ok (bind_of_ok hrun)
  exact h.metadata_of_subject hcall rfl

theorem metadata_setSize (hrun : setSize ino size v = .ok m w) : metadata w ino = .ok m := by
  have hcall : Call.run (.setSize ino size) v = (.ok (.metadata m), w) := run_of_ok (bind_of_ok hrun)
  exact h.metadata_of_subject hcall rfl

end ImageFS.FileSystem.Consistent

namespace ImageFS.Kernel

open Volume FileSystem

def Answers (outcome : Except Error Answer) (reply : Reply) : Prop :=
  ∀ n, reply = .failed n → ∃ e, outcome = .error e ∧ n = e.errno

/-- What a request may come to: nothing, one call, or the two calls that set the mode and the size of a file. -/
inductive Effect (v : Volume) (request : Request) : Reply × Volume → Prop
  | none (reply : Reply) : Effect v request (reply, v)
  | call {c : Call} {outcome : Except Error Answer} {reply : Reply} {w : Volume} :
      c.run v = (outcome, w) → Answers outcome reply → Effect v request (reply, w)
  | both {ino mode : UInt32} {size : Nat} {m : Metadata} {u w : Volume} {outcome : Except Error Answer}
      {reply : Reply} :
      request = .setAttr ino.toNat (some mode) (some size) → FileSystem.setMode ino mode v = .ok m u →
      Call.run (.setSize ino size) u = (outcome, w) → Answers outcome reply → Effect v request (reply, w)

variable {v w : Volume} {T : UInt32 → Inode} {owner : Owner} {add : Adder} {request : Request} {reply : Reply} {e : Error}
  {α : Type} {ino : UInt32}

theorem answer_of_ok (hrun : request.perform owner add v = .ok reply w) : request.answer owner add v = (reply, w) := by
  rw [Request.answer, hrun]

theorem answer_of_error (hrun : request.perform owner add v = .error e w) :
    request.answer owner add v = (.failed e.errno, w) := by
  rw [Request.answer, hrun]

theorem effect_number {n : Nat} {next : UInt32 → VolumeM Reply}
    (hform : request.perform owner add v = (do next (← ask fun _ => inodeNumber n)) v)
    (hnext : ∀ ino : UInt32, n = ino.toNat → request.perform owner add v = next ino v →
      Effect v request (request.answer owner add v)) : Effect v request (request.answer owner add v) := by
  by_cases hn : n < UInt32.size
  · have hnumber : inodeNumber n = .ok (.ofNat n) := if_pos hn
    refine hnext (.ofNat n) (UInt32.toNat_ofNat_of_lt' hn).symm ?_
    rw [hform, bind_of_ok (ask_of_ok hnumber)]
  · have hnumber : inodeNumber n = .error (.invalidInode n) := if_neg hn
    rw [answer_of_error (hform.trans (bind_of_error (ask_of_error hnumber)))]
    exact .none _

theorem effect_offset {offset : Int} {next : VolumeM Reply}
    (hform : request.perform owner add v = (if offset < 0 then pure (.failed einval) else next : VolumeM Reply) v)
    (hnext : request.perform owner add v = next v → Effect v request (request.answer owner add v)) :
    Effect v request (request.answer owner add v) := by
  by_cases hneg : offset < 0
  · rw [if_pos hneg] at hform
    rw [answer_of_ok hform]
    exact .none _
  · rw [if_neg hneg] at hform
    exact hnext hform

theorem effect_ask {question : Volume → Except Error α} {answer : α → Reply}
    (hform : request.perform owner add v = (do return answer (← ask question)) v) :
    Effect v request (request.answer owner add v) := by
  cases hq : question v with
  | ok a =>
    rw [answer_of_ok (hform.trans (bind_of_ok (ask_of_ok hq)))]
    exact .none _
  | error e =>
    rw [answer_of_error (hform.trans (bind_of_error (ask_of_error hq)))]
    exact .none _

theorem effect_call (c : Call) {act : VolumeM α} {answer : α → Answer} {reply : α → Reply}
    (hcall : c.perform = (do return answer (← act))) (hreply : ∀ a n, reply a ≠ .failed n)
    (hform : request.perform owner add v = (do return reply (← act)) v) :
    Effect v request (request.answer owner add v) := by
  cases hrun : act v with
  | ok a w =>
    have hperform : c.perform v = .ok (answer a) w := by
      rw [hcall]
      exact bind_of_ok hrun
    rw [answer_of_ok (hform.trans (bind_of_ok hrun))]
    exact .call (FileSystem.run_of_ok hperform) fun n hn => absurd hn (hreply a n)
  | error e w =>
    have hperform : c.perform v = .error e w := by
      rw [hcall]
      exact bind_of_error hrun
    rw [answer_of_error (hform.trans (bind_of_error hrun))]
    exact .call (FileSystem.run_of_error hperform) fun n hn => ⟨e, rfl, (Reply.failed.inj hn).symm⟩

def attributesOf (owner : Owner) (ino : UInt32) : VolumeM Reply := do
  return .attributes (owner.attributes (← ask (metadata · ino)))

theorem attributesOf_eq {m : Metadata} (h : metadata v ino = .ok m) :
    attributesOf owner ino v = .ok (.attributes (owner.attributes m)) v :=
  bind_of_ok (ask_of_ok h)

theorem effect_change (c : Call) {act : VolumeM Metadata} (hcall : c.perform = (do return .metadata (← act)))
    (hafter : ∀ m w, act v = .ok m w → metadata w ino = .ok m)
    (hform : request.perform owner add v = (do
      let _ ← act
      attributesOf owner ino) v) :
    Effect v request (request.answer owner add v) := by
  have hreply : ∀ (m : Metadata) (n : Nat), Reply.attributes (owner.attributes m) ≠ .failed n :=
    fun _ _ => Reply.noConfusion
  refine effect_call c hcall hreply ?_
  rw [hform]
  cases hrun : act v with
  | ok m w =>
    rw [bind_of_ok hrun, bind_of_ok hrun, attributesOf_eq (hafter m w hrun)]
    rfl
  | error e w => rw [bind_of_error hrun, bind_of_error hrun]

theorem effect_setAttr (h : Consistent v T) (owner : Owner) (add : Adder) (n : Nat) (mode : Option UInt32)
    (size : Option Nat) : Effect v (.setAttr n mode size) (Request.answer owner add (.setAttr n mode size) v) := by
  refine effect_number rfl fun ino hn hform => ?_
  cases mode with
  | none =>
    cases size with
    | none => exact effect_ask hform
    | some size => exact effect_change (.setSize ino size) rfl (fun m w hrun => h.metadata_setSize hrun) hform
  | some mode =>
    cases size with
    | none => exact effect_change (.setMode ino mode) rfl (fun m w hrun => h.metadata_setMode hrun) hform
    | some size =>
      cases hmode : FileSystem.setMode ino mode v with
      | error e u =>
        rw [answer_of_error (hform.trans (bind_of_error hmode))]
        exact .call (FileSystem.run_of_error (c := .setMode ino mode) (bind_of_error hmode)) fun n hn =>
          ⟨e, rfl, (Reply.failed.inj hn).symm⟩
      | ok m u =>
        obtain ⟨T', h'⟩ := (h.keeps_setMode ino mode).ok hmode
        have hrest := hform.trans (bind_of_ok hmode)
        have hrequest : Request.setAttr n (some mode) (some size) = .setAttr ino.toNat (some mode) (some size) := by
          rw [hn]
        cases hsize : FileSystem.setSize ino size u with
        | error e w =>
          rw [answer_of_error (hrest.trans (bind_of_error hsize))]
          exact .both hrequest hmode (FileSystem.run_of_error (bind_of_error hsize)) fun n hn =>
            ⟨e, rfl, (Reply.failed.inj hn).symm⟩
        | ok m' w =>
          have hreply := hrest.trans ((bind_of_ok hsize).trans (attributesOf_eq (h'.metadata_setSize hsize)))
          rw [answer_of_ok hreply]
          exact .both hrequest hmode (FileSystem.run_of_ok (bind_of_ok hsize)) fun n hn => by cases hn

theorem effect (h : Consistent v T) (owner : Owner) (add : Adder) (request : Request) :
    Effect v request (request.answer owner add v) := by
  cases request with
  | lookup parent name => exact effect_number rfl fun _ _ hform => effect_ask hform
  | getAttr ino => exact effect_number rfl fun _ _ hform => effect_ask hform
  | setAttr ino mode size => exact effect_setAttr h owner add ino mode size
  | readLink ino uid => exact effect_number rfl fun _ _ hform => effect_ask hform
  | openFile ino => exact effect_number rfl fun _ _ hform => effect_ask hform
  | read ino offset length =>
    refine effect_offset rfl fun hform => effect_number hform fun _ _ hform => effect_ask hform
  | write ino offset data flags =>
    refine effect_offset rfl fun hform => effect_number hform fun ino _ hform => ?_
    exact effect_call (.write ino offset.toNat data (flags &&& appendFlag ≠ 0)) rfl (fun _ _ => Reply.noConfusion) hform
  | readDir ino offset room => exact effect_number rfl fun _ _ hform => effect_ask hform
  | create parent name mode umask =>
    exact effect_number rfl fun parent _ hform =>
      effect_call (.create parent name (mode &&& ~~~umask)) rfl (fun _ _ => Reply.noConfusion) hform
  | link ino parent name =>
    refine effect_number rfl fun ino _ hform => effect_number hform fun parent _ hform => ?_
    exact effect_call (.link ino parent name) rfl (fun _ _ => Reply.noConfusion) hform
  | symlink parent name target =>
    exact effect_number rfl fun parent _ hform =>
      effect_call (.symlink parent name target) rfl (fun _ _ => Reply.noConfusion) hform
  | unlink parent name =>
    exact effect_number rfl fun parent _ hform =>
      effect_call (.unlink parent name) rfl (fun _ _ => Reply.noConfusion) hform
  | statFs => exact effect_ask rfl

/-- The volumes that requests come to: new ones, those mounted from the bytes of such a volume on a device
without faults, and what calls and requests leave. -/
inductive Served : Volume → Prop
  | format {device d : Device} {inodes : UInt32} {v : Volume} :
      device.FaultFree → Volume.format inodes device = .ok v d → Served v
  | mount {d : Device} {v w : Volume} :
      Served v → d.FaultFree → d.bytes = v.device.bytes → Volume.mount d = .ok w → Served w
  | call {v : Volume} (c : Call) : Served v → Served (c.run v).2
  | request {v : Volume} (owner : Owner) (add : Adder) (request : Request) :
      Served v → Served (request.answer owner add v).2

theorem Served.of_reachable (h : FileSystem.Reachable v) : Served v := by
  induction h with
  | format hd hrun => exact .format hd hrun
  | call c _ ih => exact .call c ih

theorem Effect.after {out : Reply × Volume} (x : Effect v request out) : ∃ calls, out.2 = FileSystem.after v calls := by
  cases x with
  | none => exact ⟨[], rfl⟩
  | @call c outcome reply w hrun =>
    refine ⟨[c], ?_⟩
    rw [FileSystem.after, List.foldl_cons, List.foldl_nil, hrun]
  | @both ino mode size m u w outcome reply _ hmode hsize =>
    refine ⟨[.setMode ino mode, .setSize ino size], ?_⟩
    have hfirst : (Call.setMode ino mode).run v = (.ok (.metadata m), u) := FileSystem.run_of_ok (bind_of_ok hmode)
    rw [FileSystem.after, List.foldl_cons, List.foldl_cons, List.foldl_nil, hfirst, hsize]

theorem Served.consistent (h : Served v) :
    (∃ T, Consistent v T) ∧ v.superblock.firstDataBlock.toNat < v.superblock.blockCount.toNat := by
  induction h with
  | format hd hrun => exact mountable_format hd hrun
  | mount _ hd bytes hmount ih => exact (Mountable.mounted ih hd bytes hmount).1
  | call c _ ih => exact Mountable.call ih c
  | request owner add request _ ih =>
    obtain ⟨T, hT⟩ := ih.1
    obtain ⟨list, hlist⟩ := (effect hT owner add request).after
    rw [hlist]
    exact Mountable.after ih list

/-- The request set the mode of a file, failed to set its size, and left the mode. -/
def HalfDone (v : Volume) (request : Request) (errno : Nat) (w : Volume) : Prop :=
  ∃ (ino mode : UInt32) (size : Nat) (m : Metadata) (u : Volume) (e : Error),
    request = .setAttr ino.toNat (some mode) (some size) ∧ FileSystem.setMode ino mode v = .ok m u ∧
      (Call.run (.setSize ino size) u).1 = .error e ∧ errno = e.errno ∧ Same u w

theorem Effect.failed {errno : Nat} (x : Effect v request (reply, w)) (h : Consistent v T)
    (hfail : reply = .failed errno) : Same v w ∨ HalfDone v request errno w := by
  cases x with
  | none => exact .inl (h.same_of_spared h.spared_refl)
  | @call c outcome _ _ hrun hanswers =>
    obtain ⟨e, he, -⟩ := hanswers errno hfail
    have hsame := h.failed (c := c) (e := e) (by rw [hrun, he])
    rw [hrun] at hsame
    exact .inl (h.same_of_spared hsame)
  | @both ino mode size m u _ outcome _ hrequest hmode hsize hanswers =>
    obtain ⟨T', h'⟩ := (h.keeps_setMode ino mode).ok hmode
    obtain ⟨e, he, herrno⟩ := hanswers errno hfail
    have hsame := h'.failed (c := .setSize ino size) (e := e) (by rw [hsize, he])
    rw [hsize] at hsame
    exact .inr ⟨ino, mode, size, m, u, e, hrequest, hmode, by rw [hsize, he], herrno, h'.same_of_spared hsame⟩

theorem freeBlocks_setMode (h : Consistent v T) {n old new : UInt32} {c : Chain} {m : Metadata}
    (hino : InUse v T ino) (hfile : T ino = ⟨ino, n, .regular old c⟩) (hrun : FileSystem.setMode ino new v = .ok m w) :
    w.freeBlocks = v.freeBlocks := by
  have hwrite := h.ledger.writeInode_eq (i := ⟨ino, n, .regular (Mode.permissions new) c⟩) hino.1
  rw [FileSystem.setMode, bind_of_ok (ask_of_ok (h.live_file hino hfile))] at hrun
  cases hrun.symm.trans (bind_of_ok hwrite)
  rw [freeBlocks, freeMap_putInode]
  rfl

theorem setAttr_halfDone (h : Consistent v T) (owner : Owner) (add : Adder) (new : UInt32) {n old : UInt32} {c : Chain}
    {size : Nat}
    (hlive : liveInode v ino = .ok ⟨ino, n, .regular old c⟩) (hlength : lengthError v c size = some e) :
    ∃ w, Request.answer owner add (.setAttr ino.toNat (some new) (some size)) v = (.failed e.errno, w) ∧
      liveInode w ino = .ok ⟨ino, n, .regular (Mode.permissions new) c⟩ ∧ contents w ino = contents v ino := by
  obtain ⟨hino, hfile⟩ := h.ledger.liveInode_iff.mp hlive
  obtain ⟨u, hmode, hstep⟩ := h.setMode_ok hino hfile new
  obtain ⟨T', h'⟩ := hstep.consistent
  obtain ⟨hino', hfile'⟩ := h'.ledger.liveInode_iff.mp hstep.live
  have hlength' : lengthError u c size = some e := by
    rw [lengthError, freeBlocks_setMode h hino hfile hmode]
    exact hlength
  obtain ⟨w, hsize, hsame⟩ := h'.setSize_error hino' hfile' hlength'
  have hnumber : inodeNumber ino.toNat = .ok ino := by
    rw [inodeNumber, if_pos ino.toNat_lt, UInt32.ofNat_toNat]
  refine ⟨w, answer_of_error (e := e) ?_, ?_, ?_⟩
  · rw [Request.perform, bind_of_ok (ask_of_ok hnumber)]
    exact (bind_of_ok hmode).trans (bind_of_error hsize)
  · rw [(hsame.inodes ino).1, hstep.live]
  · rw [(hsame.inodes ino).2, hstep.bytes, contents_of_regular hlive rfl]

/-- A request that is answered by an error number has changed nothing, unless it sets the mode and the size
of a file and fails with the size: then the mode is set. That is what happens to every regular file that is
to get a size it cannot have. -/
theorem refused_request (h : Served v) (owner : Owner) (add : Adder) :
    (∀ request errno, (request.answer owner add v).1 = .failed errno →
      Same v (request.answer owner add v).2 ∨ HalfDone v request errno (request.answer owner add v).2) ∧
    ∀ (ino n old new : UInt32) (c : Chain) (size : Nat) (e : Error),
      liveInode v ino = .ok ⟨ino, n, .regular old c⟩ → lengthError v c size = some e →
      ∃ w, Request.answer owner add (.setAttr ino.toNat (some new) (some size)) v = (.failed e.errno, w) ∧
        liveInode w ino = .ok ⟨ino, n, .regular (Mode.permissions new) c⟩ ∧ contents w ino = contents v ino ∧
        (Mode.permissions new ≠ old → ¬ Same v w) := by
  obtain ⟨⟨T, hT⟩, -⟩ := h.consistent
  refine ⟨fun request errno hfail => (effect hT owner add request).failed hT hfail,
    fun ino n old new c size e hlive hlength => ?_⟩
  obtain ⟨w, hanswer, hnew, hbytes⟩ := setAttr_halfDone hT owner add new hlive hlength
  refine ⟨w, hanswer, hnew, hbytes, fun hne same => ?_⟩
  rw [liveInode, same.inodes, ← liveInode, hlive] at hnew
  cases hnew
  exact hne rfl

theorem refused_request_file :
    let add : Adder := fun room item =>
      let size := (24 + item.name.length + 7) / 8 * 8
      if size ≤ room then some (room - size) else none
    ∃ v w, Served v ∧ liveInode v 2 = .ok ⟨2, 1, .regular 0o644 .empty⟩ ∧
      Request.answer ⟨0, 0⟩ add (.setAttr 2 (some 0o600) (some (65802 * 1024 + 1))) v = (.failed 27, w) ∧
        liveInode w 2 = .ok ⟨2, 1, .regular 0o600 .empty⟩ ∧ ¬ Same v w := by
  intro add
  obtain ⟨v, hv, -, hlive, -⟩ := exists_file
  have hserved := Served.of_reachable hv
  have hlength : lengthError v .empty (65802 * 1024 + 1) = some .fileTooLarge := rfl
  obtain ⟨w, hanswer, hnew, -, hchanged⟩ :=
    (refused_request hserved ⟨0, 0⟩ add).2 2 1 0o644 0o600 .empty _ _ hlive hlength
  exact ⟨v, w, hserved, hlive, hanswer, hnew, hchanged (by decide)⟩

end ImageFS.Kernel
