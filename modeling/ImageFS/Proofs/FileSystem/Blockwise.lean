import ImageFS.FileSystem.Call
import ImageFS.Proofs.Volume.Blockwise

/-!
# Calls side by side

Every call finds out what it does by whole blocks, and changes a volume only by writing blocks, taking them
and giving them back. So a call that is made on two related volumes is answered alike on both.
-/

set_option autoImplicit false

namespace ImageFS

open Volume Holding

namespace Volume.SameReads

variable {v w : Volume} (h : SameReads v w)

include h

theorem bytesAt (c : Chain) (offset length : Nat) : c.bytesAt w offset length = c.bytesAt v offset length := by
  simp only [Chain.bytesAt, h.blockAt, h.reads]

theorem entries (dir : Directory) : dir.entries w = dir.entries v := by
  simp only [Directory.entries, h.blockAt, h.reads]

theorem find (dir : Directory) (name : Name) : dir.find w name = dir.find v name := by
  rw [Directory.find, Directory.find, h.entries]

theorem locate (dir : Directory) (slot : Nat) : dir.locate w slot = dir.locate v slot := by
  rw [Directory.locate, Directory.locate, h.blockAt]

theorem list (i : Inode) (slot : Nat) : i.list w slot = i.list v slot := by
  simp only [Inode.list, Directory.occupiedFrom, h.entries]

theorem liveInode (ino : UInt32) : FileSystem.liveInode w ino = FileSystem.liveInode v ino := by
  rw [FileSystem.liveInode, FileSystem.liveInode, h.readInode]

theorem liveDirectory (ino : UInt32) : FileSystem.liveDirectory w ino = FileSystem.liveDirectory v ino := by
  rw [FileSystem.liveDirectory, FileSystem.liveDirectory, h.liveInode]

theorem metadata (ino : UInt32) : FileSystem.metadata w ino = FileSystem.metadata v ino := by
  rw [FileSystem.metadata, FileSystem.metadata, h.liveInode]

theorem lookupName (dir : UInt32) (name : Name) : FileSystem.lookup w dir name = FileSystem.lookup v dir name := by
  simp only [FileSystem.lookup, h.liveDirectory, h.find, h.metadata]

theorem readDir (dir parent : UInt32) (cursor : Nat) :
    FileSystem.readDir w dir parent cursor = FileSystem.readDir v dir parent cursor := by
  simp only [FileSystem.readDir, h.liveInode, h.list, h.readInode]

theorem read (ino : UInt32) (offset length : Nat) :
    FileSystem.read w ino offset length = FileSystem.read v ino offset length := by
  simp only [FileSystem.read, Inode.bytesAt, h.liveInode, h.bytesAt]

theorem readLink (ino : UInt32) (privileged : Bool) :
    FileSystem.readLink w ino privileged = FileSystem.readLink v ino privileged := by
  rw [FileSystem.readLink, FileSystem.readLink, h.liveInode]

end Volume.SameReads

theorem Volume.Indistinct.stats {v w : Volume} (h : Indistinct v w) : FileSystem.stats w = FileSystem.stats v := by
  rw [FileSystem.stats, FileSystem.stats, freeBlocks, freeBlocks, h.superblock, h.freeMap, h.freeInodes]

variable {R : Volume → Volume → Prop} [Blockwise R]

namespace Chain

variable (c : Chain)

theorem respects_extend (slot : Slot) : Respects R (c.extend slot) := by
  cases slot with
  | direct i => exact respects_withFresh fun _ => .pure _
  | indirect i =>
    refine .ite (respects_withFresh fun _ => respects_withFresh fun _ => ?_) (respects_withFresh fun _ => ?_)
    · exact .bind (respects_writePointer _ _ _) fun _ => .pure _
    · exact .bind (respects_writePointer _ _ _) fun _ => .pure _
  | doubly outer inner =>
    have htable : Respects R (ask (·.readPointer c.doubly outer)) := .ask fun h => h.readPointer _ _
    refine .ite (respects_withFresh fun _ => respects_withFresh fun _ => respects_withFresh fun _ => ?_)
      (.bind htable fun _ => .ite (respects_withFresh fun _ => respects_withFresh fun _ => ?_)
        (respects_withFresh fun _ => ?_))
    · exact .bind (respects_writePointer _ _ _) fun _ => .bind (respects_writePointer _ _ _) fun _ => .pure _
    · refine .tryCatch ?_ fun e => .bind (.tryCatch (respects_writePointer _ _ _) fun _ => .pure _) fun _ => .throw e
      exact .bind (respects_writePointer _ _ _) fun _ => .bind (respects_writePointer _ _ _) fun _ => .pure _
    · exact .bind htable fun _ => .bind (.ask fun _ => rfl) fun _ => .bind (respects_writePointer _ _ _) fun _ => .pure _

theorem respects_grow : Respects R c.grow :=
  .ite (.throw _) (.bind (c.respects_extend _) fun _ => .pure _)

theorem respects_retract (slot : Slot) : Respects R (c.retract slot) := by
  cases slot with
  | direct i => exact .bind (.ask fun _ => rfl) fun _ => .bind (Blockwise.free _) fun _ => .pure _
  | indirect i =>
    refine .bind (.ask fun _ => rfl) fun _ => .bind (.ask fun h => h.readPointer _ _) fun _ =>
      .bind (.ask fun _ => rfl) fun _ => .bind (Blockwise.free _) fun _ => .bind (respects_writePointer _ _ _) fun _ => ?_
    exact .ite (.bind (Blockwise.free _) fun _ => .pure _) (.pure _)
  | doubly outer inner =>
    refine .bind (.ask fun _ => rfl) fun _ => .bind (.ask fun h => h.readPointer _ _) fun _ =>
      .bind (.ask fun _ => rfl) fun _ => .bind (.ask fun h => h.readPointer _ _) fun _ => .bind (.ask fun _ => rfl) fun _ =>
        .bind (Blockwise.free _) fun _ => .bind (respects_writePointer _ _ _) fun _ => ?_
    refine .ite (.bind (Blockwise.free _) fun _ => .bind (respects_writePointer _ _ _) fun _ => ?_) (.pure _)
    exact .ite (.bind (Blockwise.free _) fun _ => .pure _) (.pure _)

theorem respects_shrink : Respects R c.shrink :=
  .ite (.pure _) (.bind (c.respects_retract _) fun _ => .pure _)

theorem respects_zeroTail : Respects R c.zeroTail :=
  .ite (.bind (.ask fun h => h.blockAt c _) fun _ => respects_updateBlock _ _) (.pure _)

theorem respects_growBy (n : Nat) : Respects (InHand R) (growBy n) := by
  induction n with
  | zero => exact .pure _
  | succ n ih => exact .bind (.update respects_grow) fun _ => ih

theorem respects_shrinkBy (n : Nat) : Respects (InHand R) (shrinkBy n) := by
  induction n with
  | zero => exact .pure _
  | succ n ih => exact .bind (.update respects_shrink) fun _ => ih

theorem respects_undoGrowth : Respects (InHand R) c.undoGrowth :=
  .bind .object fun _ => .bind (respects_shrinkBy _) fun _ => .bind .object fun _ => .put _

theorem respects_resize (size : Nat) : Respects (InHand R) (resize size) := by
  refine .bind .object fun before => .guard (.throw _) fun _ => .guard (.onVolume before.respects_zeroTail) fun _ => ?_
  refine .bind (.tryCatch (respects_growBy _) fun e => .guard before.respects_undoGrowth fun _ => .throw e) fun _ => ?_
  refine .bind (respects_shrinkBy _) fun _ => .bind (.bind .object fun _ => .put _) fun _ => ?_
  exact .ite (.bind .object fun now => .onVolume now.respects_zeroTail) (.pure _)

theorem respects_storeSpan (data : ByteArray) (s : Span) : Respects R (c.storeSpan data s) :=
  .bind (.ask fun h => h.blockAt c _) fun _ => .ite (Blockwise.writeBlock _ _) (respects_updateBlock _ _)

theorem respects_write (offset : Nat) (data : ByteArray) (append : Bool) :
    Respects (InHand R) (write offset data append) :=
  .bind .object fun _ => .guard (respects_resize _) fun _ => .bind .object fun c =>
    .bind (.onVolume (.forM (c.respects_storeSpan data))) fun _ => .pure _

end Chain

namespace Directory

variable (dir : Directory)

theorem respects_writeEntry (slot : Nat) (e : Entry) : Respects R (dir.writeEntry slot e) :=
  .bind (.ask fun h => h.locate dir slot) fun _ => respects_updateBlock _ _

theorem respects_clearEntry (slot : Nat) : Respects R (dir.clearEntry slot) :=
  .bind (.ask fun h => h.locate dir slot) fun _ => respects_updateBlock _ _

theorem respects_freeSlot : Respects (InHand R) freeSlot := by
  refine .bind .object fun dir => .bind (.onVolume (.ask fun h => h.entries dir)) fun entries => ?_
  split
  · exact .pure _
  · exact .bind (.onPart (.update Chain.respects_grow)) fun _ => .bind .object fun _ =>
      .bind (.onVolume (respects_writeInode _)) fun _ => .pure _

theorem respects_link (name : Name) : Respects (InHand R) (link name) := by
  refine .bind .object fun ⟨dir, target⟩ => .bind (.onVolume (.ask fun _ => rfl)) fun _ => .guard (.throw _) fun _ => ?_
  refine .bind (.onVolume (.ask fun h => h.find dir name)) fun _ => .guard (.throw _) fun _ => ?_
  refine .bind (.onPart respects_freeSlot) fun slot => .bind .object fun ⟨grown, _⟩ => ?_
  refine .bind (.onVolume (grown.respects_writeEntry _ _)) fun _ => .bind (.put _) fun _ => ?_
  refine .tryCatch (.onVolume (respects_writeInode _)) fun e => .bind (.put _) fun _ => ?_
  exact .bind (.onVolume (.tryCatch (grown.respects_clearEntry _) fun _ => .pure _)) fun _ => .throw e

theorem respects_unlink (name : Name) : Respects R (dir.unlink name) := by
  refine .guard (.throw _) fun _ => .bind (.ask fun h => h.find dir name) fun found => ?_
  cases found with
  | none => exact .throw _
  | some p =>
    exact .bind (.ask fun h => h.readInode _) fun _ => .guard (.throw _) fun _ =>
      .bind (dir.respects_clearEntry _) fun _ => .bind (respects_writeInode _) fun _ => .pure _

end Directory

namespace FileSystem

variable {α : Type}

theorem respects_addName (dir : Directory) (i : Inode) (name : Name) : Respects R (addName dir i name) := by
  intro v w hvw
  unfold addName
  rcases (Directory.respects_link name).cases_inHand (dir, i) hvw with
    ⟨a, t, v', w', hv, hw, hvw'⟩ | ⟨e, t, v', w', hv, hw, hvw'⟩
  · rw [hv, hw]
    exact .ok hvw'
  · rw [hv, hw]
    exact .error hvw'

theorem respects_addNew (dir : UInt32) (name : Name) (body : Body) : Respects R (addNew dir name body) :=
  .bind (.ask fun _ => rfl) fun _ => .bind (.ask fun h => h.liveDirectory dir) fun dir =>
    .bind (.ask fun h => h.find dir name) fun _ => .guard (.throw _) fun _ =>
      .bind (.ask fun h => h.allocateInode) fun _ => .bind (respects_addName dir _ name) fun _ => .pure _

theorem respects_link (ino dir : UInt32) (name : Name) : Respects R (link ino dir name) :=
  .bind (.ask fun h => h.liveInode ino) fun _ => .bind (.ask fun h => h.liveDirectory dir) fun dir =>
    .bind (respects_addName dir _ name) fun _ => .pure _

theorem respects_changing {act : Holding Inode α} (h : Respects (InHand R) act) (i : Inode) :
    Respects R (changing i act) := by
  intro v w hvw
  unfold changing
  rcases h.cases_inHand i hvw with ⟨a, j, v', w', hv, hw, hvw'⟩ | ⟨e, j, v', w', hv, hw, hvw'⟩
  · rw [hv, hw]
    exact (Respects.bind (respects_writeInode j) fun _ => .pure a) v' w' hvw'
  · rw [hv, hw]
    dsimp only
    cases e.isRefusal with
    | true => exact .error hvw'
    | false => exact (Respects.bind (respects_writeInode j) fun _ => .throw e) v' w' hvw'

theorem respects_inode_resize (size : Nat) : Respects (InHand R) (Inode.resize size) := by
  refine .bind .object fun i => ?_
  split
  · exact .onPart (Chain.respects_resize size)
  · exact .throw _
  · exact .throw _

theorem respects_inode_write (offset : Nat) (data : ByteArray) (append : Bool) :
    Respects (InHand R) (Inode.write offset data append) := by
  refine .bind .object fun i => ?_
  split
  · exact .onPart (Chain.respects_write offset data append)
  · exact .throw _
  · exact .throw _

theorem respects_unlink (dir : UInt32) (name : Name) : Respects R (unlink dir name) := by
  refine .bind (.ask fun h => h.liveDirectory dir) fun dir => .bind (dir.respects_unlink name) fun i => .ite ?_ (.pure _)
  intro v w hvw
  dsimp only
  rcases (respects_inode_resize 0).cases_inHand i hvw with
    ⟨a, j, v', w', hv, hw, hvw'⟩ | ⟨e, j, v', w', hv, hw, hvw'⟩
  · rw [hv, hw]
    exact respects_writeInode j v' w' hvw'
  · rw [hv, hw]
    exact .error hvw'

theorem respects_setSize (ino : UInt32) (size : Nat) : Respects R (setSize ino size) :=
  .bind (.ask fun h => h.liveInode ino) fun i => .bind (respects_changing (respects_inode_resize size) i) fun _ =>
    .ask fun h => h.metadata ino

theorem respects_write (ino : UInt32) (offset : Nat) (data : ByteArray) (append : Bool) :
    Respects R (write ino offset data append) :=
  .bind (.ask fun h => h.liveInode ino) fun i => respects_changing (respects_inode_write offset data append) i

theorem respects_setMode (ino mode : UInt32) : Respects R (setMode ino mode) := by
  refine .bind (.ask fun h => h.liveInode ino) fun i => ?_
  split
  · exact .bind (respects_writeInode _) fun _ => .pure _
  · exact .bind (respects_writeInode _) fun _ => .pure _
  · exact .throw _

theorem respects_perform (c : Call) : Respects R c.perform := by
  cases c with
  | metadata ino => exact .bind (.ask fun h => h.metadata ino) fun _ => .pure _
  | lookup dir name => exact .bind (.ask fun h => h.lookupName dir name) fun _ => .pure _
  | readDir dir parent cursor => exact .bind (.ask fun h => h.readDir dir parent cursor) fun _ => .pure _
  | create dir name mode => exact .bind (respects_addNew dir name _) fun _ => .pure _
  | link ino dir name => exact .bind (respects_link ino dir name) fun _ => .pure _
  | symlink dir name target => exact .bind (.bind (.ask fun _ => rfl) fun _ => respects_addNew dir name _) fun _ => .pure _
  | symlinkConditional dir name root other =>
    exact .bind (.bind (.ask fun _ => rfl) fun _ => respects_addNew dir name _) fun _ => .pure _
  | unlink dir name => exact .bind (respects_unlink dir name) fun _ => .pure _
  | setSize ino size => exact .bind (respects_setSize ino size) fun _ => .pure _
  | setMode ino mode => exact .bind (respects_setMode ino mode) fun _ => .pure _
  | read ino offset length => exact .bind (.ask fun h => h.read ino offset length) fun _ => .pure _
  | write ino offset data append => exact .bind (respects_write ino offset data append) fun _ => .pure _
  | readLink ino privileged => exact .bind (.ask fun h => h.readLink ino privileged) fun _ => .pure _
  | stats => exact .bind (.ask fun h => h.stats) fun _ => .pure _

end FileSystem

end ImageFS
