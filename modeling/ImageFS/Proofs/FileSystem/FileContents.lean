import ImageFS.Proofs.Reference.Refinement

/-!
# Files are byte strings

The contents of every file of a reachable file system are a byte string. Reading gives a part of it; writing
and resizing change it, fail only for want of room, and leave everything else alone.
-/

set_option autoImplicit false

namespace ImageFS.FileSystem

open Volume

/-- A file of `old` bytes cannot be given `new` bytes, because no file is so long. -/
def TooLarge (old new : Nat) : Prop := 2 ^ 64 ≤ new ∨ old < new ∧ 65802 * 1024 < new

/-- A file of `old` bytes cannot be given `new` bytes, because the volume lacks blocks. -/
def LacksSpace (v : Volume) (old new : Nat) : Prop :=
  old < new ∧ v.freeBlocks < Chain.cost (ceilDiv new 1024) - Chain.cost (ceilDiv old 1024)

structure ActsAs (v : Volume) (i : Inode) (bytes : ByteArray) : Prop where
  read : ∀ offset length, read v i.id offset length = .ok (bytes.extract offset (min (offset + length) bytes.size))
  write : ∀ (offset : Nat) (data : ByteArray) (append : Bool),
    let start := if append then bytes.size else offset
    let stop := start + data.size
    (TooLarge bytes.size stop → ∃ w, write i.id offset data append v = .error .fileTooLarge w ∧ Unchanged v w) ∧
    (¬ TooLarge bytes.size stop → LacksSpace v bytes.size stop →
      ∃ w, write i.id offset data append v = .error .noSpace w ∧ Unchanged v w) ∧
    (¬ TooLarge bytes.size stop → ¬ LacksSpace v bytes.size stop →
      ∃ w c, write i.id offset data append v = .ok data.size w ∧
        FileStep v i.id ⟨i.id, i.nlink, .regular i.mode c⟩ (overwrite (fitTo (max bytes.size stop) bytes) start data) w)
  setSize : ∀ size : Nat,
    (TooLarge bytes.size size → ∃ w, setSize i.id size v = .error .fileTooLarge w ∧ Unchanged v w) ∧
    (¬ TooLarge bytes.size size → LacksSpace v bytes.size size →
      ∃ w, setSize i.id size v = .error .noSpace w ∧ Unchanged v w) ∧
    (¬ TooLarge bytes.size size → ¬ LacksSpace v bytes.size size →
      ∃ w c, setSize i.id size v = .ok (Inode.metadata ⟨i.id, i.nlink, .regular i.mode c⟩) w ∧
        FileStep v i.id ⟨i.id, i.nlink, .regular i.mode c⟩ (fitTo size bytes) w)

variable {v w : Volume} {T : UInt32 → Inode} {ino n mode : UInt32} {c : Chain} {size : Nat}

theorem lengthError_tooLarge (h : TooLarge c.size.toNat size) : lengthError v c size = some .fileTooLarge := by
  have hlimit := c.size.toNat_lt
  have hB : blockSize = 1024 := rfl
  have hlong : ¬ size ≤ c.size.toNat := by
    rcases h with hwrap | ⟨hlt, -⟩
    · omega
    · omega
  have hlarge : 65802 * blockSize < size := by
    rcases h with hwrap | ⟨-, hlt⟩
    · omega
    · exact hlt
  rw [lengthError, if_neg hlong, if_pos hlarge]

theorem lengthError_noSpace (hsize : ¬ TooLarge c.size.toNat size) (h : LacksSpace v c.size.toNat size) :
    lengthError v c size = some .noSpace := by
  have hlarge : ¬ 65802 * blockSize < size := fun hlt => hsize (.inr ⟨h.1, hlt⟩)
  rw [lengthError, if_neg (Nat.not_le_of_lt h.1), if_neg hlarge]
  exact if_pos h.2

theorem lengthError_none (hsize : ¬ TooLarge c.size.toNat size) (h : ¬ LacksSpace v c.size.toNat size) :
    lengthError v c size = none := by
  unfold lengthError
  split_ifs with hshort hlarge hspace
  · rfl
  · exact absurd (.inr ⟨Nat.lt_of_not_le hshort, hlarge⟩) hsize
  · exact absurd ⟨Nat.lt_of_not_le hshort, hspace⟩ h
  · rfl

theorem Consistent.actsAs (h : Consistent v T) (hino : InUse v T ino) (hfile : T ino = ⟨ino, n, .regular mode c⟩) :
    ActsAs v ⟨ino, n, .regular mode c⟩ (c.contents v.cell) := by
  refine ⟨fun offset length => ?_, fun offset data append => ?_, fun size => ?_⟩
  · rw [Chain.size_contents]
    exact h.read_file hino hfile offset length
  · have hstart : (if append then (c.contents v.cell).size else offset) = c.startOf offset append := by
      rw [Chain.size_contents, Chain.startOf]
    rw [hstart, Chain.size_contents]
    refine ⟨fun hlarge => ?_, fun hlarge hspace => ?_, fun hlarge hspace => ?_⟩
    · obtain ⟨w, hrun, hsame⟩ := h.write_error hino hfile (lengthError_tooLarge hlarge)
      exact ⟨w, hrun, hsame.unchanged⟩
    · obtain ⟨w, hrun, hsame⟩ := h.write_error hino hfile (lengthError_noSpace hlarge hspace)
      exact ⟨w, hrun, hsame.unchanged⟩
    · exact h.write_ok hino hfile (lengthError_none hlarge hspace)
  · rw [Chain.size_contents]
    refine ⟨fun hlarge => ?_, fun hlarge hspace => ?_, fun hlarge hspace => ?_⟩
    · obtain ⟨w, hrun, hsame⟩ := h.setSize_error hino hfile (lengthError_tooLarge hlarge)
      exact ⟨w, hrun, hsame.unchanged⟩
    · obtain ⟨w, hrun, hsame⟩ := h.setSize_error hino hfile (lengthError_noSpace hlarge hspace)
      exact ⟨w, hrun, hsame.unchanged⟩
    · exact h.setSize_ok hino hfile (lengthError_none hlarge hspace)

/-- Every regular file acts as its contents, and nothing else can be written or resized. -/
theorem files_act_as_contents (h : Reachable v) (ino : UInt32) :
    (∀ i, liveInode v ino = .ok i → i.kind = .regular →
      i.id = ino ∧ ∃ bytes, contents v ino = some bytes ∧ bytes.size = i.size.toNat ∧ ActsAs v i bytes) ∧
    (∀ i, liveInode v ino = .ok i → i.kind ≠ .regular →
      (∀ offset data append, ∃ e, write ino offset data append v = .error e v) ∧
      ∀ size, ∃ e, setSize ino size v = .error e v) ∧
    (∀ e, liveInode v ino = .error e →
      (∀ offset data append, write ino offset data append v = .error e v) ∧
      ∀ size, setSize ino size v = .error e v) := by
  obtain ⟨T, hT⟩ := h.consistent
  refine ⟨fun i hlive hkind => ?_, fun i hlive hkind => ⟨fun offset data append => ?_, fun size => ?_⟩,
    fun e hlive => ⟨fun offset data append => ?_, fun size => ?_⟩⟩
  · obtain ⟨hino, rfl⟩ := hT.ledger.liveInode_iff.mp hlive
    obtain ⟨mode, c, hbody⟩ := exists_regular hkind
    have hfile := hT.file_eq hino hbody
    refine ⟨hT.ledger.id_eq hino.1, c.contents v.cell, hT.contents_file hino hfile, ?_, ?_⟩
    · rw [Chain.size_contents, hfile]
      rfl
    · have hacts := hT.actsAs hino hfile
      rw [← hfile] at hacts
      exact hacts
  · exact write_refused hlive hkind offset data append
  · exact setSize_refused hlive hkind size
  · exact bind_of_error (ask_of_error hlive)
  · exact bind_of_error (ask_of_error hlive)

theorem files_act_as_contents_file : ∃ v w, Reachable v ∧ contents v 2 = some ⟨#[1, 2, 3]⟩ ∧
    read v 2 1 5 = .ok ⟨#[2, 3]⟩ ∧ write 2 2 ⟨#[4, 5]⟩ false v = .ok 2 w ∧ contents w 2 = some ⟨#[1, 2, 4, 5]⟩ := by
  obtain ⟨v, c, hv, hlive, hcontents, -⟩ := exists_bytes
  obtain ⟨-, bytes, hbytes, -, hacts⟩ := (files_act_as_contents hv 2).1 _ hlive rfl
  obtain rfl : ⟨#[1, 2, 3]⟩ = bytes := Option.some.inj (hcontents.symm.trans hbytes)
  have hlarge : ¬ TooLarge 3 4 := by
    unfold TooLarge
    decide
  -- four bytes take the one block that three do
  have hspace : ¬ LacksSpace v 3 4 := fun h => Nat.not_lt_zero _ h.2
  obtain ⟨w, c', hrun, hstep⟩ := (hacts.write 2 ⟨#[4, 5]⟩ false).2.2 hlarge hspace
  exact ⟨v, w, hv, hcontents, hacts.read 1 5, hrun, hstep.bytes⟩

end ImageFS.FileSystem
