import ImageFS.Proofs.FileSystem.View

/-!
# Reading and changing files

What `read`, `write`, `setSize` and `setMode` do to a consistent file system. On a regular file the
outcome follows from its size and the number of free blocks alone. Everything else is refused.
-/

set_option autoImplicit false

namespace ImageFS.FileSystem

open Volume Holding

/-- Why a chain cannot be given a length, if it cannot. -/
def lengthError (v : Volume) (c : Chain) (size : Nat) : Option Error :=
  if size ≤ c.size.toNat then none
  else if 65802 * blockSize < size then some .fileTooLarge
  else if v.freeBlocks < Chain.cost (blocksForSize size) - Chain.cost c.blockCount then some .noSpace
  else none

variable {v w u : Volume} {T : UInt32 → Inode} {ino : UInt32} {c c' : Chain} {mode mode' : UInt32}
  {i i' : Inode} {e : Error} {n : UInt32} {α : Type} {a : α}

theorem changing_ok {act : Holding Inode α} (hrun : act (i, v) = .ok a (i', u)) (hput : writeInode i' u = .ok () w) :
    changing i act v = .ok a w := by
  unfold changing
  rw [hrun]
  exact bind_of_ok hput

theorem changing_error {act : Holding Inode α} (hrun : act (i, v) = .error e (i', u)) (hkind : e.isRefusal = false)
    (hput : writeInode i' u = .ok () w) : changing i act v = .error e w := by
  unfold changing
  rw [hrun]
  simp only [hkind]
  exact bind_of_ok hput

namespace Consistent

variable (h : Consistent v T)

include h

theorem file_eq (hino : InUse v T ino) (hbody : (T ino).body = .regular mode c) :
    T ino = ⟨ino, (T ino).nlink, .regular mode c⟩ := by
  have hid := h.ledger.id_eq hino.1
  generalize T ino = i at hid hbody
  cases i
  simp only at hid hbody
  rw [hid, hbody]

section

variable (hino : InUse v T ino) (hfile : T ino = ⟨ino, n, .regular mode c⟩)

include hino hfile

theorem contents_file : contents v ino = some (c.contents v.cell) :=
  contents_of_regular (h.ledger.liveInode_ok hino) (by rw [hfile])

theorem held_file : c.Held v := h.ledger.accounts.held _ _ (chains_regular hino (by rw [hfile]))

theorem live_file : liveInode v ino = .ok ⟨ino, n, .regular mode c⟩ := by
  rw [h.ledger.liveInode_ok hino, hfile]

theorem writeInode_moved (mode' : UInt32) (m : Chain.Moves c v c' u) :
    ∃ w, writeInode ⟨ino, n, .regular mode' c'⟩ u = .ok () w ∧
      FileStep v ino ⟨ino, n, .regular mode' c'⟩ (c'.contents u.cell) w := by
  have hbody : (T ino).body = .regular mode c := by rw [hfile]
  have hlink : (T ino).nlink = n := by rw [hfile]
  have hmoved := h.ledger.moves (chains_regular hino hbody) m
  have hstep := h.file_step mode' hino hbody m rfl
  rw [hlink] at hstep
  refine ⟨_, hmoved.writeInode_eq ?_, hstep⟩
  rw [m.evolves.superblock]
  exact hino.1

theorem writeInode_kept (k : Chain.Kept c v u) :
    ∃ w, writeInode ⟨ino, n, .regular mode c⟩ u = .ok () w ∧ Spared v T w := by
  have hbody : (T ino).body = .regular mode c := by rw [hfile]
  have hlink : (T ino).nlink = n := by rw [hfile]
  have hmoved := h.ledger.moves (chains_regular hino hbody) k.moves
  have hcount : ino.toNat < u.superblock.inodeCount.toNat := by
    rw [k.moves.evolves.superblock]
    exact hino.1
  have hstep := h.file_step mode hino hbody k.moves rfl
  obtain ⟨hnext, -⟩ := h.put_file hino hbody k.moves (rfl : _ = u.putInode ⟨ino, (T ino).nlink, .regular mode c⟩)
  rw [hlink] at hstep hnext
  rw [← hfile, Function.update_eq_self, hfile] at hnext
  rw [k.contents] at hstep
  refine ⟨_, hmoved.writeInode_eq hcount, hnext, ?_, k.bits, ?_, hstep.entries⟩
  · exact k.moves.evolves.trans (evolves_putInode hmoved.laidOut.toArranged hmoved.sound hcount)
  · exact hstep.sameInode (h.live_file hino hfile) (h.contents_file hino hfile)

theorem changing_kept {act : Holding Inode α} {part : Holding Chain α}
    (hact : act (⟨ino, n, .regular mode c⟩, v) =
      onPart c (fun chain => ⟨ino, n, .regular mode chain⟩) part (⟨ino, n, .regular mode c⟩, v))
    (hrun : part (c, v) = .error e (c, u)) (kept : Chain.Kept c v u) (hkind : e.isRefusal = false) :
    ∃ w, changing ⟨ino, n, .regular mode c⟩ act v = .error e w ∧ Spared v T w := by
  obtain ⟨w, hput, hsame⟩ := h.writeInode_kept hino hfile kept
  refine ⟨w, changing_error ?_ hkind hput, hsame⟩
  rw [hact]
  exact onPart_of_error hrun

theorem changing_moved {act : Holding Inode α} {part : Holding Chain α}
    (hact : act (⟨ino, n, .regular mode c⟩, v) =
      onPart c (fun chain => ⟨ino, n, .regular mode chain⟩) part (⟨ino, n, .regular mode c⟩, v))
    (hrun : part (c, v) = .ok a (c', u)) (moves : Chain.Moves c v c' u) :
    ∃ w, changing ⟨ino, n, .regular mode c⟩ act v = .ok a w ∧
      FileStep v ino ⟨ino, n, .regular mode c'⟩ (c'.contents u.cell) w := by
  obtain ⟨w, hput, hstep⟩ := h.writeInode_moved hino hfile mode moves
  refine ⟨w, changing_ok ?_ hput, hstep⟩
  rw [hact]
  exact onPart_of_ok hrun

theorem read_file (offset length : Nat) :
    read v ino offset length = .ok ((c.contents v.cell).extract offset (min (offset + length) c.size.toNat)) := by
  rw [read, h.live_file hino hfile]
  exact Chain.bytesAt_eq (h.held_file hino hfile) h.ledger.sound offset length

section

variable {offset : Nat} {data : ByteArray} {append : Bool}

theorem write_eq : write ino offset data append v =
    changing ⟨ino, n, .regular mode c⟩ (Inode.write offset data append) v := by
  rw [write, bind_of_ok (ask_of_ok (h.live_file hino hfile))]

omit h hino hfile in
theorem inode_write_eq : Inode.write offset data append (⟨ino, n, .regular mode c⟩, v) =
    onPart c (fun chain => ⟨ino, n, .regular mode chain⟩) (Chain.write offset data append)
      (⟨ino, n, .regular mode c⟩, v) := rfl

theorem write_error (hlength : lengthError v c (c.startOf offset append + data.size) = some e) :
    ∃ w, write ino offset data append v = .error e w ∧ Spared v T w := by
  have held := h.held_file hino hfile
  have hrun : ∃ u, Chain.write offset data append (c, v) = .error e (c, u) ∧ Chain.Kept c v u ∧ e.isRefusal = false := by
    unfold lengthError at hlength
    split_ifs at hlength with hshort hlarge hspace
    · cases hlength
      exact ⟨v, Chain.write_tooLarge (Nat.lt_of_not_le hshort) hlarge, held.kept_refl h.ledger.sound, rfl⟩
    · cases hlength
      obtain ⟨u, hrun, kept⟩ := Chain.write_noSpace held h.ledger.sound (Nat.lt_of_not_le hshort)
        (Nat.le_of_not_lt hlarge) (by omega)
      exact ⟨u, hrun, kept, rfl⟩
  obtain ⟨u, hrun, kept, hkind⟩ := hrun
  obtain ⟨w, hchange, hsame⟩ := h.changing_kept hino hfile inode_write_eq hrun kept hkind
  exact ⟨w, by rw [h.write_eq hino hfile, hchange], hsame⟩

theorem write_ok (hlength : lengthError v c (c.startOf offset append + data.size) = none) :
    ∃ w c', write ino offset data append v = .ok data.size w ∧ FileStep v ino ⟨ino, n, .regular mode c'⟩
      (overwrite (fitTo (max c.size.toNat (c.startOf offset append + data.size)) (c.contents v.cell))
        (c.startOf offset append) data) w := by
  have hfits : c.size.toNat < c.startOf offset append + data.size →
      c.startOf offset append + data.size ≤ 65802 * blockSize ∧
        Chain.cost (blocksForSize (c.startOf offset append + data.size)) ≤ Chain.cost c.blockCount + v.freeBlocks := by
    intro hlong
    unfold lengthError at hlength
    split_ifs at hlength with hshort hlarge hspace
    · exact absurd hshort (Nat.not_le_of_lt hlong)
    · exact ⟨Nat.le_of_not_lt hlarge, by omega⟩
  obtain ⟨c', u, hrun, moves, hcontents⟩ := Chain.write_ok (h.held_file hino hfile) h.ledger.sound hfits
  obtain ⟨w, hchange, hstep⟩ := h.changing_moved hino hfile inode_write_eq hrun moves
  rw [hcontents] at hstep
  exact ⟨w, c', by rw [h.write_eq hino hfile, hchange], hstep⟩

end

section

variable {size : Nat}

theorem setSize_eq : setSize ino size v = (do
    changing ⟨ino, n, .regular mode c⟩ (Inode.resize size)
    ask (metadata · ino) : VolumeM Metadata) v := by
  rw [setSize, bind_of_ok (ask_of_ok (h.live_file hino hfile))]

omit h hino hfile in
theorem inode_resize_eq : Inode.resize size (⟨ino, n, .regular mode c⟩, v) =
    onPart c (fun chain => ⟨ino, n, .regular mode chain⟩) (Chain.resize size) (⟨ino, n, .regular mode c⟩, v) := rfl

theorem setSize_error (hlength : lengthError v c size = some e) :
    ∃ w, setSize ino size v = .error e w ∧ Spared v T w := by
  have held := h.held_file hino hfile
  have hrun : ∃ u, Chain.resize size (c, v) = .error e (c, u) ∧ Chain.Kept c v u ∧ e.isRefusal = false := by
    unfold lengthError at hlength
    split_ifs at hlength with hshort hlarge hspace
    · cases hlength
      exact ⟨v, Chain.resize_tooLarge hlarge, held.kept_refl h.ledger.sound, rfl⟩
    · cases hlength
      obtain ⟨u, hrun, kept⟩ := Chain.resize_noSpace held h.ledger.sound (Nat.le_of_not_lt hlarge) (by omega)
      exact ⟨u, hrun, kept, rfl⟩
  obtain ⟨u, hrun, kept, hkind⟩ := hrun
  obtain ⟨w, hchange, hsame⟩ := h.changing_kept hino hfile inode_resize_eq hrun kept hkind
  exact ⟨w, by rw [h.setSize_eq hino hfile, bind_of_error hchange], hsame⟩

theorem setSize_ok (hlength : lengthError v c size = none) :
    ∃ w c', setSize ino size v = .ok (Inode.metadata ⟨ino, n, .regular mode c'⟩) w ∧
      FileStep v ino ⟨ino, n, .regular mode c'⟩ (fitTo size (c.contents v.cell)) w := by
  have held := h.held_file hino hfile
  have hroom : size ≤ 65802 * blockSize ∧
      Chain.cost (blocksForSize size) ≤ Chain.cost c.blockCount + v.freeBlocks := by
    unfold lengthError at hlength
    split_ifs at hlength with hshort hlarge hspace
    · have hcost := Chain.cost_mono (Chain.blocksForSize_le hshort)
      have hblocks := Nat.le_trans c.le_blockCount (Nat.mul_le_mul_right blockSize held.short)
      exact ⟨Nat.le_trans hshort hblocks, Nat.le_trans hcost (Nat.le_add_right _ _)⟩
    · exact ⟨Nat.le_of_not_lt hlarge, by omega⟩
  obtain ⟨c', u, hrun, resized⟩ := Chain.resize_ok held h.ledger.sound hroom.1 hroom.2
  obtain ⟨w, hchange, hstep⟩ := h.changing_moved hino hfile inode_resize_eq hrun resized.moves
  rw [resized.contents] at hstep
  have hask : ask (metadata · ino) w = .ok (Inode.metadata ⟨ino, n, .regular mode c'⟩) w := by
    apply ask_of_ok
    rw [metadata, hstep.live]
    rfl
  exact ⟨w, c', by rw [h.setSize_eq hino hfile, bind_of_ok hchange, hask], hstep⟩

end

theorem setMode_ok (new : UInt32) :
    ∃ w, setMode ino new v = .ok (Inode.metadata ⟨ino, n, .regular (Mode.permissions new) c⟩) w ∧
      FileStep v ino ⟨ino, n, .regular (Mode.permissions new) c⟩ (c.contents v.cell) w := by
  obtain ⟨w, hput, hstep⟩ := h.writeInode_moved hino hfile (Mode.permissions new)
    ((h.held_file hino hfile).moves_refl h.ledger.sound)
  refine ⟨w, ?_, hstep⟩
  rw [setMode, bind_of_ok (ask_of_ok (h.live_file hino hfile))]
  exact bind_of_ok hput

end

end Consistent

theorem write_refused (hlive : liveInode v ino = .ok i) (hkind : i.kind ≠ .regular) (offset : Nat) (data : ByteArray)
    (append : Bool) : ∃ e, write ino offset data append v = .error e v := by
  rw [write, bind_of_ok (ask_of_ok hlive)]
  obtain ⟨id, nlink, body⟩ := i
  cases body with
  | regular mode c => exact absurd rfl hkind
  | directory mode c => exact ⟨.isDirectory id, rfl⟩
  | symlink target => exact ⟨.invalidArgument .writeSymlink, rfl⟩

theorem setSize_refused (hlive : liveInode v ino = .ok i) (hkind : i.kind ≠ .regular) (size : Nat) :
    ∃ e, setSize ino size v = .error e v := by
  rw [setSize, bind_of_ok (ask_of_ok hlive)]
  obtain ⟨id, nlink, body⟩ := i
  cases body with
  | regular mode c => exact absurd rfl hkind
  | directory mode c => exact ⟨.notPermitted id, rfl⟩
  | symlink target => exact ⟨.invalidArgument .resizeSymlink, rfl⟩

end ImageFS.FileSystem
