import ImageFS.Proofs.FileSystem.Files
import ImageFS.Proofs.FileSystem.Names

/-!
# Taking a name away

`unlink` empties the record of a name and lowers the link count of the inode that it named. A file that
had no other name gives all its blocks back, and its number is free again.
-/

set_option autoImplicit false

namespace ImageFS.FileSystem

open Volume Holding

variable {v w u : Volume} {T T' : UInt32 → Inode} {ino j dir : UInt32} {c c' d : Chain} {mode mode' : UInt32}
  {i : Inode} {name : Name} {slot : Nat} {e : Error}

/-- `w` is `v` with the record of a name of the file `ino` emptied, and the file written as `i`. -/
structure Removed (v : Volume) (T : UInt32 → Inode) (name : Name) (ino : UInt32) (i : Inode) (w : Volume) : Prop where
  consistent : Consistent w (Function.update T ino i)
  superblock : w.superblock = v.superblock
  names : nameMap w = Function.update (nameMap v) name none
  entries : rootEntries w = Entry.clearName name (rootEntries v)
  others : ∀ j d, j ≠ rootInode → j ≠ ino → chains v T j = some d → d.Untouched v w

/-- The map is as before, and so are all blocks but those with the record of the file and with the names. -/
structure Trimmed (v : Volume) (T : UInt32 → Inode) (ino : UInt32) (w : Volume) : Prop where
  map : w.freeMap = v.freeMap
  cell : ∀ b, b ≠ v.inodeBlock ino →
    (∀ k < (rootChain T).blockCount, (rootChain T).pointer v.cell (.data k) ≠ b) → w.cell b = v.cell b

def Reclaimed (v : Volume) (T : UInt32 → Inode) (ino : UInt32) (w : Volume) : Prop :=
  ∀ b, w.Busy b ↔ v.Busy b ∧ ¬ ∃ c, chains v T ino = some c ∧ c.Owns v b

theorem blockCount_of_size_zero (h : c.size.toNat = 0) : c.blockCount = 0 := by
  rw [Chain.blockCount, h]
  rfl

namespace Consistent

variable (h : Consistent v T)

include h

theorem findIdx_named (hslot : slot < (rootChain T).slotCount) (hold : (rootChain T).entry v.cell slot = ⟨ino, name⟩)
    (hne : ino ≠ 0) : ((rootEntries v).findIdx fun e => !e.isEmpty && e.name = name) = slot := by
  have hlength := h.length_rootEntries
  have hget : ∀ s (hs : s < (rootEntries v).length), (rootEntries v)[s] = (rootChain T).entry v.cell s := by
    intro s hs
    simp only [h.rootEntries_eq, List.getElem_map, List.getElem_range]
  rw [List.findIdx_eq (hlength ▸ hslot), hget, hold]
  refine ⟨by simp [Entry.isEmpty, hne], fun s hs => ?_⟩
  rw [hget s (hlength ▸ Nat.lt_trans hs hslot), Bool.eq_false_iff]
  intro hfound
  have htest := Entry.found_iff.mp hfound
  refine Nat.ne_of_lt hs (h.names.distinct s (Nat.lt_trans hs hslot) slot hslot htest.1 ?_ ?_)
  · rw [hold]
    exact hne
  · rw [hold, htest.2]

theorem named_clear (hslot : slot < (rootChain T).slotCount) (hold : (rootChain T).entry v.cell slot = ⟨ino, name⟩)
    (hlow : 2 ≤ ino.toNat) (hnlink : i.nlink = (T ino).nlink - 1)
    (hentry : ∀ s < (rootChain T).slotCount, (rootChain T).entry w.cell s =
      if s = slot then ⟨0, name⟩ else (rootChain T).entry v.cell s) :
    Named v.superblock.inodeCount.toNat (rootChain T).slotCount ((rootChain T).entry w.cell)
      fun j => (Function.update T ino i j).nlink := by
  have hremove : Named v.superblock.inodeCount.toNat (rootChain T).slotCount
      (fun s => if s = slot then ⟨0, name⟩ else (rootChain T).entry v.cell s)
      fun j => (Function.update T ino i j).nlink := by
    refine h.names.remove hslot (by rw [hold]; exact ne_zero hlow) (congrArg Entry.ino (if_pos rfl))
      (fun s hs => if_neg hs) fun j => ?_
    rw [hold]
    by_cases hj : j = ino
    · rw [if_pos hj, hj, Function.update_self, hnlink]
    · rw [if_neg hj, Function.update_of_ne hj]
  exact hremove.congr hentry fun _ _ => rfl

theorem cleared (hslot : slot < (rootChain T).slotCount) (hold : (rootChain T).entry v.cell slot = ⟨ino, name⟩)
    (hlow : 2 ≤ ino.toNat) (hnlink : i.nlink = (T ino).nlink - 1) (hkind : i.kind ≠ .directory)
    (superblock : w.superblock = v.superblock)
    (ledger : Ledger w (Function.update T ino i) (chains w (Function.update T ino i)))
    (others : ∀ j d, j ≠ rootInode → j ≠ ino → chains v T j = some d → d.Untouched v w)
    (hentry : ∀ s < (rootChain T).slotCount, (rootChain T).entry w.cell s =
      if s = slot then ⟨0, name⟩ else (rootChain T).entry v.cell s) : Removed v T name ino i w := by
  have hne := ne_root hlow
  have names := h.named_clear hslot hold hlow hnlink hentry
  have hnext := h.put_named hlow hkind superblock ledger names
  refine ⟨hnext, superblock, ?_, ?_, others⟩
  · exact h.nameMap_clear hnext (rootChain_update hne _ _) hslot hold (ne_zero hlow) hentry
  · rw [h.rootEntries_set hnext (rootChain_update hne _ _) hentry, Entry.clearName,
      h.findIdx_named hslot hold (ne_zero hlow)]

theorem nameStep (hlow : 2 ≤ ino.toNat) (r : Removed v T name ino i w) : NameStep v name none ino w where
  consistent := ⟨_, r.consistent⟩
  names := r.names
  others j hj hji :=
    h.sameInode r.consistent r.superblock (Function.update_of_ne hji _ _) fun d hd => r.others j d hj hji hd
  rootMode := h.rootMode_update r.consistent (ne_root hlow)

theorem clear_kept (hslot : slot < (rootChain T).slotCount) (hold : (rootChain T).entry v.cell slot = ⟨ino, name⟩)
    (hlow : 2 ≤ ino.toNat) (hino : InUse v T ino) (hkept : (T ino).nlink - 1 = 0 → (T ino).chain? = none)
    (stored : (rootChain T).Stored v u)
    (hentry : ∀ s < (rootChain T).slotCount, (rootChain T).entry u.cell s =
      if s = slot then ⟨0, name⟩ else (rootChain T).entry v.cell s)
    (hw : w = u.putInode { T ino with nlink := (T ino).nlink - 1 }) :
    Removed v T name ino { T ino with nlink := (T ino).nlink - 1 } w ∧ Trimmed v T ino w := by
  have hid := h.ledger.id_eq hino.1
  have hin : (T ino).id.toNat < v.superblock.inodeCount.toNat := by
    rw [hid]
    exact hino.1
  obtain ⟨ledger, hsuper, hothers, hroot⟩ :=
    h.stored_put stored (i := { T ino with nlink := (T ino).nlink - 1 }) hin (h.ledger.fits hino.1) hw
  have hchains := chains_update (T := T) (i := { T ino with nlink := (T ino).nlink - 1 }) hsuper hino.1
  have hsame : (if (T ino).nlink - 1 = 0 then none else (T ino).chain?) = chains v T ino := by
    rw [chains_of_inUse hino]
    split_ifs with hlast
    · exact (hkept hlast).symm
    · rfl
  have hbody : ({ T ino with nlink := (T ino).nlink - 1 } : Inode).chain? = (T ino).chain? := rfl
  rw [hbody, hsame, Function.update_eq_self] at hchains
  rw [hid, ← hchains] at ledger
  refine ⟨h.cleared (i := { T ino with nlink := (T ino).nlink - 1 }) hslot hold hlow rfl (h.files ino hlow hino) hsuper
    ledger (fun j d hj _ hd => hothers j d hj hd) fun s hs => by rw [hroot s hs, hentry s hs], ?_, fun b hb hnames => ?_⟩
  · rw [hw, freeMap_putInode, stored.map]
  · have hmoved := h.ledger.moves h.chains_root (stored.moves h.held_root)
    have hcount : (T ino).id.toNat < u.superblock.inodeCount.toNat := by
      rw [stored.evolves.superblock]
      exact hin
    have hhome : u.inodeBlock (T ino).id = v.inodeBlock ino := by
      rw [hid, inodeBlock, inodeBlock, stored.evolves.superblock]
    have hput := cell_putInode hmoved.laidOut.toArranged hmoved.sound (i := { T ino with nlink := (T ino).nlink - 1 }) hcount b
    rw [hw, hput, if_neg (hhome ▸ hb), stored.cell b hnames]

theorem clear_last (hslot : slot < (rootChain T).slotCount) (hold : (rootChain T).entry v.cell slot = ⟨ino, name⟩)
    (hlow : 2 ≤ ino.toNat) (hino : InUse v T ino) (hlast : (T ino).nlink - 1 = 0)
    (hbody : (T ino).body = .regular mode c) (stored : (rootChain T).Stored v u)
    (hentry : ∀ s < (rootChain T).slotCount, (rootChain T).entry u.cell s =
      if s = slot then ⟨0, name⟩ else (rootChain T).entry v.cell s)
    (hw : w = u.putInode { T ino with nlink := (T ino).nlink - 1 }) :
    ∃ c' x y, Chain.resize 0 (c, w) = .ok () (c', x) ∧ writeInode ⟨ino, 0, .regular mode c'⟩ x = .ok () y ∧
      Removed v T name ino ⟨ino, 0, .regular mode c'⟩ y ∧ Reclaimed v T ino y := by
  have hid := h.ledger.id_eq hino.1
  have hin : (T ino).id.toNat < v.superblock.inodeCount.toNat := by
    rw [hid]
    exact hino.1
  have hchain := chains_regular hino hbody
  obtain ⟨ledger, hsuper, hothers, hroot⟩ :=
    h.stored_put stored (i := { T ino with nlink := (T ino).nlink - 1 }) hin (h.ledger.fits hino.1) hw
  have hzero : 0 ≤ 65802 * blockSize := Nat.zero_le _
  obtain ⟨c', x, hrun, resized⟩ := Chain.resize_ok (ledger.accounts.held _ _ hchain) ledger.sound hzero
    (by exact Nat.zero_le _)
  -- A chain that was cut to nothing owns no block, so the accounts do without it.
  have hempty := blockCount_of_size_zero resized.length
  have hmoved := ledger.moves hchain resized.moves
  have hx : x.superblock = v.superblock := resized.moves.evolves.superblock.trans hsuper
  have hcount : ino.toNat < x.superblock.inodeCount.toNat := by
    rw [hx]
    exact hino.1
  have hput := (hmoved.putInode (i := ⟨ino, 0, .regular mode c'⟩) hcount trivial).drop ino fun c₁ hc₁ => by
    rw [Function.update_self, Option.some.injEq] at hc₁
    rw [← hc₁]
    exact hempty
  have hfinal : (x.putInode ⟨ino, 0, .regular mode c'⟩).superblock = v.superblock := hx
  have hchains := chains_update (T := T) (i := ⟨ino, 0, .regular mode c'⟩) hfinal hino.1
  have hzero : (⟨ino, 0, .regular mode c'⟩ : Inode).nlink = 0 := rfl
  rw [if_pos hzero] at hchains
  rw [hid] at hput
  rw [Function.update_idem, Function.update_idem, ← hchains] at hput
  have hafter : ∀ j d, j ≠ ino → chains v T j = some d → d.Held w ∧
      d.Untouched w (x.putInode ⟨ino, 0, .regular mode c'⟩) := by
    intro j d hj hd
    have hsame := (ledger.accounts.untouched hchain resized.moves hd hj).1
    have hheld : d.Held x := hmoved.accounts.held j d (by rw [Function.update_of_ne hj, hd])
    exact ⟨ledger.accounts.held j d hd, hsame.trans (hmoved.untouched_putInode hcount hheld)⟩
  refine ⟨c', x, _, hrun, hmoved.writeInode_eq hcount, ?_, fun b => ?_⟩
  · refine h.cleared (i := ⟨ino, 0, .regular mode c'⟩) hslot hold hlow hlast.symm Kind.noConfusion hfinal hput
      (fun j d hj hji hd => (hothers j d hj hd).trans (hafter j d hji hd).2) fun s hs => ?_
    obtain ⟨hheld, hsame⟩ := hafter _ _ (ne_root hlow).symm h.chains_root
    rw [hsame.entry hheld hs, hroot s hs, hentry s hs]
  · have hmap : w.freeMap = v.freeMap := by rw [hw, freeMap_putInode, stored.map]
    have hown : (∃ c, chains v T ino = some c ∧ c.Owns v b) ↔ c.Owns w b := by
      rw [(hothers ino c (ne_root hlow) hchain).owns_iff, hchain]
      simp
    have hothers := resized.moves.others b
    rw [and_iff_left (Accounts.not_owns_of_empty resized.moves.held hempty b)] at hothers
    rw [hown, Busy, freeMap_putInode, ← Busy, hothers, Busy, hmap, ← Busy]

theorem contents_trimmed (hino : InUse v T ino) (hlow : 2 ≤ ino.toNat) (t : Trimmed v T ino w)
    (hlive : liveInode w ino = .ok i) (hchain : i.chain? = (T ino).chain?) : contents w ino = contents v ino := by
  rw [contents_of_live (h.ledger.liveInode_ok hino), ← hchain]
  refine contents_untouched hlive fun d hd => ?_
  have hd : chains v T ino = some d := by rw [chains_of_inUse hino, ← hchain, hd]
  have held := h.ledger.accounts.held ino d hd
  refine ⟨held, fun b hb => t.cell b ?_ fun k hk he => ?_⟩
  · rintro rfl
    exact h.ledger.laidOut.not_isData hino.1 (held.owns_data hb).1
  · have hroot : (rootChain T).Owns v b := ⟨he ▸ h.held_root.data_ne_null hk, _, he⟩
    exact ne_root hlow (h.ledger.accounts.apart ino rootInode d _ b hd h.chains_root hb hroot)

end Consistent

section

variable {parent : Directory}

theorem directory_unlink_ok (hshort : ¬ maxNameLength < name.length)
    (hfind : parent.find v name = .ok (some (slot, ⟨ino, name⟩))) (hread : v.readInode ino = .ok i)
    (hkind : i.kind ≠ .directory) (hlink : i.nlink ≠ 0) (hclear : parent.clearEntry slot v = .ok () u)
    (hput : writeInode { i with nlink := i.nlink - 1 } u = .ok () w) :
    parent.unlink name v = .ok { i with nlink := i.nlink - 1 } w := by
  rw [Directory.unlink, if_neg hshort]
  refine (bind_of_ok (ask_of_ok hfind)).trans ((bind_of_ok (ask_of_ok hread)).trans ?_)
  dsimp only
  rw [if_neg hkind, if_neg hlink]
  exact (bind_of_ok hclear).trans (bind_of_ok hput)

theorem unlink_kept (hdir : liveDirectory v dir = .ok parent) (hrun : parent.unlink name v = .ok i w)
    (hkept : ¬ (i.nlink = 0 ∧ i.kind = .regular)) : unlink dir name v = .ok () w := by
  rw [unlink, bind_of_ok (ask_of_ok hdir), bind_of_ok hrun]
  exact congrFun (if_neg hkept) w

theorem unlink_last (hdir : liveDirectory v dir = .ok parent) (hrun : parent.unlink name v = .ok i w)
    (hlast : i.nlink = 0 ∧ i.kind = .regular) {i' : Inode} {x y : Volume}
    (hresize : Inode.resize 0 (i, w) = .ok () (i', x)) (hput : writeInode i' x = .ok () y) :
    unlink dir name v = .ok () y := by
  rw [unlink, bind_of_ok (ask_of_ok hdir), bind_of_ok hrun]
  apply (congrFun (if_pos hlast) w).trans
  simp only [hresize]
  exact hput

end

namespace Consistent

variable (h : Consistent v T)

include h

theorem unlink_tooLong (hlong : maxNameLength < name.length) :
    unlink rootInode name v = .error .nameTooLong v := by
  obtain ⟨mode, hroot⟩ := h.root_eq
  rw [unlink, bind_of_ok (ask_of_ok (h.liveDirectory_of_root hroot)), Directory.unlink, if_pos hlong]
  rfl

theorem unlink_notFound (hshort : ¬ maxNameLength < name.length) (hfresh : nameMap v name = none) :
    unlink rootInode name v = .error .notFound v := by
  obtain ⟨mode, hroot⟩ := h.root_eq
  rw [unlink, bind_of_ok (ask_of_ok (h.liveDirectory_of_root hroot)), bind_of_error]
  have hfind := ask_of_ok (f := fun v => Directory.find ⟨rootInode, 1, mode, rootChain T⟩ v name)
    (h.find_of_fresh hfresh)
  rw [Directory.unlink, if_neg hshort]
  exact bind_of_ok hfind

theorem unlink_removed (hmap : nameMap v name = some ino) :
    ∃ i w, unlink rootInode name v = .ok () w ∧ Removed v T name ino i w ∧
      if (T ino).nlink - 1 = 0 ∧ (T ino).kind = .regular then i.nlink = 0 ∧ Reclaimed v T ino w
      else i = { T ino with nlink := (T ino).nlink - 1 } ∧ Trimmed v T ino w := by
  obtain ⟨mode, hroot⟩ := h.root_eq
  have hdir := h.liveDirectory_of_root hroot
  obtain ⟨hlow, hino⟩ := h.inUse_of_named hmap
  obtain ⟨slot, hslot, hfind, hold⟩ := h.find_of_named mode hmap
  obtain ⟨u, hclear, stored, hcleared⟩ := Directory.clearEntry_ok ⟨rootInode, 1, mode, rootChain T⟩
    h.held_root h.ledger.sound hslot
  have hentries : ∀ s < (rootChain T).slotCount, (rootChain T).entry u.cell s =
      if s = slot then ⟨0, name⟩ else (rootChain T).entry v.cell s := by
    intro s hs
    rw [hcleared s hs]
    simp only [hold]
  have hid := h.ledger.id_eq hino.1
  have hin : (T ino).id.toNat < v.superblock.inodeCount.toNat := by
    rw [hid]
    exact hino.1
  have hput := h.writeInode_stored (i := { T ino with nlink := (T ino).nlink - 1 }) stored hin
  obtain ⟨w, hw⟩ : ∃ w, w = u.putInode { T ino with nlink := (T ino).nlink - 1 } := ⟨_, rfl⟩
  rw [← hw] at hput
  have hrun := directory_unlink_ok (h.length_of_named hmap) hfind (h.ledger.readInode_eq hino.1)
    (h.files ino hlow hino) hino.2 hclear hput
  -- Blocks are given back with the last name of a regular file, and only then.
  by_cases hlast : (T ino).nlink - 1 = 0 ∧ (T ino).kind = .regular
  · obtain ⟨mode', c, hbody⟩ := exists_regular hlast.2
    obtain ⟨c', x, y, hresize, hwrite, removed, reclaimed⟩ :=
      h.clear_last hslot hold hlow hino hlast.1 hbody stored hentries hw
    refine ⟨_, y, unlink_last hdir hrun hlast ?_ hwrite, removed, ?_⟩
    · have hfile : ({ T ino with nlink := (T ino).nlink - 1 } : Inode) = ⟨ino, 0, .regular mode' c⟩ := by
        simp only [hlast.1, hbody, hid]
      rw [hfile, Consistent.inode_resize_eq]
      exact onPart_of_ok hresize
    · rw [if_pos hlast]
      exact ⟨rfl, reclaimed⟩
  · have hkept : (T ino).nlink - 1 = 0 → (T ino).chain? = none := fun hz => by
      obtain ⟨target, hbody⟩ := exists_symlink (fun hk => hlast ⟨hz, hk⟩) (h.files ino hlow hino)
      exact chain_of_symlink hbody
    obtain ⟨removed, trimmed⟩ := h.clear_kept hslot hold hlow hino hkept stored hentries hw
    refine ⟨_, w, unlink_kept hdir hrun hlast, removed, ?_⟩
    rw [if_neg hlast]
    exact ⟨rfl, trimmed⟩

theorem unlink_ok (hmap : nameMap v name = some ino) :
    ∃ w, unlink rootInode name v = .ok () w ∧ NameStep v name none ino w ∧
      rootEntries w = Entry.clearName name (rootEntries v) ∧
      (if (T ino).nlink - 1 = 0 then liveInode w ino = .error (.invalidInode ino.toNat)
        else liveInode w ino = .ok { T ino with nlink := (T ino).nlink - 1 } ∧ contents w ino = contents v ino) := by
  obtain ⟨hlow, hino⟩ := h.inUse_of_named hmap
  obtain ⟨i, w, hrun, r, hleft⟩ := h.unlink_removed hmap
  refine ⟨w, hrun, h.nameStep hlow r, r.entries, ?_⟩
  have hfree : i.nlink = 0 → liveInode w ino = .error (.invalidInode ino.toNat) := by
    intro hzero
    apply r.consistent.ledger.liveInode_error
    rw [InUse, Function.update_self]
    exact fun hin => hin.2 hzero
  split_ifs at hleft with hlast
  · rw [if_pos hlast.1]
    exact hfree hleft.1
  · obtain ⟨rfl, trimmed⟩ := hleft
    split_ifs with hzero
    · exact hfree hzero
    · have hlive : liveInode w ino = .ok { T ino with nlink := (T ino).nlink - 1 } := by
        refine r.consistent.ledger.liveInode_iff.mpr ⟨?_, Function.update_self _ _ _⟩
        rw [InUse, r.superblock, Function.update_self]
        exact ⟨hino.1, hzero⟩
      exact ⟨hlive, h.contents_trimmed hino hlow trimmed hlive rfl⟩

end Consistent

end ImageFS.FileSystem
