import ImageFS.Proofs.FileSystem.Names
import ImageFS.Proofs.Record.Destination

/-!
# New files and new links

Which number a new file gets, and what becomes of a request for a new name. The reasons to refuse it are
asked one after another, and the root grows only when all other things are in order.
-/

set_option autoImplicit false

namespace ImageFS.FileSystem

open Volume Holding

/-- The number for the next new file: the lowest one without a name. -/
structure IsNext (v : Volume) (ino : UInt32) : Prop where
  low : 2 ≤ ino.toNat
  count : ino.toNat < v.superblock.inodeCount.toNat
  nameless : ∀ name, nameMap v name ≠ some ino
  lowest : ∀ j : UInt32, 2 ≤ j.toNat → j.toNat < ino.toNat → ∃ name, nameMap v name = some j

def IsNew (body : Body) : Prop :=
  (∃ mode, body = .regular mode .empty) ∨ ∃ target, body = .symlink target ∧ Symlink.validate target = .ok ()

variable {v w u : Volume} {T T' : UInt32 → Inode} {ino j dir : UInt32} {mode mode' : UInt32}
  {i : Inode} {name : Name} {e : Error} {body : Body}

theorem validate_ok {target : List UInt8} (h : Symlink.validate target = .ok ()) :
    target.length ≤ maxTargetLength ∧ ∀ x ∈ target, x ≠ 0 := by
  obtain ⟨-, hzero, hlong⟩ := Symlink.validate_eq_ok.mp h
  exact ⟨hlong, fun x hx hx0 => hzero (hx0 ▸ hx)⟩

theorem validate_of_conditional {root other target : List UInt8} (h : Symlink.conditional root other = .ok target) :
    Symlink.validate target = .ok () := (Symlink.conditional_eq_ok.mp h).2.1

namespace Consistent

variable (h : Consistent v T)

include h

theorem vacant_iff {n : Nat} : v.Vacant n ↔
    2 ≤ n ∧ n < v.superblock.inodeCount.toNat ∧ ∀ name, nameMap v name ≠ some (.ofNat n) := by
  refine and_congr_right fun hlow => and_congr_right fun hcount => ?_
  have hnat : (UInt32.ofNat n).toNat = n :=
    UInt32.toNat_ofNat_of_lt' (Nat.lt_trans hcount v.superblock.inodeCount.toNat_lt)
  rw [h.ledger.nlinkOf_eq (by rw [hnat]; exact hcount)]
  constructor
  · intro hfree name hmap
    exact (h.inUse_of_named hmap).2.2 hfree
  · intro hno
    by_contra hlink
    have hin : InUse v T (.ofNat n) := ⟨by rw [hnat]; exact hcount, hlink⟩
    obtain ⟨name, hmap⟩ := h.named_of_inUse (by rw [hnat]; exact hlow) hin
    exact hno name hmap

theorem next_of_allocate (hrun : v.allocateInode = .ok ino) : IsNext v ino := by
  obtain ⟨hvacant, hlowest⟩ := (h.ledger.laidOut.tabled h.ledger.sound).allocateInode_ok hrun
  obtain ⟨hlow, hcount, hno⟩ := h.vacant_iff.mp hvacant
  rw [UInt32.ofNat_toNat] at hno
  refine ⟨hlow, hcount, hno, fun j hj hji => ?_⟩
  have htaken := mt h.vacant_iff.mpr (hlowest j.toNat hji)
  push Not at htaken
  obtain ⟨name, hmap⟩ := htaken hj (Nat.lt_trans hji hcount)
  rw [UInt32.ofNat_toNat] at hmap
  exact ⟨name, hmap⟩

theorem allocateInode_next (hnext : IsNext v ino) : v.allocateInode = .ok ino := by
  have hvacant : v.Vacant ino.toNat := by
    refine h.vacant_iff.mpr ⟨hnext.low, hnext.count, ?_⟩
    rw [UInt32.ofNat_toNat]
    exact hnext.nameless
  obtain ⟨j, hrun⟩ := (h.ledger.laidOut.tabled h.ledger.sound).allocateInode_of_vacant hvacant
  have hj := h.next_of_allocate hrun
  rcases Nat.lt_trichotomy ino.toNat j.toNat with hlt | heq | hgt
  · obtain ⟨name, hmap⟩ := hj.lowest ino hnext.low hlt
    exact absurd hmap (hnext.nameless name)
  · rw [hrun, UInt32.toNat_inj.mp heq]
  · obtain ⟨name, hmap⟩ := hnext.lowest j hj.low hgt
    exact absurd hmap (hj.nameless name)

theorem allocateInode_none (hall : ∀ j : UInt32, 2 ≤ j.toNat → j.toNat < v.superblock.inodeCount.toNat →
    ∃ name, nameMap v name = some j) : v.allocateInode = .error .noInodes := by
  apply (h.ledger.laidOut.tabled h.ledger.sound).allocateInode_of_full
  intro n hvacant
  obtain ⟨hlow, hcount, hno⟩ := h.vacant_iff.mp hvacant
  have hnat : (UInt32.ofNat n).toNat = n :=
    UInt32.toNat_ofNat_of_lt' (Nat.lt_trans hcount v.superblock.inodeCount.toNat_lt)
  obtain ⟨name, hmap⟩ := hall (.ofNat n) (by rw [hnat]; exact hlow) (by rw [hnat]; exact hcount)
  exact hno name hmap

theorem exists_next (hsome : ∃ j : UInt32, 2 ≤ j.toNat ∧ j.toNat < v.superblock.inodeCount.toNat ∧
    ∀ name, nameMap v name ≠ some j) : ∃ ino, IsNext v ino := by
  obtain ⟨j, hlow, hcount, hno⟩ := hsome
  obtain ⟨ino, hrun⟩ := (h.ledger.laidOut.tabled h.ledger.sound).allocateInode_of_vacant
    (h.vacant_iff.mpr ⟨hlow, hcount, by rw [UInt32.ofNat_toNat]; exact hno⟩)
  exact ⟨ino, h.next_of_allocate hrun⟩

theorem linkable_new (hnext : IsNext v ino) (hbody : IsNew body) : Linkable v T ⟨ino, 0, body⟩ := by
  have hfree : ¬ InUse v T ino := fun hin => by
    obtain ⟨name, hmap⟩ := h.named_of_inUse hnext.low hin
    exact hnext.nameless name hmap
  have hlink : (T ino).nlink = 0 := by
    by_contra hne
    exact hfree ⟨hnext.count, hne⟩
  have hnone : chains v T ino = none := if_neg hfree
  rcases hbody with ⟨mode, rfl⟩ | ⟨target, rfl, hvalid⟩
  · exact ⟨hnext.low, hnext.count, hlink.symm, Kind.noConfusion, trivial, .inr ⟨hnone, rfl⟩⟩
  · exact ⟨hnext.low, hnext.count, hlink.symm, Kind.noConfusion, validate_ok hvalid, .inl hnone.symm⟩

theorem linkable_file (hlow : 2 ≤ ino.toNat) (hino : InUse v T ino) : Linkable v T (T ino) := by
  have hid := h.ledger.id_eq hino.1
  refine ⟨?_, ?_, ?_, h.files ino hlow hino, h.ledger.fits hino.1, .inl ?_⟩
  · rw [hid]
    exact hlow
  · rw [hid]
    exact hino.1
  · rw [hid]
  · rw [hid, chains_of_inUse hino]

section

variable (hcheck : Name.check name = .ok ())

include hcheck

theorem addNew_exists (hmap : nameMap v name = some ino) : addNew rootInode name body v = .error .alreadyExists v := by
  obtain ⟨mode, hroot⟩ := h.root_eq
  obtain ⟨s, -, hfind, -⟩ := h.find_of_named mode hmap
  rw [addNew, bind_of_ok (ask_of_ok hcheck), bind_of_ok (ask_of_ok (h.liveDirectory_of_root hroot))]
  exact (bind_of_ok (ask_of_ok hfind)).trans rfl

variable (hfresh : nameMap v name = none)

include hfresh

theorem addNew_noInodes (hall : ∀ j : UInt32, 2 ≤ j.toNat → j.toNat < v.superblock.inodeCount.toNat →
    ∃ name, nameMap v name = some j) : addNew rootInode name body v = .error .noInodes v := by
  obtain ⟨mode, hroot⟩ := h.root_eq
  rw [addNew, bind_of_ok (ask_of_ok hcheck), bind_of_ok (ask_of_ok (h.liveDirectory_of_root hroot))]
  apply (bind_of_ok (ask_of_ok (h.find_of_fresh hfresh))).trans
  exact bind_of_error (ask_of_error (h.allocateInode_none hall))

theorem addNew_eq (hroot : T rootInode = ⟨rootInode, 1, .directory mode (rootChain T)⟩) (hnext : IsNext v ino) :
    addNew rootInode name body v = (do
      let inode ← addName ⟨rootInode, 1, mode, rootChain T⟩ ⟨ino, 0, body⟩ name
      return inode.metadata : VolumeM Metadata) v := by
  rw [addNew, bind_of_ok (ask_of_ok hcheck), bind_of_ok (ask_of_ok (h.liveDirectory_of_root hroot))]
  apply (bind_of_ok (ask_of_ok (h.find_of_fresh hfresh))).trans
  exact bind_of_ok (ask_of_ok (h.allocateInode_next hnext))

theorem addNew_noRoom (hnext : IsNext v ino) (hbody : IsNew body) (hfull : slotError v = some e) :
    ∃ w, addNew rootInode name body v = .error e w ∧ Spared v T w := by
  obtain ⟨mode, hroot⟩ := h.root_eq
  obtain ⟨w, hrun, hsame⟩ := h.addName_noRoom (h.linkable_new hnext hbody) hcheck hfresh mode hfull
  refine ⟨w, ?_, hsame⟩
  rw [h.addNew_eq hcheck hfresh hroot hnext, bind_of_error hrun]

theorem addNew_ok (hnext : IsNext v ino) (hbody : IsNew body) (hfree : slotError v = none) :
    ∃ w, addNew rootInode name body v = .ok (Inode.metadata ⟨ino, 1, body⟩) w ∧ NameStep v name (some ino) ino w ∧
      liveInode w ino = .ok ⟨ino, 1, body⟩ ∧
      (contents w ino = (Inode.chain? ⟨ino, 1, body⟩).map fun _ => .empty) ∧
      rootEntries w = Entry.putFirst ⟨ino, name⟩ (rootEntries v) := by
  obtain ⟨mode, hroot⟩ := h.root_eq
  obtain ⟨w, hrun, hstep, hlive, hbytes, hentries⟩ :=
    h.addName_fresh hroot (h.linkable_new hnext hbody) hcheck hfresh hfree
  refine ⟨w, ?_, hstep, hlive, ?_, hentries⟩
  · rw [h.addNew_eq hcheck hfresh hroot hnext, bind_of_ok hrun]
    rfl
  · rw [hbytes]
    rcases hbody with ⟨mode, rfl⟩ | ⟨target, rfl, -⟩
    · rfl
    · rfl

end

section

variable (hino : InUse v T ino)

include hino

theorem link_eq_addName (hroot : T rootInode = ⟨rootInode, 1, .directory mode (rootChain T)⟩) :
    link ino rootInode name v = (do
      let target ← addName ⟨rootInode, 1, mode, rootChain T⟩ (T ino) name
      return target.metadata : VolumeM Metadata) v := by
  rw [link, bind_of_ok (ask_of_ok (h.ledger.liveInode_ok hino)),
    bind_of_ok (ask_of_ok (h.liveDirectory_of_root hroot))]

theorem link_invalid (hcheck : Name.check name = .error e) : link ino rootInode name v = .error e v := by
  obtain ⟨mode, hroot⟩ := h.root_eq
  rw [h.link_eq_addName hino hroot, bind_of_error (addName_invalid hcheck)]

variable (hcheck : Name.check name = .ok ())

include hcheck

omit hino in
theorem link_root : link rootInode rootInode name v = .error (.notPermitted rootInode) v := by
  obtain ⟨mode, hroot⟩ := h.root_eq
  rw [h.link_eq_addName h.root_inUse hroot, bind_of_error (addName_directory hcheck h.rootKind), hroot]

variable (hlow : 2 ≤ ino.toNat)

include hlow

theorem link_exists (hmap : nameMap v name = some j) : link ino rootInode name v = .error .alreadyExists v := by
  obtain ⟨mode, hroot⟩ := h.root_eq
  rw [h.link_eq_addName hino hroot, bind_of_error (h.addName_exists (h.linkable_file hlow hino) hcheck hmap)]

variable (hfresh : nameMap v name = none)

include hfresh

theorem link_noRoom (hfull : slotError v = some e) :
    ∃ w, link ino rootInode name v = .error e w ∧ Spared v T w := by
  obtain ⟨mode, hroot⟩ := h.root_eq
  obtain ⟨w, hrun, hsame⟩ := h.addName_noRoom (h.linkable_file hlow hino) hcheck hfresh mode hfull
  refine ⟨w, ?_, hsame⟩
  rw [h.link_eq_addName hino hroot, bind_of_error hrun]

theorem link_ok (hfree : slotError v = none) :
    ∃ w, link ino rootInode name v = .ok (Inode.metadata ⟨ino, (T ino).nlink + 1, (T ino).body⟩) w ∧
      NameStep v name (some ino) ino w ∧ liveInode w ino = .ok ⟨ino, (T ino).nlink + 1, (T ino).body⟩ ∧
      contents w ino = contents v ino ∧ rootEntries w = Entry.putFirst ⟨ino, name⟩ (rootEntries v) := by
  obtain ⟨mode, hroot⟩ := h.root_eq
  have hid := h.ledger.id_eq hino.1
  obtain ⟨w, hrun, hstep, hlive, hbytes, hentries⟩ :=
    h.addName_fresh hroot (h.linkable_file hlow hino) hcheck hfresh hfree
  rw [hid] at hstep hbytes hlive hentries
  refine ⟨w, ?_, hstep, hlive, ?_, hentries⟩
  · rw [h.link_eq_addName hino hroot, bind_of_ok hrun, hid]
    rfl
  · rw [hbytes, contents_of_live (h.ledger.liveInode_ok hino)]

end

omit h in
theorem lookup_tooLong (hlong : maxNameLength < name.length) : lookup v rootInode name = .error .nameTooLong := by
  rw [lookup, if_pos hlong]
  rfl

theorem lookup_named (hmap : nameMap v name = some ino) : lookup v rootInode name = metadata v ino := by
  obtain ⟨mode, hroot⟩ := h.root_eq
  obtain ⟨s, -, hfind, -⟩ := h.find_of_named mode hmap
  rw [lookup, if_neg (h.length_of_named hmap)]
  simp only [bind, Except.bind, h.liveDirectory_of_root hroot, hfind]

theorem lookup_notFound (hshort : ¬ maxNameLength < name.length) (hfresh : nameMap v name = none) :
    lookup v rootInode name = .error .notFound := by
  obtain ⟨mode, hroot⟩ := h.root_eq
  rw [lookup, if_neg hshort]
  simp only [bind, Except.bind, h.liveDirectory_of_root hroot, h.find_of_fresh hfresh]
  rfl

end Consistent

end ImageFS.FileSystem
