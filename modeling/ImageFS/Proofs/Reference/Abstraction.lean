import ImageFS.Proofs.Chain.Census
import ImageFS.Proofs.FileSystem.Reachable
import ImageFS.Proofs.Reference.State
import ImageFS.Proofs.Volume.Remount
import Mathlib.Algebra.BigOperators.Group.Finset.Piecewise

/-!
# What a volume stands for

Every consistent volume stands for a state of the reference. Finding things out gives the same answers on
both, and the reasons to refuse a request are the same.
-/

set_option autoImplicit false

namespace ImageFS.FileSystem

open Volume Reference

/-- The file that an inode is, if its chain spells out `bytes`. The root is no file. -/
def fileOf (i : Inode) (bytes : Option ByteArray) : Option File :=
  match i.body with
  | .regular mode _ => bytes.map (.regular i.nlink mode)
  | .directory _ _ => none
  | .symlink target => some (.symlink i.nlink target)

def file (v : Volume) (ino : UInt32) : Option File :=
  match liveInode v ino with
  | .ok i => fileOf i (contents v ino)
  | .error _ => none

/-- The state that a volume stands for. -/
def state (v : Volume) : State where
  superblock := v.superblock
  rootMode := ((liveDirectory v rootInode).map Directory.mode).toOption.getD 0
  slots := rootEntries v
  file := file v

inductive Stands (v : Volume) (T : UInt32 → Inode) (ino : UInt32) : Prop
  | free (hfree : ¬ InUse v T ino) (hlive : liveInode v ino = .error (.invalidInode ino.toNat))
      (hfile : (state v).file ino = none)
  | regular {n mode : UInt32} {c : Chain} (hino : InUse v T ino) (htable : T ino = ⟨ino, n, .regular mode c⟩)
      (hlive : liveInode v ino = .ok ⟨ino, n, .regular mode c⟩)
      (hfile : (state v).file ino = some (.regular n mode (c.contents v.cell)))
  | symlink {n : UInt32} {target : List UInt8} (hino : InUse v T ino) (htable : T ino = ⟨ino, n, .symlink target⟩)
      (hlive : liveInode v ino = .ok ⟨ino, n, .symlink target⟩)
      (hfile : (state v).file ino = some (.symlink n target))

variable {v w : Volume} {T T' : UInt32 → Inode} {ino j dir n : UInt32} {i : Inode} {f : File} {name : Name}
  {c : Chain} {named : Option UInt32}

theorem file_of_live (hlive : liveInode v ino = .ok i) : file v ino = fileOf i (contents v ino) := by
  rw [file, hlive]

theorem file_of_error {e : Error} (hlive : liveInode v ino = .error e) : file v ino = none := by rw [file, hlive]

theorem SameInode.file (s : SameInode v w j) : file w j = file v j := by
  rw [FileSystem.file, FileSystem.file, s.1, s.2]

theorem SameInode.liveDirectory (s : SameInode v w rootInode) :
    liveDirectory w rootInode = liveDirectory v rootInode := by
  rw [FileSystem.liveDirectory, FileSystem.liveDirectory, s.1]

theorem named_state (name : Name) : (state v).named name = nameMap v name := rfl

theorem Spared.state (s : Spared v T w) : state w = state v := by
  have hfile : file w = file v := funext fun j => (s.inodes j).file
  rw [FileSystem.state, FileSystem.state, s.evolves.superblock, s.entries, hfile, (s.inodes rootInode).liveDirectory]

theorem FileStep.state {bytes : ByteArray} (s : FileStep v ino i bytes w) (hne : ino ≠ rootInode)
    (superblock : w.superblock = v.superblock) : state w = (state v).setFile ino (file w ino) := by
  have hfile : file w = Function.update (file v) ino (file w ino) := by
    funext j
    by_cases hj : j = ino
    · rw [hj, Function.update_self]
    · rw [Function.update_of_ne hj, (s.others j hj).file]
  rw [FileSystem.state, State.setFile, superblock, s.entries, (s.others rootInode hne.symm).liveDirectory]
  exact congrArg (State.mk _ _ _) hfile

namespace Consistent

variable (h : Consistent v T)

include h

theorem file_root : file v rootInode = none := by
  obtain ⟨mode, hroot⟩ := h.root_eq
  rw [file_of_live (h.ledger.liveInode_ok h.root_inUse), hroot]
  rfl

theorem file_zero : file v 0 = none := file_of_error (h.ledger.liveInode_error fun hino => hino.2 h.zero)

theorem stands (hne : ino ≠ rootInode) : Stands v T ino := by
  by_cases hino : InUse v T ino
  · have hlive := h.ledger.liveInode_ok hino
    have hfile := file_of_live hlive
    by_cases hkind : (T ino).kind = .regular
    · obtain ⟨mode, c, hbody⟩ := exists_regular hkind
      have htable := h.file_eq hino hbody
      rw [contents_of_regular hlive hbody, htable] at hfile
      exact .regular hino htable (by rw [hlive, htable]) hfile
    · obtain ⟨target, hbody⟩ := exists_symlink hkind (h.files ino (h.two_le_of_ne hino hne) hino)
      have htable : T ino = ⟨ino, (T ino).nlink, .symlink target⟩ := by
        rw [← hbody]
        exact congrArg (Inode.mk · _ _) (h.ledger.id_eq hino.1)
      rw [htable] at hfile
      exact .symlink hino htable (by rw [hlive, htable]) hfile
  · have hlive := h.ledger.liveInode_error hino
    exact .free hino hlive (file_of_error hlive)

theorem state_named (s : NameStep v name named ino w) (superblock : w.superblock = v.superblock) :
    state w = { (state v).setFile ino (file w ino) with slots := rootEntries w } := by
  obtain ⟨T', hT'⟩ := s.consistent
  have hfile : file w = Function.update (file v) ino (file w ino) := by
    funext j
    by_cases hj : j = ino
    · rw [hj, Function.update_self]
    · rw [Function.update_of_ne hj]
      by_cases hroot : j = rootInode
      · rw [hroot, h.file_root, hT'.file_root]
      · exact (s.others j hroot hj).file
  rw [state, State.setFile, superblock, s.rootMode]
  exact congrArg (State.mk _ _ _) hfile

theorem length_slots : (state v).slots.length = entriesPerBlock * (rootChain T).blockCount := by
  rw [← h.slotCount_eq]
  exact h.length_rootEntries

theorem rootBlocks_state : (state v).rootBlocks = (rootChain T).blockCount := by
  rw [State.rootBlocks, h.length_slots, Nat.mul_div_cancel_left _ (by decide)]

theorem checkDirectory_cases (dir : UInt32) :
    dir = rootInode ∧ (state v).checkDirectory dir = .ok () ∨
      ∃ e, (state v).checkDirectory dir = .error e ∧ liveDirectory v dir = .error e := by
  by_cases hdir : dir = rootInode
  · exact .inl ⟨hdir, if_pos hdir⟩
  · right
    rw [State.checkDirectory, if_neg hdir, State.fileAt, liveDirectory]
    cases h.stands hdir with
    | free _ hlive hfile =>
      rw [hlive, hfile]
      exact ⟨_, rfl, rfl⟩
    | regular _ _ hlive hfile =>
      rw [hlive, hfile]
      exact ⟨_, rfl, rfl⟩
    | symlink _ _ hlive hfile =>
      rw [hlive, hfile]
      exact ⟨_, rfl, rfl⟩

theorem rootMode_state {mode : UInt32} (hroot : T rootInode = ⟨rootInode, 1, .directory mode (rootChain T)⟩) :
    (state v).rootMode = mode := by
  rw [state, h.liveDirectory_of_root hroot]
  rfl

theorem metadata_state (ino : UInt32) : metadata v ino = (state v).metadata ino := by
  by_cases hroot : ino = rootInode
  · obtain ⟨mode, htable⟩ := h.root_eq
    have hblocks : (rootChain T).size.toNat = (state v).slots.length * entrySize := by
      have haligned := h.aligned
      rw [h.length_slots]
      simp only [entriesPerBlock, entrySize, Chain.blockCount, blocksForSize, ceilDiv, blockSize] at *
      omega
    rw [hroot, metadata, h.ledger.liveInode_ok h.root_inUse, State.metadata, if_pos rfl, State.rootMetadata,
      h.rootMode_state htable, h.rootBlocks_state, ← hblocks, UInt32.ofNat_toNat, htable]
    rfl
  · rw [State.metadata, if_neg hroot, State.fileAt, metadata]
    cases h.stands hroot with
    | free _ hlive hfile =>
      rw [hlive, hfile]
      rfl
    | regular _ _ hlive hfile =>
      rw [hlive, hfile]
      simp only [ok_bind, File.metadata, Chain.size_contents, UInt32.ofNat_toNat]
      rfl
    | symlink _ _ hlive hfile =>
      rw [hlive, hfile]
      rfl

theorem metadata_of_file (hlive : liveInode v ino = .ok i) (hfile : file v ino = some f) (hne : ino ≠ rootInode) :
    i.metadata = f.metadata ino := by
  have hsame := h.metadata_state ino
  have hstate : (state v).file ino = some f := hfile
  rw [metadata, hlive, State.metadata, if_neg hne, State.fileAt, hstate] at hsame
  exact Except.ok.inj hsame

theorem lookup_state (dir : UInt32) (name : Name) : lookup v dir name = (state v).lookup dir name := by
  rw [State.lookup]
  by_cases hlong : maxNameLength < name.length
  · rw [lookup, if_pos hlong, if_pos hlong]
    rfl
  · rw [if_neg hlong]
    rcases h.checkDirectory_cases dir with ⟨rfl, hdir⟩ | ⟨e, hdir, hlive⟩
    · simp only [bind, Except.bind, hdir, named_state]
      cases hmap : nameMap v name with
      | none => exact h.lookup_notFound hlong hmap
      | some ino => rw [h.lookup_named hmap, h.metadata_state]
    · rw [lookup, if_neg hlong]
      simp only [bind, Except.bind, hdir, hlive]

theorem kindOf_state (hino : InUse v T ino) (hne : ino ≠ rootInode) : (state v).kindOf ino = (T ino).kind := by
  rw [State.kindOf]
  cases h.stands hne with
  | free hfree => exact absurd hino hfree
  | regular _ htable _ hfile =>
    rw [hfile, htable]
    rfl
  | symlink _ htable _ hfile =>
    rw [hfile, htable]
    rfl

theorem list_items (xs : List (Entry × Nat)) (hxs : ∀ p ∈ xs, p.1 ∈ rootEntries v) :
    (xs.filterMap fun (e, k) => if e.isEmpty then none else some (k, e)).mapM (fun (slot, e) => do
        let named ← v.readInode e.ino
        return { ino := e.ino, kind := named.kind, name := e.name, next := slot + 3 : ListItem }) =
      .ok (xs.filterMap fun (e, k) =>
        if e.isEmpty then none else some ⟨e.ino, (state v).kindOf e.ino, e.name, k + 3⟩) := by
  induction xs with
  | nil => rfl
  | cons p xs ih =>
    have hrest := ih fun q hq => hxs q (List.mem_cons_of_mem _ hq)
    dsimp only at hrest ⊢
    by_cases hempty : p.1.isEmpty = true
    · simp only [List.filterMap_cons, if_pos hempty]
      exact hrest
    · obtain ⟨s, hs, he⟩ := h.mem_rootEntries.mp (hxs p List.mem_cons_self)
      have hused : p.1.ino ≠ 0 := fun hz => hempty (decide_eq_true hz)
      rw [← he] at hused
      obtain ⟨-, hlow, hhigh⟩ := h.names.valid s hs hused
      have hkind := h.kindOf_state ⟨hhigh, h.names.linked hs hused⟩ (ne_root hlow)
      have hread := h.ledger.readInode_eq hhigh
      rw [he] at hkind hread
      simp only [List.filterMap_cons, if_neg hempty]
      rw [List.mapM_cons, hrest, hread, hkind]
      rfl

theorem readDir_state (dir parent : UInt32) (cursor : Nat) :
    readDir v dir parent cursor = (state v).readDir dir parent cursor := by
  rcases h.checkDirectory_cases dir with ⟨rfl, hdir⟩ | ⟨e, hdir, hlive⟩
  · obtain ⟨mode, htable⟩ := h.root_eq
    have hlist : (T rootInode).list v (cursor - 2) = .ok (((rootEntries v).zipIdx.drop (cursor - 2)).filterMap
        fun (e, k) => if e.isEmpty then none else some (k, e)) := by
      have hentries := Directory.entries_eq ⟨rootInode, 1, mode, rootChain T⟩ h.held_root h.ledger.sound
      rw [Directory.slotCount_eq, ← h.rootEntries_eq] at hentries
      rw [Inode.list, htable]
      simp only [Inode.asDirectory, Directory.occupiedFrom, ok_bind, hentries]
      rfl
    have hitems := h.list_items ((rootEntries v).zipIdx.drop (cursor - 2))
      fun p hp => List.fst_mem_of_mem_zipIdx (List.mem_of_mem_drop hp)
    rw [readDir, h.ledger.liveInode_ok h.root_inUse, ok_bind, hlist, ok_bind, hitems, State.readDir, hdir]
    rfl
  · rw [liveDirectory] at hlive
    cases hinode : liveInode v dir with
    | error e' =>
      rw [hinode] at hlive
      cases hlive
      rw [readDir, hinode, State.readDir, hdir]
      rfl
    | ok i =>
      rw [hinode, ok_bind] at hlive
      rw [readDir, hinode, ok_bind, Inode.list, hlive, State.readDir, hdir]
      rfl

theorem read_state (ino : UInt32) (offset length : Nat) : read v ino offset length = (state v).read ino offset length := by
  by_cases hroot : ino = rootInode
  · obtain ⟨mode, htable⟩ := h.root_eq
    rw [hroot, read, h.ledger.liveInode_ok h.root_inUse, ok_bind, State.read, if_pos rfl, htable]
    rfl
  · rw [State.read, if_neg hroot, State.fileAt]
    cases h.stands hroot with
    | free _ hlive hfile =>
      rw [read, hlive, hfile]
      rfl
    | regular hino htable _ hfile =>
      rw [h.read_file hino htable, hfile, ← Chain.size_contents _ v.cell]
      rfl
    | symlink _ _ hlive hfile =>
      rw [read, hlive, hfile]
      rfl

theorem readLink_state (ino : UInt32) (privileged : Bool) : readLink v ino privileged = (state v).readLink ino privileged := by
  by_cases hroot : ino = rootInode
  · obtain ⟨mode, htable⟩ := h.root_eq
    rw [hroot, readLink, h.ledger.liveInode_ok h.root_inUse, ok_bind, State.readLink, if_pos rfl, htable]
    rfl
  · rw [State.readLink, if_neg hroot, State.fileAt, readLink]
    cases h.stands hroot with
    | free _ hlive hfile =>
      rw [hlive, hfile]
      rfl
    | regular _ _ hlive hfile =>
      rw [hlive, hfile]
      rfl
    | symlink _ _ hlive hfile =>
      rw [hlive, hfile]
      rfl

theorem isNone_file {n : Nat} (hlow : 2 ≤ n) (hcount : n < v.superblock.inodeCount.toNat) :
    ((state v).file (.ofNat n)).isNone = decide (v.Vacant n) := by
  have hnat : (UInt32.ofNat n).toNat = n :=
    UInt32.toNat_ofNat_of_lt' (Nat.lt_trans hcount v.superblock.inodeCount.toNat_lt)
  have hin : (UInt32.ofNat n).toNat < v.superblock.inodeCount.toNat := by rw [hnat]; exact hcount
  have hvacant : v.Vacant n ↔ ¬ InUse v T (.ofNat n) := by
    rw [Vacant, h.ledger.nlinkOf_eq hin, InUse, and_iff_right hlow, and_iff_right hcount, and_iff_right hin, not_not]
  rw [decide_eq_decide.mpr hvacant]
  cases h.stands (ne_root (show 2 ≤ (UInt32.ofNat n).toNat by rw [hnat]; exact hlow)) with
  | free hfree _ hfile =>
    rw [hfile, decide_eq_true hfree]
    rfl
  | regular hino _ _ hfile =>
    rw [hfile, decide_eq_false (not_not_intro hino)]
    rfl
  | symlink hino _ _ hfile =>
    rw [hfile, decide_eq_false (not_not_intro hino)]
    rfl

theorem vacant_state :
    (state v).vacant = (List.range v.superblock.inodeCount.toNat).filter fun n => v.Vacant n := by
  have htwo : 2 ≤ v.superblock.inodeCount.toNat := Nat.le_of_lt h.ledger.laidOut.inodes
  rw [filter_vacant htwo]
  refine List.filter_congr fun n hn => ?_
  obtain ⟨hlow, hhigh⟩ := List.mem_range'_1.mp hn
  have hsame : (state v).superblock = v.superblock := rfl
  rw [hsame] at hhigh
  exact h.isNone_file hlow (by omega)

theorem allocateInode_state {n : Nat} {rest : List Nat} (hvacant : (state v).vacant = n :: rest) :
    v.allocateInode = .ok (.ofNat n) := by
  rw [(h.ledger.laidOut.tabled h.ledger.sound).allocateInode_eq, ← List.head?_filter, ← h.vacant_state, hvacant]
  rfl

theorem all_named (hvacant : (state v).vacant = []) (j : UInt32) (hlow : 2 ≤ j.toNat)
    (hcount : j.toNat < v.superblock.inodeCount.toNat) : ∃ name, nameMap v name = some j := by
  refine h.named_of_inUse hlow ?_
  rw [h.vacant_state, List.filter_eq_nil_iff] at hvacant
  have htaken := hvacant j.toNat (List.mem_range.mpr hcount)
  rw [← h.isNone_file hlow hcount, UInt32.ofNat_toNat] at htaken
  by_contra hfree
  have hnone : (state v).file j = none := file_of_error (h.ledger.liveInode_error hfree)
  rw [hnone] at htaken
  exact htaken rfl

theorem cost_chain {n : Nat} (hn : n < v.superblock.inodeCount.toNat) :
    ((chains v T (.ofNat n)).map fun c => Chain.cost c.blockCount).getD 0 =
      (if n = 1 then Chain.cost (state v).rootBlocks else 0) + (((state v).file (.ofNat n)).map File.cost).getD 0 := by
  have hroot : UInt32.ofNat n = rootInode ↔ n = 1 := by
    rw [← UInt32.toNat_inj, UInt32.toNat_ofNat_of_lt' (Nat.lt_trans hn v.superblock.inodeCount.toNat_lt)]
    exact Iff.rfl
  by_cases hone : n = 1
  · have hfile : (state v).file (.ofNat n) = none := by
      rw [hroot.mpr hone]
      exact h.file_root
    rw [if_pos hone, hfile, hroot.mpr hone, h.chains_root, h.rootBlocks_state]
    rfl
  · rw [if_neg hone, Nat.zero_add]
    cases h.stands (mt hroot.mp hone) with
    | free hfree _ hfile =>
      rw [hfile, chains, if_neg hfree]
      rfl
    | regular hino htable _ hfile =>
      rw [hfile, chains_of_inUse hino, htable]
      simp only [Option.map_some, Option.getD_some, File.cost, Chain.size_contents]
      rfl
    | symlink hino htable _ hfile =>
      rw [hfile, chains_of_inUse hino, htable]
      rfl

theorem freeBlocks_state : (state v).freeBlocks = v.freeBlocks := by
  have hcensus := h.ledger.accounts.freeBlocks_add (n := v.superblock.inodeCount.toNat)
    (fun ino c hc => (chains_eq_some hc).1.1) h.ledger.sound (Nat.le_of_lt v.superblock.inodeCount.toNat_lt)
  have hone : 1 ∈ Finset.range v.superblock.inodeCount.toNat := Finset.mem_range.mpr h.root_lt
  have hused : (state v).used = ∑ n ∈ Finset.range v.superblock.inodeCount.toNat,
      ((chains v T (.ofNat n)).map fun c => Chain.cost c.blockCount).getD 0 := by
    rw [Finset.sum_congr rfl fun n hn => h.cost_chain (Finset.mem_range.mp hn), Finset.sum_add_distrib,
      Finset.sum_ite_eq' _ 1, if_pos hone]
    rfl
  have hcapacity : (state v).capacity = v.freeMap.blockCount.toNat - v.dataStart := by
    rw [h.ledger.laidOut.dataStart_eq, ← h.ledger.laidOut.blockCount_eq, ← h.ledger.laidOut.firstData_eq]
    rfl
  rw [State.freeBlocks, hcapacity, ← hcensus, hused, Nat.add_sub_cancel]

theorem stats_state : stats v = .ok (state v).stats := by
  rw [stats, (h.ledger.laidOut.tabled h.ledger.sound).freeInodes_eq, ← h.vacant_state, ← h.freeBlocks_state]
  rfl

theorem checkRoom_state : (state v).checkRoom = match slotError v with | none => .ok () | some e => .error e := by
  have hslots : (state v).slots = rootEntries v := rfl
  have hblocks : (state v).rootBlocks = rootBlocks v := by rw [h.rootBlocks_state, h.rootBlocks_eq]
  rw [State.checkRoom, slotError, hslots, hblocks, h.freeBlocks_state]
  split_ifs <;> rfl

theorem checkLength_state (c : Chain) (size : Nat) :
    (state v).checkLength c.size.toNat size = match lengthError v c size with | none => .ok () | some e => .error e := by
  rw [State.checkLength, lengthError, h.freeBlocks_state, ← Chain.blockCount]
  split_ifs <;> rfl

end Consistent

end ImageFS.FileSystem
