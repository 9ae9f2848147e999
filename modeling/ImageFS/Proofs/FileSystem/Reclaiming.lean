import ImageFS.Proofs.FileSystem.Ownership
import ImageFS.Proofs.FileSystem.Removal
import ImageFS.Proofs.Reference.Refinement

/-!
# What a name takes with it

Taking a name away changes nothing but the name and its file. A file with other names has one link less. A file
without them is gone: its number is free, and so are all blocks of its own and no others.
-/

set_option autoImplicit false

namespace ImageFS.FileSystem

open Volume

/-- The file `i` with the number `ino` has one link less and is the same otherwise, in its bytes and where they lie.
Only the blocks with its record and with the names were written. -/
structure Unlinked (v : Volume) (ino : UInt32) (i : Inode) (w : Volume) : Prop where
  record : w.readInode ino = .ok { i with nlink := i.nlink - 1 }
  named : ∃ other, nameMap w other = some ino
  contents : contents w ino = contents v ino
  read : ∀ offset length, read w ino offset length = read v ino offset length
  target : ∀ privileged, readLink w ino privileged = readLink v ino privileged
  map : w.freeMap = v.freeMap
  blocks : ∀ b : UInt32, b < v.superblock.blockCount → b ≠ v.inodeBlock ino →
    (∀ k, ¬ Uses v rootInode (.data k) b) → w.readBlock b = v.readBlock b

/-- The file `i` with the number `ino` is free, and what is free in addition are the blocks at its places. -/
structure Gone (v : Volume) (ino : UInt32) (i : Inode) (w : Volume) : Prop where
  record : ∃ left, w.readInode ino = .ok left ∧ left.isFree
  map : ∀ b : UInt32, w.freeMap.isFree b.toNat = true ↔ v.freeMap.isFree b.toNat = true ∨ ∃ p, Uses v ino p b
  symlink : i.kind = .symlink → w.freeMap = v.freeMap

variable {v w : Volume} {T : UInt32 → Inode} {ino j b : UInt32} {i : Inode} {name : Name} {p : Place}

theorem links_cases {n : UInt32} (h : n ≠ 0) : 1 < n ∧ n - 1 ≠ 0 ∨ n = 1 ∧ n - 1 = 0 := by
  by_cases hone : n = 1
  · exact .inr ⟨hone, by rw [hone]; rfl⟩
  · refine .inl ⟨?_, fun hz => hone ?_⟩
    · have hzero : n.toNat ≠ 0 := fun he => h (UInt32.toNat_inj.mp he)
      have hone : n.toNat ≠ 1 := fun he => hone (UInt32.toNat_inj.mp he)
      rw [UInt32.lt_iff_toNat_lt]
      change 1 < n.toNat
      omega
    · rw [← UInt32.sub_add_cancel n 1, hz]
      rfl

namespace Consistent

variable (h : Consistent v T) (hlow : 2 ≤ ino.toNat) (hino : InUse v T ino)

include h

section

variable (r : Removed v T name ino i w)

include r

theorem readInode_removed (hj : j ≠ ino) : w.readInode j = v.readInode j := by
  by_cases hcount : j.toNat < v.superblock.inodeCount.toNat
  · rw [h.ledger.readInode_eq hcount, r.consistent.ledger.readInode_eq (r.superblock.symm ▸ hcount),
      Function.update_of_ne hj]
  · have hle := Nat.le_of_not_lt hcount
    rw [readInode_of_le hle, readInode_of_le (r.superblock.symm ▸ hle)]

include hino

theorem uses_removed (hroot : j ≠ rootInode) (hj : j ≠ ino) : Uses w j p b ↔ Uses v j p b := by
  rw [h.uses_iff, r.consistent.uses_iff, chains_update r.superblock hino.1, Function.update_of_ne hj]
  refine exists_congr fun d => and_congr_right fun hd => and_congr_right fun _ => ?_
  rw [(r.others j d hroot hj hd).pointer]

include hlow

theorem unlinked (hi : i = { T ino with nlink := (T ino).nlink - 1 }) (hkept : (T ino).nlink - 1 ≠ 0)
    (t : Trimmed v T ino w) : Unlinked v ino (T ino) w := by
  have hcount : ino.toNat < w.superblock.inodeCount.toNat := by
    rw [r.superblock]
    exact hino.1
  have htable : Function.update T ino i ino = { T ino with nlink := (T ino).nlink - 1 } := by
    rw [Function.update_self, hi]
  have hino' : InUse w (Function.update T ino i) ino := ⟨hcount, by rw [htable]; exact hkept⟩
  have hlive : liveInode v ino = .ok (T ino) := h.ledger.liveInode_ok hino
  have hlive' : liveInode w ino = .ok { T ino with nlink := (T ino).nlink - 1 } := by
    rw [r.consistent.ledger.liveInode_ok hino', htable]
  have hsame := h.contents_trimmed hino hlow t hlive' rfl
  refine ⟨?_, r.consistent.named_of_inUse hlow hino', hsame, fun offset length => ?_, fun privileged => ?_, t.map,
    fun b hb hrecord hnames => ?_⟩
  · rw [r.consistent.ledger.readInode_eq hcount, htable]
  · cases hbody : (T ino).body with
    | regular mode c =>
      have hfile := h.file_eq hino hbody
      have hfile' : Function.update T ino i ino = ⟨ino, (T ino).nlink - 1, .regular mode c⟩ := by
        rw [htable]
        simp only [hbody, h.ledger.id_eq hino.1]
      rw [h.contents_file hino hfile, r.consistent.contents_file hino' hfile', Option.some.injEq] at hsame
      rw [h.read_file hino hfile, r.consistent.read_file hino' hfile', hsame]
    | directory mode c =>
      simp only [read, hlive, hlive', ok_bind, Inode.bytesAt, Inode.asReadable, hbody]
      rfl
    | symlink target =>
      simp only [read, hlive, hlive', ok_bind, Inode.bytesAt, Inode.asReadable, hbody]
      rfl
  · rw [readLink, readLink, hlive, hlive']
    rfl
  · have hb : b.toNat < v.freeMap.blockCount.toNat := by
      rw [← h.ledger.laidOut.blockCount_eq]
      exact UInt32.lt_iff_toNat_lt.mp hb
    have hcell : w.cell b = v.cell b := by
      refine t.cell b hrecord fun k hk he => hnames k (h.uses_iff.mpr ⟨_, h.chains_root, ?_, he⟩)
      exact he ▸ h.held_root.data_ne_null hk
    rw [readBlock_eq h.ledger.sound hb, readBlock_eq r.consistent.ledger.sound (t.map.symm ▸ hb), hcell]

omit hlow in
theorem gone (hzero : i.nlink = 0) (count : w.freeMap.blockCount = v.freeMap.blockCount)
    (hreclaimed : Reclaimed v T ino w) (hsymlink : (T ino).kind = .symlink → w.freeMap = v.freeMap) :
    Gone v ino (T ino) w := by
  refine ⟨⟨i, ?_, ?_⟩, fun b => ?_, hsymlink⟩
  · rw [r.consistent.ledger.readInode_eq (r.superblock.symm ▸ hino.1), Function.update_self]
  · rw [Inode.isFree, decide_eq_true_eq, hzero]
  · have hused : (∃ p, Uses v ino p b) → b.toNat < v.freeMap.blockCount.toNat := by
      rintro ⟨p, hp⟩
      exact (h.uses_isData hp).2
    by_cases hb : b.toNat < v.freeMap.blockCount.toNat
    · have hbusy := hreclaimed b
      rw [← h.exists_uses_iff, Busy, Busy] at hbusy
      rw [FreeMap.isFree_eq_bit _ hb, FreeMap.isFree_eq_bit _ (count.symm ▸ hb), ← Bool.not_eq_false,
        ← Bool.not_eq_false, hbusy, not_and_or, not_not]
    · rw [FreeMap.isFree_of_le _ (Nat.le_of_not_lt hb), FreeMap.isFree_of_le _ (count.symm ▸ Nat.le_of_not_lt hb)]
      exact iff_of_false Bool.false_ne_true fun hor => hor.elim Bool.false_ne_true fun hp => hb (hused hp)

end

end Consistent

/-- Taking away a name of a reachable file system succeeds. The records of the root are the same but for the one of
that name, and no other inode, its bytes or its blocks change, and not the size of the root either. A file that has
other names is as before with one link less. Otherwise its number is free, and beside what was free before just the
blocks at its places are: those with its bytes and those with pointers, and for a symlink none. -/
theorem unlink_reclaims (h : Reachable v) (hmap : nameMap v name = some ino) :
    ∃ i w, liveInode v ino = .ok i ∧ (Call.unlink rootInode name).run v = (.ok .done, w) ∧
      w.superblock = v.superblock ∧
      nameMap w = Function.update (nameMap v) name none ∧ rootEntries w = Entry.clearName name (rootEntries v) ∧
      (∀ j, j ≠ ino → w.readInode j = v.readInode j) ∧
      (∀ j, j ≠ rootInode → j ≠ ino → contents w j = contents v j ∧ ∀ p b, Uses w j p b ↔ Uses v j p b) ∧
      (1 < i.nlink ∧ Unlinked v ino i w ∨ i.nlink = 1 ∧ Gone v ino i w) := by
  obtain ⟨T, hT⟩ := h.consistent
  obtain ⟨hlow, hino⟩ := hT.inUse_of_named hmap
  obtain ⟨i, w, hrun, r, hleft⟩ := hT.unlink_removed hmap
  have hcall : (Call.unlink rootInode name).run v = (.ok .done, w) := run_of_ok (bind_of_ok hrun)
  have hsteady := alike_run (.unlink rootInode name) v
  rw [hcall] at hsteady
  refine ⟨T ino, w, hT.ledger.liveInode_ok hino, hcall, r.superblock, r.names, r.entries,
    fun j hj => hT.readInode_removed r hj, fun j hroot hj => ⟨?_, fun p b => hT.uses_removed hino r hroot hj⟩, ?_⟩
  · exact ((hT.nameStep hlow r).others j hroot hj).2
  rcases links_cases hino.2 with ⟨hmore, hkept⟩ | ⟨hone, hlast⟩
  · rw [if_neg fun hboth => hkept hboth.1] at hleft
    exact .inl ⟨hmore, hT.unlinked hlow hino r hleft.1 hkept hleft.2⟩
  · refine .inr ⟨hone, ?_⟩
    split_ifs at hleft with hregular
    · obtain ⟨hzero, hreclaimed⟩ := hleft
      refine hT.gone hino r hzero hsteady.count hreclaimed fun hkind => ?_
      rw [hregular.2] at hkind
      cases hkind
    · obtain ⟨rfl, t⟩ := hleft
      obtain ⟨target, hbody⟩ := exists_symlink (fun hkind => hregular ⟨hlast, hkind⟩) (hT.files ino hlow hino)
      -- a symlink has no chain, so nothing is given back and nothing had to be
      have hreclaimed : Reclaimed v T ino w := fun b => by
        rw [chains_of_inUse hino, chain_of_symlink hbody, Busy, Busy, t.map]
        simp
      exact hT.gone hino r hlast hsteady.count hreclaimed fun _ => t.map

theorem unlink_reclaims_block : ∃ v w name b, Reachable v ∧ nameMap v name = some 2 ∧
    (Call.unlink rootInode name).run v = (.ok .done, w) ∧ nameMap w name = none ∧ Uses v 2 (.data 0) b ∧
    v.freeMap.isFree b.toNat = false ∧ w.freeMap.isFree b.toNat = true := by
  obtain ⟨v, c, hv, hlive, -, -, hcount⟩ := exists_bytes
  obtain ⟨T, hT⟩ := hv.consistent
  obtain ⟨hino, -⟩ := hT.ledger.liveInode_iff.mp hlive
  obtain ⟨name, hmap⟩ := hT.named_of_inUse (by decide) hino
  obtain ⟨i, w, hlive', hrun, -, hnames, -, -, -, hleft⟩ := unlink_reclaims hv hmap
  have hchain : chainOf v 2 = some c := by
    rw [chainOf, hlive]
    rfl
  have huses : Uses v 2 (.data 0) (c.pointer v.cell (.data 0)) :=
    ⟨c, hchain, (hT.accounts.held 2 c hchain).data_ne_null (by omega), rfl⟩
  obtain ⟨hdata, hbusy⟩ := data_of_uses hT.accounts huses
  refine ⟨v, w, name, _, hv, hmap, hrun, by rw [hnames, Function.update_self], huses,
    (FreeMap.isFree_eq_bit _ hdata.2).trans hbusy, ?_⟩
  rw [hlive, Except.ok.injEq] at hlive'
  rcases hleft with ⟨hmore, -⟩ | ⟨-, gone⟩
  · rw [← hlive'] at hmore
    exact absurd hmore (UInt32.lt_irrefl 1)
  · exact (gone.map _).mpr (.inr ⟨_, huses⟩)

end ImageFS.FileSystem
