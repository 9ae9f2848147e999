import ImageFS.Proofs.Directory.Named
import ImageFS.Proofs.FileSystem.Ledger

/-!
# Consistent file systems

The invariant of a file system: the table can be read, the chains of the inodes in use own the blocks of
the volume, the root is the only directory, and its records agree with the link counts.
-/

set_option autoImplicit false

namespace ImageFS.FileSystem

open Volume

def rootChain (T : UInt32 → Inode) : Chain := (T rootInode).chain?.getD .empty

structure Consistent (v : Volume) (T : UInt32 → Inode) : Prop where
  ledger : Ledger v T (chains v T)
  rootLink : (T rootInode).nlink = 1
  rootKind : (T rootInode).kind = .directory
  aligned : (rootChain T).size.toNat % blockSize = 0
  zero : (T 0).nlink = 0
  files : ∀ ino : UInt32, 2 ≤ ino.toNat → InUse v T ino → (T ino).kind ≠ .directory
  names : Named v.superblock.inodeCount.toNat (rootChain T).slotCount ((rootChain T).entry v.cell)
    fun ino => (T ino).nlink

variable {v w u : Volume} {T : UInt32 → Inode} {ino j : UInt32} {c c' d : Chain} {mode mode' : UInt32} {i : Inode}

theorem chain_of_regular (h : i.body = .regular mode c) : i.chain? = some c := by rw [Inode.chain?, h]

theorem chain_of_directory (h : i.body = .directory mode c) : i.chain? = some c := by rw [Inode.chain?, h]

theorem kind_of_regular (h : i.body = .regular mode c) : i.kind = .regular := by rw [Inode.kind, h]

theorem exists_directory (h : i.kind = .directory) : ∃ mode c, i.body = .directory mode c := by
  unfold Inode.kind at h
  split at h
  · cases h
  · rename_i mode c hbody
    exact ⟨mode, c, hbody⟩
  · cases h

theorem exists_regular (h : i.kind = .regular) : ∃ mode c, i.body = .regular mode c := by
  unfold Inode.kind at h
  split at h
  · rename_i mode c hbody
    exact ⟨mode, c, hbody⟩
  · cases h
  · cases h

theorem exists_symlink (hfile : i.kind ≠ .regular) (hdir : i.kind ≠ .directory) : ∃ target, i.body = .symlink target := by
  unfold Inode.kind at hfile hdir
  cases hbody : i.body with
  | regular mode c =>
    rw [hbody] at hfile
    exact absurd rfl hfile
  | directory mode c =>
    rw [hbody] at hdir
    exact absurd rfl hdir
  | symlink target => exact ⟨target, rfl⟩

theorem chain_of_symlink {target : List UInt8} (h : i.body = .symlink target) : i.chain? = none := by
  rw [Inode.chain?, h]

theorem inUse_update (superblock : w.superblock = v.superblock) (hne : j ≠ ino) :
    InUse w (Function.update T ino i) j ↔ InUse v T j := by
  rw [InUse, InUse, superblock, Function.update_of_ne hne]

theorem chains_update (superblock : w.superblock = v.superblock) (h : ino.toNat < v.superblock.inodeCount.toNat) :
    chains w (Function.update T ino i) =
      Function.update (chains v T) ino (if i.nlink = 0 then none else i.chain?) := by
  funext j
  by_cases hj : j = ino
  · rw [hj, Function.update_self, chains]
    by_cases hzero : i.nlink = 0
    · rw [if_pos hzero, if_neg]
      intro hin
      rw [InUse, Function.update_self] at hin
      exact hin.2 hzero
    · rw [if_neg hzero, if_pos, Function.update_self]
      rw [InUse, superblock, Function.update_self]
      exact ⟨h, hzero⟩
  · rw [Function.update_of_ne hj, chains, chains]
    by_cases hin : InUse v T j
    · rw [if_pos hin, if_pos ((inUse_update superblock hj).mpr hin), Function.update_of_ne hj]
    · rw [if_neg hin, if_neg (mt (inUse_update superblock hj).mp hin)]

theorem ne_root (hlow : 2 ≤ ino.toNat) : ino ≠ rootInode := by
  rintro rfl
  exact absurd hlow (by decide)

theorem ne_zero (hlow : 2 ≤ ino.toNat) : ino ≠ 0 := by
  rintro rfl
  exact absurd hlow (by decide)

theorem chains_regular (hino : InUse v T ino) (hbody : (T ino).body = .regular mode c) :
    chains v T ino = some c := by
  rw [chains_of_inUse hino, chain_of_regular hbody]

theorem rootChain_update (hne : ino ≠ rootInode) (T : UInt32 → Inode) (i : Inode) :
    rootChain (Function.update T ino i) = rootChain T := by
  rw [rootChain, rootChain, Function.update_of_ne hne.symm]

theorem rootChain_put (T : UInt32 → Inode) (mode : UInt32) (c : Chain) :
    rootChain (Function.update T rootInode ⟨rootInode, 1, .directory mode c⟩) = c := by
  rw [rootChain, Function.update_self]
  rfl

/-- Moving a chain and writing its inode keeps the table and the chains in step, and touches no other
chain. -/
theorem Ledger.put_moved (l : Ledger v T (chains v T)) (hchain : chains v T ino = some c) (m : Chain.Moves c v c' u)
    (hid : i.id = ino) (hlink : i.nlink ≠ 0) (hbody : i.chain? = some c') (hfits : Inode.Fits i.body)
    (hw : w = u.putInode i) :
    Ledger w (Function.update T ino i) (chains w (Function.update T ino i)) ∧ w.superblock = v.superblock ∧
      (∀ j d, j ≠ ino → chains v T j = some d → d.Untouched v w) ∧ c'.Untouched u w := by
  subst hw hid
  have hino := (chains_eq_some hchain).1
  have hmoved := l.moves hchain m
  have hcount : i.id.toNat < u.superblock.inodeCount.toNat := by
    rw [m.evolves.superblock]
    exact hino.1
  have hput := hmoved.putInode hcount hfits
  have hsuper : (u.putInode i).superblock = v.superblock := m.evolves.superblock
  have hchains := chains_update (T := T) (i := i) hsuper hino.1
  rw [if_neg hlink, hbody] at hchains
  rw [hchains]
  refine ⟨hput, hsuper, fun j d hj hd => ?_, hmoved.untouched_putInode hcount m.held⟩
  have hsame := (l.accounts.untouched hchain m hd hj).1
  have hd' : d.Held u := hmoved.accounts.held j d (by rw [Function.update_of_ne hj, hd])
  exact hsame.trans (hmoved.untouched_putInode hcount hd')

namespace Consistent

variable (h : Consistent v T)

include h

theorem root_lt : rootInode.toNat < v.superblock.inodeCount.toNat :=
  Nat.lt_trans (by decide) h.ledger.laidOut.inodes

theorem root_inUse : InUse v T rootInode := by
  refine ⟨h.root_lt, ?_⟩
  rw [h.rootLink]
  decide

theorem root_eq : ∃ mode, T rootInode = ⟨rootInode, 1, .directory mode (rootChain T)⟩ := by
  obtain ⟨mode, c, hbody⟩ := exists_directory h.rootKind
  have hid := h.ledger.id_eq h.root_lt
  have hlink := h.rootLink
  have hchain : rootChain T = c := by rw [rootChain, chain_of_directory hbody, Option.getD_some]
  refine ⟨mode, ?_⟩
  rw [hchain]
  generalize T rootInode = i at hbody hid hlink
  cases i
  simp only at hbody hid hlink
  rw [hbody, hid, hlink]

theorem chains_root : chains v T rootInode = some (rootChain T) := by
  obtain ⟨mode, hroot⟩ := h.root_eq
  rw [chains_of_inUse h.root_inUse, hroot]
  rfl

theorem held_root : (rootChain T).Held v := h.ledger.accounts.held _ _ h.chains_root

theorem slotCount_eq : (rootChain T).slotCount = entriesPerBlock * (rootChain T).blockCount :=
  Chain.slotCount_of_aligned h.aligned

theorem slotCount_lt : (rootChain T).slotCount < UInt32.size := by
  have hshort := h.held_root.short
  have hslots := (rootChain T).slotCount_le
  simp only [entriesPerBlock, UInt32.size] at *
  omega

theorem liveDirectory_of_root (hroot : T rootInode = ⟨rootInode, 1, .directory mode (rootChain T)⟩) :
    liveDirectory v rootInode = .ok ⟨rootInode, 1, mode, rootChain T⟩ := by
  rw [liveDirectory, h.ledger.liveInode_ok h.root_inUse, hroot]
  rfl

theorem two_le_of_ne (hino : InUse v T ino) (hne : ino ≠ rootInode) : 2 ≤ ino.toNat := by
  by_contra hlow
  have hcases : ino.toNat = (0 : UInt32).toNat ∨ ino.toNat = rootInode.toNat := by
    change ino.toNat = 0 ∨ ino.toNat = 1
    omega
  rcases hcases with hzero | hone
  · rw [UInt32.toNat_inj.mp hzero] at hino
    exact hino.2 h.zero
  · exact hne (UInt32.toNat_inj.mp hone)

theorem two_le (hino : InUse v T ino) (hkind : (T ino).kind ≠ .directory) : 2 ≤ ino.toNat := by
  apply h.two_le_of_ne hino
  rintro rfl
  exact hkind h.rootKind

theorem regular_two_le (hino : InUse v T ino) (hbody : (T ino).body = .regular mode c) : 2 ≤ ino.toNat := by
  apply h.two_le hino
  rw [kind_of_regular hbody]
  exact Kind.noConfusion

/-- Writing the inode of a file keeps the invariant when its links agree with the records of the root. -/
theorem put_named (hlow : 2 ≤ ino.toNat) (hkind : i.kind ≠ .directory) (superblock : w.superblock = v.superblock)
    (ledger : Ledger w (Function.update T ino i) (chains w (Function.update T ino i)))
    (names : Named v.superblock.inodeCount.toNat (rootChain T).slotCount ((rootChain T).entry w.cell)
      fun j => (Function.update T ino i j).nlink) : Consistent w (Function.update T ino i) := by
  have hroot := ne_root hlow
  have hzero := ne_zero hlow
  refine ⟨ledger, ?_, ?_, ?_, ?_, fun j hj hjuse => ?_, ?_⟩
  · rw [Function.update_of_ne hroot.symm, h.rootLink]
  · rw [Function.update_of_ne hroot.symm, h.rootKind]
  · rw [rootChain_update hroot, h.aligned]
  · rw [Function.update_of_ne hzero.symm, h.zero]
  · by_cases hji : j = ino
    · rw [hji, Function.update_self]
      exact hkind
    · rw [InUse, superblock, Function.update_of_ne hji] at hjuse
      rw [Function.update_of_ne hji]
      exact h.files j hj hjuse
  · rw [superblock, rootChain_update hroot]
    exact names

theorem put_file (hino : InUse v T ino) (hbody : (T ino).body = .regular mode c) (m : Chain.Moves c v c' u)
    (hw : w = u.putInode ⟨ino, (T ino).nlink, .regular mode' c'⟩) :
    Consistent w (Function.update T ino ⟨ino, (T ino).nlink, .regular mode' c'⟩) ∧ w.superblock = v.superblock ∧
      (∀ j d, j ≠ ino → chains v T j = some d → d.Untouched v w) ∧ c'.Untouched u w := by
  have hlow := h.regular_two_le hino hbody
  obtain ⟨ledger, superblock, hothers, hown⟩ :=
    h.ledger.put_moved (i := ⟨ino, (T ino).nlink, .regular mode' c'⟩) (chains_regular hino hbody) m rfl hino.2 rfl
      trivial hw
  refine ⟨h.put_named hlow Kind.noConfusion superblock ledger ?_, superblock, hothers, hown⟩
  have hroot := hothers _ _ (ne_root hlow).symm h.chains_root
  refine h.names.congr (fun s hs => hroot.entry h.held_root hs) fun j _ => ?_
  by_cases hji : j = ino
  · rw [hji, Function.update_self]
  · rw [Function.update_of_ne hji]

theorem put_root (m : Chain.Moves (rootChain T) v c' u) (hw : w = u.putInode ⟨rootInode, 1, .directory mode' c'⟩)
    (aligned : c'.size.toNat % blockSize = 0)
    (names : Named v.superblock.inodeCount.toNat c'.slotCount (c'.entry u.cell) fun j => (T j).nlink) :
    Consistent w (Function.update T rootInode ⟨rootInode, 1, .directory mode' c'⟩) ∧ w.superblock = v.superblock ∧
      (∀ j d, j ≠ rootInode → chains v T j = some d → d.Untouched v w) ∧ c'.Untouched u w := by
  have hone : (1 : UInt32) ≠ 0 := by decide
  obtain ⟨ledger, superblock, hothers, hown⟩ :=
    h.ledger.put_moved (i := ⟨rootInode, 1, .directory mode' c'⟩) h.chains_root m rfl hone rfl trivial hw
  have hchain := rootChain_put T mode' c'
  refine ⟨⟨ledger, ?_, ?_, ?_, ?_, fun j hj hjuse => ?_, ?_⟩, superblock, hothers, hown⟩
  · rw [Function.update_self]
  · rw [Function.update_self]
    rfl
  · rw [hchain]
    exact aligned
  · rw [Function.update_of_ne (by decide), h.zero]
  · rw [InUse, superblock, Function.update_of_ne (ne_root hj)] at hjuse
    rw [Function.update_of_ne (ne_root hj)]
    exact h.files j hj hjuse
  · rw [superblock, hchain]
    refine names.congr (fun s hs => hown.entry m.held hs) fun j hj => ?_
    rw [Function.update_of_ne (ne_root hj)]

end Consistent

end ImageFS.FileSystem
