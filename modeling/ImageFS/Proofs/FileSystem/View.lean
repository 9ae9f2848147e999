import ImageFS.Proofs.FileSystem.Consistent

/-!
# What can be seen of a file system

The inodes in use, the bytes of their chains, and the records of the root directory. A step on one file
leaves all else to be seen as it was.
-/

set_option autoImplicit false

namespace ImageFS.FileSystem

open Volume

/-- The bytes that the chain of an inode in use spells out. -/
def contents (v : Volume) (ino : UInt32) : Option ByteArray :=
  match liveInode v ino with
  | .ok i => i.chain?.map fun c => c.contents v.cell
  | .error _ => none

def rootEntries (v : Volume) : List Entry :=
  match liveDirectory v rootInode with
  | .ok dir => (dir.entries v).toOption.getD []
  | .error _ => []

/-- The inode that a name of the root directory stands for. -/
def nameMap (v : Volume) (name : Name) : Option UInt32 :=
  ((rootEntries v).find? fun e => !e.isEmpty && e.name = name).map (·.ino)

def SameInode (v w : Volume) (ino : UInt32) : Prop :=
  liveInode w ino = liveInode v ino ∧ contents w ino = contents v ino

/-- `w` is `v` after a step on the file `ino`, which is now the inode `i` with the given bytes. -/
structure FileStep (v : Volume) (ino : UInt32) (i : Inode) (bytes : ByteArray) (w : Volume) : Prop where
  consistent : ∃ T, Consistent w T
  live : liveInode w ino = .ok i
  bytes : contents w ino = some bytes
  others : ∀ j, j ≠ ino → SameInode v w j
  entries : rootEntries w = rootEntries v

/-- All that can be seen of `v` can be seen of `w`. -/
structure Unchanged (v w : Volume) : Prop where
  consistent : ∃ T, Consistent w T
  inodes : ∀ ino, SameInode v w ino
  entries : rootEntries w = rootEntries v

/-- `w` is `v` but for the contents of free blocks: the table `T` and the map are the same too. -/
structure Spared (v : Volume) (T : UInt32 → Inode) (w : Volume) : Prop where
  consistent : Consistent w T
  evolves : Evolves v w
  bits : ∀ i, w.freeMap.bit i = v.freeMap.bit i
  inodes : ∀ ino, SameInode v w ino
  entries : rootEntries w = rootEntries v

variable {v w u : Volume} {T T' : UInt32 → Inode} {ino j : UInt32} {c c' d : Chain} {mode mode' : UInt32} {i : Inode}
  {bytes : ByteArray}

theorem Spared.unchanged (s : Spared v T w) : Unchanged v w := ⟨⟨T, s.consistent⟩, s.inodes, s.entries⟩

theorem contents_of_live (h : liveInode v ino = .ok i) : contents v ino = i.chain?.map fun c => c.contents v.cell := by
  rw [contents, h]

theorem contents_of_regular (h : liveInode v ino = .ok i) (hbody : i.body = .regular mode c) :
    contents v ino = some (c.contents v.cell) := by
  rw [contents_of_live h, chain_of_regular hbody]
  rfl

theorem contents_untouched (hlive : liveInode w ino = .ok i)
    (hsame : ∀ d, i.chain? = some d → d.Held v ∧ d.Untouched v w) :
    contents w ino = i.chain?.map fun c => c.contents v.cell := by
  rw [contents_of_live hlive]
  cases hchain : i.chain? with
  | none => rw [Option.map_none, Option.map_none]
  | some d =>
    obtain ⟨held, untouched⟩ := hsame d hchain
    rw [Option.map_some, Option.map_some, untouched.contents held]

theorem FileStep.sameInode (s : FileStep v ino i bytes w) (live : liveInode v ino = .ok i)
    (hbytes : contents v ino = some bytes) (j : UInt32) : SameInode v w j := by
  by_cases hj : j = ino
  · subst hj
    exact ⟨by rw [s.live, live], by rw [s.bytes, hbytes]⟩
  · exact s.others j hj

namespace Consistent

variable (h : Consistent v T)

include h

theorem rootEntries_eq :
    rootEntries v = (List.range (rootChain T).slotCount).map ((rootChain T).entry v.cell) := by
  obtain ⟨mode, hroot⟩ := h.root_eq
  rw [rootEntries, h.liveDirectory_of_root hroot]
  simp only
  rw [Directory.entries_eq ⟨rootInode, 1, mode, rootChain T⟩ h.held_root h.ledger.sound]
  rfl

theorem rootEntries_untouched (h' : Consistent w T') (hchain : rootChain T' = rootChain T)
    (hsame : (rootChain T).Untouched v w) : rootEntries w = rootEntries v := by
  rw [h'.rootEntries_eq, h.rootEntries_eq, hchain]
  apply List.map_congr_left
  intro s hs
  exact hsame.entry h.held_root (List.mem_range.mp hs)

theorem sameInode (h' : Consistent w T') (superblock : w.superblock = v.superblock) (htable : T' j = T j)
    (hsame : ∀ d, chains v T j = some d → d.Untouched v w) : SameInode v w j := by
  by_cases hin : InUse v T j
  · have hin' : InUse w T' j := by
      rw [InUse, superblock, htable]
      exact hin
    have hlive := h.ledger.liveInode_ok hin
    have hlive' := h'.ledger.liveInode_ok hin'
    rw [htable] at hlive'
    refine ⟨by rw [hlive, hlive'], (contents_untouched hlive' fun d hchain => ?_).trans (contents_of_live hlive).symm⟩
    have hd : chains v T j = some d := by rw [chains_of_inUse hin, hchain]
    exact ⟨h.ledger.accounts.held j d hd, hsame d hd⟩
  · have hin' : ¬ InUse w T' j := by
      rw [InUse, superblock, htable]
      exact hin
    have hlive := h.ledger.liveInode_error hin
    have hlive' := h'.ledger.liveInode_error hin'
    refine ⟨by rw [hlive, hlive'], ?_⟩
    rw [contents, contents, hlive, hlive']

theorem file_step (mode' : UInt32) (hino : InUse v T ino) (hbody : (T ino).body = .regular mode c) (m : Chain.Moves c v c' u)
    (hw : w = u.putInode ⟨ino, (T ino).nlink, .regular mode' c'⟩) :
    FileStep v ino ⟨ino, (T ino).nlink, .regular mode' c'⟩ (c'.contents u.cell) w := by
  obtain ⟨hnext, hsuper, hothers, hown⟩ := h.put_file hino hbody m hw
  have hlow := h.regular_two_le hino hbody
  have hlive : liveInode w ino = .ok ⟨ino, (T ino).nlink, .regular mode' c'⟩ := by
    refine hnext.ledger.liveInode_iff.mpr ⟨?_, Function.update_self _ _ _⟩
    rw [InUse, hsuper, Function.update_self]
    exact hino
  refine ⟨⟨_, hnext⟩, hlive, ?_, fun j hj => ?_, ?_⟩
  · rw [contents_of_regular hlive rfl, hown.contents m.held]
  · exact h.sameInode hnext hsuper (Function.update_of_ne hj _ _) fun d hd => hothers j d hj hd
  · exact h.rootEntries_untouched hnext (rootChain_update (ne_root hlow) _ _)
      (hothers _ _ (ne_root hlow).symm h.chains_root)

end Consistent

end ImageFS.FileSystem
