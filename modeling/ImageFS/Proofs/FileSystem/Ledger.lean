import ImageFS.FileSystem.Call
import ImageFS.Proofs.Chain.Accounts
import ImageFS.Proofs.Volume.Table

/-!
# The table and the chains

A ledger says what the inode table of a volume holds and which chains own its blocks. While an operation
is under way the two may differ: the chain in hand is not yet the one in the table. Moving a chain changes
the accounts, writing an inode changes the table.
-/

set_option autoImplicit false

namespace ImageFS

open Volume

namespace Chain

theorem pointer_empty (m : Memory) (p : Place) : empty.pointer m p = nullPointer := by
  have hroot : ∀ p : Place, empty.root p = nullPointer := by
    intro p
    cases p with
    | data k =>
      simp only [root, directAt, empty, Vector.getElem?_replicate]
      split <;> rfl
    | indirect => rfl
    | doubly => rfl
    | table outer => rfl
  induction p using Place.induct_parent with
  | step p ih =>
    cases hp : p.parent? with
    | none => rw [pointer_of_root hp, hroot]
    | some s =>
      obtain ⟨q, i⟩ := s
      rw [pointer_of_parent hp, ih q i hp, follow_null]

theorem blockCount_empty : empty.blockCount = 0 := rfl

theorem held_empty (v : Volume) : empty.Held v := by
  have hnull := pointer_empty v.cell
  refine ⟨fun p => ?_, fun p q hp => ?_, fun p hp => ?_, fun p hp => ?_⟩
  · rw [hnull, blockCount_empty]
    exact iff_of_false (fun h => h rfl) (Nat.not_lt_zero _)
  · exact absurd (hnull p) hp
  · exact absurd (hnull p) hp
  · exact absurd (hnull p) hp

end Chain

namespace FileSystem

/-- The table of a volume holds the inodes `T`, and the chains `χ` own its blocks. -/
structure Ledger (v : Volume) (T : UInt32 → Inode) (χ : UInt32 → Option Chain) : Prop where
  sound : v.Sound
  synced : v.Synced
  laidOut : v.LaidOut
  records : ∀ ino : UInt32, ino.toNat < v.superblock.inodeCount.toNat → v.record ino = .ok (T ino)
  accounts : v.Accounts χ

def InUse (v : Volume) (T : UInt32 → Inode) (ino : UInt32) : Prop :=
  ino.toNat < v.superblock.inodeCount.toNat ∧ (T ino).nlink ≠ 0

instance (v : Volume) (T : UInt32 → Inode) (ino : UInt32) : Decidable (InUse v T ino) :=
  inferInstanceAs (Decidable (_ ∧ _))

def chains (v : Volume) (T : UInt32 → Inode) : UInt32 → Option Chain := fun ino =>
  if InUse v T ino then (T ino).chain? else none

variable {v w : Volume} {T : UInt32 → Inode} {χ : UInt32 → Option Chain} {ino : UInt32} {c c' d : Chain}

theorem chains_of_inUse (h : InUse v T ino) : chains v T ino = (T ino).chain? := if_pos h

theorem chains_eq_some (h : chains v T ino = some c) : InUse v T ino ∧ (T ino).chain? = some c := by
  unfold chains at h
  split at h
  · exact ⟨‹_›, h⟩
  · cases h

theorem chains_congr (superblock : w.superblock = v.superblock) : chains w T = chains v T := by
  funext j
  have hsame : InUse w T j ↔ InUse v T j := by rw [InUse, InUse, superblock]
  by_cases hin : InUse v T j
  · rw [chains_of_inUse hin, chains_of_inUse (hsame.mpr hin)]
  · rw [chains, chains, if_neg hin, if_neg (mt hsame.mp hin)]

namespace Ledger

variable (l : Ledger v T χ)

include l

theorem id_eq (h : ino.toNat < v.superblock.inodeCount.toNat) : (T ino).id = ino :=
  (Inode.fits_of_readAt (l.records ino h)).2

theorem fits (h : ino.toNat < v.superblock.inodeCount.toNat) : Inode.Fits (T ino).body :=
  (Inode.fits_of_readAt (l.records ino h)).1

theorem readInode_eq (h : ino.toNat < v.superblock.inodeCount.toNat) : v.readInode ino = .ok (T ino) := by
  rw [Volume.readInode_eq l.laidOut.toArranged l.sound h, l.records ino h]

theorem liveInode_ok (h : InUse v T ino) : liveInode v ino = .ok (T ino) := by
  have hfree : ¬ (T ino).isFree = true := by
    rw [Inode.isFree, decide_eq_true_eq]
    exact h.2
  rw [liveInode, l.readInode_eq h.1]
  simp only [bind, Except.bind]
  rw [if_neg hfree]
  rfl

theorem liveInode_error (h : ¬ InUse v T ino) : liveInode v ino = .error (.invalidInode ino.toNat) := by
  rw [liveInode]
  by_cases hin : ino.toNat < v.superblock.inodeCount.toNat
  · have hfree : (T ino).isFree = true := by
      rw [Inode.isFree, decide_eq_true_eq]
      by_contra hne
      exact h ⟨hin, hne⟩
    rw [l.readInode_eq hin]
    simp only [bind, Except.bind]
    rw [if_pos hfree]
    rfl
  · rw [readInode_of_le (Nat.le_of_not_lt hin)]
    rfl

theorem liveInode_iff {i : Inode} : liveInode v ino = .ok i ↔ InUse v T ino ∧ T ino = i := by
  by_cases h : InUse v T ino
  · rw [l.liveInode_ok h, Except.ok.injEq, and_iff_right h]
  · rw [l.liveInode_error h]
    exact iff_of_false (fun he => by cases he) fun hin => h hin.1

theorem nlinkOf_eq (h : ino.toNat < v.superblock.inodeCount.toNat) : v.nlinkOf ino = (T ino).nlink := by
  have hrecord := l.records ino h
  rw [record, Inode.readAt] at hrecord
  split at hrecord
  · rw [← Except.ok.inj hrecord]
    rfl
  · split at hrecord
    · rw [← Except.ok.inj hrecord]
      rfl
    · cases hrecord

theorem moves (hi : χ ino = some c) (m : Chain.Moves c v c' w) : Ledger w T (Function.update χ ino (some c')) where
  sound := m.evolves.sound
  synced := m.evolves.synced l.synced
  laidOut := by
    refine l.laidOut.evolves m.evolves (m.cell_metadata (l.accounts.held _ _ hi) l.sound (fun hm => ?_) ?_)
    · exact absurd hm.1 (by decide)
    · exact Nat.lt_of_lt_of_le (by decide) (Nat.le_trans (Nat.le_add_right _ _) l.laidOut.map_le)
  records j hj := by
    rw [m.evolves.superblock] at hj
    rw [record_congr m.evolves.superblock, l.records j hj]
    exact m.cell_metadata (l.accounts.held _ _ hi) l.sound (l.laidOut.not_inMap hj)
      (l.laidOut.toNat_inodeBlock hj).2
  accounts := l.accounts.moves hi m

theorem cell_putInode_data {i : Inode} (h : i.id.toNat < v.superblock.inodeCount.toNat) {b : UInt32}
    (hb : v.IsData b) : (v.putInode i).cell b = v.cell b := by
  rw [cell_putInode l.laidOut.toArranged l.sound h, if_neg]
  rintro rfl
  exact l.laidOut.not_isData h hb

theorem putInode {i : Inode} (h : i.id.toNat < v.superblock.inodeCount.toNat) (hfits : Inode.Fits i.body) :
    Ledger (v.putInode i) (Function.update T i.id i) χ where
  sound := (evolves_putInode l.laidOut.toArranged l.sound h).sound
  synced := (evolves_putInode l.laidOut.toArranged l.sound h).synced l.synced
  laidOut := by
    have hne : superblockBlock ≠ v.inodeBlock i.id := by
      intro he
      have htable := l.laidOut.table
      have hhome := (l.laidOut.toNat_inodeBlock h).1
      rw [← he] at hhome
      have hone : superblockBlock.toNat = 1 := rfl
      have htwo : firstMapBlock.toNat = 2 := rfl
      omega
    apply l.laidOut.evolves (evolves_putInode l.laidOut.toArranged l.sound h)
    rw [cell_putInode l.laidOut.toArranged l.sound h, if_neg hne]
  records j hj := by
    rw [record_putInode l.laidOut.toArranged l.sound h hfits]
    by_cases hji : j = i.id
    · rw [if_pos hji, hji, Function.update_self]
    · rw [if_neg hji, Function.update_of_ne hji, l.records j hj]
  accounts := l.accounts.frame (evolves_putInode l.laidOut.toArranged l.sound h) freeMap_putInode
    fun _ hb => l.cell_putInode_data h hb

theorem untouched_putInode {i : Inode} (h : i.id.toNat < v.superblock.inodeCount.toNat) (held : d.Held v) :
    d.Untouched v (v.putInode i) := fun _ hb => l.cell_putInode_data h (held.owns_data hb).1

theorem writeInode_eq {i : Inode} (h : i.id.toNat < v.superblock.inodeCount.toNat) :
    writeInode i v = .ok () (v.putInode i) := Volume.writeInode_eq l.laidOut.toArranged l.sound h

theorem drop (ino : UInt32) (hempty : ∀ c, χ ino = some c → c.blockCount = 0) : Ledger v T (Function.update χ ino none) := by
  refine { l with accounts := l.accounts.congr_empty (fun j c hj => ?_) fun j c hc => ?_ }
  · by_cases hji : j = ino
    · rw [hji, Function.update_self] at hj
      cases hj
    · rw [Function.update_of_ne hji] at hj
      exact l.accounts.held j c hj
  · by_cases hji : j = ino
    · rw [hji, Function.update_self]
      exact iff_of_false (fun he => by cases he) fun he => hc (hempty c he)
    · rw [Function.update_of_ne hji]

theorem add (ino : UInt32) (hnone : χ ino = none) : Ledger v T (Function.update χ ino (some .empty)) := by
  refine { l with accounts := l.accounts.congr_empty (fun j c hj => ?_) fun j c hc => ?_ }
  · by_cases hji : j = ino
    · rw [hji, Function.update_self, Option.some.injEq] at hj
      rw [← hj]
      exact Chain.held_empty v
    · rw [Function.update_of_ne hji] at hj
      exact l.accounts.held j c hj
  · by_cases hji : j = ino
    · rw [hji, Function.update_self, hnone, Option.some.injEq]
      refine iff_of_false ?_ fun he => by cases he
      rintro rfl
      exact hc rfl
    · rw [Function.update_of_ne hji]

end Ledger

end FileSystem

end ImageFS
