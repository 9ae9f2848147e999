import ImageFS.Proofs.FileSystem.Reachable

/-!
# Who owns the blocks

In every reachable file system the free map tells exactly which blocks are metadata or in use by a file
or the root, and each block in use stands at one place of one of them.
-/

set_option autoImplicit false

namespace ImageFS.FileSystem

open Volume

/-- The chain in the record of an inode in use. -/
def chainOf (v : Volume) (ino : UInt32) : Option Chain := (liveInode v ino).toOption.bind Inode.chain?

/-- The block `b` stands at the place `p` of the chain of the inode `ino`. -/
def Uses (v : Volume) (ino : UInt32) (p : Place) (b : UInt32) : Prop :=
  ∃ c, chainOf v ino = some c ∧ b ≠ nullPointer ∧ c.pointer v.cell p = b

variable {v : Volume} {T : UInt32 → Inode} {ino i j : UInt32} {p q : Place} {b : UInt32} {c : Chain}

theorem uses_iff_owns : (∃ p, Uses v ino p b) ↔ ∃ c, chainOf v ino = some c ∧ c.Owns v b := by
  constructor
  · rintro ⟨p, c, hc, hne, hb⟩
    exact ⟨c, hc, hne, p, hb⟩
  · rintro ⟨c, hc, hne, p, hb⟩
    exact ⟨p, c, hc, hne, hb⟩

section

variable (a : v.Accounts (chainOf v))

include a

theorem place_unique (hi : Uses v i p b) (hj : Uses v j q b) : i = j ∧ p = q := by
  obtain ⟨c, hc, hne, hp⟩ := hi
  obtain ⟨d, hd, -, hq⟩ := hj
  obtain rfl := a.apart i j c d b hc hd ⟨hne, p, hp⟩ ⟨hne, q, hq⟩
  obtain rfl : c = d := Option.some.inj (hc.symm.trans hd)
  refine ⟨rfl, (a.held i c hc).apart p q ?_ (hp.trans hq.symm)⟩
  rw [hp]
  exact hne

theorem data_of_uses (hb : Uses v ino p b) : v.IsData b ∧ v.Busy b := by
  obtain ⟨c, hc, howns⟩ := uses_iff_owns.mp ⟨p, hb⟩
  exact (a.held ino c hc).owns_data howns

theorem taken_iff (l : v.Arranged) (hv : v.Sound) (hb : b < v.superblock.blockCount) :
    v.freeMap.isFree b.toNat = false ↔ b < v.superblock.firstDataBlock ∨ ∃ ino p, Uses v ino p b := by
  have hcount : b.toNat < v.freeMap.blockCount.toNat := by
    rw [← l.blockCount_eq]
    exact UInt32.lt_iff_toNat_lt.mp hb
  rw [FreeMap.isFree_eq_bit _ hcount]
  constructor
  · intro hbusy
    by_cases hlow : b < v.superblock.firstDataBlock
    · exact .inl hlow
    · have hdata : v.IsData b := l.isData_iff.mpr ⟨UInt32.not_lt.mp hlow, hb⟩
      obtain ⟨ino, c, hc, howns⟩ := a.owned b hdata hbusy
      exact .inr ⟨ino, uses_iff_owns.mpr ⟨c, hc, howns⟩⟩
  · rintro (hlow | ⟨ino, p, hused⟩)
    · apply hv.busy_of_lt
      rw [← l.firstData_eq]
      exact UInt32.lt_iff_toNat_lt.mp hlow
    · exact (data_of_uses a hused).2

end

namespace Consistent

variable (h : Consistent v T)

include h

theorem chainOf_eq (ino : UInt32) : chainOf v ino = chains v T ino := by
  by_cases hin : InUse v T ino
  · rw [chainOf, h.ledger.liveInode_ok hin, chains_of_inUse hin]
    rfl
  · rw [chainOf, h.ledger.liveInode_error hin, chains, if_neg hin]
    rfl

theorem accounts : v.Accounts (chainOf v) := by
  rw [show chainOf v = chains v T from funext h.chainOf_eq]
  exact h.ledger.accounts

theorem uses_iff : Uses v ino p b ↔ ∃ c, chains v T ino = some c ∧ b ≠ nullPointer ∧ c.pointer v.cell p = b := by
  rw [Uses, h.chainOf_eq]

theorem exists_uses_iff : (∃ p, Uses v ino p b) ↔ ∃ c, chains v T ino = some c ∧ c.Owns v b := by
  rw [uses_iff_owns, h.chainOf_eq]

theorem uses_injective (hi : Uses v i p b) (hj : Uses v j q b) : i = j ∧ p = q := place_unique h.accounts hi hj

theorem isData_iff : v.IsData b ↔ v.superblock.firstDataBlock ≤ b ∧ b < v.superblock.blockCount :=
  h.ledger.laidOut.isData_iff

theorem uses_isData (hb : Uses v ino p b) : v.IsData b := (data_of_uses h.accounts hb).1

theorem busy_iff (hb : b < v.superblock.blockCount) : v.freeMap.isFree b.toNat = false ↔
    b < v.superblock.firstDataBlock ∨ ∃ ino p, Uses v ino p b :=
  taken_iff h.accounts h.ledger.laidOut.toArranged h.ledger.sound hb

end Consistent

/-- The blocks of a reachable file system are accounted for: all records can be read, every block that a
file or the root reaches is found at its place and behind the metadata, no block stands at two places, and
the map, in memory as on the device, has as taken just the metadata and what is in use. -/
theorem blocks_accounted (h : Reachable v) :
    (∀ ino : UInt32, ino < v.superblock.inodeCount → ∃ i, v.readInode ino = .ok i) ∧
    (∀ ino c k, chainOf v ino = some c → k < c.blockCount →
      ∃ b, c.blockAt v k = .ok b ∧ Uses v ino (.data k) b) ∧
    (∀ i j p q b, Uses v i p b → Uses v j q b → i = j ∧ p = q) ∧
    (∀ ino p b, Uses v ino p b → v.superblock.firstDataBlock ≤ b ∧ b < v.superblock.blockCount) ∧
    (∀ b : UInt32, b < v.superblock.blockCount → (v.freeMap.isFree b.toNat = false ↔
      b < v.superblock.firstDataBlock ∨ ∃ ino p, Uses v ino p b)) ∧
    (∀ b : Nat, b < v.superblock.blockCount.toNat → v.readBlock (FreeMap.home b) = .ok (v.freeMap.part b)) := by
  obtain ⟨T, hT⟩ := h.consistent
  refine ⟨fun ino hino => ?_, fun ino c k hc hk => ?_, fun i j p q b => hT.uses_injective, fun ino p b hb => ?_,
    fun b hb => hT.busy_iff hb, fun b hb => ?_⟩
  · exact ⟨_, hT.ledger.readInode_eq (UInt32.lt_iff_toNat_lt.mp hino)⟩
  · rw [hT.chainOf_eq] at hc
    have held := hT.ledger.accounts.held ino c hc
    refine ⟨_, Chain.blockAt_eq held hT.ledger.sound hk, hT.uses_iff.mpr ⟨c, hc, ?_, rfl⟩⟩
    exact (held.shape (.data k)).mpr hk
  · exact hT.isData_iff.mp (hT.uses_isData hb)
  · rw [hT.ledger.laidOut.blockCount_eq] at hb
    rw [← hT.ledger.synced b hb]
    exact readBlock_eq hT.ledger.sound (hT.ledger.laidOut.home_in_range hT.ledger.sound hb)

theorem blocks_accounted_file : ∃ v b, Reachable v ∧ nameMap v ['a'.toUInt8] = some 2 ∧
    Uses v rootInode (.data 0) b ∧ v.superblock.firstDataBlock ≤ b ∧ v.freeMap.isFree b.toNat = false ∧
      ∀ j q, Uses v j q b → rootInode = j ∧ .data 0 = q := by
  obtain ⟨v, hv, hmap, -⟩ := exists_file
  obtain ⟨-, hfound, happart, hdata, hbusy, -⟩ := blocks_accounted hv
  obtain ⟨T, hT⟩ := hv.consistent
  have hchain : chainOf v rootInode = some (rootChain T) := by rw [hT.chainOf_eq, hT.chains_root]
  obtain ⟨-, s, hs, -⟩ := hT.nameMap_eq_some.mp hmap
  have hblock : 0 < (rootChain T).blockCount := Nat.zero_lt_of_lt (Chain.slot_block hs)
  obtain ⟨b, -, huses⟩ := hfound rootInode (rootChain T) 0 hchain hblock
  obtain ⟨hlow, hhigh⟩ := hdata rootInode (.data 0) b huses
  exact ⟨v, b, hv, hmap, huses, hlow, (hbusy b hhigh).mpr (.inr ⟨_, _, huses⟩),
    fun j q hj => happart rootInode j (.data 0) q b huses hj⟩

end ImageFS.FileSystem
