import ImageFS.Proofs.Chain.Accounts
import Mathlib.Algebra.BigOperators.Group.Finset.Basic
import Mathlib.Order.Interval.Finset.Nat

/-!
# Counting blocks

A held chain stands on as many blocks as it costs. So when the accounts of a volume are exact, the free
blocks and the costs of all chains make up the blocks behind the metadata.
-/

set_option autoImplicit false

namespace ImageFS

namespace Place

def before (n : Nat) : List Place := (List.range n).flatMap bornAt

theorem mem_before (n : Nat) (p : Place) : p ∈ before n ↔ p.birth < n := by
  simp only [before, List.mem_flatMap, mem_bornAt, List.mem_range, exists_eq_right']

theorem nodup_bornAt (n : Nat) : (bornAt n).Nodup := by
  unfold bornAt
  split_ifs <;> simp

theorem nodup_before (n : Nat) : (before n).Nodup := by
  refine List.nodup_flatMap.mpr ⟨fun k _ => nodup_bornAt k, ?_⟩
  refine List.nodup_range.imp fun {j k} hne p hj hk => hne ?_
  rw [← (mem_bornAt j p).mp hj, ← (mem_bornAt k p).mp hk]

theorem length_before (n : Nat) : (before n).length = Chain.cost n := by
  induction n with
  | zero => rfl
  | succ n ih =>
    rw [before, List.range_succ, List.flatMap_append, List.length_append, Chain.cost_succ, ← ih, before,
      List.flatMap_singleton]

end Place

open Volume

namespace Chain

variable {c : Chain} {v : Volume}

def blocks (c : Chain) (v : Volume) : Finset Nat :=
  ((Place.before c.blockCount).map fun p => (c.pointer v.cell p).toNat).toFinset

theorem Held.mem_blocks (h : c.Held v) {b : UInt32} : b.toNat ∈ c.blocks v ↔ c.Owns v b := by
  simp only [blocks, List.mem_toFinset, List.mem_map, Place.mem_before, UInt32.toNat_inj]
  constructor
  · rintro ⟨p, hp, rfl⟩
    exact ⟨(h.shape p).mpr hp, p, rfl⟩
  · rintro ⟨hne, p, rfl⟩
    exact ⟨p, (h.shape p).mp hne, rfl⟩

theorem mem_blocks_lt {n : Nat} (h : n ∈ c.blocks v) : ∃ b : UInt32, b.toNat = n := by
  obtain ⟨p, -, rfl⟩ := List.mem_map.mp (List.mem_toFinset.mp h)
  exact ⟨_, rfl⟩

theorem Held.card_blocks (h : c.Held v) : (c.blocks v).card = cost c.blockCount := by
  have hnodup : ((Place.before c.blockCount).map fun p => (c.pointer v.cell p).toNat).Nodup := by
    refine List.Nodup.map_on (fun p hp q hq he => ?_) (Place.nodup_before _)
    exact h.apart p q ((h.shape p).mpr ((Place.mem_before _ p).mp hp)) (UInt32.toNat_inj.mp he)
  rw [blocks, List.toFinset_card_of_nodup hnodup, List.length_map, Place.length_before]

end Chain

namespace Volume

variable {v : Volume} {χ : UInt32 → Option Chain}

def busyData (v : Volume) : Finset Nat :=
  {b ∈ Finset.Ico v.dataStart v.freeMap.blockCount.toNat | ¬ v.freeMap.bit b = true}

theorem Sound.freeBlocks_add (hv : v.Sound) :
    v.freeBlocks + v.busyData.card = v.freeMap.blockCount.toNat - v.dataStart := by
  have hfree : v.freeBlocks =
      {b ∈ Finset.Ico v.dataStart v.freeMap.blockCount.toNat | v.freeMap.bit b = true}.card := by
    have hlist : v.freeBlocks = {b ∈ Finset.range v.freeMap.blockCount.toNat | v.freeMap.isFree b = true}.card := by
      rw [freeBlocks, FreeMap.freeCount_eq_countP, List.countP_eq_length_filter,
        ← List.toFinset_card_of_nodup (List.nodup_range.filter _), List.toFinset_filter, List.toFinset_range]
    rw [hlist]
    congr 1
    ext b
    simp only [Finset.mem_filter, Finset.mem_range, Finset.mem_Ico]
    constructor
    · rintro ⟨hb, hfree⟩
      refine ⟨⟨?_, hb⟩, (v.freeMap.isFree_eq_bit hb).symm.trans hfree⟩
      by_contra hlow
      rw [hv.guarded b (Nat.lt_of_not_le hlow)] at hfree
      cases hfree
    · rintro ⟨⟨-, hb⟩, hbit⟩
      exact ⟨hb, (v.freeMap.isFree_eq_bit hb).trans hbit⟩
  rw [hfree, busyData, Finset.card_filter_add_card_filter_not, Nat.card_Ico]

def blocksOf (v : Volume) (χ : UInt32 → Option Chain) (i : Nat) : Finset Nat :=
  ((χ (.ofNat i)).map (Chain.blocks · v)).getD ∅

theorem mem_blocksOf {i b : Nat} : b ∈ v.blocksOf χ i ↔ ∃ c, χ (.ofNat i) = some c ∧ b ∈ c.blocks v := by
  unfold blocksOf
  cases χ (.ofNat i) with
  | none => simp
  | some c => simp

namespace Accounts

variable (a : v.Accounts χ) {n : Nat}

include a

theorem card_blocksOf (i : Nat) :
    (v.blocksOf χ i).card = ((χ (.ofNat i)).map fun c => Chain.cost c.blockCount).getD 0 := by
  unfold blocksOf
  cases hc : χ (.ofNat i) with
  | none => rfl
  | some c => exact (a.held _ c hc).card_blocks

theorem disjoint_blocksOf (hn : n ≤ UInt32.size) :
    (Finset.range n : Set Nat).PairwiseDisjoint (v.blocksOf χ) := by
  intro i hi j hj hij
  refine Finset.disjoint_left.mpr fun b hb hb' => hij ?_
  obtain ⟨c, hc, hbc⟩ := mem_blocksOf.mp hb
  obtain ⟨d, hd, hbd⟩ := mem_blocksOf.mp hb'
  obtain ⟨x, rfl⟩ := Chain.mem_blocks_lt hbc
  have hsame := a.apart _ _ c d x hc hd ((a.held _ c hc).mem_blocks.mp hbc) ((a.held _ d hd).mem_blocks.mp hbd)
  have hi := UInt32.toNat_ofNat_of_lt' (Nat.lt_of_lt_of_le (Finset.mem_range.mp hi) hn)
  have hj := UInt32.toNat_ofNat_of_lt' (Nat.lt_of_lt_of_le (Finset.mem_range.mp hj) hn)
  rw [← hi, ← hj, hsame]

variable (bound : ∀ ino c, χ ino = some c → ino.toNat < n)

include bound

theorem busyData_eq : v.busyData = (Finset.range n).biUnion (v.blocksOf χ) := by
  ext b
  simp only [busyData, Finset.mem_filter, Finset.mem_Ico, Finset.mem_biUnion, Finset.mem_range, mem_blocksOf]
  constructor
  · rintro ⟨⟨hlow, hhigh⟩, hbit⟩
    have hnat : (UInt32.ofNat b).toNat = b :=
      UInt32.toNat_ofNat_of_lt' (Nat.lt_trans hhigh v.freeMap.blockCount.toNat_lt)
    have hdata : v.IsData (.ofNat b) := by
      rw [IsData, hnat]
      exact ⟨hlow, hhigh⟩
    have hbusy : v.Busy (.ofNat b) := by
      rw [Busy, hnat]
      exact Bool.not_eq_true _ ▸ hbit
    obtain ⟨ino, c, hc, howns⟩ := a.owned _ hdata hbusy
    refine ⟨ino.toNat, bound ino c hc, c, by rw [UInt32.ofNat_toNat, hc], ?_⟩
    rw [← hnat]
    exact (a.held ino c hc).mem_blocks.mpr howns
  · rintro ⟨i, hi, c, hc, hb⟩
    have held := a.held _ c hc
    obtain ⟨x, rfl⟩ := Chain.mem_blocks_lt hb
    obtain ⟨hdata, hbusy⟩ := held.owns_data (held.mem_blocks.mp hb)
    exact ⟨hdata, by rw [Bool.not_eq_true]; exact hbusy⟩

/-- The free blocks and the costs of the chains make up all blocks behind the metadata. -/
theorem freeBlocks_add (hv : v.Sound) (hn : n ≤ UInt32.size) :
    v.freeBlocks + ∑ i ∈ Finset.range n, ((χ (.ofNat i)).map fun c => Chain.cost c.blockCount).getD 0 =
      v.freeMap.blockCount.toNat - v.dataStart := by
  rw [← hv.freeBlocks_add, a.busyData_eq bound, Finset.card_biUnion (a.disjoint_blocksOf hn)]
  exact congrArg _ (Finset.sum_congr rfl fun i _ => (a.card_blocksOf i).symm)

end Accounts

end Volume

end ImageFS
