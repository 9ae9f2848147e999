import ImageFS.Proofs.Chain.Contents
import ImageFS.Proofs.Volume.Seated

/-!
# Chains laid out on a device

A chain is laid out on a device when all its blocks are found there, no block comes in it twice, and none
is read on the way to another. The free map has no part in this, and a held chain is laid out. Writing a
block of a chain that is laid out changes that block and leaves the chain laid out as it was.
-/

set_option autoImplicit false

namespace ImageFS.Chain

open Volume

variable {c : Chain} {v w : Volume} {k : Nat}

theorem lookup_congr (hs : v.device.checkSectorSize = .ok ())
    (same : ∀ q : Place, q.IsIndex → q.birth ≤ k → w.readBlock (c.pointer v.cell q) = v.readBlock (c.pointer v.cell q)) :
    c.lookup w (Tiers.onDisk.locate k) = c.lookup v (Tiers.onDisk.locate k) := by
  have slot : ∀ q : Place, q.IsIndex → q.birth ≤ k → ∀ i,
      w.readPointer (c.pointer v.cell q) i = v.readPointer (c.pointer v.cell q) i := by
    intro q hq hbirth i
    rw [readPointer, readPointer, same q hq hbirth]
  rcases Place.tier_cases k with hk | ⟨hk, hk'⟩ | hk
  · rw [Place.locate_direct hk]
    rfl
  · have hindirect : Place.indirect.birth ≤ k := hk
    rw [Place.locate_indirect hk hk', lookup, lookup]
    refine bind_congr_of_ok fun root hroot => ?_
    obtain rfl := eq_of_required hroot
    exact slot .indirect trivial hindirect _
  · have hdoubly : Place.doubly.birth ≤ k := hk
    have htable : (Place.table ((k - 266) / 256)).birth ≤ k := by
      rw [Place.birth_table]
      omega
    rw [Place.locate_doubly hk, lookup, lookup]
    refine bind_congr_of_ok fun root hroot => ?_
    obtain rfl := eq_of_required hroot
    have htop := slot .doubly trivial hdoubly ((k - 266) / 256)
    rw [pointer_doubly] at htop
    rw [htop]
    refine bind_congr_of_ok fun entry hentry => bind_congr_of_ok fun table hnext => ?_
    -- what is read in the slot is what stands at the place of the table
    have hplace : c.pointer v.cell (.table ((k - 266) / 256)) = entry := by
      rw [pointer, follow_of_ne _ (ne_of_required hroot), pointer_of_readPointer hs hentry]
    obtain rfl := eq_of_required hnext
    rw [← hplace]
    exact slot (.table ((k - 266) / 256)) trivial htable _

theorem blockAt_congr (hs : v.device.checkSectorSize = .ok ())
    (same : ∀ q : Place, q.IsIndex → q.birth ≤ k → w.readBlock (c.pointer v.cell q) = v.readBlock (c.pointer v.cell q)) :
    c.blockAt w k = c.blockAt v k := by
  rw [blockAt, blockAt, lookup_congr hs same]

/-- The blocks of a chain are found on a device without faults, all different, and none of them is an index block
that the chain needs. Writing one of them then leaves the way to all of them as it was. -/
structure Laid (c : Chain) (v : Volume) : Prop extends Mapped c v where
  device : v.device.Sound
  inside : ∀ k < c.blockCount, (c.pointer v.cell (.data k)).toNat < v.device.blockCount
  distinct : ∀ j < c.blockCount, ∀ k < c.blockCount,
    c.pointer v.cell (.data j) = c.pointer v.cell (.data k) → j = k
  apart : ∀ k < c.blockCount, ∀ q : Place, q.IsIndex → q.birth < c.blockCount →
    c.pointer v.cell (.data k) ≠ c.pointer v.cell q

theorem Held.laid (h : c.Held v) (hv : v.Sound) : c.Laid v where
  toMapped := h.mapped hv
  device := hv.device
  inside _ hk := hv.in_range (h.isData hk).2
  distinct _ hj _ _ he := h.data_injective hj he
  apart _ hk _ hq _ := h.data_ne_index hk hq

namespace Laid

variable (l : c.Laid v)

include l

theorem cell_put (hk : k < c.blockCount) (block : Block) (x : UInt32) :
    (v.put (c.pointer v.cell (.data k)) block).cell x =
      if x = c.pointer v.cell (.data k) then block else v.cell x :=
  Device.cell_put block (l.inside k hk) x

theorem pointer_put (hk : k < c.blockCount) (block : Block) {p : Place} (hp : p.birth < c.blockCount) :
    c.pointer (v.put (c.pointer v.cell (.data k)) block).cell p = c.pointer v.cell p := by
  refine pointer_congr_of_birth (n := c.blockCount) (fun q hq hbirth _ => ?_) p hp
  rw [l.cell_put hk, if_neg (l.apart k hk q hq hbirth).symm]

theorem readBlock_put (hk : k < c.blockCount) (block : Block) {x : UInt32} (hx : x ≠ c.pointer v.cell (.data k)) :
    (v.put (c.pointer v.cell (.data k)) block).readBlock x = v.readBlock x := by
  have hcount : (v.put (c.pointer v.cell (.data k)) block).device.blockCount = v.device.blockCount :=
    Device.blockCount_put block (l.inside k hk)
  by_cases hin : x.toNat < v.device.blockCount
  · have hnew : (v.put (c.pointer v.cell (.data k)) block).readBlock x = .ok _ :=
      Device.readBlock_eq (l.device.put _ _) (hcount.symm ▸ hin)
    have hold : v.readBlock x = .ok _ := Device.readBlock_eq l.device hin
    have hcell := l.cell_put hk block x
    rw [if_neg hx] at hcell
    rw [hnew, hold]
    exact congrArg Except.ok hcell
  · have hnew : (v.put (c.pointer v.cell (.data k)) block).readBlock x = .error _ := if_neg (hcount.symm ▸ hin)
    have hold : v.readBlock x = .error _ := if_neg hin
    rw [hnew, hold, hcount]

theorem blockAt_put (hk : k < c.blockCount) (block : Block) {j : Nat} (hj : j < c.blockCount) :
    c.blockAt (v.put (c.pointer v.cell (.data k)) block) j = .ok (c.pointer v.cell (.data j)) := by
  rw [← l.found j hj]
  refine blockAt_congr l.device.sectors fun q hq hbirth => l.readBlock_put hk block ?_
  exact (l.apart k hk q hq (Nat.lt_of_le_of_lt hbirth hj)).symm

theorem put (hk : k < c.blockCount) (block : Block) : c.Laid (v.put (c.pointer v.cell (.data k)) block) := by
  have same : ∀ j < c.blockCount,
      c.pointer (v.put (c.pointer v.cell (.data k)) block).cell (.data j) = c.pointer v.cell (.data j) :=
    fun j hj => l.pointer_put hk block (p := .data j) hj
  have device : (v.put (c.pointer v.cell (.data k)) block).device.Sound := l.device.put _ _
  have hcount : (v.put (c.pointer v.cell (.data k)) block).device.blockCount = v.device.blockCount :=
    Device.blockCount_put block (l.inside k hk)
  have inside : ∀ j < c.blockCount, (c.pointer (v.put (c.pointer v.cell (.data k)) block).cell (.data j)).toNat <
      (v.put (c.pointer v.cell (.data k)) block).device.blockCount := by
    intro j hj
    rw [same j hj, hcount]
    exact l.inside j hj
  refine ⟨⟨fun j hj => ?_, fun j hj => Device.readBlock_eq device (inside j hj)⟩, device, inside,
    fun i hi j hj he => ?_, fun j hj q hq hbirth => ?_⟩
  · rw [l.blockAt_put hk block hj, same j hj]
  · rw [same i hi, same j hj] at he
    exact l.distinct i hi j hj he
  · rw [same j hj, l.pointer_put hk block hbirth]
    exact l.apart j hj q hq hbirth

end Laid

end ImageFS.Chain
