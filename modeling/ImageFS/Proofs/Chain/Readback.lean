import ImageFS.Proofs.Chain.Accounts
import ImageFS.Proofs.Record.Words

/-!
# What a volume finds in a chain

A byte of a chain is found by looking up its block and reading that. When only free blocks were written to,
the same bytes and pointers are found in every chain; and after a growth that was undone that is so, if
nothing was stored behind the end of the file.
-/

set_option autoImplicit false

namespace ImageFS

theorem Block.ext_pointer {a b : Block} (h : ∀ i < pointersPerBlock, a.pointer i = b.pointer i) : a = b := by
  refine Block.ext_byte fun i hi => ?_
  have hbyte := byteAt_of_wordAt (h (i / 4) (by
    simp only [blockSize, pointersPerBlock] at *
    omega)) (show i % 4 < 4 by omega)
  rwa [Nat.div_add_mod] at hbyte

theorem Place.exists_slot {q : Place} (hq : q.IsIndex) {i : Nat} (hi : i < pointersPerBlock) :
    ∃ p : Place, p.parent? = some (q, i) := by
  have hi : i < 256 := hi
  cases q with
  | data k => exact hq.elim
  | indirect => exact ⟨.data (10 + i), by rw [parent_indirect (by omega) (by omega), Nat.add_sub_cancel_left]⟩
  | doubly => exact ⟨.table i, parent_table i⟩
  | table o =>
    refine ⟨.data (266 + (o * 256 + i)), ?_⟩
    rw [parent_doubly (by omega), Nat.add_sub_cancel_left, show (o * 256 + i) / 256 = o by omega,
      show (o * 256 + i) % 256 = i by omega]

namespace Chain

open Volume

variable {c : Chain} {v w u : Volume} {k : Nat} {q : Place}

theorem cell_index (same : ∀ p, c.pointer u.cell p = c.pointer v.cell p) (hq : q.IsIndex)
    (hne : c.pointer v.cell q ≠ nullPointer) : u.cell (c.pointer v.cell q) = v.cell (c.pointer v.cell q) := by
  refine Block.ext_pointer fun i hi => ?_
  obtain ⟨p, hp⟩ := Place.exists_slot hq hi
  have hslot := same p
  rw [pointer_of_parent hp, pointer_of_parent hp, same q, follow_of_ne _ hne, follow_of_ne _ hne] at hslot
  exact hslot

theorem cell_data {j : Nat} (same : c.pointer u.cell (.data j) = c.pointer v.cell (.data j))
    (bytes : ∀ k, k / blockSize = j → c.byte u.cell k = c.byte v.cell k) :
    u.cell (c.pointer v.cell (.data j)) = v.cell (c.pointer v.cell (.data j)) := by
  refine Block.ext_byte fun i hi => ?_
  have hdiv : (j * blockSize + i) / blockSize = j := by
    simp only [blockSize] at *
    omega
  have hmod : (j * blockSize + i) % blockSize = i := by
    simp only [blockSize] at *
    omega
  have hbyte := bytes _ hdiv
  rwa [byte, byte, hdiv, hmod, same] at hbyte

/-- With zeros behind the end of the file, all that is in use stays. -/
theorem Kept.restored (kept : Kept c v u) (h : c.Held v)
    (tail : ∀ k, c.size.toNat ≤ k → k / blockSize < c.blockCount → c.byte v.cell k = 0) : Restored v u where
  evolves := kept.moves.evolves
  bits := kept.bits
  cell x hm hx := by
    by_cases ho : c.Owns v x
    · obtain ⟨hne, p, rfl⟩ := ho
      by_cases hp : p.IsIndex
      · exact cell_index kept.pointers hp hne
      · cases p with
        | data j =>
          refine cell_data (kept.pointers _) fun k hk => ?_
          have hin : k / blockSize < c.blockCount := hk ▸ (h.shape (.data j)).mp hne
          by_cases hsize : k < c.size.toNat
          · exact kept.bytes k hsize
          · have hzero := tail k (Nat.le_of_not_lt hsize) hin
            exact (kept.tail k (Nat.le_of_not_lt hsize) hin).elim (fun he => he.trans hzero.symm) id
        | indirect | doubly | table o => exact absurd trivial hp
    · exact kept.moves.cell x hm hx ho

end Chain

end ImageFS
