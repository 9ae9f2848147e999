import ImageFS.Proofs.Chain.Accounts
import ImageFS.Proofs.Volume.TableFaults

/-!
# Chains while the inode table refuses writes

The index blocks of a held chain are data blocks, and so are those that it takes. So nothing that its growth writes
goes to the inode table, and it grows as on a sound device. The other way round, no chain is touched when a record is
written, in part or as a whole.
-/

set_option autoImplicit false

namespace ImageFS.Chain

open Volume

variable {f : Faults} {c c' : Chain} {v w x y : Volume} {i : Inode} {table : UInt32} {outer sector : Nat}

theorem Held.isData_table (h : c.Held v) (hv : v.Sound) (hdoubly : c.doubly ≠ nullPointer)
    (hread : v.readPointer c.doubly outer = .ok table) (htable : table ≠ nullPointer) : v.IsData table := by
  have hslot : outer < pointersPerBlock := by
    by_contra hout
    rw [Volume.readPointer, checkPointerSlot, if_pos (Nat.le_of_not_lt hout)] at hread
    cases hread
  have hdata : v.IsData c.doubly := h.data .doubly hdoubly
  rw [readPointer_eq hv hdata.2 hslot, Except.ok.injEq] at hread
  have hpointer : c.pointer v.cell (.table outer) = table := by
    rw [pointer_of_parent (Place.parent_table outer), ← hread]
    exact follow_of_ne _ hdoubly outer
  exact hpointer ▸ h.data (.table outer) (hpointer ▸ htable)

theorem Held.agree_extend (held : c.Held x) (h : Beside f v x y) (slot : Slot) :
    Agree (Beside f v) (c.extend slot x) (c.extend slot y) := by
  have hdata : ∀ {p : Place}, c.pointer x.cell p ≠ nullPointer → v.IsData (c.pointer x.cell p) := fun hp =>
    (h.evolves.isData_iff _).mp (held.data _ hp)
  cases slot with
  | direct i => exact h.withFresh fun data u u' _ _ hu => .ok hu
  | indirect i =>
    rw [extend]
    split
    · refine h.withFresh fun table u u' _ htable hu => hu.withFresh fun data t t' _ _ ht => ?_
      exact (Beside.respects_writePointer htable i data).bind (fun _ => .pure _) t t' ht
    · next hne =>
      refine h.withFresh fun data u u' _ _ hu => ?_
      exact (Beside.respects_writePointer (hdata (p := .indirect) hne) i data).bind (fun _ => .pure _) u u' hu
  | doubly outer inner =>
    rw [extend]
    split
    · refine h.withFresh fun top u u' _ htop hu => hu.withFresh fun table t t' _ htable ht =>
        ht.withFresh fun data r r' _ _ hr => ?_
      exact (Beside.respects_writePointer htop outer table).bind (fun _ =>
        (Beside.respects_writePointer htable inner data).bind fun _ => .pure _) r r' hr
    · next hne =>
      have htop := hdata (p := .doubly) hne
      refine .ask h (h.sameReads.readPointer c.doubly outer) fun old _ => ?_
      split
      · refine h.withFresh fun table u u' _ htable hu => hu.withFresh fun data t t' _ _ ht => ?_
        refine Respects.tryCatch (.bind (Beside.respects_writePointer htop outer table) fun _ =>
          .bind (Beside.respects_writePointer htable inner data) fun _ => .pure _) (fun e => ?_) t t' ht
        exact .bind (.tryCatch (Beside.respects_writePointer htop outer nullPointer) fun _ => .pure _) fun _ => .throw e
      · refine h.withFresh fun data u u' fresh _ hu => ?_
        -- the table is looked up once more after the new block was taken
        have held' := held.taken (fresh.taken h.sound)
        refine .ask hu (hu.sameReads.readPointer c.doubly outer) fun entry hentry => ?_
        refine .ask hu rfl fun table hrequired => ?_
        obtain rfl := eq_of_required hrequired
        have htable := held'.isData_table hu.sound hne hentry (ne_of_required hrequired)
        exact (Beside.respects_writePointer ((hu.evolves.isData_iff _).mp htable) inner data).bind (fun _ => .pure _)
          u u' hu

theorem Held.agree_grow (held : c.Held x) (h : Beside f v x y) : Agree (Beside f v) (c.grow x) (c.grow y) := by
  rw [grow]
  split
  · exact .error h
  · exact (held.agree_extend h _).bind fun _ _ _ _ hs => .ok hs

theorem Held.grow_ends (held : c.Held x) (h : Beside f v x y) :
    Ends (fun c' t => ∃ u, Beside f v u t ∧ Grown c x c' u ∧ c'.size = .ofNat ((c.blockCount + 1) * blockSize) ∧
        c'.blockCount = c.blockCount + 1)
      (fun _ t => ∃ u, Beside f v u t ∧ Restored x u) (c.grow y) := by
  by_cases hlong : 65802 ≤ c.blockCount
  · rw [grow_tooLarge hlong]
    exact .error ⟨x, h, .refl h.sound⟩
  · have hshort := Nat.lt_of_not_le hlong
    by_cases hfree : cost (c.blockCount + 1) ≤ cost c.blockCount + x.freeBlocks
    · obtain ⟨c', u, hrun, size, count, grown⟩ := grow_ok held h.sound hshort hfree
      obtain ⟨t, hy, ht⟩ := (held.agree_grow h).of_ok hrun
      rw [hy]
      exact .ok ⟨u, ht, grown, size, count⟩
    · obtain ⟨u, hrun, restored⟩ := grow_noSpace held h.sound hshort (Nat.lt_of_not_le hfree)
      obtain ⟨t, hy, ht⟩ := (held.agree_grow h).of_error hrun
      rw [hy]
      exact .error ⟨u, ht, restored⟩

theorem Moves.nlinkOf_eq (m : Moves c v c' w) (held : c.Held v) (l : v.Arranged) (hv : v.Sound) {j : UInt32}
    (hj : j.toNat < v.superblock.inodeCount.toNat) : w.nlinkOf j = v.nlinkOf j :=
  nlinkOf_congr m.evolves.superblock (m.cell_metadata held hv (l.not_inMap hj) (l.toNat_inodeBlock hj).2)

section

variable (p : PutBefore v i sector w) (l : v.Arranged) (hi : i.id.toNat < v.superblock.inodeCount.toNat) (held : c.Held v)

include p l hi held

theorem untouched_of_putBefore : c.Untouched v w := fun _ hb =>
  p.cell _ fun he => l.not_isData hi (he ▸ (held.owns_data hb).1)

theorem held_of_putBefore : c.Held w := by
  refine (untouched_of_putBefore p l hi held).held held p.evolves fun b hb => ?_
  rw [Busy, p.freeMap]
  exact (held.owns_data hb).2

end

end ImageFS.Chain
