import ImageFS.Proofs.Chain.Extension

/-!
# Shrinking a chain

The last block of a held chain is given back together with the index blocks that name nothing else.
The places that were born with it are emptied one by one, from below: a block is given back first, then
the pointer to it is cleared.
-/

set_option autoImplicit false

namespace ImageFS.Chain

open Volume

variable {c c' c'' : Chain} {v w x u : Volume} {ps : List Place} {p q : Place} {i : Nat}

/-- The blocks at the places `ps` were given back, and nothing stands there any more. -/
structure Cut (c : Chain) (v : Volume) (ps : List Place) (c' : Chain) (w : Volume) : Prop where
  evolves : Evolves v w
  bits : ∀ i, w.freeMap.bit i = true ↔ v.freeMap.bit i = true ∨ ∃ p ∈ ps, (c.pointer v.cell p).toNat = i
  freeBlocks : w.freeBlocks = v.freeBlocks + ps.length
  cell : ∀ b, ¬ v.InMap b →
    (∀ q : Place, q.IsIndex → c.pointer v.cell q ≠ nullPointer → c.pointer v.cell q ≠ b) → w.cell b = v.cell b
  pointer : ∀ r, c'.pointer w.cell r = if r ∈ ps then nullPointer else c.pointer v.cell r

theorem Cut.nil (hv : v.Sound) : Cut c v [] c v where
  evolves := .refl hv
  bits i := by simp
  freeBlocks := rfl
  cell _ _ _ := rfl
  pointer r := by simp

section

variable (h : c.Held v) (cut : Cut c v ps c' w)

include cut in
theorem Cut.pointer_of_not_mem (hp : p ∉ ps) : c'.pointer w.cell p = c.pointer v.cell p := by
  rw [cut.pointer, if_neg hp]

include h cut

theorem Cut.busy (hp : p ∉ ps) (hb : p.birth < c.blockCount) : w.Busy (c.pointer v.cell p) := by
  have hne := (h.shape p).mpr hb
  rw [Busy, ← Bool.not_eq_true, cut.bits, h.busy p hne]
  rintro (hfalse | ⟨q, hq, he⟩)
  · cases hfalse
  · obtain rfl := h.apart p q hne (UInt32.toNat_inj.mp he).symm
    exact hp hq

theorem Cut.isData (hb : p.birth < c.blockCount) : w.IsData (c.pointer v.cell p) :=
  (cut.evolves.isData_iff _).mpr (h.data p ((h.shape p).mpr hb))

theorem Cut.pointer_given (given : Given w (c.pointer v.cell p) x) (r : Place) :
    c'.pointer x.cell r = c'.pointer w.cell r := by
  refine pointer_congr (fun q _ hq => given.cell _ fun hm => ?_) r
  have hm := (cut.evolves.inMap_iff _).mp hm
  rw [cut.pointer] at hq hm
  split at hq
  · exact hq rfl
  · rename_i hmem
    rw [if_neg hmem] at hm
    exact IsData.not_inMap (h.data q hq) hm

omit h in
theorem Cut.next (given : Given w (c.pointer v.cell p) x) (evolves : Evolves x u)
    (map : u.freeMap = x.freeMap)
    (cell : ∀ b, ¬ v.InMap b → (∀ q : Place, q.IsIndex → c.pointer v.cell q ≠ nullPointer → c.pointer v.cell q ≠ b) →
      u.cell b = x.cell b)
    (pointer : ∀ r, c''.pointer u.cell r = if r = p then nullPointer else c'.pointer w.cell r) :
    Cut c v (p :: ps) c'' u where
  evolves := (cut.evolves.trans given.evolves).trans evolves
  bits i := by
    rw [map, given.bits, cut.bits]
    simp only [List.mem_cons, exists_eq_or_imp]
    constructor
    · rintro ((hb | hb) | hb)
      · exact .inl hb
      · exact .inr (.inr hb)
      · exact .inr (.inl hb)
    · rintro (hb | hb | hb)
      · exact .inl (.inl hb)
      · exact .inr hb
      · exact .inl (.inr hb)
  freeBlocks := by
    have hfree : u.freeBlocks = x.freeBlocks := by
      rw [Volume.freeBlocks, map]
      rfl
    rw [hfree, given.freeBlocks, cut.freeBlocks, List.length_cons]
    omega
  cell b hm hidx := by
    have hmw : ¬ w.InMap b := fun hin => hm ((cut.evolves.inMap_iff b).mp hin)
    rw [cell b hm hidx, given.cell b hmw, cut.cell b hm hidx]
  pointer r := by
    rw [pointer, cut.pointer]
    by_cases hr : r = p
    · simp [hr]
    · simp [hr]

theorem Cut.unlink (hb : p.birth < c.blockCount) (hlong : p.birth < 65802)
    (hpar : p.parent? = some (q, i)) (hq : q ∉ ps) (given : Given w (c.pointer v.cell p) x)
    (below : ∀ (r : Place) (j : Nat), r.parent? = some (p, j) → c'.pointer w.cell r = nullPointer) :
    Cut c v (p :: ps) c' (x.put (c.pointer v.cell q) ((x.cell (c.pointer v.cell q)).setPointer i nullPointer)) := by
  have hqb : q.birth < c.blockCount := Nat.lt_of_le_of_lt (Place.birth_parent_le hpar) hb
  have hqne := (h.shape q).mpr hqb
  have hqdata := (given.evolves.isData_iff _).mpr (cut.isData h hqb)
  have hx := given.evolves.sound
  have hcell := cell_put hx hqdata.2 ((x.cell (c.pointer v.cell q)).setPointer i nullPointer)
  have hsame := cut.pointer_given h given
  have hlink := pointer_link hpar (Place.slot_lt hpar hlong) ((hsame q).trans (cut.pointer_of_not_mem hq)) hqne hcell
    (fun r hr => ?_) (fun r j hr => (hsame r).trans (below r j hr)) (fun r j _ => follow_null _ j)
  · refine cut.next given (hx.evolves_put_data hqdata _) (freeMap_put _ _) (fun b _ hidx => ?_) fun r => ?_
    · rw [hcell, if_neg]
      rintro rfl
      exact hidx q (Place.isIndex_parent hpar) hqne rfl
    · rw [hlink, hsame]
  · rw [hsame, cut.pointer] at hr
    split at hr
    · exact absurd hr.symm hqne
    · exact h.apart r q (by rw [hr]; exact hqne) hr

theorem Cut.unroot (hpar : p.parent? = none) (given : Given w (c.pointer v.cell p) x)
    (root : ∀ r : Place, r.parent? = none → c''.root r = if r = p then nullPointer else c'.root r)
    (below : ∀ (r : Place) (j : Nat), r.parent? = some (p, j) → c'.pointer w.cell r = nullPointer) :
    Cut c v (p :: ps) c'' x := by
  have hsame := cut.pointer_given h given
  refine cut.next given (.refl given.evolves.sound) rfl (fun _ _ _ => rfl) fun r => ?_
  rw [pointer_reroot hpar root (fun r j hr => (hsame r).trans (below r j hr)) (fun r j _ => follow_null _ j), hsame]

end

section

variable (h : c.Held v) (cut : Cut c v ps c' w)

include h cut

theorem Cut.null (hp : p ∈ ps ∨ c.blockCount ≤ p.birth) : c'.pointer w.cell p = nullPointer := by
  rw [cut.pointer]
  split
  · rfl
  · rename_i hmem
    exact (h.null_iff p).mpr (hp.resolve_left hmem)

theorem Cut.free_eq (hp : p ∉ ps) (hb : p.birth < c.blockCount) :
    ∃ x, free (c.pointer v.cell p) w = .ok () x ∧ Given w (c.pointer v.cell p) x := by
  have hdata := cut.isData h hb
  have hw := cut.evolves.sound
  exact ⟨_, Volume.free_eq hw hdata, hw.given hdata (cut.busy h hp hb)⟩

theorem Cut.run_unlink (hp : p ∉ ps) (hb : p.birth < c.blockCount)
    (hpar : p.parent? = some (q, i)) (hq : q ∉ ps)
    (below : ∀ (r : Place) (j : Nat), r.parent? = some (p, j) → r ∈ ps ∨ c.blockCount ≤ r.birth) :
    ∃ x u, free (c.pointer v.cell p) w = .ok () x ∧
      writePointer (c.pointer v.cell q) i nullPointer x = .ok () u ∧ Cut c v (p :: ps) c' u := by
  have hlong : p.birth < 65802 := Nat.lt_of_lt_of_le hb h.short
  have hqb : q.birth < c.blockCount := Nat.lt_of_le_of_lt (Place.birth_parent_le hpar) hb
  obtain ⟨x, hfree, given⟩ := cut.free_eq h hp hb
  have hdata := (given.evolves.isData_iff _).mpr (cut.isData h hqb)
  have hwrite := writePointer_eq given.evolves.sound hdata.2 (Place.slot_lt hpar hlong) nullPointer
  exact ⟨x, _, hfree, hwrite, cut.unlink h hb hlong hpar hq given fun r j hr => cut.null h (below r j hr)⟩

theorem Cut.run_unroot (hp : p ∉ ps) (hb : p.birth < c.blockCount) (hpar : p.parent? = none)
    (root : ∀ r : Place, r.parent? = none → c''.root r = if r = p then nullPointer else c'.root r)
    (below : ∀ (r : Place) (j : Nat), r.parent? = some (p, j) → r ∈ ps ∨ c.blockCount ≤ r.birth) :
    ∃ u, free (c.pointer v.cell p) w = .ok () u ∧ Cut c v (p :: ps) c'' u := by
  obtain ⟨x, hfree, given⟩ := cut.free_eq h hp hb
  exact ⟨x, hfree, cut.unroot h hpar given root fun r j hr => cut.null h (below r j hr)⟩

end

section

variable {table data : UInt32} {outer inner : Nat}

theorem retract_indirect (hindirect : c.indirect ≠ nullPointer) (hread : v.readPointer c.indirect i = .ok data)
    (hdata : data ≠ nullPointer) (hfree : free data v = .ok () x)
    (hwrite : writePointer c.indirect i nullPointer x = .ok () u) :
    c.retract (.indirect i) v =
      (if i = 0 then do
        free c.indirect
        return { c with indirect := nullPointer }
      else return c : VolumeM Chain) u := by
  rw [retract, bind_of_ok (ask_required hindirect .indirect v), bind_of_ok (ask_of_ok hread),
    bind_of_ok (ask_required hdata .data v), bind_of_ok hfree, bind_of_ok hwrite]

theorem retract_doubly (hdoubly : c.doubly ≠ nullPointer) (htop : v.readPointer c.doubly outer = .ok table)
    (htable : table ≠ nullPointer) (hread : v.readPointer table inner = .ok data) (hdata : data ≠ nullPointer)
    (hfree : free data v = .ok () x) (hwrite : writePointer table inner nullPointer x = .ok () u) :
    c.retract (.doubly outer inner) v =
      (if inner = 0 then do
        free table
        writePointer c.doubly outer nullPointer
        if outer = 0 then do
          free c.doubly
          return { c with doubly := nullPointer }
        else return c
      else return c : VolumeM Chain) u := by
  rw [retract, bind_of_ok (ask_required hdoubly .doublyIndirect v), bind_of_ok (ask_of_ok htop),
    bind_of_ok (ask_required htable .indirect v), bind_of_ok (ask_of_ok hread),
    bind_of_ok (ask_required hdata .data v), bind_of_ok hfree, bind_of_ok hwrite]

end

/-- Taking the last block, which is the block `n`, out of its slot succeeds. -/
def Retractable (c : Chain) (v : Volume) (n : Nat) (slot : Slot) : Prop :=
  ∃ c' u, c.retract slot v = .ok c' u ∧ c'.size = c.size ∧ Cut c v (Place.bornAt n) c' u

section

variable {n : Nat} (h : c.Held v) (hv : v.Sound) (hn : c.blockCount = n + 1)

include h hv hn

theorem retractable_direct (hlow : n < 10) : Retractable c v n (.direct n) := by
  have hdata := (h.shape (.data n)).mpr (by rw [hn]; exact Nat.lt_succ_self n)
  have hroot : c.pointer v.cell (.data n) = c.directAt n := pointer_of_root (Place.parent_direct hlow)
  obtain ⟨u, hfree, cut⟩ := (Cut.nil hv).run_unroot h List.not_mem_nil ((h.shape _).mp hdata)
    (Place.parent_direct hlow) (fun r _ => root_setDirect hlow r) fun r j hr => no_parent_data hr
  rw [hroot] at hdata hfree
  rw [Retractable, retract, bornAt_direct hlow]
  refine ⟨c.setDirect n nullPointer, u, ?_, rfl, cut⟩
  rw [bind_of_ok (ask_required hdata .data v)]
  exact bind_of_ok hfree

theorem cut_data (hpar : (Place.data n).parent? = some (q, i)) :
    ∃ x u, free (c.pointer v.cell (.data n)) v = .ok () x ∧
      writePointer (c.pointer v.cell q) i nullPointer x = .ok () u ∧ Cut c v [.data n] c u := by
  have hb : (Place.data n).birth < c.blockCount := by
    rw [hn]
    exact Nat.lt_succ_self n
  exact (Cut.nil hv).run_unlink h List.not_mem_nil hb hpar List.not_mem_nil fun r j hr => no_parent_data hr

omit hv hn in
theorem Cut.drop_indirect (hn : c.blockCount = 11) (cut : Cut c v [.data 10] c w) :
    ∃ u, free c.indirect w = .ok () u ∧ Cut c v [.indirect, .data 10] { c with indirect := nullPointer } u := by
  have hb : Place.indirect.birth < c.blockCount := by
    rw [hn]
    decide
  have hroot : ∀ r : Place, r.parent? = none → ({ c with indirect := nullPointer } : Chain).root r =
      if r = .indirect then nullPointer else c.root r := fun r _ => by cases r <;> rfl
  refine cut.run_unroot h (by simp) hb rfl hroot fun r j hr => ?_
  rcases Place.parent_cases hr with ⟨k, rfl, hk, -⟩ | ⟨k, rfl, -, hq, -⟩ | ⟨rfl, hq⟩
  · rw [List.mem_singleton, Place.data.injEq, Place.birth_data]
    omega
  · cases hq
  · cases hq

omit hv in
theorem Cut.drop_table (hlow : 266 ≤ n) (hinner : (n - 266) % 256 = 0) (cut : Cut c v [.data n] c w) :
    ∃ x u, free (c.pointer v.cell (.table ((n - 266) / 256))) w = .ok () x ∧
      writePointer c.doubly ((n - 266) / 256) nullPointer x = .ok () u ∧
      Cut c v [.table ((n - 266) / 256), .data n] c u := by
  have hb : (Place.table ((n - 266) / 256)).birth < c.blockCount := by
    rw [Place.birth_table]
    omega
  rw [← pointer_doubly c v.cell]
  refine cut.run_unlink h (by simp) hb (Place.parent_table _) (by simp) fun r j hr => ?_
  rcases Place.parent_cases hr with ⟨k, rfl, -, -, hq, -⟩ | ⟨k, rfl, hk, hq, -⟩ | ⟨rfl, hq⟩
  · cases hq
  · rw [Place.table.injEq] at hq
    rw [List.mem_singleton, Place.data.injEq, Place.birth_data]
    omega
  · cases hq

omit hv hn in
theorem Cut.drop_doubly (hn : c.blockCount = 267) (cut : Cut c v [.table 0, .data 266] c w) :
    ∃ u, free c.doubly w = .ok () u ∧
      Cut c v [.doubly, .table 0, .data 266] { c with doubly := nullPointer } u := by
  have hb : Place.doubly.birth < c.blockCount := by
    rw [hn]
    decide
  have hroot : ∀ r : Place, r.parent? = none → ({ c with doubly := nullPointer } : Chain).root r =
      if r = .doubly then nullPointer else c.root r := fun r _ => by cases r <;> rfl
  refine cut.run_unroot h (by simp) hb rfl hroot fun r j hr => ?_
  rcases Place.parent_cases hr with ⟨k, rfl, -, -, hq, -⟩ | ⟨k, rfl, -, hq, -⟩ | ⟨rfl, hq⟩
  · cases hq
  · cases hq
  · rw [List.mem_cons, Place.table.injEq, Place.birth_table]
    omega

theorem retractable_indirect (hlow : 10 ≤ n) (hhigh : n < 266) : Retractable c v n (.indirect (n - 10)) := by
  have hpar := Place.parent_indirect hlow hhigh
  have hdata := (h.shape (.data n)).mpr (by rw [hn]; exact Nat.lt_succ_self n)
  have hindirect := (h.shape .indirect).mpr (by rw [Place.birth_indirect]; omega)
  have hread := h.readPointer hv hpar (by rw [Place.birth_data]; omega) ((h.shape _).mp hindirect)
  obtain ⟨x, u, hfree, hwrite, cut⟩ := cut_data h hv hn hpar
  rw [Retractable, retract_indirect hindirect hread hdata hfree hwrite]
  by_cases hfirst : n = 10
  · subst hfirst
    obtain ⟨u', hfree', cut⟩ := cut.drop_indirect h hn
    refine ⟨{ c with indirect := nullPointer }, u', ?_, rfl, cut⟩
    rw [if_pos rfl]
    exact bind_of_ok hfree'
  · rw [if_neg (by omega), bornAt_indirect (by omega) hhigh]
    exact ⟨c, u, rfl, rfl, cut⟩

theorem retractable_doubly (hlow : 266 ≤ n) :
    Retractable c v n (.doubly ((n - 266) / 256) ((n - 266) % 256)) := by
  have hshort := h.short
  have hpar := Place.parent_doubly hlow
  have hdata := (h.shape (.data n)).mpr (by rw [hn]; exact Nat.lt_succ_self n)
  have hdoubly := (h.shape .doubly).mpr (by rw [Place.birth_doubly]; omega)
  have htable := (h.shape (.table ((n - 266) / 256))).mpr (by rw [Place.birth_table]; omega)
  have htop := h.readPointer hv (Place.parent_table ((n - 266) / 256)) (by rw [Place.birth_table]; omega)
    ((h.shape _).mp hdoubly)
  have hread := h.readPointer hv hpar (by rw [Place.birth_data]; omega) ((h.shape _).mp htable)
  obtain ⟨x, u, hfree, hwrite, cut⟩ := cut_data h hv hn hpar
  rw [Retractable, retract_doubly hdoubly htop htable hread hdata hfree hwrite]
  by_cases hinner : (n - 266) % 256 = 0
  · obtain ⟨y, u', hfree', hwrite', cut⟩ := cut.drop_table h hn hlow hinner
    rw [if_pos hinner, bind_of_ok hfree', bind_of_ok hwrite']
    by_cases houter : (n - 266) / 256 = 0
    · obtain rfl : n = 266 := by omega
      obtain ⟨u'', hfree'', cut⟩ := cut.drop_doubly h hn
      refine ⟨{ c with doubly := nullPointer }, u'', ?_, rfl, cut⟩
      rw [if_pos rfl]
      exact bind_of_ok hfree''
    · rw [if_neg houter, bornAt_table (by omega) hinner]
      exact ⟨c, u', rfl, rfl, cut⟩
  · rw [if_neg hinner, bornAt_doubly (by omega) hinner]
    exact ⟨c, u, rfl, rfl, cut⟩

theorem retract_ok : Retractable c v n (Tiers.onDisk.locate n) := by
  rcases Place.tier_cases n with hlow | ⟨hlow, hhigh⟩ | hlow
  · rw [Place.locate_direct hlow]
    exact retractable_direct h hv hn hlow
  · rw [Place.locate_indirect hlow hhigh]
    exact retractable_indirect h hv hn hlow hhigh
  · rw [Place.locate_doubly hlow]
    exact retractable_doubly h hv hn hlow

end

section

variable {n : Nat} (h : c.Held v) (hn : c.blockCount = n + 1) (cut : Cut c v (Place.bornAt n) c' u)

include h hn cut

theorem Cut.owns_iff (b : UInt32) :
    c.Owns v b ↔ c'.Owns u b ∨ ∃ p ∈ Place.bornAt n, c.pointer v.cell p = b := by
  constructor
  · rintro ⟨hne, p, rfl⟩
    by_cases hp : p ∈ Place.bornAt n
    · exact .inr ⟨p, hp, rfl⟩
    · exact .inl ⟨hne, p, cut.pointer_of_not_mem hp⟩
  · rintro (⟨hne, p, rfl⟩ | ⟨p, hp, rfl⟩)
    · rw [cut.pointer] at hne ⊢
      split at hne
      · exact absurd rfl hne
      · rename_i hp
        rw [if_neg hp]
        exact ⟨hne, p, rfl⟩
    · have := (Place.mem_bornAt n p).mp hp
      exact ⟨(h.shape p).mpr (by omega), p, rfl⟩

omit h hn in
theorem Cut.busy_iff (b : UInt32) : u.Busy b ↔ v.Busy b ∧ ¬ ∃ p ∈ Place.bornAt n, c.pointer v.cell p = b := by
  have hbits := cut.bits b.toNat
  simp only [UInt32.toNat_inj] at hbits
  rw [Busy, Busy, ← Bool.not_eq_true, ← Bool.not_eq_true, hbits, not_or]

theorem Cut.held (count : c'.blockCount = n) : c'.Held u := by
  have hkept : ∀ p, c'.pointer u.cell p ≠ nullPointer → p ∉ Place.bornAt n := by
    intro p hp hmem
    rw [cut.pointer, if_pos hmem] at hp
    exact hp rfl
  refine ⟨fun p => ?_, fun p q hp he => ?_, fun p hp => ?_, fun p hp => ?_⟩
  · rw [cut.pointer]
    by_cases hmem : p ∈ Place.bornAt n
    · have := (Place.mem_bornAt n p).mp hmem
      rw [if_pos hmem]
      exact iff_of_false (fun hne => hne rfl) (by omega)
    · have hb := mt (Place.mem_bornAt n p).mpr hmem
      rw [if_neg hmem, h.shape]
      omega
  · have hq : q ∉ Place.bornAt n := hkept q (he ▸ hp)
    rw [cut.pointer_of_not_mem (hkept p hp), cut.pointer_of_not_mem hq] at he
    rw [cut.pointer_of_not_mem (hkept p hp)] at hp
    exact h.apart p q hp he
  · have hmem := hkept p hp
    rw [cut.pointer_of_not_mem hmem] at hp ⊢
    exact cut.isData h ((h.shape p).mp hp)
  · have hmem := hkept p hp
    rw [cut.pointer_of_not_mem hmem] at hp ⊢
    exact cut.busy h hmem ((h.shape p).mp hp)

theorem Cut.moves (count : c'.blockCount = n) : Moves c v c' u := by
  refine ⟨cut.evolves, cut.held h hn count, fun b => ?_, fun b hm _ ho => ?_⟩
  · rw [cut.busy_iff, cut.owns_iff h hn]
    constructor
    · rintro ⟨⟨hb, hno⟩, ho⟩
      exact ⟨hb, fun hc => hc.elim ho hno⟩
    · rintro ⟨hb, ho⟩
      exact ⟨⟨hb, fun hc => ho (.inr hc)⟩, fun hc => ho (.inl hc)⟩
  · exact cut.cell b hm fun q _ hq he => ho ⟨he ▸ hq, q, he⟩

theorem Cut.extends (count : c'.blockCount = n) : Extends c' u c v := by
  have hkept : ∀ p : Place, p.birth < n → c.pointer v.cell p = c'.pointer u.cell p := by
    intro p hp
    have hmem : p ∉ Place.bornAt n := fun hmem => by
      have := (Place.mem_bornAt n p).mp hmem
      omega
    exact (cut.pointer_of_not_mem hmem).symm
  refine ⟨by omega, fun p hp => hkept p (count ▸ hp), fun k hk => ?_, fun i => ?_, ?_⟩
  · have hp := (h.shape (.data k)).mpr (by rw [Place.birth_data]; omega)
    rw [← hkept (.data k) (count ▸ hk)]
    refine (cut.cell _ (IsData.not_inMap (h.data _ hp)) fun q hq hne he => ?_).symm
    obtain rfl := h.apart q _ hne he
    exact hq
  · rw [cut.bits]
    constructor
    · rintro (hi | ⟨p, hp, hi⟩)
      · exact .inl hi
      · have := (Place.mem_bornAt n p).mp hp
        exact .inr ⟨p, by omega, by omega, hi⟩
    · rintro (hi | ⟨p, hlow, hhigh, hi⟩)
      · exact .inl hi
      · exact .inr ⟨p, (Place.mem_bornAt n p).mpr (by omega), hi⟩
  · rw [cut.freeBlocks, hn, count, cost_succ]
    omega

end

end ImageFS.Chain
