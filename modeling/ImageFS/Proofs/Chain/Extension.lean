import ImageFS.Proofs.Chain.Growth

/-!
# Extending a chain in each tier

The six ways in which a chain gets its next block: a direct pointer, a slot of the indirect block
with or without taking that block first, and a slot of a table, where the table or the
doubly-indirect block above it may be missing too.
-/

set_option autoImplicit false

namespace ImageFS.Chain

open Volume

variable {c c' : Chain} {v w u : Volume} {bs : List UInt32} {b t d : UInt32}

theorem bornAt_direct {n : Nat} (h : n < 10) : Place.bornAt n = [.data n] := by
  rw [Place.bornAt, if_neg (by omega), if_neg (by omega), if_neg (by omega)]

theorem bornAt_indirect {n : Nat} (h : 10 < n) (h' : n < 266) : Place.bornAt n = [.data n] := by
  rw [Place.bornAt, if_neg (by omega), if_neg (by omega), if_neg (by omega)]

theorem bornAt_table {n : Nat} (h : 266 < n) (h' : (n - 266) % 256 = 0) :
    Place.bornAt n = [.table ((n - 266) / 256), .data n] := by
  rw [Place.bornAt, if_neg (by omega), if_neg (by omega), if_pos ⟨h, h'⟩]

theorem bornAt_doubly {n : Nat} (h : 266 < n) (h' : (n - 266) % 256 ≠ 0) : Place.bornAt n = [.data n] := by
  rw [Place.bornAt, if_neg (by omega), if_neg (by omega), if_neg fun hc => h' hc.2]

theorem root_setDirect {n : Nat} (hn : n < 10) (r : Place) :
    (c.setDirect n d).root r = if r = .data n then d else c.root r := by
  cases r with
  | indirect => rfl
  | doubly => rfl
  | table outer => rfl
  | data k =>
    simp only [root, setDirect, directAt, Place.data.injEq, Vector.getElem?_setIfInBounds]
    by_cases hk : k = n
    · rw [if_pos hk.symm, if_pos hk, if_pos hn]
      rfl
    · rw [if_neg (Ne.symm hk), if_neg hk]

theorem no_parent_data {k j : Nat} {r : Place} {P : Prop} (h : r.parent? = some (.data k, j)) : P :=
  (Place.isIndex_parent h).elim

section

variable (h : c.Held v) (taken : Taken v bs w)

include h taken

theorem Held.null_taken {r : Place} (hr : c.blockCount ≤ r.birth) : c.pointer w.cell r = nullPointer := by
  rw [h.pointer_taken taken, h.null_iff]
  exact hr

theorem Held.null_below {p r : Place} {j : Nat} (hp : c.blockCount ≤ p.birth) (hr : r.parent? = some (p, j)) :
    c.pointer w.cell r = nullPointer :=
  h.null_taken taken (Nat.le_trans hp (Place.birth_parent_le hr))

end

theorem follow_zero {m : Memory} (hm : m b = .zero) (j : Nat) : follow m b j = nullPointer := by
  unfold follow
  split
  · rfl
  · rw [hm, Block.pointer_zero]

theorem extend_direct (h : c.Held v) (hv : v.Sound) (hn : c.blockCount < 10) (fresh : Fresh v d w) :
    Extended c v [d] (c.setDirect c.blockCount d) w := by
  have taken := fresh.taken hv
  have hpointer : ∀ r, (c.setDirect c.blockCount d).pointer w.cell r =
      if r = .data c.blockCount then d else c.pointer w.cell r :=
    pointer_reroot (Place.parent_direct hn) (fun r _ => root_setDirect hn r)
      (fun r j hr => no_parent_data hr) (fun r j hr => no_parent_data hr)
  have hdata : (c.setDirect c.blockCount d).pointer w.cell (.data c.blockCount) = d := by
    rw [hpointer, if_pos rfl]
  refine ⟨⟨w, taken, .refl taken.evolves.sound, rfl, fun _ _ _ _ => rfl⟩, ?_, fun p hp => ?_, ?_⟩
  · rw [bornAt_direct hn, List.map_singleton, hdata]
  · rw [hpointer, if_neg, h.pointer_taken taken]
    rintro rfl
    exact hp rfl
  · rw [hdata]
    exact taken.cell_mem List.mem_cons_self

/-- In all other cases the index places `qs` are filled with the blocks `ts`, and the new data block `d`
goes into the slot `i` of the block `t` at the place `q`. -/
structure Prepared (c : Chain) (v : Volume) (ts : List UInt32) (qs : List Place) (d : UInt32) (c' : Chain)
    (w u : Volume) (q : Place) (i : Nat) (t : UInt32) : Prop where
  taken : Taken v (ts ++ [d]) w
  evolves : Evolves w u
  map : u.freeMap = w.freeMap
  cell : ∀ x, ¬ v.InMap x → x ∉ ts →
    (∀ q : Place, q.IsIndex → c.pointer v.cell q ≠ nullPointer → c.pointer v.cell q ≠ x) → u.cell x = w.cell x
  index : ∀ r ∈ qs, r.IsIndex
  born : Place.bornAt c.blockCount = qs ++ [.data c.blockCount]
  new : qs.map (c'.pointer u.cell) = ts
  old : ∀ p, p ∉ qs → c'.pointer u.cell p = c.pointer v.cell p
  parent : (Place.data c.blockCount).parent? = some (q, i)
  slot : i < 256
  place : c'.pointer u.cell q = t
  data : v.IsData t

namespace Prepared

variable {ts : List UInt32} {qs : List Place} {q : Place} {i : Nat} (pr : Prepared c v ts qs d c' w u q i t)

include pr

theorem mem_new {r : Place} (hr : r ∈ qs) : c'.pointer u.cell r ∈ ts := by
  rw [← pr.new]
  exact List.mem_map_of_mem hr

theorem not_mem : d ∉ ts := fun hd =>
  (List.nodup_append.mp pr.taken.nodup).2.2 d hd d List.mem_cons_self rfl

variable (h : c.Held v)

include h

theorem pointer_ne {b : UInt32} (hb : b ∈ ts) (r : Place) : c.pointer v.cell r ≠ b :=
  h.pointer_ne_taken pr.taken (List.mem_append_left _ hb) r

theorem only {r : Place} (hr : c'.pointer u.cell r = t) : r = q := by
  have hq := pr.place
  by_cases hrq : r ∈ qs <;> by_cases hqq : q ∈ qs
  · have hnodup : (qs.map (c'.pointer u.cell)).Nodup := by
      rw [pr.new]
      exact (List.nodup_append.mp pr.taken.nodup).1
    exact List.inj_on_of_nodup_map hnodup hrq hqq (hr.trans hq.symm)
  · have hmem := pr.mem_new hrq
    rw [hr] at hmem
    rw [pr.old q hqq] at hq
    exact absurd hq (pr.pointer_ne h hmem q)
  · have hmem := pr.mem_new hqq
    rw [hq] at hmem
    rw [pr.old r hrq] at hr
    exact absurd hr (pr.pointer_ne h hmem r)
  · rw [pr.old r hrq] at hr
    rw [pr.old q hqq] at hq
    exact h.apart r q (by rw [hr]; exact IsData.ne_null pr.data) (hr.trans hq.symm)

theorem ne_new : t ≠ d := by
  have hq := pr.place
  intro he
  by_cases hqq : q ∈ qs
  · have hmem := pr.mem_new hqq
    rw [hq, he] at hmem
    exact pr.not_mem hmem
  · rw [pr.old q hqq] at hq
    exact h.pointer_ne_taken pr.taken List.mem_concat_self q (hq.trans he)

omit h in
theorem in_range : t.toNat < u.freeMap.blockCount.toNat :=
  ((pr.evolves.isData_iff t).mpr ((pr.taken.evolves.isData_iff t).mpr pr.data)).2

omit h in
theorem evolves_link : Evolves u (u.put t ((u.cell t).setPointer i d)) := by
  refine pr.evolves.sound.evolves_put pr.in_range (fun hm => ?_) _
  exact IsData.not_inMap pr.data ((pr.taken.evolves.inMap_iff t).mp ((pr.evolves.inMap_iff t).mp hm))

theorem pointer_new (r : Place) : c'.pointer (u.put t ((u.cell t).setPointer i d)).cell r =
    if r = .data c.blockCount then d else c'.pointer u.cell r :=
  pointer_link pr.parent pr.slot pr.place (IsData.ne_null pr.data) (cell_put pr.evolves.sound pr.in_range _)
    (fun _ hr => pr.only h hr) (fun _ _ hr => no_parent_data hr) (fun _ _ hr => no_parent_data hr) r

omit h in
theorem cell_link {x : UInt32} (hm : ¬ v.InMap x) (hx : x ∉ ts ++ [d])
    (hidx : ∀ q : Place, q.IsIndex → c.pointer v.cell q ≠ nullPointer → c.pointer v.cell q ≠ x) :
    (u.put t ((u.cell t).setPointer i d)).cell x = w.cell x := by
  have hxts : x ∉ ts := fun hmem => hx (List.mem_append_left _ hmem)
  have hxt : x ≠ t := by
    have hq := pr.place
    rintro rfl
    by_cases hqq : q ∈ qs
    · have hmem := pr.mem_new hqq
      rw [hq] at hmem
      exact hxts hmem
    · rw [pr.old q hqq] at hq
      exact hidx q (Place.isIndex_parent pr.parent) (by rw [hq]; exact IsData.ne_null pr.data) hq
  rw [cell_put pr.evolves.sound pr.in_range, if_neg hxt, pr.cell x hm hxts hidx]

theorem extended : Extended c v (ts ++ [d]) c' (u.put t ((u.cell t).setPointer i d)) := by
  have hdata : Place.data c.blockCount ∉ qs := fun hmem => pr.index _ hmem
  have hlast : c'.pointer (u.put t ((u.cell t).setPointer i d)).cell (.data c.blockCount) = d := by
    rw [pr.pointer_new h, if_pos rfl]
  refine ⟨⟨w, pr.taken, pr.evolves.trans (pr.evolves_link), (freeMap_put t _).trans pr.map,
    fun x hm hx hidx => pr.cell_link hm hx hidx⟩, ?_, fun p hp => ?_, ?_⟩
  · have hmap : qs.map (c'.pointer (u.put t ((u.cell t).setPointer i d)).cell) = ts := by
      rw [← pr.new]
      apply List.map_congr_left
      intro r hr
      rw [pr.pointer_new h, if_neg]
      rintro rfl
      exact hdata hr
    rw [pr.born, List.map_append, List.map_singleton, hlast, hmap]
  · have hmem : p ∉ qs ++ [.data c.blockCount] := by
      rw [← pr.born, Place.mem_bornAt]
      exact hp
    have hpd : p ≠ .data c.blockCount := by
      rintro rfl
      exact hmem (List.mem_append_right _ List.mem_cons_self)
    rw [pr.pointer_new h, if_neg hpd, pr.old p fun hq => hmem (List.mem_append_left _ hq)]
  · have hdm : ¬ v.InMap d := IsData.not_inMap (pr.taken.data d List.mem_concat_self)
    rw [hlast, cell_put pr.evolves.sound pr.in_range, if_neg (pr.ne_new h).symm, pr.cell d hdm pr.not_mem
      fun r _ _ => h.pointer_ne_taken pr.taken List.mem_concat_self r]
    exact pr.taken.cell_mem List.mem_concat_self

end Prepared

theorem extended_indirect (h : c.Held v) (hv : v.Sound) (hn : 10 < c.blockCount) (hn' : c.blockCount < 266)
    (fresh : Fresh v d w) :
    Extended c v [d] c (w.put c.indirect ((w.cell c.indirect).setPointer (c.blockCount - 10) d)) := by
  have taken := fresh.taken hv
  have hdata : v.IsData c.indirect := h.data .indirect ((h.shape .indirect).mpr hn)
  have pr : Prepared c v [] [] d c w w .indirect (c.blockCount - 10) c.indirect :=
    { taken
      evolves := .refl taken.evolves.sound
      map := rfl
      cell := fun _ _ _ _ => rfl
      index := by simp
      born := bornAt_indirect hn hn'
      new := rfl
      old := fun r _ => h.pointer_taken taken r
      parent := Place.parent_indirect (by omega) hn'
      slot := by omega
      place := rfl
      data := hdata }
  exact pr.extended h

theorem extended_first_indirect (h : c.Held v) (hn : c.blockCount = 10) (taken : Taken v [t, d] w) :
    Extended c v [t, d] { c with indirect := t } (w.put t ((w.cell t).setPointer 0 d)) := by
  have htmem : t ∈ [t, d] := List.mem_cons_self
  have hpointer : ∀ r, ({ c with indirect := t } : Chain).pointer w.cell r =
      if r = .indirect then t else c.pointer w.cell r := by
    refine pointer_reroot rfl (fun r _ => ?_) (fun r j hr => ?_) (fun r j _ => follow_zero (taken.cell_mem htmem) j)
    · cases r <;> rfl
    · exact h.null_below taken (by rw [hn]; exact Nat.le_refl _) hr
  have pr : Prepared c v [t] [.indirect] d { c with indirect := t } w w .indirect 0 t :=
    { taken
      evolves := .refl taken.evolves.sound
      map := rfl
      cell := fun _ _ _ _ => rfl
      index := by simp [Place.IsIndex]
      born := by rw [hn]; rfl
      new := by rw [List.map_singleton, hpointer, if_pos rfl]
      old := fun r hr => by rw [hpointer, if_neg (by simpa using hr), h.pointer_taken taken]
      parent := by rw [hn]; rfl
      slot := by omega
      place := by rw [hpointer, if_pos rfl]
      data := taken.data t htmem }
  exact pr.extended h

theorem pointer_link_table (outer : Nat) (h : c.Held v) (taken : Taken v bs w) (ht : t ∈ bs)
    {top : UInt32} (ho : outer < 256) (hbirth : c.blockCount ≤ (Place.table outer).birth)
    (hpointer : ∀ r, c'.pointer w.cell r = if r = .doubly then top else c.pointer v.cell r)
    (htop : w.IsData top) (htt : t ≠ top) (only : ∀ r, c.pointer v.cell r = top → r = .doubly) :
    ∀ r, c'.pointer (w.put top ((w.cell top).setPointer outer t)).cell r =
      if r = .table outer then t else c'.pointer w.cell r := by
  have hw := taken.evolves.sound
  have hcell := cell_put hw htop.2 ((w.cell top).setPointer outer t)
  refine pointer_link (Place.parent_table outer) ho (by rw [hpointer, if_pos rfl]) (IsData.ne_null htop) hcell
    (fun r hr => ?_) (fun r j hr => ?_) (fun r j _ => ?_)
  · by_contra hne
    rw [hpointer, if_neg hne] at hr
    exact hne (only r hr)
  · have hne : r ≠ .doubly := by
      rintro rfl
      cases hr
    rw [hpointer, if_neg hne, ← h.pointer_taken taken]
    exact h.null_below taken hbirth hr
  · refine follow_zero ?_ j
    rw [hcell, if_neg htt]
    exact taken.cell_mem ht

theorem extended_first_doubly (h : c.Held v) (hn : c.blockCount = 266) {top : UInt32}
    (taken : Taken v [top, t, d] w) (hu : u = w.put top ((w.cell top).setPointer 0 t)) :
    Extended c v [top, t, d] { c with doubly := top } (u.put t ((u.cell t).setPointer 0 d)) := by
  have htop : top ∈ [top, t, d] := List.mem_cons_self
  have ht : t ∈ [top, t, d] := by simp
  have htt : t ≠ top := by
    rintro rfl
    have := taken.nodup
    simp at this
  have hreroot : ∀ r, ({ c with doubly := top } : Chain).pointer w.cell r =
      if r = .doubly then top else c.pointer w.cell r := by
    refine pointer_reroot rfl (fun r _ => ?_) (fun r j hr => ?_) (fun r j _ => follow_zero (taken.cell_mem htop) j)
    · cases r <;> rfl
    · exact h.null_below taken (by rw [hn]; exact Nat.le_refl _) hr
  have hfirst : ∀ r, ({ c with doubly := top } : Chain).pointer w.cell r =
      if r = .doubly then top else c.pointer v.cell r := fun r => by
    rw [hreroot, h.pointer_taken taken]
  -- The chain names the new block at the top, and that block is the first to name the table.
  have hpointer := pointer_link_table 0 h taken ht (by decide) (by rw [hn]; exact Nat.le_refl _)
    hfirst (taken.isData htop) htt fun r hr => absurd hr (h.pointer_ne_taken taken htop r)
  rw [← hu] at hpointer
  have hw := taken.evolves.sound
  have hcell := cell_put hw (taken.isData htop).2 ((w.cell top).setPointer 0 t)
  have hout : ∀ r, r ∉ [Place.doubly, .table 0] →
      ({ c with doubly := top } : Chain).pointer u.cell r = c.pointer v.cell r := by
    intro r hr
    simp only [List.mem_cons, List.not_mem_nil, or_false, not_or] at hr
    rw [hpointer, if_neg hr.2, hfirst, if_neg hr.1]
  have pr : Prepared c v [top, t] [.doubly, .table 0] d { c with doubly := top } w u (.table 0) 0 t :=
    { taken
      evolves := by
        rw [hu]
        exact hw.evolves_put_data (taken.isData htop) _
      map := by rw [hu, freeMap_put]
      cell := by
        intro x _ hx _
        rw [hu, hcell, if_neg]
        rintro rfl
        exact hx List.mem_cons_self
      index := by simp [Place.IsIndex]
      born := by rw [hn]; rfl
      new := by
        rw [List.map_cons, List.map_singleton, hpointer, hpointer, if_neg (by decide), if_pos rfl, hfirst, if_pos rfl]
      old := hout
      parent := by rw [hn]; rfl
      slot := by omega
      place := by rw [hpointer, if_pos rfl]
      data := taken.data t ht }
  exact pr.extended h

theorem extended_table (h : c.Held v) (hn : 266 < c.blockCount) (hn' : c.blockCount < 65802)
    (hfirst : (c.blockCount - 266) % 256 = 0) (taken : Taken v [t, d] w)
    (hu : u = w.put c.doubly ((w.cell c.doubly).setPointer ((c.blockCount - 266) / 256) t)) :
    Extended c v [t, d] c (u.put t ((u.cell t).setPointer ((c.blockCount - 266) % 256) d)) := by
  have ht : t ∈ [t, d] := List.mem_cons_self
  have hdoubly : c.pointer v.cell .doubly ≠ nullPointer := (h.shape .doubly).mpr hn
  have htop : w.IsData c.doubly := (taken.evolves.isData_iff _).mpr (h.data .doubly hdoubly)
  have htt : t ≠ c.doubly := fun he => h.pointer_ne_taken taken ht .doubly he.symm
  have hw := taken.evolves.sound
  have hself : ∀ r, c.pointer w.cell r = if r = .doubly then c.doubly else c.pointer v.cell r := by
    intro r
    rw [h.pointer_taken taken]
    split
    · next hr => rw [hr]; rfl
    · rfl
  have hpointer := pointer_link_table ((c.blockCount - 266) / 256) h taken ht (by omega)
    (by rw [Place.birth_table]; omega) hself htop htt
    fun r hr => h.apart r .doubly (by rw [hr]; exact hdoubly) hr
  rw [← hu] at hpointer
  have hcell := cell_put hw htop.2 ((w.cell c.doubly).setPointer ((c.blockCount - 266) / 256) t)
  have pr : Prepared c v [t] [.table ((c.blockCount - 266) / 256)] d c w u (.table ((c.blockCount - 266) / 256))
      ((c.blockCount - 266) % 256) t :=
    { taken
      evolves := by
        rw [hu]
        exact hw.evolves_put_data htop _
      map := by rw [hu, freeMap_put]
      cell := by
        intro x _ _ hidx
        rw [hu, hcell, if_neg]
        rintro rfl
        exact hidx .doubly trivial hdoubly rfl
      index := by simp [Place.IsIndex]
      born := bornAt_table hn hfirst
      new := by rw [List.map_singleton, hpointer, if_pos rfl]
      old := fun r hr => by rw [hpointer, if_neg (by simpa using hr), h.pointer_taken taken]
      parent := Place.parent_doubly (by omega)
      slot := by omega
      place := by rw [hpointer, if_pos rfl]
      data := taken.data t ht }
  exact pr.extended h

theorem extended_doubly (h : c.Held v) (hv : v.Sound) (hn : 266 < c.blockCount) (hn' : c.blockCount < 65802)
    (hfirst : (c.blockCount - 266) % 256 ≠ 0) (fresh : Fresh v d w)
    (ht : t = c.pointer v.cell (.table ((c.blockCount - 266) / 256))) :
    Extended c v [d] c (w.put t ((w.cell t).setPointer ((c.blockCount - 266) % 256) d)) := by
  have taken := fresh.taken hv
  have htne := (h.shape (.table ((c.blockCount - 266) / 256))).mpr (by rw [Place.birth_table]; omega)
  have pr : Prepared c v [] [] d c w w (.table ((c.blockCount - 266) / 256)) ((c.blockCount - 266) % 256) t :=
    { taken
      evolves := .refl taken.evolves.sound
      map := rfl
      cell := fun _ _ _ _ => rfl
      index := by simp
      born := bornAt_doubly hn hfirst
      new := rfl
      old := fun r _ => h.pointer_taken taken r
      parent := Place.parent_doubly (by omega)
      slot := by omega
      place := by rw [h.pointer_taken taken, ht]
      data := by
        rw [ht]
        exact h.data _ htne }
  exact pr.extended h

theorem Held.taken (h : c.Held v) (taken : Taken v bs w) : c.Held w := by
  apply h.congr taken.evolves rfl (h.pointer_taken taken)
  intro p hp
  have hbusy := h.busy p hp
  rw [Busy, ← Bool.not_eq_true, taken.bits, hbusy]
  rintro ⟨hfalse, -⟩
  cases hfalse

theorem Held.readPointer (h : c.Held v) (hv : v.Sound) {p q : Place} {i : Nat} (hp : p.parent? = some (q, i))
    (hb : p.birth < 65802) (hq : q.birth < c.blockCount) :
    v.readPointer (c.pointer v.cell q) i = .ok (c.pointer v.cell p) := by
  have hne := (h.shape q).mpr hq
  rw [readPointer_eq hv (h.data q hne).2 (Place.slot_lt hp hb), pointer_of_parent hp, follow_of_ne _ hne]

theorem required_eq {b : UInt32} (hb : b ≠ nullPointer) (part : ChainPart) : required b part = .ok b := if_neg hb

theorem ask_required {b : UInt32} (hb : b ≠ nullPointer) (part : ChainPart) (v : Volume) :
    ask (fun _ => required b part) v = .ok b v := by
  simp only [ask, required_eq hb]

theorem eq_of_required {b b' : UInt32} {part : ChainPart} (h : required b part = .ok b') : b' = b := by
  rw [required] at h
  split at h
  · cases h
  · cases h
    rfl

theorem ne_of_required {b b' : UInt32} {part : ChainPart} (h : required b part = .ok b') : b' ≠ nullPointer := by
  rw [required] at h
  split at h
  · cases h
  · rename_i hne
    cases h
    exact hne

def Extensible (c : Chain) (v : Volume) (slot : Slot) : Prop :=
  ∃ c' u, c.extend slot v = .ok c' u ∧ c'.size = c.size ∧ ∃ bs, Extended c v bs c' u

section

variable (h : c.Held v) (hv : v.Sound)

include h hv

theorem extensible_direct (hn : c.blockCount < 10) (hfree : 1 ≤ v.freeBlocks) :
    Extensible c v (.direct c.blockCount) := by
  rw [Extensible, extend]
  apply withFresh_of_ok hv (by omega)
  intro d w fresh
  exact ⟨_, w, rfl, rfl, [d], extend_direct h hv hn fresh⟩

theorem extensible_first_indirect (hn : c.blockCount = 10) (hfree : 2 ≤ v.freeBlocks) :
    Extensible c v (.indirect 0) := by
  have hpp : pointersPerBlock = 256 := rfl
  have hnull : c.indirect = nullPointer := (h.null_iff .indirect).mpr (Nat.le_of_eq hn)
  rw [Extensible, extend, if_pos hnull]
  apply withFresh_of_ok hv (by omega)
  intro t x fresh
  have hcount := fresh.freeBlocks
  apply withFresh_of_ok fresh.evolves.sound (by omega)
  intro d w fresh'
  have taken := (fresh.taken hv).snoc fresh'
  have ht := (taken.isData (b := t) List.mem_cons_self).2
  refine ⟨_, _, bind_of_ok (writePointer_eq fresh'.evolves.sound ht (by omega) d), rfl, [t, d], ?_⟩
  exact extended_first_indirect h hn taken

theorem extensible_indirect (hn : 10 < c.blockCount) (hn' : c.blockCount < 266) (hfree : 1 ≤ v.freeBlocks) :
    Extensible c v (.indirect (c.blockCount - 10)) := by
  have hpp : pointersPerBlock = 256 := rfl
  have hdata := h.data .indirect ((h.shape .indirect).mpr hn)
  have hne : c.indirect ≠ nullPointer := IsData.ne_null hdata
  rw [Extensible, extend, if_neg hne]
  apply withFresh_of_ok hv (by omega)
  intro d w fresh
  have ht := ((fresh.evolves.isData_iff _).mpr hdata).2
  refine ⟨_, _, bind_of_ok (writePointer_eq fresh.evolves.sound ht (by omega) d), rfl, [d], ?_⟩
  exact extended_indirect h hv hn hn' fresh

theorem extensible_first_doubly (hn : c.blockCount = 266) (hfree : 3 ≤ v.freeBlocks) :
    Extensible c v (.doubly 0 0) := by
  have hpp : pointersPerBlock = 256 := rfl
  have hnull : c.doubly = nullPointer := (h.null_iff .doubly).mpr (Nat.le_of_eq hn)
  rw [Extensible, extend, if_pos hnull]
  apply withFresh_of_ok hv (by omega)
  intro top x fresh
  have hcount := fresh.freeBlocks
  apply withFresh_of_ok fresh.evolves.sound (by omega)
  intro t y fresh'
  have hcount' := fresh'.freeBlocks
  apply withFresh_of_ok fresh'.evolves.sound (by omega)
  intro d w fresh''
  have taken := ((fresh.taken hv).snoc fresh').snoc fresh''
  have htop := taken.isData (b := top) List.mem_cons_self
  have ht := taken.isData (b := t) (List.mem_cons_of_mem _ List.mem_cons_self)
  have hw := fresh''.evolves.sound
  have hput := hw.evolves_put_data htop ((w.cell top).setPointer 0 t)
  refine ⟨_, _, (bind_of_ok (writePointer_eq hw htop.2 (by omega) t)).trans (bind_of_ok
    (writePointer_eq hput.sound ((hput.isData_iff _).mpr ht).2 (by omega) d)), rfl, [top, t, d], ?_⟩
  exact extended_first_doubly h hn taken rfl

variable (hn : 266 < c.blockCount) (hn' : c.blockCount < 65802)

include hn hn'

theorem read_table : v.readPointer c.doubly ((c.blockCount - 266) / 256) =
    .ok (c.pointer v.cell (.table ((c.blockCount - 266) / 256))) := by
  apply h.readPointer hv (Place.parent_table _) _ hn
  rw [Place.birth_table]
  omega

theorem extensible_table (hfirst : (c.blockCount - 266) % 256 = 0) (hfree : 2 ≤ v.freeBlocks) :
    Extensible c v (.doubly ((c.blockCount - 266) / 256) 0) := by
  have hpp : pointersPerBlock = 256 := rfl
  have hdata := h.data .doubly ((h.shape .doubly).mpr hn)
  have hnull := (h.null_iff (.table ((c.blockCount - 266) / 256))).mpr (by rw [Place.birth_table]; omega)
  rw [Extensible, extend, if_neg (IsData.ne_null hdata : c.doubly ≠ nullPointer),
    bind_of_ok (ask_of_ok (read_table h hv hn hn')), if_pos hnull]
  apply withFresh_of_ok hv (by omega)
  intro t x fresh
  have hcount := fresh.freeBlocks
  apply withFresh_of_ok fresh.evolves.sound (by omega)
  intro d w fresh'
  have taken := (fresh.taken hv).snoc fresh'
  have htop : w.IsData c.doubly := (taken.evolves.isData_iff _).mpr hdata
  have ht := taken.isData (b := t) List.mem_cons_self
  have hw := fresh'.evolves.sound
  have hput := hw.evolves_put_data htop ((w.cell c.doubly).setPointer ((c.blockCount - 266) / 256) t)
  refine ⟨_, _, catch_of_ok ((bind_of_ok (writePointer_eq hw htop.2 (by omega) t)).trans (bind_of_ok
    (writePointer_eq hput.sound ((hput.isData_iff _).mpr ht).2 (by omega) d))), rfl, [t, d], ?_⟩
  have hext := extended_table h hn hn' hfirst taken rfl
  rw [hfirst] at hext
  exact hext

theorem extensible_doubly (hfirst : (c.blockCount - 266) % 256 ≠ 0) (hfree : 1 ≤ v.freeBlocks) :
    Extensible c v (.doubly ((c.blockCount - 266) / 256) ((c.blockCount - 266) % 256)) := by
  have hne : c.doubly ≠ nullPointer := (h.shape .doubly).mpr hn
  have hnn := (h.shape (.table ((c.blockCount - 266) / 256))).mpr (by rw [Place.birth_table]; omega)
  rw [Extensible, extend, if_neg hne, bind_of_ok (ask_of_ok (read_table h hv hn hn')), if_neg hnn]
  apply withFresh_of_ok hv (by omega)
  intro d w fresh
  -- the table is looked up once more after the new block was taken
  have taken := fresh.taken hv
  have hagain := read_table (h.taken taken) fresh.evolves.sound hn hn'
  rw [h.pointer_taken taken] at hagain
  have ht := ((fresh.evolves.isData_iff _).mpr (h.data _ hnn)).2
  have hslot : (c.blockCount - 266) % 256 < pointersPerBlock := Nat.mod_lt _ (by decide)
  have hwrite := writePointer_eq fresh.evolves.sound ht hslot d
  refine ⟨c, _, ?_, rfl, [d], extended_doubly h hv hn hn' hfirst fresh rfl⟩
  rw [bind_of_ok (ask_of_ok hagain), bind_of_ok (ask_required hnn .indirect w), bind_of_ok hwrite]
  rfl

end

theorem extend_ok (h : c.Held v) (hv : v.Sound) (hshort : c.blockCount < 65802)
    (hfree : (Place.bornAt c.blockCount).length ≤ v.freeBlocks) :
    Extensible c v (Tiers.onDisk.locate c.blockCount) := by
  rcases Place.tier_cases c.blockCount with hn | ⟨hn, hn'⟩ | hn
  · rw [bornAt_direct hn] at hfree
    rw [Place.locate_direct hn]
    exact extensible_direct h hv hn hfree
  · rw [Place.locate_indirect hn hn']
    rcases Nat.eq_or_lt_of_le hn with heq | hgt
    · rw [← heq] at hfree ⊢
      exact extensible_first_indirect h hv heq.symm hfree
    · rw [bornAt_indirect hgt hn'] at hfree
      exact extensible_indirect h hv hgt hn' hfree
  · rw [Place.locate_doubly hn]
    rcases Nat.eq_or_lt_of_le hn with heq | hgt
    · rw [← heq] at hfree ⊢
      exact extensible_first_doubly h hv heq.symm hfree
    · by_cases hfirst : (c.blockCount - 266) % 256 = 0
      · rw [bornAt_table hgt hfirst] at hfree
        rw [hfirst]
        exact extensible_table h hv hgt hshort hfirst hfree
      · rw [bornAt_doubly hgt hfirst] at hfree
        exact extensible_doubly h hv hgt hshort hfirst hfree

theorem extend_noSpace (h : c.Held v) (hv : v.Sound) (hshort : c.blockCount < 65802)
    (hfree : v.freeBlocks < (Place.bornAt c.blockCount).length) :
    ∃ u, c.extend (Tiers.onDisk.locate c.blockCount) v = .error .noSpace u ∧ Restored v u := by
  -- one, two or three blocks are taken one inside the other; the innermost fails
  have hone : ∀ {x : Volume} {use : UInt32 → VolumeM Chain}, x.Sound → x.freeBlocks < 1 →
      ∃ u, withFresh use x = .error .noSpace u ∧ Restored x u := fun hx hlt =>
    ⟨_, withFresh_of_full hx (by omega) _, .refl hx⟩
  have htwo : ∀ {x : Volume} {use : UInt32 → UInt32 → VolumeM Chain}, x.Sound → x.freeBlocks < 2 →
      ∃ u, withFresh (fun b => withFresh (use b)) x = .error .noSpace u ∧ Restored x u := fun hx hlt =>
    withFresh_of_noSpace hx fun b w fresh => hone fresh.evolves.sound (by have := fresh.freeBlocks; omega)
  rcases Place.tier_cases c.blockCount with hn | ⟨hn, hn'⟩ | hn
  · rw [Place.locate_direct hn, extend]
    rw [bornAt_direct hn] at hfree
    exact hone hv hfree
  · rw [Place.locate_indirect hn hn', extend]
    rcases Nat.eq_or_lt_of_le hn with heq | hgt
    · have hnull : c.indirect = nullPointer := (h.null_iff .indirect).mpr (Nat.le_of_eq heq.symm)
      rw [← heq] at hfree
      rw [if_pos hnull]
      exact htwo hv hfree
    · have hne : c.indirect ≠ nullPointer := (h.shape .indirect).mpr hgt
      rw [bornAt_indirect hgt hn'] at hfree
      rw [if_neg hne]
      exact hone hv hfree
  · rw [Place.locate_doubly hn, extend]
    rcases Nat.eq_or_lt_of_le hn with heq | hgt
    · have hnull : c.doubly = nullPointer := (h.null_iff .doubly).mpr (Nat.le_of_eq heq.symm)
      rw [← heq] at hfree
      have hfree : v.freeBlocks < 3 := hfree
      rw [if_pos hnull]
      exact withFresh_of_noSpace hv fun b w fresh => htwo fresh.evolves.sound (by have := fresh.freeBlocks; omega)
    · have hne : c.doubly ≠ nullPointer := (h.shape .doubly).mpr hgt
      rw [if_neg hne, bind_of_ok (ask_of_ok (read_table h hv hgt hshort))]
      by_cases hfirst : (c.blockCount - 266) % 256 = 0
      · have hnull := (h.null_iff (.table ((c.blockCount - 266) / 256))).mpr (by rw [Place.birth_table]; omega)
        rw [bornAt_table hgt hfirst] at hfree
        rw [if_pos hnull]
        exact htwo hv hfree
      · have hnn := (h.shape (.table ((c.blockCount - 266) / 256))).mpr (by rw [Place.birth_table]; omega)
        rw [bornAt_doubly hgt hfirst] at hfree
        rw [if_neg hnn]
        exact hone hv hfree

end ImageFS.Chain
