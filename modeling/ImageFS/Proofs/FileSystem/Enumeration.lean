import ImageFS.Proofs.FileSystem.Namespace
import ImageFS.Proofs.Reference.Records
import ImageFS.Proofs.Reference.Refinement

/-!
# Enumerating the root

The root is listed in pages, and any calls may come between two pages. A record keeps its slot as long as
it is there, and a page holds in the order of the slots what lies behind its cursor; so an enumeration
meets each record that stays exactly once.
-/

set_option autoImplicit false

namespace ImageFS.FileSystem

open Volume Reference

def dotItem : ListItem := ⟨rootInode, .directory, .dot, 1⟩

def dotDotItem (parent : UInt32) : ListItem := ⟨parent, .directory, .dotDot, 2⟩

/-- An item tells of a record of the root: of its slot, its name, and the inode in use that it names. -/
structure Shows (v : Volume) (item : ListItem) : Prop where
  behind : 3 ≤ item.next
  record : (rootEntries v)[item.next - 3]? = some ⟨item.ino, item.name⟩
  named : nameMap v item.name = some item.ino
  kind : ∃ i, liveInode v item.ino = .ok i ∧ i.kind = item.kind

def Listed (v : Volume) (parent : UInt32) (item : ListItem) : Prop :=
  item = dotItem ∨ item = dotDotItem parent ∨ Shows v item

def itemsFrom (v : Volume) (slot : Nat) : List ListItem :=
  ((rootEntries v).zipIdx.drop slot).filterMap fun (e, k) =>
    if e.isEmpty then none else some ⟨e.ino, (state v).kindOf e.ino, e.name, k + 3⟩

def page (v : Volume) (parent : UInt32) (cursor : Nat) : List ListItem :=
  (if cursor = 0 then [dotItem] else []) ++ (if cursor ≤ 1 then [dotDotItem parent] else []) ++ itemsFrom v (cursor - 2)

variable {v w : Volume} {T : UInt32 → Inode} {parent ino : UInt32} {cursor slot k n : Nat} {e : Entry} {name : Name}
  {item : ListItem}

theorem mem_singleton_if {P : Prop} [Decidable P] {x : ListItem} : item ∈ (if P then [x] else []) ↔ P ∧ item = x := by
  split <;> simp_all

theorem pairwise_singleton_if {P : Prop} [Decidable P] {R : ListItem → ListItem → Prop} :
    (if P then [item] else []).Pairwise R := by
  split
  · exact List.pairwise_singleton _ _
  · exact .nil

theorem itemsFrom_eq (v : Volume) (slot : Nat) : itemsFrom v slot = (Entry.inUseFrom (rootEntries v) slot).map
    fun x => ⟨x.2.ino, (state v).kindOf x.2.ino, x.2.name, x.1 + 3⟩ := by
  rw [itemsFrom, Entry.inUseFrom, List.map_filterMap]
  refine List.filterMap_congr fun x _ => ?_
  dsimp only
  split <;> rfl

theorem pairwise_itemsFrom : (itemsFrom v slot).Pairwise (·.next < ·.next) := by
  rw [itemsFrom_eq, List.pairwise_map]
  exact (Entry.pairwise_inUseFrom (rootEntries v) slot).imp fun hlt => Nat.add_lt_add_right hlt 3

theorem countP_of_next {l : List ListItem} (hl : l.Pairwise (·.next < ·.next)) {p : ListItem → Bool}
    (hp : ∀ item ∈ l, p item = decide (item.next = n)) : l.countP p = if n ∈ l.map (·.next) then 1 else 0 := by
  have hnodup : (l.map (·.next)).Nodup := by
    rw [List.Nodup, List.pairwise_map]
    exact hl.imp Nat.ne_of_lt
  rw [← hnodup.count, List.count, List.countP_map]
  refine List.countP_congr fun item hitem => ?_
  rw [hp item hitem, Function.comp, decide_eq_true_eq, beq_iff_eq]

namespace Consistent

variable (h : Consistent v T)

include h

theorem readDir_root (parent : UInt32) (cursor : Nat) : readDir v rootInode parent cursor = .ok (page v parent cursor) := by
  have hdir : (state v).checkDirectory rootInode = .ok () := if_pos rfl
  rw [h.readDir_state, State.readDir, hdir]
  rfl

theorem nameMap_of_getElem (hk : (rootEntries v)[k]? = some e) (he : e.isEmpty = false) :
    nameMap v e.name = some e.ino := by
  obtain ⟨hlt, hentry⟩ := h.getElem_rootEntries hk
  exact h.nameMap_eq_some.mpr ⟨of_decide_eq_false he, k, hlt, hentry⟩

theorem shows_record (hk : (rootEntries v)[k]? = some e) (he : e.isEmpty = false) :
    ∃ item, Shows v item ∧ item.name = e.name ∧ item.next = k + 3 := by
  obtain ⟨-, -, -, i, hlive, -⟩ := h.entry_live (List.mem_of_getElem? hk) (of_decide_eq_false he)
  exact ⟨⟨e.ino, i.kind, e.name, k + 3⟩, ⟨Nat.le_add_left 3 k, hk, h.nameMap_of_getElem hk he, i, hlive, rfl⟩, rfl, rfl⟩

theorem mem_itemsFrom : item ∈ itemsFrom v slot ↔ slot + 3 ≤ item.next ∧ Shows v item := by
  have hkind : ∀ {k : Nat} {e : Entry}, (rootEntries v)[k]? = some e → e.isEmpty = false →
      ∃ i, liveInode v e.ino = .ok i ∧ i.kind = (state v).kindOf e.ino := by
    intro k e hk he
    obtain ⟨-, hlow, -, i, hlive, -⟩ := h.entry_live (List.mem_of_getElem? hk) (of_decide_eq_false he)
    obtain ⟨hino, htable⟩ := h.ledger.liveInode_iff.mp hlive
    exact ⟨i, hlive, by rw [h.kindOf_state hino (ne_root hlow), htable]⟩
  rw [itemsFrom_eq, List.mem_map]
  constructor
  · rintro ⟨⟨k, e⟩, hmem, rfl⟩
    obtain ⟨hle, hk, hempty⟩ := Entry.mem_inUseFrom.mp hmem
    exact ⟨Nat.add_le_add_right hle 3, Nat.le_add_left 3 k, hk, h.nameMap_of_getElem hk hempty, hkind hk hempty⟩
  · rintro ⟨hle, shows⟩
    have hempty : (⟨item.ino, item.name⟩ : Entry).isEmpty = false :=
      decide_eq_false (h.nameMap_eq_some.mp shows.named).1
    obtain ⟨i, hlive, hi⟩ := hkind shows.record hempty
    obtain ⟨i', hlive', hi'⟩ := shows.kind
    obtain rfl : i = i' := Except.ok.inj (hlive.symm.trans hlive')
    refine ⟨(item.next - 3, ⟨item.ino, item.name⟩), Entry.mem_inUseFrom.mpr ⟨by omega, shows.record, hempty⟩, ?_⟩
    have hnext : item.next - 3 + 3 = item.next := Nat.sub_add_cancel shows.behind
    simp only [← hi, hi', hnext]

theorem mem_page : item ∈ page v parent cursor ↔ cursor < item.next ∧ Listed v parent item := by
  rw [page, List.mem_append, List.mem_append, mem_singleton_if, mem_singleton_if, h.mem_itemsFrom]
  constructor
  · rintro ((⟨hc, rfl⟩ | ⟨hc, rfl⟩) | ⟨hle, shows⟩)
    · exact ⟨Nat.lt_succ_of_le (Nat.le_of_eq hc), .inl rfl⟩
    · exact ⟨Nat.lt_succ_of_le hc, .inr (.inl rfl)⟩
    · exact ⟨by omega, .inr (.inr shows)⟩
  · rintro ⟨hlt, rfl | rfl | shows⟩
    · exact .inl (.inl ⟨Nat.eq_zero_of_le_zero (Nat.le_of_lt_succ hlt), rfl⟩)
    · exact .inl (.inr ⟨Nat.le_of_lt_succ hlt, rfl⟩)
    · have := shows.behind
      exact .inr ⟨by omega, shows⟩

theorem pairwise_page (parent : UInt32) (cursor : Nat) : (page v parent cursor).Pairwise (·.next < ·.next) := by
  rw [page, List.pairwise_append, List.pairwise_append]
  refine ⟨⟨pairwise_singleton_if, pairwise_singleton_if, fun a ha b hb => ?_⟩, pairwise_itemsFrom, fun a ha b hb => ?_⟩
  · rw [(mem_singleton_if.mp ha).2, (mem_singleton_if.mp hb).2]
    exact Nat.lt_succ_self 1
  · have hbehind := (h.mem_itemsFrom.mp hb).2.behind
    rcases List.mem_append.mp ha with ha | ha
    · rw [(mem_singleton_if.mp ha).2]
      exact Nat.lt_of_lt_of_le (by decide) hbehind
    · rw [(mem_singleton_if.mp ha).2]
      exact hbehind

theorem rowStep (c : Call) : RowStep (rootEntries v) (rootEntries (c.run v).2) := by
  have hseen := h.seen_perform c
  cases hrun : c.perform v with
  | error err w =>
    rw [run_of_error hrun, ((h.keeps_perform c).error hrun).entries]
    exact .kept
  | ok answer w =>
    rw [seen_of_ok hrun] at hseen
    rw [run_of_ok hrun]
    exact perform_slots h.file_zero hseen.symm

theorem not_mem_clearName (hx : e ∈ Entry.clearName name (rootEntries v)) (hempty : e.isEmpty = false) :
    e.name ≠ name := by
  intro hname
  obtain ⟨t, ht⟩ := List.mem_iff_getElem?.mp hx
  rw [Entry.clearName, List.getElem?_set] at ht
  split at ht
  · split at ht
    · cases ht
      cases hempty
    · cases ht
  · rename_i hne
    have hfound : ∃ x ∈ rootEntries v, (!x.isEmpty && x.name = name) = true :=
      ⟨e, List.mem_of_getElem? ht, by simp [hempty, hname]⟩
    have hlt := List.findIdx_lt_length_of_exists hfound
    have htest := List.findIdx_getElem (w := hlt)
    rw [Bool.and_eq_true, Bool.not_eq_true', decide_eq_true_eq] at htest
    exact hne (h.name_injective (List.getElem?_eq_getElem hlt) ht (of_decide_eq_false htest.1)
      (of_decide_eq_false hempty) (htest.2.trans hname.symm))

theorem record_kept (c : Call) (hk : (rootEntries v)[k]? = some e) (he : e.isEmpty = false)
    (hstill : nameMap (c.run v).2 e.name ≠ none) : (rootEntries (c.run v).2)[k]? = some e := by
  have hstep := h.rowStep c
  generalize hafter : rootEntries (c.run v).2 = slots at hstep ⊢
  cases hstep with
  | kept => exact hk
  | put filled => exact Entry.getElem?_putFirst hk he
  | cleared name =>
    by_cases hname : e.name = name
    · -- the record was the only one of its name, which is then gone
      refine absurd (Option.map_eq_none_iff.mpr (List.find?_eq_none.mpr fun x hx htest => ?_)) hstill
      rw [hafter] at hx
      rw [Bool.and_eq_true, Bool.not_eq_true', decide_eq_true_eq, hname] at htest
      exact h.not_mem_clearName hx htest.1 htest.2
    · exact Entry.getElem?_clearName hk hname

end Consistent

def stages (v : Volume) : List Call → List Volume
  | [] => [v]
  | c :: rest => v :: stages (c.run v).2 rest

/-- An enumeration of the root from a cursor on. Of each page some first items are taken, at least one;
then come any calls, and the next page is that from the cursor of the last item taken. An empty page is
the end. Each item is reported with the volume that its page was read from; `passed` are all volumes from
the first page to the last. -/
inductive Enumeration (parent : UInt32) : Volume → Nat → List (Volume × ListItem) → List Volume → Prop
  | done {v : Volume} {cursor : Nat} : readDir v rootInode parent cursor = .ok [] → Enumeration parent v cursor [] [v]
  | more {v : Volume} {cursor : Nat} {taken rest : List ListItem} {last : ListItem}
      {reported : List (Volume × ListItem)} {passed : List Volume} (calls : List Call) :
      readDir v rootInode parent cursor = .ok (taken ++ [last] ++ rest) →
      Enumeration parent (after v calls) last.next reported passed →
      Enumeration parent v cursor ((taken ++ [last]).map (Prod.mk v) ++ reported) (stages v calls ++ passed)

variable {reported : List (Volume × ListItem)} {passed : List Volume} {calls : List Call} {taken rest : List ListItem}
  {last : ListItem}

theorem mem_stages_self (v : Volume) (calls : List Call) : v ∈ stages v calls := by
  cases calls <;> exact List.mem_cons_self

namespace Consistent

theorem record_stages (h : Consistent v T) (hk : (rootEntries v)[k]? = some e) (he : e.isEmpty = false)
    (hthere : ∀ u ∈ stages v calls, nameMap u e.name ≠ none) :
    (∀ u ∈ stages v calls, (rootEntries u)[k]? = some e) ∧ (rootEntries (FileSystem.after v calls))[k]? = some e := by
  induction calls generalizing v T with
  | nil => exact ⟨fun u hu => by rw [List.mem_singleton.mp hu, hk], hk⟩
  | cons c calls ih =>
    obtain ⟨T', h'⟩ := h.call c
    have hnext := h.record_kept c hk he (hthere _ (List.mem_cons_of_mem _ (mem_stages_self _ _)))
    obtain ⟨hall, hlast⟩ := ih h' hnext fun u hu => hthere u (List.mem_cons_of_mem _ hu)
    refine ⟨fun u hu => ?_, hlast⟩
    rcases List.mem_cons.mp hu with rfl | hu
    · exact hk
    · exact hall u hu

variable (h : Consistent v T)

include h

theorem mem_taken (hpage : page v parent cursor = taken ++ [last] ++ rest) :
    item ∈ taken ++ [last] ↔ cursor < item.next ∧ item.next ≤ last.next ∧ Listed v parent item := by
  have hsorted := h.pairwise_page parent cursor
  have hmem : item ∈ page v parent cursor ↔ _ := h.mem_page
  rw [hpage] at hsorted hmem
  obtain ⟨hfirst, -, hcut⟩ := List.pairwise_append.mp hsorted
  obtain ⟨-, -, hlast⟩ := List.pairwise_append.mp hfirst
  have htop : item ∈ taken ++ [last] → item.next ≤ last.next := by
    intro hitem
    rcases List.mem_append.mp hitem with hitem | hitem
    · exact Nat.le_of_lt (hlast item hitem last (List.mem_singleton_self _))
    · rw [List.mem_singleton.mp hitem]
  constructor
  · intro hitem
    obtain ⟨hlow, hlisted⟩ := hmem.mp (List.mem_append_left rest hitem)
    exact ⟨hlow, htop hitem, hlisted⟩
  · rintro ⟨hlow, hhigh, hlisted⟩
    rcases List.mem_append.mp (hmem.mpr ⟨hlow, hlisted⟩) with hitem | hitem
    · exact hitem
    · have := hcut last (List.mem_append_right _ (List.mem_singleton_self _)) item hitem
      omega

theorem name_iff_next (hk : (rootEntries v)[k]? = some e) (he : e.isEmpty = false) (hlisted : Listed v parent item) :
    item.name = e.name ↔ item.next = k + 3 := by
  have hne := of_decide_eq_false he
  obtain ⟨hcheck, -⟩ := h.entry_live (List.mem_of_getElem? hk) hne
  rcases hlisted with rfl | rfl | shows
  · refine iff_of_false (fun hname => ?_) fun hnext => by cases hnext
    rw [← hname] at hcheck
    cases hcheck
  · refine iff_of_false (fun hname => ?_) fun hnext => by cases hnext
    rw [← hname] at hcheck
    cases hcheck
  · have hbehind := shows.behind
    have hitem : item.ino ≠ 0 := (h.nameMap_eq_some.mp shows.named).1
    constructor
    · intro hname
      have := h.name_injective shows.record hk hitem hne hname
      omega
    · intro hnext
      have hslot : item.next - 3 = k := by omega
      have hsame := shows.record
      rw [hslot, hk, Option.some.injEq] at hsame
      rw [hsame]

theorem countP_taken (hpage : page v parent cursor = taken ++ [last] ++ rest) (hk : (rootEntries v)[k]? = some e)
    (he : e.isEmpty = false) :
    (taken ++ [last]).countP (·.name = e.name) = if cursor < k + 3 ∧ k + 3 ≤ last.next then 1 else 0 := by
  have hsorted := h.pairwise_page parent cursor
  rw [hpage] at hsorted
  rw [countP_of_next (List.pairwise_append.mp hsorted).1 (n := k + 3) fun item hitem =>
    decide_eq_decide.mpr (h.name_iff_next hk he ((h.mem_taken hpage).mp hitem).2.2)]
  refine if_congr ?_ rfl rfl
  rw [List.mem_map]
  constructor
  · rintro ⟨item, hitem, hnext⟩
    obtain ⟨hlow, hhigh, -⟩ := (h.mem_taken hpage).mp hitem
    omega
  · intro hin
    obtain ⟨item, hshows, -, hnext⟩ := h.shows_record hk he
    exact ⟨item, (h.mem_taken hpage).mpr ⟨by omega, by omega, .inr (.inr hshows)⟩, hnext⟩

theorem exists_enumeration (parent : UInt32) (cursor : Nat) :
    ∃ reported passed, Enumeration parent v cursor reported passed ∧ ∀ u ∈ passed, u = v := by
  have hread := h.readDir_root parent cursor
  rcases List.eq_nil_or_concat (page v parent cursor) with hpage | ⟨taken, last, hpage⟩
  · rw [hpage] at hread
    exact ⟨[], [v], .done hread, fun u hu => List.mem_singleton.mp hu⟩
  · rw [List.concat_eq_append, ← List.append_nil (taken ++ [last])] at hpage
    have hlast := (h.mem_taken hpage).mp (List.mem_append_right _ (List.mem_singleton_self last))
    have hend : page v parent last.next = [] := by
      refine List.eq_nil_iff_forall_not_mem.mpr fun item hitem => ?_
      obtain ⟨hlow, hlisted⟩ := h.mem_page.mp hitem
      have hin : item ∈ page v parent cursor := h.mem_page.mpr ⟨Nat.lt_trans hlast.1 hlow, hlisted⟩
      rw [hpage, List.append_nil] at hin
      have := ((h.mem_taken hpage).mp hin).2.1
      omega
    rw [hpage] at hread
    have hnext := h.readDir_root parent last.next
    rw [hend] at hnext
    refine ⟨_, _, .more [] hread (.done hnext), fun u hu => ?_⟩
    rcases List.mem_append.mp hu with hu | hu <;> exact List.mem_singleton.mp hu

end Consistent

namespace Enumeration

theorem reported_sorted (s : Enumeration parent v cursor reported passed) (h : Consistent v T) :
    (reported.Pairwise (·.2.next < ·.2.next)) ∧
      ∀ r ∈ reported, cursor < r.2.next ∧ r.1 ∈ passed ∧ Listed r.1 parent r.2 := by
  induction s generalizing T with
  | done => exact ⟨.nil, fun r hr => absurd hr List.not_mem_nil⟩
  | @more v cursor taken rest last reported passed calls hread s ih =>
    rw [h.readDir_root, Except.ok.injEq] at hread
    obtain ⟨T', h'⟩ := h.after calls
    obtain ⟨hsorted, hlater⟩ := ih h'
    have htaken : ∀ item ∈ taken ++ [last], cursor < item.next ∧ item.next ≤ last.next ∧ Listed v parent item :=
      fun item hitem => (h.mem_taken hread).mp hitem
    have hlast := htaken last (List.mem_append_right _ (List.mem_singleton_self _))
    have hpage := h.pairwise_page parent cursor
    rw [hread] at hpage
    refine ⟨List.pairwise_append.mpr ⟨?_, hsorted, fun a ha b hb => ?_⟩, fun r hr => ?_⟩
    · rw [List.pairwise_map]
      exact (List.pairwise_append.mp hpage).1
    · obtain ⟨item, hitem, rfl⟩ := List.mem_map.mp ha
      exact Nat.lt_of_le_of_lt (htaken item hitem).2.1 (hlater b hb).1
    · rcases List.mem_append.mp hr with hr | hr
      · obtain ⟨item, hitem, rfl⟩ := List.mem_map.mp hr
        obtain ⟨hlow, -, hlisted⟩ := htaken item hitem
        exact ⟨hlow, List.mem_append_left _ (mem_stages_self _ _), hlisted⟩
      · obtain ⟨hlow, hin, hlisted⟩ := hlater r hr
        exact ⟨Nat.lt_trans hlast.1 hlow, List.mem_append_right _ hin, hlisted⟩

theorem mem_passed_self (s : Enumeration parent v cursor reported passed) : v ∈ passed := by
  cases s with
  | done => exact List.mem_singleton_self _
  | more => exact List.mem_append_left _ (mem_stages_self _ _)

/-- A record whose name is there all along keeps its slot, and is reported once if the slot lies behind the
cursor. -/
theorem countP_reported (s : Enumeration parent v cursor reported passed) (h : Consistent v T)
    (hk : (rootEntries v)[k]? = some e) (he : e.isEmpty = false) (hthere : ∀ u ∈ passed, nameMap u e.name ≠ none) :
    (∀ u ∈ passed, (rootEntries u)[k]? = some e) ∧
      reported.countP (·.2.name = e.name) = if cursor < k + 3 then 1 else 0 := by
  induction s generalizing T with
  | @done v cursor hread =>
    refine ⟨fun u hu => by rw [List.mem_singleton.mp hu, hk], ?_⟩
    rw [h.readDir_root, Except.ok.injEq] at hread
    obtain ⟨item, hshows, -, hnext⟩ := h.shows_record hk he
    have hnot : ¬ cursor < k + 3 := fun hlt => by
      have hmem : item ∈ FileSystem.page v parent cursor := h.mem_page.mpr ⟨by omega, .inr (.inr hshows)⟩
      rw [hread] at hmem
      cases hmem
    rw [if_neg hnot, List.countP_nil]
  | @more v cursor taken rest last reported passed calls hread s ih =>
    rw [h.readDir_root, Except.ok.injEq] at hread
    obtain ⟨T', h'⟩ := h.after calls
    obtain ⟨hstages, hnext⟩ := h.record_stages hk he fun u hu => hthere u (List.mem_append_left _ hu)
    obtain ⟨hlater, hcount⟩ := ih h' hnext fun u hu => hthere u (List.mem_append_right _ hu)
    refine ⟨fun u hu => (List.mem_append.mp hu).elim (hstages u) (hlater u), ?_⟩
    have hlast := ((h.mem_taken hread).mp (List.mem_append_right _ (List.mem_singleton_self last))).1
    have htaken : ((taken ++ [last]).map (Prod.mk v)).countP (·.2.name = e.name) = _ :=
      List.countP_map.trans (h.countP_taken hread hk he)
    rw [List.countP_append, htaken, hcount]
    split_ifs <;> omega

end Enumeration

namespace Consistent

variable (h : Consistent v T)

include h

theorem exists_record (hmap : nameMap v name ≠ none) :
    ∃ (k : Nat) (ino : UInt32), (rootEntries v)[k]? = some ⟨ino, name⟩ ∧ (⟨ino, name⟩ : Entry).isEmpty = false := by
  obtain ⟨ino, hino⟩ := Option.ne_none_iff_exists'.mp hmap
  obtain ⟨hne, s, hs, he⟩ := h.nameMap_eq_some.mp hino
  obtain ⟨k, hk⟩ := List.mem_iff_getElem?.mp (h.mem_rootEntries.mpr ⟨s, hs, he⟩)
  exact ⟨k, ino, hk, decide_eq_false hne⟩

theorem countP_itemsFrom (hmap : nameMap v name ≠ none) : (itemsFrom v 0).countP (·.name = name) = 1 := by
  obtain ⟨k, ino, hk, he⟩ := h.exists_record hmap
  obtain ⟨item, hshows, -, hnext⟩ := h.shows_record hk he
  rw [countP_of_next pairwise_itemsFrom (n := k + 3) fun item hitem =>
    decide_eq_decide.mpr (h.name_iff_next hk he (show Listed v 0 item from .inr (.inr (h.mem_itemsFrom.mp hitem).2)))]
  exact if_pos (List.mem_map.mpr ⟨item, h.mem_itemsFrom.mpr ⟨by omega, hshows⟩, hnext⟩)

end Consistent

/-- Listing the root gives `.`, `..` and each name once, in the order of the slots. An enumeration in pages
reports only what is there when a page is read, nothing twice, and each name that is there all along, which
then has one slot and one inode all along, just once. -/
theorem enumeration_complete (h : Reachable v) (parent : UInt32) :
    (∃ items, readDir v rootInode parent 0 = .ok (dotItem :: dotDotItem parent :: items) ∧
      (dotItem :: dotDotItem parent :: items).Pairwise (·.next < ·.next) ∧
      (∀ item ∈ items, Shows v item) ∧
      ∀ name, nameMap v name ≠ none → items.countP (·.name = name) = 1) ∧
    ∀ reported passed, Enumeration parent v 0 reported passed →
      reported.Pairwise (·.2.next < ·.2.next) ∧
      (∀ r ∈ reported, r.1 ∈ passed ∧ Listed r.1 parent r.2) ∧
      ∀ name, (∀ u ∈ passed, nameMap u name ≠ none) →
        reported.countP (·.2.name = name) = 1 ∧
        ∃ (slot : Nat) (ino : UInt32), ∀ u ∈ passed, (rootEntries u)[slot]? = some ⟨ino, name⟩ := by
  obtain ⟨T, hT⟩ := h.consistent
  refine ⟨⟨itemsFrom v 0, hT.readDir_root parent 0, hT.pairwise_page parent 0,
    fun item hitem => (hT.mem_itemsFrom.mp hitem).2, fun name hmap => hT.countP_itemsFrom hmap⟩,
    fun reported passed s => ?_⟩
  obtain ⟨hsorted, hreported⟩ := s.reported_sorted hT
  refine ⟨hsorted, fun r hr => (hreported r hr).2, fun name hthere => ?_⟩
  obtain ⟨k, ino, hk, he⟩ := hT.exists_record (hthere v s.mem_passed_self)
  obtain ⟨hkept, hcount⟩ := s.countP_reported hT hk he hthere
  exact ⟨hcount.trans (if_pos (Nat.succ_pos _)), k, ino, hkept⟩

theorem enumeration_complete_file : ∃ v reported passed, Reachable v ∧ Enumeration rootInode v 0 reported passed ∧
    (∀ u ∈ passed, nameMap u ['a'.toUInt8] ≠ none) ∧ reported.countP (·.2.name = ['a'.toUInt8]) = 1 := by
  obtain ⟨v, hv, hmap, -⟩ := exists_file
  obtain ⟨T, hT⟩ := hv.consistent
  -- the first page is left after `.`, then a taken name is refused, then the rest is read
  have hrefused : (Call.run (.create rootInode ['a'.toUInt8] 0o644) v).2 = v := by
    rw [run_of_error (bind_of_error (hT.addNew_exists (by decide) hmap))]
  obtain ⟨reported, passed, s, hpassed⟩ := hT.exists_enumeration rootInode 1
  have hrest : Enumeration rootInode (after v [.create rootInode ['a'.toUInt8] 0o644]) dotItem.next reported passed := by
    rw [after, List.foldl_cons, List.foldl_nil, hrefused]
    exact s
  have hpage : readDir v rootInode rootInode 0 = .ok ([] ++ [dotItem] ++ dotDotItem rootInode :: itemsFrom v 0) :=
    hT.readDir_root rootInode 0
  have hall := Enumeration.more _ hpage hrest
  have hthere : ∀ u ∈ stages v [.create rootInode ['a'.toUInt8] 0o644] ++ passed, nameMap u ['a'.toUInt8] ≠ none := by
    intro u hu
    have hsame : u = v := by
      rw [stages, stages, hrefused, List.mem_append] at hu
      rcases hu with hu | hu
      · simpa using hu
      · exact hpassed u hu
    rw [hsame, hmap]
    exact Option.some_ne_none 2
  exact ⟨v, _, _, hv, hall, hthere, (((enumeration_complete hv rootInode).2 _ _ hall).2.2 _ hthere).1⟩

end ImageFS.FileSystem
