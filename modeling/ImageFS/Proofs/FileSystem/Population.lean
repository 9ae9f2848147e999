import ImageFS.Proofs.FileSystem.Enumeration
import Mathlib.Data.Set.Card

/-!
# The size of the root directory

A record goes into the first empty slot, and no call takes a block away from the root. So the root has
whole blocks with room for as many names as ever were there at one time, and no more.
-/

set_option autoImplicit false

namespace ImageFS.Entry

variable {slots : List Entry} {e : Entry} {name : Name} {k : Nat}

/-- How many records of a row are not empty. -/
def filled (slots : List Entry) : Nat := slots.countP fun e => !e.isEmpty

structure FirstEmpty (slots : List Entry) (slot : Nat) : Prop where
  taken : ∀ k < slot, ∃ e, slots[k]? = some e ∧ e.isEmpty = false
  empty : ∀ e, slots[slot]? = some e → e.isEmpty = true

theorem firstEmpty_findIdx (slots : List Entry) : FirstEmpty slots (slots.findIdx isEmpty) where
  taken k hk := by
    have hlt : k < slots.length := Nat.lt_of_lt_of_le hk List.findIdx_le_length
    exact ⟨slots[k], List.getElem?_eq_getElem hlt, List.not_of_lt_findIdx hk⟩
  empty e he := by
    obtain ⟨hlt, rfl⟩ := List.getElem?_eq_some_iff.mp he
    exact List.findIdx_getElem

theorem filled_withRoom (slots : List Entry) : filled (withRoom slots) = filled slots := by
  unfold withRoom
  split
  · rfl
  · rw [filled, List.countP_append, List.countP_replicate, filled]
    rfl

theorem isEmpty_withRoom (h : (withRoom slots)[slots.findIdx isEmpty]? = some e) : e.isEmpty = true := by
  unfold withRoom at h
  split at h
  · exact (firstEmpty_findIdx slots).empty e h
  · rename_i hany
    have hall : ∀ x ∈ slots, x.isEmpty = false := by simpa using hany
    rw [List.findIdx_eq_length_of_false hall, List.getElem?_append_right (Nat.le_refl _)] at h
    rw [List.eq_of_mem_replicate (List.mem_of_getElem? h)]
    rfl

theorem filled_putFirst (he : e.isEmpty = false) : filled (putFirst e slots) = filled slots + 1 := by
  have hlt := findIdx_lt_withRoom slots
  have hempty := isEmpty_withRoom (List.getElem?_eq_getElem hlt)
  rw [filled, putFirst, List.countP_set hlt, hempty, he, ← filled_withRoom slots]
  rfl

theorem length_clearName (name : Name) (slots : List Entry) : (clearName name slots).length = slots.length := by
  rw [clearName, List.length_set]

theorem filled_clearName_le (name : Name) (slots : List Entry) : filled (clearName name slots) ≤ filled slots := by
  by_cases hlt : (slots.findIdx fun e => !e.isEmpty && e.name = name) < slots.length
  · have hgone : (!(⟨0, name⟩ : Entry).isEmpty) = false := rfl
    rw [filled, clearName, List.countP_set hlt, hgone]
    exact Nat.sub_le _ _
  · rw [clearName, List.set_eq_of_length_le (Nat.le_of_not_lt hlt)]

theorem mem_clearName {x : Entry} (hx : x ∈ clearName name slots) (hempty : x.isEmpty = false) : x ∈ slots := by
  obtain hx | rfl := List.mem_or_eq_of_mem_set hx
  · exact hx
  · cases hempty

end ImageFS.Entry

namespace ImageFS.FileSystem

open Volume Reference

/-- A row of whole blocks with room for so many records, but not for a block more. -/
structure Sized (peak : Nat) (slots : List Entry) : Prop where
  filled_le : Entry.filled slots ≤ peak
  length_eq : slots.length = entriesPerBlock * ceilDiv peak entriesPerBlock

variable {slots slots' : List Entry} {peak k : Nat}

theorem Sized.step (s : Sized peak slots) (hstep : RowStep slots slots') :
    Sized (max peak (Entry.filled slots')) slots' := by
  refine ⟨Nat.le_max_right _ _, ?_⟩
  have hle := s.filled_le
  have hlength := s.length_eq
  cases hstep with
  | kept => rw [Nat.max_eq_left hle, hlength]
  | cleared name =>
    rw [Nat.max_eq_left (Nat.le_trans (Entry.filled_clearName_le name slots) hle), Entry.length_clearName, hlength]
  | put filled =>
    rw [Entry.length_putFirst, Entry.filled_putFirst filled]
    by_cases hany : slots.any Entry.isEmpty = true
    · -- there is a slot that the peak did not count
      obtain ⟨e, he, hempty⟩ := List.any_eq_true.mp hany
      have hlt : Entry.filled slots < slots.length := List.countP_lt_length_iff.mpr ⟨e, he, by rw [hempty]; rfl⟩
      rw [if_pos hany]
      simp only [ceilDiv, entriesPerBlock] at hlength ⊢
      omega
    · -- all slots are counted, and the peak is their number
      have hfull : Entry.filled slots = slots.length :=
        List.countP_eq_length.mpr fun e he => by simpa using fun hempty => hany (List.any_eq_true.mpr ⟨e, he, hempty⟩)
      rw [if_neg hany]
      simp only [ceilDiv, entriesPerBlock] at hlength ⊢
      omega

theorem new_record {e : Entry} (hstep : RowStep slots slots') (he : e ∈ slots') (hempty : e.isEmpty = false)
    (hnew : e ∉ slots) : ∃ slot, Entry.FirstEmpty slots slot ∧ slots'[slot]? = some e := by
  cases hstep with
  | kept => exact absurd he hnew
  | cleared name => exact absurd (Entry.mem_clearName he hempty) hnew
  | put filled =>
    obtain rfl | hold := Entry.mem_putFirst he hempty
    · exact ⟨_, Entry.firstEmpty_findIdx slots, Entry.getElem?_putFirst_self e slots⟩
    · exact absurd hold hnew

theorem length_step (hstep : RowStep slots slots') (hne : slots'.length ≠ slots.length) :
    (∀ e ∈ slots, e.isEmpty = false) ∧ slots'.length = slots.length + entriesPerBlock := by
  cases hstep with
  | kept => exact absurd rfl hne
  | cleared name => exact absurd (Entry.length_clearName name slots) hne
  | put filled =>
    rw [Entry.length_putFirst] at hne ⊢
    split at hne
    · exact absurd rfl hne
    · rename_i hany
      exact ⟨by simpa using hany, if_neg hany⟩

noncomputable def population (v : Volume) : Nat := {name | nameMap v name ≠ none}.ncard

variable {device d : Device} {inodes : UInt32} {v w : Volume} {T : UInt32 → Inode}

theorem nameMap_ne_none {name : Name} :
    nameMap v name ≠ none ↔ ∃ e ∈ rootEntries v, e.isEmpty = false ∧ e.name = name := by
  rw [nameMap, Ne, Option.map_eq_none_iff, List.find?_eq_none]
  simp

namespace Consistent

variable (h : Consistent v T)

include h

theorem population_eq : population v = Entry.filled (rootEntries v) := by
  have hnodup : (((rootEntries v).filter fun e => !e.isEmpty).map (·.name)).Nodup := by
    rw [List.Nodup, List.pairwise_map, List.pairwise_filter, List.pairwise_iff_getElem]
    intro i j hi hj hlt he he' hname
    have hij := h.name_injective (List.getElem?_eq_getElem hi) (List.getElem?_eq_getElem hj)
      (by simpa [Entry.isEmpty] using he) (by simpa [Entry.isEmpty] using he') hname
    exact Nat.ne_of_lt hlt hij
  have hnames : {name | nameMap v name ≠ none} =
      (((rootEntries v).filter fun e => !e.isEmpty).map (·.name)).toFinset := by
    ext name
    rw [Set.mem_ofPred_eq, nameMap_ne_none]
    simp [and_assoc]
  rw [population, hnames, Set.ncard_coe_finset, List.toFinset_card_of_nodup hnodup, List.length_map, Entry.filled,
    List.countP_eq_length_filter]

theorem root_size : ∃ m, metadata v rootInode = .ok m ∧ m.size.toNat = entrySize * (rootEntries v).length := by
  obtain ⟨mode, hroot⟩ := h.root_eq
  have hlive := h.ledger.liveInode_ok h.root_inUse
  refine ⟨(T rootInode).metadata, ?_, ?_⟩
  · rw [metadata, hlive]
    rfl
  · rw [h.length_rootEntries, hroot]
    have haligned := h.aligned
    change (rootChain T).size.toNat = entrySize * ((rootChain T).size.toNat / entrySize)
    simp only [entrySize, blockSize] at haligned ⊢
    omega

theorem sized_after (calls : List Call) (hsized : Sized peak (rootEntries v)) :
    ∃ P, Sized P (rootEntries (FileSystem.after v calls)) ∧ peak ≤ P ∧ (∀ u ∈ stages v calls, population u ≤ P) ∧
      (P = peak ∨ ∃ u ∈ stages v calls, population u = P) := by
  induction calls generalizing v T peak with
  | nil =>
    refine ⟨peak, hsized, Nat.le_refl _, fun u hu => ?_, .inl rfl⟩
    rw [List.mem_singleton.mp hu, h.population_eq]
    exact hsized.filled_le
  | cons c calls ih =>
    obtain ⟨T', h'⟩ := h.call c
    obtain ⟨P, hafter, hle, hall, hreached⟩ := ih h' (hsized.step (h.rowStep c))
    refine ⟨P, hafter, Nat.le_trans (Nat.le_max_left _ _) hle, fun u hu => ?_, ?_⟩
    · obtain rfl | hu := List.mem_cons.mp hu
      · rw [h.population_eq]
        exact Nat.le_trans hsized.filled_le (Nat.le_trans (Nat.le_max_left _ _) hle)
      · exact hall u hu
    · obtain rfl | ⟨u, hu, hpeak⟩ := hreached
      · -- the peak is either the old one or the population after the call
        obtain hold | hnew := Nat.le_total (Entry.filled (rootEntries (c.run v).2)) peak
        · exact .inl (Nat.max_eq_left hold)
        · refine .inr ⟨_, List.mem_cons_of_mem _ (mem_stages_self _ _), ?_⟩
          rw [h'.population_eq, Nat.max_eq_right hnew]
      · exact .inr ⟨u, List.mem_cons_of_mem _ hu, hpeak⟩

theorem new_name_slot (c : Call) {name : Name} {ino : UInt32} (hfresh : nameMap v name = none)
    (hnamed : nameMap (c.run v).2 name = some ino) :
    ∃ slot, Entry.FirstEmpty (rootEntries v) slot ∧ (rootEntries (c.run v).2)[slot]? = some ⟨ino, name⟩ := by
  obtain ⟨T', h'⟩ := h.call c
  obtain ⟨hne, slot, hslot, hentry⟩ := h'.nameMap_eq_some.mp hnamed
  refine new_record (h.rowStep c) (h'.mem_rootEntries.mpr ⟨slot, hslot, hentry⟩) (decide_eq_false hne) fun hold => ?_
  exact nameMap_ne_none.mpr ⟨_, hold, decide_eq_false hne, rfl⟩ hfresh

theorem root_grows (c : Call) {m m' : Metadata} (hm : metadata v rootInode = .ok m)
    (hm' : metadata (c.run v).2 rootInode = .ok m') (hne : m'.size ≠ m.size) :
    (∀ e ∈ rootEntries v, e.isEmpty = false) ∧ m'.size.toNat = m.size.toNat + blockSize ∧
      ∃ answer, (c.run v).1 = .ok answer := by
  obtain ⟨T', h'⟩ := h.call c
  have hsize : m.size.toNat = entrySize * (rootEntries v).length := by
    obtain ⟨n, hn, hsize⟩ := h.root_size
    rw [← hsize, Except.ok.inj (hm.symm.trans hn)]
  have hsize' : m'.size.toNat = entrySize * (rootEntries (c.run v).2).length := by
    obtain ⟨n, hn, hsize⟩ := h'.root_size
    rw [← hsize, Except.ok.inj (hm'.symm.trans hn)]
  have hlength : (rootEntries (c.run v).2).length ≠ (rootEntries v).length := fun heq =>
    hne (UInt32.toNat_inj.mp (by rw [hsize', heq, hsize]))
  obtain ⟨hfull, hmore⟩ := length_step (h.rowStep c) hlength
  refine ⟨hfull, ?_, ?_⟩
  · rw [hsize', hmore, Nat.mul_add, ← hsize]
    rfl
  · cases hrun : c.perform v with
    | ok answer w => exact ⟨answer, by rw [run_of_ok hrun]⟩
    | error e w =>
      rw [run_of_error hrun, ((h.keeps_perform c).error hrun).entries] at hlength
      exact absurd rfl hlength

end Consistent

/-- The root has room for the most names that were there at one time, in whole blocks. A new name goes
into the lowest empty slot. A call makes the root larger only if it succeeds and no slot was empty, and then
by one block. -/
theorem root_size_follows_peak (hd : device.FaultFree) (hformat : Volume.format inodes device = .ok v d)
    (calls : List Call) :
    (∃ P m, IsGreatest {n | ∃ u ∈ stages v calls, population u = n} P ∧
      metadata (after v calls) rootInode = .ok m ∧ m.size.toNat = blockSize * ceilDiv P entriesPerBlock) ∧
    ∀ c : Call,
      (∀ name ino, nameMap (after v calls) name = none → nameMap (c.run (after v calls)).2 name = some ino →
        ∃ slot, Entry.FirstEmpty (rootEntries (after v calls)) slot ∧
          (rootEntries (c.run (after v calls)).2)[slot]? = some ⟨ino, name⟩) ∧
      ∀ m m', metadata (after v calls) rootInode = .ok m → metadata (c.run (after v calls)).2 rootInode = .ok m' →
        m'.size ≠ m.size →
        (∀ e ∈ rootEntries (after v calls), e.isEmpty = false) ∧ m'.size.toNat = m.size.toNat + blockSize ∧
          ∃ answer, (c.run (after v calls)).1 = .ok answer := by
  have h := format_consistent hd hformat
  have hempty := rootEntries_format hd hformat
  have hstart : Sized 0 (rootEntries v) := by
    rw [hempty]
    exact ⟨Nat.le_refl _, rfl⟩
  obtain ⟨T', hafter⟩ := h.after calls
  refine ⟨?_, fun c => ⟨fun name ino => hafter.new_name_slot c, fun m m' => hafter.root_grows c⟩⟩
  obtain ⟨P, hsized, -, hall, hreached⟩ := h.sized_after calls hstart
  obtain ⟨m, hm, hsize⟩ := hafter.root_size
  refine ⟨P, m, ⟨?_, fun n hn => ?_⟩, hm, ?_⟩
  · obtain rfl | hreached := hreached
    · exact ⟨v, mem_stages_self _ _, by rw [h.population_eq, hempty]; rfl⟩
    · exact hreached
  · obtain ⟨u, hu, rfl⟩ := hn
    exact hall u hu
  · rw [hsize, hsized.length_eq, ← Nat.mul_assoc]
    rfl

theorem root_size_follows_peak_removed : ∃ v d, Volume.format 16 (.blank 16384 512) = .ok v d ∧
    ∃ P m, IsGreatest {n | ∃ u ∈ stages v [.create rootInode ['a'.toUInt8] 0o644, .unlink rootInode ['a'.toUInt8]],
        population u = n} P ∧ 1 ≤ P ∧
      metadata (after v [.create rootInode ['a'.toUInt8] 0o644, .unlink rootInode ['a'.toUInt8]]) rootInode = .ok m ∧
      m.size.toNat = blockSize * ceilDiv P entriesPerBlock := by
  obtain ⟨v, d, hformat⟩ := exists_new
  have hd := blank_faultFree 16384 512
  obtain ⟨⟨P, m, hP, hm, hsize⟩, -⟩ := root_size_follows_peak hd hformat
    [.create rootInode ['a'.toUInt8] 0o644, .unlink rootInode ['a'.toUInt8]]
  refine ⟨v, d, hformat, P, m, hP, ?_, hm, hsize⟩
  obtain ⟨hmap, -⟩ := create_format hd hformat (by decide : Name.check ['a'.toUInt8] = .ok ()) 0o644
  obtain ⟨T, h⟩ := (format_consistent hd hformat).call (.create rootInode ['a'.toUInt8] 0o644)
  obtain ⟨e, he, hempty, -⟩ := nameMap_ne_none.mp (by rw [hmap]; exact Option.some_ne_none 2)
  have hone : 1 ≤ population (Call.run (.create rootInode ['a'.toUInt8] 0o644) v).2 := by
    rw [h.population_eq]
    exact List.countP_pos_iff.mpr ⟨e, he, by rw [hempty]; rfl⟩
  exact Nat.le_trans hone (hP.2 ⟨_, List.mem_cons_of_mem _ (mem_stages_self _ _), rfl⟩)

end ImageFS.FileSystem
