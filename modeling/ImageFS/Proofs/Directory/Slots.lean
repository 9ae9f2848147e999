import ImageFS.Directory
import ImageFS.Proofs.Chain.Laid
import ImageFS.Proofs.Record.Entry

/-!
# Directories as arrays of slots

The records of a directory are an array over its chain, sixteen to a block. Reading gives all slots,
searching the first slot that fits, and a write replaces one slot.
-/

set_option autoImplicit false

namespace ImageFS

open Volume Holding

namespace Entry

/-- A row of records with an empty one: if there is none, those of one more block follow. -/
def withRoom (slots : List Entry) : List Entry :=
  if slots.any isEmpty then slots else slots ++ List.replicate entriesPerBlock ⟨0, []⟩

/-- The row with a record in the first empty slot. -/
def putFirst (e : Entry) (slots : List Entry) : List Entry := (withRoom slots).set (slots.findIdx isEmpty) e

def clearName (name : Name) (slots : List Entry) : List Entry :=
  slots.set (slots.findIdx fun e => !e.isEmpty && e.name = name) ⟨0, name⟩

def inUseFrom (rows : List Entry) (slot : Nat) : List (Nat × Entry) :=
  (rows.zipIdx.drop slot).filterMap fun (e, k) => if e.isEmpty then none else some (k, e)

variable {rows : List Entry} {e : Entry} {k slot : Nat}

theorem mem_inUseFrom : (k, e) ∈ inUseFrom rows slot ↔ slot ≤ k ∧ rows[k]? = some e ∧ e.isEmpty = false := by
  rw [inUseFrom, List.mem_filterMap]
  constructor
  · rintro ⟨⟨e', k'⟩, hmem, hitem⟩
    obtain ⟨i, hi⟩ := List.mem_iff_getElem?.mp hmem
    rw [List.getElem?_drop, List.getElem?_zipIdx, Option.map_eq_some_iff] at hi
    obtain ⟨a, ha, he⟩ := hi
    cases he
    dsimp only at hitem
    split at hitem
    · cases hitem
    · rename_i hempty
      cases hitem
      rw [Nat.zero_add]
      exact ⟨Nat.le_add_right slot i, ha, Bool.eq_false_iff.mpr hempty⟩
  · rintro ⟨hle, hk, hempty⟩
    have hmem : (e, k) ∈ rows.zipIdx.drop slot := by
      refine List.mem_iff_getElem?.mpr ⟨k - slot, ?_⟩
      rw [List.getElem?_drop, List.getElem?_zipIdx, Nat.zero_add, Nat.add_sub_cancel' hle, hk]
      rfl
    exact ⟨(e, k), hmem, if_neg (Bool.eq_false_iff.mp hempty)⟩

theorem pairwise_inUseFrom (rows : List Entry) (slot : Nat) : (inUseFrom rows slot).Pairwise (·.1 < ·.1) := by
  have hslots : (rows.zipIdx.drop slot).Pairwise (·.2 < ·.2) := by
    have hrange := List.pairwise_lt_range' (s := 0) (n := rows.length)
    rw [← List.zipIdx_map_snd 0 rows, List.pairwise_map] at hrange
    exact hrange.drop
  rw [inUseFrom, List.pairwise_filterMap]
  refine hslots.imp fun {p q} hpq x hx y hy => ?_
  dsimp only at hx hy
  split at hx
  · cases hx
  · split at hy
    · cases hy
    · cases hx
      cases hy
      exact hpq

theorem map_range_set {E E' : Nat → Entry} {slots : Nat} (h : ∀ s < slots, E' s = if s = slot then e else E s) :
    (List.range slots).map E' = ((List.range slots).map E).set slot e := by
  refine List.ext_getElem (by rw [List.length_set, List.length_map, List.length_map]) fun s hs hs' => ?_
  rw [List.length_map, List.length_range] at hs
  rw [List.getElem_set, List.getElem_map, List.getElem_map, List.getElem_range, h s hs]
  exact ite_congr (propext eq_comm) (fun _ => rfl) fun _ => rfl

theorem found_iff {name : Name} : (!e.isEmpty && decide (e.name = name)) = true ↔ e.ino ≠ 0 ∧ e.name = name := by
  rw [Bool.and_eq_true, Bool.not_eq_true', decide_eq_true_eq, isEmpty, decide_eq_false_iff_not]

theorem find?_zipIdx_eq_some {p : Entry → Bool} : rows.zipIdx.find? (fun x => p x.1) = some (e, k) ↔
    rows[k]? = some e ∧ p e = true ∧ ∀ j < k, ∀ e', rows[j]? = some e' → p e' = false := by
  rw [List.find?_eq_some_iff_getElem]
  constructor
  · rintro ⟨hp, i, hi, hget, hbefore⟩
    rw [List.getElem_zipIdx, Prod.mk.injEq, Nat.zero_add] at hget
    obtain ⟨he, rfl⟩ := hget
    refine ⟨List.getElem?_eq_some_iff.mpr ⟨_, he⟩, hp, fun j hj e' he' => ?_⟩
    obtain ⟨hjlt, rfl⟩ := List.getElem?_eq_some_iff.mp he'
    have hno := hbefore j hj
    rwa [List.getElem_zipIdx, Bool.not_eq_true'] at hno
  · rintro ⟨hk, hp, hbefore⟩
    obtain ⟨hlt, he⟩ := List.getElem?_eq_some_iff.mp hk
    have hlength : rows.zipIdx.length = rows.length := List.length_zipIdx
    refine ⟨hp, k, hlength.symm ▸ hlt, ?_, fun j hj => ?_⟩
    · rw [List.getElem_zipIdx, he, Nat.zero_add]
    · rw [List.getElem_zipIdx, Bool.not_eq_true']
      exact hbefore j hj _ (List.getElem?_eq_getElem (Nat.lt_trans hj hlt))

theorem find?_zipIdx_eq_none {p : Entry → Bool} :
    rows.zipIdx.find? (fun x => p x.1) = none ↔ ∀ e ∈ rows, p e = false := by
  rw [List.find?_eq_none]
  constructor
  · intro h e he
    obtain ⟨k, hk⟩ := List.mem_iff_getElem?.mp he
    exact Bool.eq_false_iff.mpr (h (e, k) (List.mk_mem_zipIdx_iff_getElem?.mpr hk))
  · intro h x hx
    have hx := List.mk_mem_zipIdx_iff_getElem?.mp hx
    exact Bool.eq_false_iff.mp (h x.1 (List.mem_of_getElem? hx))

theorem getElem?_map_range {E : Nat → Entry} {slots : Nat} :
    ((List.range slots).map E)[k]? = some e ↔ k < slots ∧ E k = e := by
  rw [List.getElem?_map, Option.map_eq_some_iff]
  constructor
  · rintro ⟨s, hs, he⟩
    obtain ⟨hlt, rfl⟩ := List.getElem?_eq_some_iff.mp hs
    rw [List.length_range] at hlt
    rw [List.getElem_range] at he
    exact ⟨hlt, he⟩
  · rintro ⟨hlt, he⟩
    exact ⟨k, List.getElem?_range hlt, he⟩

end Entry

namespace Chain

/-- The directory record in slot `s` of a chain. -/
def entry (c : Chain) (m : Memory) (s : Nat) : Entry :=
  (m (c.pointer m (.data (s / entriesPerBlock)))).entry (s % entriesPerBlock)

def slotCount (c : Chain) : Nat := c.size.toNat / entrySize

variable {c c' : Chain} {v w : Volume} {m : Memory} {s slot k : Nat}

theorem slot_block (hs : s < c.slotCount) : s / entriesPerBlock < c.blockCount := by
  simp only [slotCount, entrySize, entriesPerBlock, blockCount, blocksForSize, ceilDiv, blockSize] at *
  omega

theorem slotCount_le (c : Chain) : c.slotCount ≤ entriesPerBlock * c.blockCount := by
  simp only [slotCount, entrySize, entriesPerBlock, blockCount, blocksForSize, ceilDiv, blockSize]
  omega

theorem slotCount_of_aligned (h : c.size.toNat % blockSize = 0) : c.slotCount = entriesPerBlock * c.blockCount := by
  simp only [slotCount, entrySize, entriesPerBlock, blockCount, blocksForSize, ceilDiv, blockSize] at *
  omega

theorem Grown.entry (g : Grown c v c' w) (hs : s / entriesPerBlock < c'.blockCount) :
    c'.entry w.cell s = if s / entriesPerBlock < c.blockCount then c.entry v.cell s else ⟨0, []⟩ := by
  unfold Chain.entry
  by_cases hold : s / entriesPerBlock < c.blockCount
  · rw [if_pos hold, g.longer.kept (.data _) hold, g.longer.contents _ hold]
  · rw [if_neg hold, g.zero _ (Nat.le_of_not_lt hold) hs, Block.entry_zero]

theorem Grown.slots (g : Grown c v c' w) (aligned : c.size.toNat % blockSize = 0)
    (aligned' : c'.size.toNat % blockSize = 0) (hcount : c'.blockCount = c.blockCount + 1) :
    c'.slotCount = c.slotCount + entriesPerBlock ∧ ∀ s < c'.slotCount,
      c'.entry w.cell s = if s < c.slotCount then c.entry v.cell s else ⟨0, []⟩ := by
  have hslots := slotCount_of_aligned aligned
  refine ⟨?_, fun s hs => ?_⟩
  · rw [slotCount_of_aligned aligned', hslots, hcount, Nat.mul_succ]
  · have hold : s / entriesPerBlock < c.blockCount ↔ s < c.slotCount := by
      rw [hslots]
      simp only [entriesPerBlock]
      omega
    rw [g.entry (slot_block hs)]
    simp only [hold]

def occupied (c : Chain) (m : Memory) : List (Nat × Entry) :=
  (List.range c.slotCount).filterMap fun s => if (c.entry m s).isEmpty then none else some (s, c.entry m s)

theorem occupied_congr {m' : Memory} (hmore : c.slotCount ≤ c'.slotCount)
    (hold : ∀ s < c.slotCount, c'.entry m' s = c.entry m s ∨ (c'.entry m' s).ino = 0 ∧ (c.entry m s).ino = 0)
    (hnew : ∀ s, c.slotCount ≤ s → s < c'.slotCount → (c'.entry m' s).ino = 0) : c'.occupied m' = c.occupied m := by
  have hempty : ∀ {e : Entry}, e.ino = 0 → e.isEmpty = true := fun he => decide_eq_true he
  obtain ⟨k, hk⟩ := Nat.exists_eq_add_of_le hmore
  rw [occupied, occupied, hk, List.range_add, List.filterMap_append]
  have hend : ((List.range k).map (c.slotCount + ·)).filterMap (fun s =>
      if (c'.entry m' s).isEmpty then none else some (s, c'.entry m' s)) = [] := by
    refine List.filterMap_eq_nil_iff.mpr fun s hs => ?_
    obtain ⟨i, hi, rfl⟩ := List.mem_map.mp hs
    have hi := List.mem_range.mp hi
    exact if_pos (hempty (hnew _ (Nat.le_add_right _ _) (by omega)))
  rw [hend, List.append_nil]
  refine List.filterMap_congr fun s hs => ?_
  rcases hold s (List.mem_range.mp hs) with hsame | ⟨h', h⟩
  · rw [hsame]
  · rw [if_pos (hempty h'), if_pos (hempty h)]

theorem entry_put (l : c.Laid v) (hslot : slot / entriesPerBlock < c.blockCount) {block : Block} {e : Entry}
    (hblock : ∀ j, block.entry j = if j = slot % entriesPerBlock then e
      else (v.cell (c.pointer v.cell (.data (slot / entriesPerBlock)))).entry j)
    (hs : s / entriesPerBlock < c.blockCount) :
    c.entry (v.put (c.pointer v.cell (.data (slot / entriesPerBlock))) block).cell s =
      if s = slot then e else c.entry v.cell s := by
  unfold entry
  rw [l.pointer_put hslot block (p := .data _) hs, l.cell_put hslot]
  by_cases hsame : s / entriesPerBlock = slot / entriesPerBlock
  · rw [if_pos (by rw [hsame]), hblock]
    by_cases hslots : s = slot
    · rw [if_pos hslots, if_pos (by rw [hslots])]
    · rw [if_neg hslots, if_neg, hsame]
      intro hmod
      apply hslots
      rw [← Nat.div_add_mod s entriesPerBlock, hsame, hmod, Nat.div_add_mod]
  · rw [if_neg fun he => hsame (l.distinct _ hs _ hslot he), if_neg]
    rintro rfl
    exact hsame rfl

end Chain

namespace Directory

variable {dir : Directory} {v w : Volume} {name : Name} {s slot : Nat} {rows : List Entry} {e : Entry}

theorem slotCount_eq (dir : Directory) : dir.slotCount = dir.chain.slotCount := rfl

theorem take_flatMap_range {α : Type} (f : Nat → Nat → α) (n count : Nat) (h : count ≤ 16 * n) :
    ((List.range n).flatMap fun k => (List.range 16).map (f k)).take count =
      (List.range count).map fun s => f (s / 16) (s % 16) := by
  have hall : ∀ n, ((List.range n).flatMap fun k => (List.range 16).map (f k)) =
      (List.range (16 * n)).map fun s => f (s / 16) (s % 16) := by
    intro n
    induction n with
    | zero => rfl
    | succ n ih =>
      have hrange : List.range (16 * (n + 1)) = List.range (16 * n) ++ (List.range 16).map (16 * n + ·) := by
        rw [Nat.mul_add, Nat.mul_one, List.range_add]
      rw [@List.range_succ n, List.flatMap_append, ih, hrange, List.map_append, List.flatMap_singleton, List.map_map]
      refine congrArg _ (List.map_congr_left fun j hj => ?_)
      have hj := List.mem_range.mp hj
      rw [Function.comp, show (16 * n + j) / 16 = n by omega, show (16 * n + j) % 16 = j by omega]
  rw [hall, ← List.map_take, List.take_range, Nat.min_eq_left h]

theorem zipIdx_entries (dir : Directory) (m : Memory) : ((List.range dir.slotCount).map (dir.chain.entry m)).zipIdx =
    (List.range dir.slotCount).map fun s => (dir.chain.entry m s, s) := by
  apply List.ext_getElem (by simp)
  intro k hk _
  simp

theorem entries_of_mapped (dir : Directory) (h : dir.chain.Mapped v) :
    dir.entries v = .ok ((List.range dir.slotCount).map (dir.chain.entry v.cell)) := by
  have hread : (List.range dir.chain.blockCount).mapM (fun k => do v.readBlock (← dir.chain.blockAt v k)) =
      .ok ((List.range dir.chain.blockCount).map fun k => v.cell (dir.chain.pointer v.cell (.data k))) := by
    apply mapM_ok _ _ _
    intro k hk
    have hk := List.mem_range.mp hk
    simp only [bind, Except.bind, h.found k hk, h.reads k hk]
  have hslots := dir.chain.slotCount_le
  rw [entries, hread]
  simp only [bind, Except.bind, pure, Except.pure, List.flatMap_map]
  exact congrArg Except.ok (take_flatMap_range
    (fun k j => (v.cell (dir.chain.pointer v.cell (.data k))).entry j) _ _ hslots)

theorem locate_of_mapped (dir : Directory) (h : dir.chain.Mapped v) (hslot : slot < dir.slotCount) : dir.locate v slot =
    .ok (dir.chain.pointer v.cell (.data (slot / entriesPerBlock)), slot % entriesPerBlock * entrySize) := by
  have hblock : slot * entrySize / blockSize = slot / entriesPerBlock := by
    simp only [entrySize, blockSize, entriesPerBlock]
    omega
  have hoffset : slot * entrySize % blockSize = slot % entriesPerBlock * entrySize := by
    simp only [entrySize, blockSize, entriesPerBlock]
    omega
  rw [locate, if_neg (Nat.not_le_of_lt hslot), hblock, hoffset]
  simp only [bind, Except.bind, h.found _ (Chain.slot_block hslot)]
  rfl

theorem writeEntry_of_laid (l : dir.chain.Laid v) (e : Entry) (hslot : slot < dir.slotCount) :
    dir.writeEntry slot e v = .ok () (v.put (dir.chain.pointer v.cell (.data (slot / entriesPerBlock)))
      ((v.cell (dir.chain.pointer v.cell (.data (slot / entriesPerBlock)))).patch
        (slot % entriesPerBlock * entrySize) e.encode)) := by
  rw [writeEntry, bind_of_ok (ask_of_ok (locate_of_mapped dir l.toMapped hslot))]
  exact updateBlock_device l.device (l.inside _ (Chain.slot_block hslot)) _

theorem clearEntry_of_laid (l : dir.chain.Laid v) (hslot : slot < dir.slotCount) :
    dir.clearEntry slot v = .ok () (v.put (dir.chain.pointer v.cell (.data (slot / entriesPerBlock)))
      ((v.cell (dir.chain.pointer v.cell (.data (slot / entriesPerBlock)))).setWord
        (slot % entriesPerBlock * entrySize) 0)) := by
  rw [clearEntry, bind_of_ok (ask_of_ok (locate_of_mapped dir l.toMapped hslot))]
  exact updateBlock_device l.device (l.inside _ (Chain.slot_block hslot)) _

theorem occupiedFrom_of_entries (h : dir.entries v = .ok rows) (slot : Nat) :
    dir.occupiedFrom v slot = .ok (Entry.inUseFrom rows slot) := by
  rw [occupiedFrom, h]
  rfl

theorem find_of_entries (h : dir.entries v = .ok rows) (name : Name) : ∃ found, dir.find v name = .ok found ∧
    (∀ k e, found = some (k, e) ↔ rows[k]? = some e ∧ e.ino ≠ 0 ∧ e.name = name ∧
      ∀ j < k, ∀ e', rows[j]? = some e' → e'.ino ≠ 0 → e'.name ≠ name) ∧
    (found = none ↔ ∀ e ∈ rows, e.ino ≠ 0 → e.name ≠ name) := by
  have hrun : dir.find v name =
      .ok ((rows.zipIdx.find? fun x => !x.1.isEmpty && x.1.name = name).map fun x => (x.2, x.1)) := by
    rw [find, h]
    rfl
  have hmiss : ∀ e : Entry, (!e.isEmpty && decide (e.name = name)) = false ↔ (e.ino ≠ 0 → e.name ≠ name) := by
    intro e
    rw [Bool.eq_false_iff, Ne, Entry.found_iff, not_and]
  refine ⟨_, hrun, fun k e => ?_, ?_⟩
  · have hswap : (rows.zipIdx.find? fun x => !x.1.isEmpty && x.1.name = name).map (fun x => (x.2, x.1)) = some (k, e) ↔
        rows.zipIdx.find? (fun x => !x.1.isEmpty && x.1.name = name) = some (e, k) := by
      rw [Option.map_eq_some_iff]
      constructor
      · rintro ⟨x, hx, heq⟩
        cases heq
        exact hx
      · intro hx
        exact ⟨_, hx, rfl⟩
    rw [hswap, Entry.find?_zipIdx_eq_some (p := fun e => !e.isEmpty && e.name = name), Entry.found_iff, and_assoc]
    simp only [hmiss]
  · rw [Option.map_eq_none_iff, Entry.find?_zipIdx_eq_none (p := fun e => !e.isEmpty && e.name = name)]
    simp only [hmiss]

section

variable (dir) (h : dir.chain.Held v) (hv : v.Sound)

include h hv

theorem entries_eq : dir.entries v = .ok ((List.range dir.slotCount).map (dir.chain.entry v.cell)) :=
  entries_of_mapped dir (h.mapped hv)

theorem occupiedFrom_eq : dir.occupiedFrom v 0 = .ok (dir.chain.occupied v.cell) := by
  rw [occupiedFrom, entries_eq dir h hv, ok_bind, zipIdx_entries, List.drop_zero, List.filterMap_map, slotCount_eq]
  exact congrArg Except.ok (List.filterMap_congr fun s _ => by rw [Function.comp_apply])

theorem find_some {e : Entry} (hfind : dir.find v name = .ok (some (s, e))) :
    s < dir.slotCount ∧ e = dir.chain.entry v.cell s ∧ e.ino ≠ 0 ∧ e.name = name := by
  obtain ⟨found, hrun, hsome, -⟩ := find_of_entries (entries_eq dir h hv) name
  have hfound : found = some (s, e) := Except.ok.inj (hrun.symm.trans hfind)
  obtain ⟨hrow, hino, hname, -⟩ := (hsome s e).mp hfound
  obtain ⟨hs, he⟩ := Entry.getElem?_map_range.mp hrow
  exact ⟨hs, he.symm, hino, hname⟩

theorem find_none : dir.find v name = .ok none ↔
    ∀ s < dir.slotCount, (dir.chain.entry v.cell s).ino ≠ 0 → (dir.chain.entry v.cell s).name ≠ name := by
  obtain ⟨found, hrun, -, hnone⟩ := find_of_entries (entries_eq dir h hv) name
  rw [hrun, Except.ok.injEq, hnone, List.forall_mem_map]
  simp only [List.mem_range]

theorem find_total (name : Name) : ∃ found, dir.find v name = .ok found := by
  obtain ⟨found, hrun, -⟩ := find_of_entries (entries_eq dir h hv) name
  exact ⟨found, hrun⟩

theorem locate_eq (hslot : slot < dir.slotCount) : dir.locate v slot =
    .ok (dir.chain.pointer v.cell (.data (slot / entriesPerBlock)), slot % entriesPerBlock * entrySize) :=
  locate_of_mapped dir (h.mapped hv) hslot

theorem writeEntry_ok (hslot : slot < dir.slotCount) (hshort : e.name.length ≤ maxNameLength)
    (hzero : ∀ x ∈ e.name, x ≠ 0) :
    ∃ w, dir.writeEntry slot e v = .ok () w ∧ dir.chain.Stored v w ∧ ∀ s < dir.slotCount,
      dir.chain.entry w.cell s = if s = slot then e else dir.chain.entry v.cell s := by
  have hin := Chain.slot_block hslot
  have hmod : slot % entriesPerBlock < entriesPerBlock := Nat.mod_lt _ (by decide)
  exact ⟨_, writeEntry_of_laid (h.laid hv) e hslot, h.stored_put hv hin _, fun s hs =>
    Chain.entry_put (h.laid hv) hin (Block.entry_patch _ e hshort hzero hmod) (Chain.slot_block hs)⟩

theorem freeSlot_of_empty (hread : dir.entries w = dir.entries v)
    (hany : ∃ s < dir.slotCount, (dir.chain.entry v.cell s).ino = 0) :
    ∃ slot, freeSlot (dir, w) = .ok slot (dir, w) ∧ slot < dir.slotCount ∧ (dir.chain.entry v.cell slot).ino = 0 ∧
      slot = ((List.range dir.slotCount).map (dir.chain.entry v.cell)).findIdx Entry.isEmpty := by
  have hask := onVolume_of_ok (b := dir) (ask_of_ok (hread.trans (entries_eq dir h hv)))
  cases hfound : ((List.range dir.slotCount).map (dir.chain.entry v.cell)).findIdx? Entry.isEmpty with
  | none =>
    obtain ⟨s, hs, hempty⟩ := hany
    have hall := List.findIdx?_eq_none_iff.mp hfound _ (List.mem_map.mpr ⟨s, List.mem_range.mpr hs, rfl⟩)
    rw [Entry.isEmpty, decide_eq_false_iff_not] at hall
    exact absurd hempty hall
  | some slot =>
    obtain ⟨hslot, hempty, -⟩ := List.findIdx?_eq_some_iff_getElem.mp hfound
    obtain ⟨-, hfirst⟩ := List.findIdx?_eq_some_iff_findIdx_eq.mp hfound
    rw [List.length_map, List.length_range] at hslot
    rw [List.getElem_map, List.getElem_range, Entry.isEmpty, decide_eq_true_eq] at hempty
    refine ⟨slot, ?_, hslot, hempty, hfirst.symm⟩
    rw [freeSlot, object_bind, bind_of_ok hask, hfound]
    rfl

theorem freeSlot_of_full (hread : dir.entries w = dir.entries v)
    (hall : ∀ s < dir.slotCount, (dir.chain.entry v.cell s).ino ≠ 0) :
    freeSlot (dir, w) = (do
      onPart dir.chain (fun chain => { dir with chain }) (update Chain.grow)
      onVolume (writeInode (← object).toInode)
      return dir.slotCount : Holding Directory Nat) (dir, w) := by
  have hask := onVolume_of_ok (b := dir) (ask_of_ok (hread.trans (entries_eq dir h hv)))
  have hfound : ((List.range dir.slotCount).map (dir.chain.entry v.cell)).findIdx? Entry.isEmpty = none := by
    refine List.findIdx?_eq_none_iff.mpr fun e he => ?_
    obtain ⟨s, hs, rfl⟩ := List.mem_map.mp he
    exact decide_eq_false (hall s (List.mem_range.mp hs))
  rw [freeSlot, object_bind, bind_of_ok hask, hfound]

theorem clearEntry_ok (hslot : slot < dir.slotCount) :
    ∃ w, dir.clearEntry slot v = .ok () w ∧ dir.chain.Stored v w ∧ ∀ s < dir.slotCount,
      dir.chain.entry w.cell s = if s = slot then ⟨0, (dir.chain.entry v.cell slot).name⟩
        else dir.chain.entry v.cell s := by
  have hin := Chain.slot_block hslot
  have hmod : slot % entriesPerBlock < entriesPerBlock := Nat.mod_lt _ (by decide)
  exact ⟨_, clearEntry_of_laid (h.laid hv) hslot, h.stored_put hv hin _, fun s hs =>
    Chain.entry_put (h.laid hv) hin (Block.entry_setWord _ hmod) (Chain.slot_block hs)⟩

end

end Directory

end ImageFS
