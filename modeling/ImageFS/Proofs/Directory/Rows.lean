import ImageFS.Proofs.Chain.Reading
import ImageFS.Proofs.Directory.Slots
import ImageFS.Proofs.Record.EntryRoundTrip

/-!
# Directories as rows of records

All that a directory needs to work as an array of records is that its chain is laid out on a device without
faults. Its records are then those that its bytes spell out, 64 bytes to a record, wherever its blocks lie. A
slot that is written or emptied is the only one that changes, and listing and searching go by the row of
records alone.
-/

set_option autoImplicit false

namespace ImageFS

open Volume

namespace Chain

variable {c : Chain} {v : Volume} {m : Memory} {s : Nat} {blocks : Nat → UInt32}

theorem laid_of_found (hv : v.device.Sound)
    (found : ∀ k < c.blockCount, c.blockAt v k = .ok (blocks k) ∧ (blocks k).toNat < v.device.blockCount)
    (distinct : ∀ j < c.blockCount, ∀ k < c.blockCount, blocks j = blocks k → j = k)
    (apart : ∀ k < c.blockCount, ∀ q : Place, q.IsIndex → q.birth < c.blockCount → blocks k ≠ c.pointer v.cell q) :
    c.Laid v := by
  have hpointer : ∀ k < c.blockCount, c.pointer v.cell (.data k) = blocks k :=
    fun k hk => pointer_of_blockAt hv.sectors (found k hk).1
  refine ⟨mapped_of_found hv fun k hk => ⟨_, found k hk⟩, hv, fun k hk => ?_, fun j hj k hk he => ?_,
    fun k hk q hq hbirth => ?_⟩
  · rw [hpointer k hk]
    exact (found k hk).2
  · rw [hpointer j hj, hpointer k hk] at he
    exact distinct j hj k hk he
  · rw [hpointer k hk]
    exact apart k hk q hq hbirth

theorem decode_slot (c : Chain) (m : Memory) (hs : s < c.slotCount) :
    Entry.decode ((c.contents m).extract (s * entrySize) ((s + 1) * entrySize)) = .ok (c.entry m s) := by
  have hend : (s + 1) * entrySize ≤ c.size.toNat :=
    Nat.le_trans (Nat.mul_le_mul_right _ hs) (Nat.div_mul_le_self _ _)
  have hsize : ((c.contents m).extract (s * entrySize) ((s + 1) * entrySize)).size = entrySize := by
    rw [ByteArray.size_extract, size_contents, Nat.min_eq_left hend, Nat.succ_mul, Nat.add_sub_cancel_left]
  rw [Entry.decode_of_le (Nat.le_of_eq hsize.symm), entry, Block.entry]
  refine congrArg Except.ok (Entry.readAt_congr fun k hk => ?_)
  simp only [entrySize, entriesPerBlock] at *
  have hblock : (s * 64 + k) / blockSize = s / 16 := by
    simp only [blockSize]
    omega
  have hoffset : (s * 64 + k) % blockSize = s % 16 * 64 + k := by
    simp only [blockSize]
    omega
  rw [byteAt_extract, if_pos (by omega), Nat.zero_add, byteAt_contents c m (by omega), byte, hblock, hoffset]
  rfl

end Chain

namespace Directory

variable {dir : Directory} {v w : Volume} {blocks : Nat → UInt32} {slot : Nat} {e : Entry}

def slotPlace (blocks : Nat → UInt32) (slot : Nat) : Nat :=
  (blocks (slot / entriesPerBlock)).toNat * blockSize + slot % entriesPerBlock * entrySize

/-- Of the volume at most bytes of one record have changed, and the directory is found in the same blocks. -/
structure Rewritten (dir : Directory) (blocks : Nat → UInt32) (slot : Nat) (v w : Volume) : Prop where
  rest : w = { v with device := { v.device with bytes := w.device.bytes } }
  size : w.device.bytes.size = v.device.bytes.size
  found : ∀ k < dir.chain.blockCount, dir.chain.blockAt w k = .ok (blocks k)
  bytes : ∀ i, i < slotPlace blocks slot ∨ slotPlace blocks slot + entrySize ≤ i →
    byteAt w.device.bytes i = byteAt v.device.bytes i

section

variable (l : dir.chain.Laid v) (hslot : slot < dir.slotCount)

include l hslot

theorem entries_put {block : Block} (hblock : ∀ j, block.entry j = if j = slot % entriesPerBlock then e
      else (v.cell (dir.chain.pointer v.cell (.data (slot / entriesPerBlock)))).entry j) :
    dir.entries (v.put (dir.chain.pointer v.cell (.data (slot / entriesPerBlock))) block) =
      .ok (((List.range dir.slotCount).map (dir.chain.entry v.cell)).set slot e) := by
  have hin := Chain.slot_block hslot
  rw [entries_of_mapped dir (l.put hin block).toMapped]
  exact congrArg Except.ok (Entry.map_range_set fun s hs => Chain.entry_put l hin hblock (Chain.slot_block hs))

theorem rewritten_patch (hblocks : ∀ k < dir.chain.blockCount, dir.chain.blockAt v k = .ok (blocks k))
    {data : ByteArray} (hdata : data.size ≤ entrySize) :
    Rewritten dir blocks slot v (v.put (dir.chain.pointer v.cell (.data (slot / entriesPerBlock)))
      ((v.cell (dir.chain.pointer v.cell (.data (slot / entriesPerBlock)))).patch
        (slot % entriesPerBlock * entrySize) data)) := by
  have hin := Chain.slot_block hslot
  have hfound : ∀ k < dir.chain.blockCount, dir.chain.pointer v.cell (.data k) = blocks k := fun k hk =>
    Except.ok.inj ((l.found k hk).symm.trans (hblocks k hk))
  have hfit : slot % entriesPerBlock * entrySize + data.size ≤ blockSize := by
    simp only [entriesPerBlock, entrySize, blockSize] at *
    omega
  refine ⟨?_, Device.size_put _ _ (l.inside _ hin), fun k hk => ?_, fun i hi => ?_⟩
  · simp only [Volume.put, Device.put]
  · rw [l.blockAt_put hin _ hk, hfound k hk]
  · rw [slotPlace, ← hfound _ hin] at hi
    have hbyte := Device.byteAt_put_patch (l.inside _ hin) hfit i
    rw [if_neg (by omega)] at hbyte
    exact hbyte

end

theorem locate_of_le (hslot : dir.slotCount ≤ slot) :
    dir.locate v slot = .error (.corrupt (.entryOutOfRange slot)) := by
  rw [locate, if_pos hslot]
  rfl

theorem writeEntry_of_le (hslot : dir.slotCount ≤ slot) (e : Entry) :
    dir.writeEntry slot e v = .error (.corrupt (.entryOutOfRange slot)) v :=
  bind_of_error (ask_of_error (locate_of_le hslot))

theorem clearEntry_of_le (hslot : dir.slotCount ≤ slot) :
    dir.clearEntry slot v = .error (.corrupt (.entryOutOfRange slot)) v :=
  bind_of_error (ask_of_error (locate_of_le hslot))

/-- On a device without faults, a directory whose blocks are found there, all different and none of them an index
block of its own, is an array of records. Its records are those that its bytes spell out, as many as go into its
size. To write a slot replaces that record by what its encoding is read as, to empty it leaves the name alone in it,
and no other record and no byte outside it changes; slots behind the last are refused. Listing from a slot gives
the slots in use from there on in order, and a search the lowest slot in use with the name. -/
theorem slots_act_as_array (hd : v.device.FaultFree) (hs : v.device.checkSectorSize = .ok ())
    (mapped : ∀ k < dir.chain.blockCount,
      dir.chain.blockAt v k = .ok (blocks k) ∧ (blocks k).toNat < v.device.blockCount)
    (distinct : ∀ j < dir.chain.blockCount, ∀ k < dir.chain.blockCount, blocks j = blocks k → j = k)
    (apart : ∀ k < dir.chain.blockCount, ∀ q : Place, q.IsIndex → q.birth < dir.chain.blockCount →
      blocks k ≠ dir.chain.pointer v.cell q) :
    ∃ (bytes : ByteArray) (rows : List Entry), bytes.size = dir.chain.size.toNat ∧
      (∀ j < bytes.size,
        byteAt bytes j = byteAt v.device.bytes ((blocks (j / blockSize)).toNat * blockSize + j % blockSize)) ∧
      dir.entries v = .ok rows ∧ rows.length = dir.slotCount ∧
      (∀ k e, rows[k]? = some e →
        Entry.decode (bytes.extract (k * entrySize) ((k + 1) * entrySize)) = .ok e) ∧
      (∀ slot < dir.slotCount, ∀ e, ∃ w stored, dir.writeEntry slot e v = .ok () w ∧
        Entry.decode e.encode = .ok stored ∧ dir.entries w = .ok (rows.set slot stored) ∧
        Rewritten dir blocks slot v w) ∧
      (∀ slot old, rows[slot]? = some old → ∃ w, dir.clearEntry slot v = .ok () w ∧
        dir.entries w = .ok (rows.set slot ⟨0, old.name⟩) ∧ Rewritten dir blocks slot v w) ∧
      (∀ slot, dir.slotCount ≤ slot →
        (∀ e, dir.writeEntry slot e v = .error (.corrupt (.entryOutOfRange slot)) v) ∧
        dir.clearEntry slot v = .error (.corrupt (.entryOutOfRange slot)) v) ∧
      (∀ slot, ∃ listed, dir.occupiedFrom v slot = .ok listed ∧ listed.Pairwise (·.1 < ·.1) ∧
        ∀ k e, (k, e) ∈ listed ↔ slot ≤ k ∧ rows[k]? = some e ∧ e.ino ≠ 0) ∧
      ∀ name, ∃ found, dir.find v name = .ok found ∧
        (∀ k e, found = some (k, e) ↔ rows[k]? = some e ∧ e.ino ≠ 0 ∧ e.name = name ∧
          ∀ j < k, ∀ e', rows[j]? = some e' → e'.ino ≠ 0 → e'.name ≠ name) ∧
        (found = none ↔ ∀ e ∈ rows, e.ino ≠ 0 → e.name ≠ name) := by
  have l : dir.chain.Laid v := Chain.laid_of_found ⟨hd, hs⟩ mapped distinct apart
  have hrows := entries_of_mapped dir l.toMapped
  have hlength : ((List.range dir.slotCount).map (dir.chain.entry v.cell)).length = dir.slotCount := by
    rw [List.length_map, List.length_range]
  have hmod : ∀ slot, slot % entriesPerBlock < entriesPerBlock := fun slot => Nat.mod_lt _ (by decide)
  refine ⟨dir.chain.contents v.cell, _, Chain.size_contents _ _, fun j hj => ?_, hrows, hlength, fun k e hk => ?_,
    fun slot hslot e => ?_, fun slot old hold => ?_, fun slot hslot => ⟨writeEntry_of_le hslot, clearEntry_of_le hslot⟩,
    fun slot => ⟨_, occupiedFrom_of_entries hrows slot, Entry.pairwise_inUseFrom _ slot, fun k e => ?_⟩,
    find_of_entries hrows⟩
  · rw [Chain.size_contents] at hj
    exact Chain.byteAt_contents_of_blockAt hs hj (mapped _ (Chain.lt_blockCount hj)).1
  · obtain ⟨hlt, rfl⟩ := Entry.getElem?_map_range.mp hk
    exact dir.chain.decode_slot v.cell hlt
  · exact ⟨_, _, writeEntry_of_laid l e hslot, Entry.decode_encode e,
      entries_put l hslot (Block.entry_patch_cut _ e (hmod slot)),
      rewritten_patch l hslot (fun k hk => (mapped k hk).1) (Nat.le_of_eq e.size_encode)⟩
  · obtain ⟨hslot, rfl⟩ := Entry.getElem?_map_range.mp hold
    have hword : (encodeWord 0).toByteArray.size ≤ entrySize := by
      rw [List.size_toByteArray, length_encodeWord]
      decide
    exact ⟨_, clearEntry_of_laid l hslot, entries_put l hslot (Block.entry_setWord _ (hmod slot)),
      rewritten_patch l hslot (fun k hk => (mapped k hk).1) hword⟩
  · rw [Entry.mem_inUseFrom, Entry.isEmpty, decide_eq_false_iff_not]

theorem slots_act_as_array_indirect : ∃ (v : Volume) (dir : Directory) (blocks : Nat → UInt32), v.device.FaultFree ∧
    v.device.checkSectorSize = .ok () ∧ dir.chain.blockCount = 11 ∧
    (∀ k < dir.chain.blockCount, dir.chain.blockAt v k = .ok (blocks k) ∧ (blocks k).toNat < v.device.blockCount) ∧
    (∀ j < dir.chain.blockCount, ∀ k < dir.chain.blockCount, blocks j = blocks k → j = k) ∧
    (∀ k < dir.chain.blockCount, ∀ q : Place, q.IsIndex → q.birth < dir.chain.blockCount →
      blocks k ≠ dir.chain.pointer v.cell q) ∧
    ∃ rows, dir.entries v = .ok rows ∧ rows.length = 162 ∧
      (∃ w, dir.writeEntry 161 ⟨7, List.replicate 70 1⟩ v = .ok () w ∧
        dir.entries w = .ok (rows.set 161 ⟨7, List.replicate 59 1⟩) ∧
        ∀ i < 16 * blockSize + 64, byteAt w.device.bytes i = byteAt v.device.bytes i) ∧
      dir.writeEntry 162 ⟨7, [1]⟩ v = .error (.corrupt (.entryOutOfRange 162)) v := by
  let blank : Volume := ⟨.blank 20480 512, .plan 20 16, .fresh (.plan 20 16)⟩
  let v : Volume := blank.put 15 (Block.zero.setPointer 0 16)
  let dir : Directory := ⟨1, 1, 0, ⟨10368, Vector.ofFn fun i => .ofNat (5 + i), 15, nullPointer⟩⟩
  let blocks : Nat → UInt32 := fun k => .ofNat (if k < 10 then 5 + k else 16)
  have hblank : blank.device.Sound := Device.blank_sound (if_neg (by decide))
  have hsound : v.device.Sound := hblank.put _ _
  have hblocks : blank.device.blockCount = 20 := Device.blockCount_blank 20480 512
  have hcount : v.device.blockCount = 20 := (Device.blockCount_put _ (by rw [hblocks]; decide)).trans hblocks
  have hlength : dir.chain.blockCount = 11 := by decide
  have hslots : dir.slotCount = 162 := by decide
  have hcell : v.cell 15 = Block.zero.setPointer 0 16 := by
    have hput : v.cell 15 = _ := Device.cell_put (Block.zero.setPointer 0 16) (by rw [hblocks]; decide) 15
    rw [hput, if_pos rfl]
  have hdirect : ∀ k < 10, dir.chain.directAt k = blocks k ∧ dir.chain.directAt k ≠ nullPointer := by decide
  have hlast : dir.chain.blockAt v 10 = .ok 16 := by
    have hread : v.readBlock 15 = .ok (v.cell 15) := Device.readBlock_eq hsound (by rw [hcount]; decide)
    rw [Chain.blockAt, if_neg (by decide), Place.locate_indirect (by decide) (by decide), Chain.lookup]
    rw [Chain.required_eq (by decide), ok_bind, readPointer, checkPointerSlot, if_neg (by decide), ok_bind, hread,
      ok_bind, hcell, Block.pointer_setPointer _ (by decide)]
    rfl
  have mapped : ∀ k < dir.chain.blockCount,
      dir.chain.blockAt v k = .ok (blocks k) ∧ (blocks k).toNat < v.device.blockCount := by
    intro k hk
    rw [hlength] at hk
    have hin : ∀ k < 11, (blocks k).toNat < 20 := by decide
    refine ⟨?_, by rw [hcount]; exact hin k hk⟩
    by_cases hlow : k < 10
    · obtain ⟨hblock, hne⟩ := hdirect k hlow
      rw [Chain.blockAt_direct v (hlength.symm ▸ hk) hlow hne, hblock]
    · obtain rfl : k = 10 := by omega
      exact hlast
  have distinct : ∀ j < dir.chain.blockCount, ∀ k < dir.chain.blockCount, blocks j = blocks k → j = k := by
    rw [hlength]
    decide
  have apart : ∀ k < dir.chain.blockCount, ∀ q : Place, q.IsIndex → q.birth < dir.chain.blockCount →
      blocks k ≠ dir.chain.pointer v.cell q := by
    rw [hlength]
    intro k hk q hq hbirth
    have hne : ∀ k < 11, blocks k ≠ 15 := by decide
    cases q with
    | data k => exact hq.elim
    | indirect => exact hne k hk
    | doubly =>
      rw [Place.birth_doubly] at hbirth
      omega
    | table outer =>
      rw [Place.birth_table] at hbirth
      omega
  obtain ⟨bytes, rows, -, -, hrows, hrowCount, -, hwrite, -, hrefuse, -, -⟩ :=
    slots_act_as_array hsound.toFaultFree hsound.sectors mapped distinct apart
  obtain ⟨w, stored, hw, hstored, hnew, hrewritten⟩ := hwrite 161 (by rw [hslots]; decide) ⟨7, List.replicate 70 1⟩
  have hplace : slotPlace blocks 161 = 16 * blockSize + 64 := by decide
  have hcut : stored = ⟨7, List.replicate 59 1⟩ := by
    rw [Entry.decode_encode] at hstored
    exact (Except.ok.inj hstored).symm.trans (by decide)
  refine ⟨v, dir, blocks, hsound.toFaultFree, hsound.sectors, hlength, mapped, distinct, apart, rows, hrows,
    hrowCount.trans hslots, ⟨w, hw, hcut ▸ hnew, fun i hi => hrewritten.bytes i (.inl (hplace ▸ hi))⟩,
    (hrefuse 162 (Nat.le_of_eq hslots)).1 _⟩

end Directory

end ImageFS
