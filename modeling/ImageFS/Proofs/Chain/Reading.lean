import ImageFS.Proofs.Chain.Contents
import ImageFS.Proofs.Volume.Seated

/-!
# Reading into a buffer

A read is cut off at the end of the file, and refused when the buffer has no room for what is left of
it. Otherwise the pieces of the range are copied one behind the other to the front of the buffer. All
that this takes is that the blocks of the chain are found on the device: the chain need not be held, and
nothing is asked of the free map.
-/

set_option autoImplicit false

namespace ImageFS.Chain

open Volume

variable {c : Chain} {v : Volume} {offset stop length : Nat} {out : ByteArray}

theorem pointer_of_lookup (hs : v.device.checkSectorSize = .ok ()) {k : Nat} {b : UInt32}
    (h : c.lookup v (Tiers.onDisk.locate k) = .ok b) : c.pointer v.cell (.data k) = b := by
  rw [pointer]
  cases hslot : Tiers.onDisk.locate k with
  | direct i =>
    rw [hslot] at h
    exact Except.ok.inj h
  | indirect i =>
    rw [hslot] at h
    obtain ⟨table, htable, hread⟩ := ok_of_bind h
    obtain rfl := eq_of_required htable
    rw [pointer_of_readPointer hs hread]
    exact follow_of_ne _ (ne_of_required htable) _
  | doubly outer inner =>
    rw [hslot] at h
    obtain ⟨top, htop, hbelow⟩ := ok_of_bind h
    obtain ⟨entry, hentry, hrest⟩ := ok_of_bind hbelow
    obtain ⟨table, htable, hread⟩ := ok_of_bind hrest
    obtain rfl := eq_of_required htop
    obtain rfl := eq_of_required htable
    dsimp only
    rw [follow_of_ne _ (ne_of_required htop), ← pointer_of_readPointer hs hentry,
      follow_of_ne _ (ne_of_required htable), ← pointer_of_readPointer hs hread]

theorem pointer_of_blockAt (hs : v.device.checkSectorSize = .ok ()) {k : Nat} {b : UInt32} (h : c.blockAt v k = .ok b) :
    c.pointer v.cell (.data k) = b := by
  rw [blockAt] at h
  split at h
  · cases h
  · obtain ⟨p, hlookup, h⟩ := ok_of_bind h
    obtain rfl := eq_of_required h
    exact pointer_of_lookup hs hlookup

theorem blockAt_direct (v : Volume) {k : Nat} (hk : k < c.blockCount) (hlow : k < 10) (hne : c.directAt k ≠ nullPointer) :
    c.blockAt v k = .ok (c.directAt k) := by
  rw [blockAt, if_neg (Nat.not_le_of_lt hk), Place.locate_direct hlow]
  exact required_eq hne .data

theorem mapped_of_found (hv : v.device.Sound)
    (found : ∀ k < c.blockCount, ∃ b, c.blockAt v k = .ok b ∧ b.toNat < v.device.blockCount) : c.Mapped v where
  found k hk := by
    obtain ⟨b, hb, -⟩ := found k hk
    rw [pointer_of_blockAt hv.sectors hb, hb]
  reads k hk := by
    obtain ⟨b, hb, hin⟩ := found k hk
    rw [pointer_of_blockAt hv.sectors hb]
    exact Device.readBlock_eq hv hin

theorem copySpan_of_ok {s : Span} {b : UInt32} {block : Block} (hfound : c.blockAt v s.block = .ok b)
    (hread : v.readBlock b = .ok block) (out : ByteArray) :
    c.copySpan v s out =
      .ok () (overwrite out s.position (block.bytes.extract s.start (s.start + s.length))) := by
  rw [copySpan, hfound, ok_bind, hread]

/-- Copying more pieces goes on behind what has been copied of the range. -/
theorem copy_pieces (h : c.Mapped v) (hos : offset ≤ stop) (hstop : stop ≤ c.size.toNat) (hroom : stop - offset ≤ out.size)
    {b last : Nat} {l : List Span} (p : Pieces offset stop last b l) :
    l.forM (c.copySpan v) (overwrite out 0 ((c.contents v.cell).extract offset (covered offset stop b))) =
      .ok () (overwrite out 0 ((c.contents v.cell).extract offset (covered offset stop last))) := by
  induction p with
  | none => rfl
  | @next b l hb hlow rest hrest =>
    have hin := lt_blockCount_of_lt hlow hstop
    have hcopy := copySpan_of_ok (s := Span.inBlock offset stop b) (h.found b hin) (h.reads b hin)
      (overwrite out 0 ((c.contents v.cell).extract offset (covered offset stop b)))
    have hjoin : overwrite (overwrite out 0 ((c.contents v.cell).extract offset (covered offset stop b)))
        (Span.inBlock offset stop b).position
        ((c.contents v.cell).extract (covered offset stop b) (covered offset stop (b + 1))) =
        overwrite out 0 ((c.contents v.cell).extract offset (covered offset stop (b + 1))) := by
      obtain ⟨-, hmono, -, hle⟩ := covered_bounds hb hlow hos
      obtain ⟨m, hm⟩ : ∃ m, covered offset stop b = offset + m := Nat.exists_eq_add_of_le (Nat.le_max_left _ _)
      obtain ⟨n, hn⟩ := Nat.exists_eq_add_of_le hmono
      have hposition : (Span.inBlock offset stop b).position = 0 + m := by
        rw [inBlock_eq hb hlow hos, hm, Nat.zero_add]
        exact Nat.add_sub_cancel_left offset m
      have hsize := c.size_contents v.cell
      have hrow := @overwrite_extract out (c.contents v.cell) 0 offset m n (by omega) (by omega)
      rw [hposition, hn, hm, hrow, Nat.add_assoc]
    rw [extract_inBlock hos hstop hb hlow, hjoin] at hcopy
    exact (bind_of_ok hcopy).trans hrest

theorem copy_range (h : c.Mapped v) {count : Nat} (hin : count ≤ c.size.toNat - offset) (hroom : count ≤ out.size) :
    (Span.ofRange offset count).forM (c.copySpan v) out =
      .ok () (overwrite out 0 ((c.contents v.cell).extract offset (offset + count))) := by
  have hnothing : (c.contents v.cell).extract offset offset = .empty :=
    ByteArray.extract_eq_empty_iff.mpr (Nat.min_le_left _ _)
  by_cases hzero : count = 0
  · rw [hzero, Nat.add_zero, hnothing, overwrite_empty]
    rfl
  · obtain ⟨b, last, pieces, hfirst, hlast⟩ := pieces_ofRange offset count
    have hcopy := copy_pieces h (Nat.le_add_right offset count) (by omega)
      (Nat.le_trans (Nat.le_of_eq (Nat.add_sub_cancel_left offset count)) hroom) pieces
    rw [hfirst, hlast, hnothing, overwrite_empty] at hcopy
    exact hcopy

theorem read_eq (c : Chain) (v : Volume) (offset length : Nat) (out : ByteArray) :
    c.read v offset length out = (do
      if out.size < min length (c.size.toNat - offset) then
        throw (.fault (min length (c.size.toNat - offset)) out.size)
      (Span.ofRange offset (min length (c.size.toNat - offset))).forM (c.copySpan v)
      return min length (c.size.toNat - offset) : EStateM Error ByteArray Nat) out := rfl

theorem read_of_short (hshort : out.size < min length (c.size.toNat - offset)) :
    c.read v offset length out = .error (.fault (min length (c.size.toNat - offset)) out.size) out := by
  rw [read_eq, if_pos hshort]
  rfl

theorem Mapped.read_of_room (h : c.Mapped v) (hroom : min length (c.size.toNat - offset) ≤ out.size) :
    c.read v offset length out = .ok (min length (c.size.toNat - offset))
      (overwrite out 0 ((c.contents v.cell).extract offset (offset + min length (c.size.toNat - offset)))) := by
  rw [read_eq, if_neg (Nat.not_lt_of_le hroom)]
  exact bind_of_ok (copy_range h (Nat.min_le_right _ _) hroom)

theorem byteAt_contents_of_blockAt (hs : v.device.checkSectorSize = .ok ()) {j : Nat} {b : UInt32} (hj : j < c.size.toNat)
    (hb : c.blockAt v (j / blockSize) = .ok b) :
    byteAt (c.contents v.cell) j = byteAt v.device.bytes (b.toNat * blockSize + j % blockSize) := by
  rw [byteAt_contents c v.cell hj, byte, pointer_of_blockAt hs hb, cell, Device.cell,
    Block.byte_ofFn _ (Nat.mod_lt _ (by decide))]

/-- On a device without faults, a file whose blocks are all found on the device reads as the bytes in them.
A read of `length` bytes takes `m`, as many as there are behind `offset`. It fails on a buffer shorter than
that and leaves it as it was; on any other it puts them in front and leaves the rest as it was. -/
theorem read_exact {blocks : Nat → UInt32} (hd : v.device.FaultFree) (hs : v.device.checkSectorSize = .ok ())
    (mapped : ∀ k < c.blockCount, c.blockAt v k = .ok (blocks k) ∧ (blocks k).toNat < v.device.blockCount) :
    ∃ bytes : ByteArray, bytes.size = c.size.toNat ∧
      (∀ j < bytes.size,
        byteAt bytes j = byteAt v.device.bytes ((blocks (j / blockSize)).toNat * blockSize + j % blockSize)) ∧
      ∀ (offset length : Nat) (out : ByteArray) (m : Nat), m = min length (bytes.size - offset) →
        (out.size < m → c.read v offset length out = .error (.fault m out.size) out) ∧
        (m ≤ out.size → ∃ out', c.read v offset length out = .ok m out' ∧ out'.size = out.size ∧
          (∀ i < m, byteAt out' i = byteAt bytes (offset + i)) ∧ ∀ i, m ≤ i → byteAt out' i = byteAt out i) := by
  have hmapped : c.Mapped v := mapped_of_found ⟨hd, hs⟩ fun k hk => ⟨_, mapped k hk⟩
  have hsize := c.size_contents v.cell
  refine ⟨c.contents v.cell, hsize, fun j hj => ?_, fun offset length out m hm => ⟨fun hshort => ?_, fun hroom => ?_⟩⟩
  · rw [hsize] at hj
    exact byteAt_contents_of_blockAt hs hj (mapped _ (lt_blockCount hj)).1
  · rw [hsize] at hm
    rw [hm] at hshort ⊢
    exact read_of_short hshort
  · rw [hsize] at hm
    have hpiece : ((c.contents v.cell).extract offset (offset + m)).size = m := by
      rw [ByteArray.size_extract, hsize]
      omega
    refine ⟨overwrite out 0 ((c.contents v.cell).extract offset (offset + m)), ?_,
      size_overwrite (by omega), fun i hi => ?_, fun i hi => ?_⟩
    · rw [hm] at hroom ⊢
      exact hmapped.read_of_room hroom
    · rw [byteAt_overwrite (by omega), if_pos (by omega), byteAt_extract, if_pos (by omega), Nat.sub_zero]
    · exact byteAt_overwrite_outside (by omega) (.inr (by omega))

theorem read_exact_across_blocks : ∃ (v : Volume) (c : Chain) (blocks : Nat → UInt32), v.device.FaultFree ∧
    v.device.checkSectorSize = .ok () ∧
    (∀ k < c.blockCount, c.blockAt v k = .ok (blocks k) ∧ (blocks k).toNat < v.device.blockCount) ∧
    c.read v 1000 5000 (zeros 10) = .error (.fault 1000 10) (zeros 10) ∧
    ∃ out, c.read v 1000 5000 (zeros 1200) = .ok 1000 out ∧ byteAt out 23 = 111 ∧ byteAt out 24 = 64 ∧
      byteAt out 1000 = 0 := by
  let v : Volume := ⟨⟨512, ((List.range 8192).map fun i => UInt8.ofNat (i / 64)).toByteArray, .none⟩,
    .plan 8 16, .fresh (.plan 8 16)⟩
  let c : Chain := ⟨2000, (Vector.replicate directPointers nullPointer).setIfInBounds 0 6 |>.setIfInBounds 1 4,
    nullPointer, nullPointer⟩
  have hbytes : v.device.bytes.size = 8192 := by
    rw [List.size_toByteArray, List.length_map, List.length_range]
  have hbyte : ∀ i < 8192, byteAt v.device.bytes i = UInt8.ofNat (i / 64) := fun i hi => by
    rw [byteAt_toByteArray, List.getD_eq_getElem _ _ (by simpa using hi), List.getElem_map, List.getElem_range]
  have hd : v.device.FaultFree := ⟨fun _ => rfl, fun _ => rfl, rfl⟩
  have hs : v.device.checkSectorSize = .ok () := if_neg (by decide)
  have hblocks : v.device.blockCount = 8 := by
    rw [Device.Sound.blockCount_eq ⟨hd, hs⟩, hbytes]
    rfl
  have mapped : ∀ k < c.blockCount, c.blockAt v k = .ok (c.directAt k) ∧ (c.directAt k).toNat < v.device.blockCount := by
    intro k hk
    rw [hblocks]
    have hcount : c.blockCount = 2 := by decide
    obtain rfl | rfl : k = 0 ∨ k = 1 := by omega
    · exact ⟨blockAt_direct v hk (by decide) (by decide), by decide⟩
    · exact ⟨blockAt_direct v hk (by decide) (by decide), by decide⟩
  obtain ⟨bytes, hsize, hcontents, hread⟩ := read_exact hd hs mapped
  have hsize : bytes.size = 2000 := hsize
  have hcount : 1000 = min 5000 (bytes.size - 1000) := by omega
  obtain ⟨out, hout, -, hfront, hback⟩ := (hread 1000 5000 (zeros 1200) 1000 hcount).2 (by rw [size_zeros]; decide)
  have hfirst : c.directAt ((1000 + 23) / blockSize) = 6 := by decide
  have hnext : c.directAt ((1000 + 24) / blockSize) = 4 := by decide
  refine ⟨v, c, _, hd, hs, mapped, ?_, out, hout, ?_, ?_, ?_⟩
  · have hshort := (hread 1000 5000 (zeros 10) 1000 hcount).1 (by rw [size_zeros]; decide)
    rwa [size_zeros] at hshort
  · rw [hfront 23 (by decide), hcontents _ (by omega), hfirst, hbyte _ (by decide)]
    decide
  · rw [hfront 24 (by decide), hcontents _ (by omega), hnext, hbyte _ (by decide)]
    decide
  · rw [hback 1000 (by decide), byteAt_zeros]

end ImageFS.Chain
