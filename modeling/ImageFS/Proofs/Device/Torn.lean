import ImageFS.Proofs.Action
import ImageFS.Proofs.Device.Cells
import ImageFS.Proofs.Record.Words

/-!
# Devices whose sectors fail at will

Whatever fails on a device, what a read gives is what stands there, and a write of a block leaves the first
sectors of the block written, some of them or none. It succeeds only when it has written them all. Seen past
all faults, no other block changes.
-/

set_option autoImplicit false

namespace ImageFS

theorem Faults.exists_tried (f : Faults) (sector : Nat) : ∃ n, f.tried sector = { f with attempts := n } := by
  by_cases h : f.fragile sector
  · exact ⟨f.attempts + 1, if_pos h⟩
  · exact ⟨f.attempts, if_neg h⟩

namespace Device

def calm (d : Device) : Device := { d with faults := .none }

/-- The device after `n` tries, with the first `k` sectors of a block written. -/
def torn (d : Device) (b : UInt32) (block : Block) (k n : Nat) : Device where
  sectorSize := d.sectorSize
  bytes := overwrite d.bytes (b.toNat * blockSize) (block.bytes.extract 0 (k * d.sectorSize))
  faults := { d.faults with attempts := n }

variable {d : Device} {b x : UInt32} {block : Block} {k n : Nat}

theorem calm_faultFree (d : Device) : d.calm.FaultFree := ⟨fun _ => rfl, fun _ => rfl, rfl⟩

theorem calm_sound (h : d.checkSectorSize = .ok ()) : d.calm.Sound := ⟨d.calm_faultFree, h⟩

theorem readSector_calm {sector : Nat} {bytes : ByteArray} (h : d.readSector sector = .ok bytes) :
    d.calm.readSector sector = .ok bytes := by
  rw [readSector] at h
  split at h
  · cases h
  · exact h

theorem readSectors_calm {count first : Nat} {bytes : ByteArray} (h : d.readSectors first count = .ok bytes) :
    d.calm.readSectors first count = .ok bytes := by
  induction count generalizing first bytes with
  | zero => exact h
  | succ count ih =>
    rw [readSectors] at h ⊢
    cases hhead : d.readSector first with
    | error e =>
      rw [hhead] at h
      cases h
    | ok head =>
      cases hrest : d.readSectors (first + 1) count with
      | error e =>
        rw [hhead, hrest] at h
        cases h
      | ok rest =>
        rw [hhead, hrest] at h
        rw [readSector_calm hhead, ih hrest]
        exact h

theorem readBlock_calm (h : d.readBlock b = .ok block) :
    b.toNat < d.blockCount ∧ d.calm.readBlock b = .ok block := by
  rw [readBlock] at h
  by_cases hb : b.toNat < d.blockCount
  · rw [if_pos hb] at h
    cases hrun : d.readSectors (b.toNat * d.sectorsPerBlock) d.sectorsPerBlock with
    | error e =>
      rw [hrun] at h
      cases h
    | ok bytes =>
      have hcalm : d.calm.readSectors (b.toNat * d.calm.sectorsPerBlock) d.calm.sectorsPerBlock = .ok bytes :=
        readSectors_calm hrun
      rw [hrun] at h
      have hb' : b.toNat < d.calm.blockCount := hb
      rw [readBlock, if_pos hb', hcalm]
      exact ⟨hb, h⟩
  · rw [if_neg hb] at h
    cases h

theorem cell_of_readBlock (hs : d.checkSectorSize = .ok ()) (h : d.readBlock b = .ok block) : d.cell b = block := by
  obtain ⟨hb, hcalm⟩ := readBlock_calm h
  exact Except.ok.inj ((readBlock_eq (calm_sound hs) hb).symm.trans hcalm)

theorem writeSector_cases {sector : Nat} {data : ByteArray} (hsector : sector < d.sectorCount)
    (hdata : data.size = d.sectorSize) :
    (∃ n, d.faults.refuses sector = false ∧ writeSector sector data d =
      .ok () ⟨d.sectorSize, overwrite d.bytes (sector * d.sectorSize) data, { d.faults with attempts := n }⟩) ∨
      ∃ n, d.faults.refuses sector = true ∧
        writeSector sector data d = .error (.broken sector) { d with faults := { d.faults with attempts := n } } := by
  obtain ⟨sectorSize, bytes, faults⟩ := d
  obtain ⟨n, htried⟩ := faults.exists_tried sector
  have hrange : ¬ bytes.size / sectorSize ≤ sector := Nat.not_le_of_lt hsector
  simp only [writeSector, htried]
  by_cases hrefuses : faults.refuses sector
  · exact .inr ⟨n, hrefuses, if_pos hrefuses⟩
  · rw [if_neg hrefuses, if_neg hrange, if_neg (not_not_intro hdata)]
    exact .inl ⟨n, Bool.not_eq_true _ ▸ hrefuses, rfl⟩

theorem writeSectors_cases (count : Nat) (d : Device) (data : ByteArray) (first offset : Nat)
    (hc : first + count ≤ d.sectorCount) (hd : offset + count * d.sectorSize ≤ data.size) :
    ∃ k n,
      let d' : Device := ⟨d.sectorSize, overwrite d.bytes (first * d.sectorSize)
        (data.extract offset (offset + k * d.sectorSize)), { d.faults with attempts := n }⟩
      (k = count ∧ writeSectors d.sectorSize data first offset count d = .ok () d' ∧
        ∀ i < count, d.faults.fragile (first + i) = true → ∃ m, d.faults.fails m = false) ∨
        (k < count ∧ writeSectors d.sectorSize data first offset count d = .error (.broken (first + k)) d' ∧
          d.faults.fragile (first + k) = true) := by
  induction count generalizing d first offset with
  | zero =>
    refine ⟨0, d.faults.attempts, .inl ⟨rfl, ?_, fun i hi => absurd hi (Nat.not_lt_zero i)⟩⟩
    rw [writeSectors, ByteArray.extract_eq_empty_iff.mpr (by simp), overwrite_empty]
    rfl
  | succ count ih =>
    have hsplit : (count + 1) * d.sectorSize = d.sectorSize + count * d.sectorSize := by ring
    have hsize : (data.extract offset (offset + d.sectorSize)).size = d.sectorSize := by
      rw [ByteArray.size_extract]
      omega
    have hfirst : first < d.sectorCount := by omega
    rw [writeSectors]
    rcases writeSector_cases hfirst hsize with ⟨n, hrefuses, hwrite⟩ | ⟨n, hrefuses, hwrite⟩
    · have hroom : (first + 1 + count) * d.sectorSize ≤ d.bytes.size :=
        Nat.le_trans (Nat.mul_le_mul_right _ (by omega)) d.sectorCount_mul_le
      have hplace : (first + 1 + count) * d.sectorSize =
          first * d.sectorSize + (d.sectorSize + count * d.sectorSize) := by ring
      have hnext : (first + 1) * d.sectorSize = first * d.sectorSize + d.sectorSize := by ring
      rw [bind_of_ok hwrite]
      generalize hd' : (⟨d.sectorSize, overwrite d.bytes (first * d.sectorSize)
        (data.extract offset (offset + d.sectorSize)), { d.faults with attempts := n }⟩ : Device) = d'
      have hsectors : d'.sectorSize = d.sectorSize := by rw [← hd']
      have hfragile : d'.faults.fragile = d.faults.fragile := by rw [← hd']
      have hfails : d'.faults.fails = d.faults.fails := by rw [← hd']
      have hcount : d'.sectorCount = d.sectorCount := by
        have hbytes : d'.bytes.size = d.bytes.size := by
          rw [← hd']
          exact size_overwrite (by omega)
        rw [sectorCount, hbytes, hsectors, sectorCount]
      obtain ⟨k, n', hrest⟩ := ih d' (first + 1) (offset + d.sectorSize) (by omega) (by rw [hsectors]; omega)
      have hk : k ≤ count := by
        rcases hrest with ⟨rfl, -⟩ | ⟨hk, -⟩
        · exact Nat.le_refl _
        · exact Nat.le_of_lt hk
      have hshort : k * d.sectorSize ≤ count * d.sectorSize := Nat.mul_le_mul_right _ hk
      have hjoin : d.sectorSize + k * d.sectorSize = (k + 1) * d.sectorSize := by ring
      -- the first sector and `k` more are `k + 1` sectors
      have hbytes : overwrite d'.bytes ((first + 1) * d.sectorSize)
          (data.extract (offset + d.sectorSize) (offset + d.sectorSize + k * d.sectorSize)) =
          overwrite d.bytes (first * d.sectorSize) (data.extract offset (offset + (k + 1) * d.sectorSize)) := by
        rw [← hd', hnext, overwrite_extract (by omega) (by omega), hjoin]
      have hfaults : { d'.faults with attempts := n' } = { d.faults with attempts := n' } := by rw [← hd']
      have hplus : ∀ i, first + 1 + i = first + (i + 1) := fun i => by omega
      rw [hsectors, hbytes, hfaults, hfragile, hfails] at hrest
      refine ⟨k + 1, n', ?_⟩
      rcases hrest with ⟨rfl, hrun, hspares⟩ | ⟨hk, hrun, hbroken⟩
      · refine .inl ⟨rfl, hrun, fun i hi hsector => ?_⟩
        cases i with
        | zero =>
          refine ⟨d.faults.attempts, ?_⟩
          rw [Nat.add_zero] at hsector
          rwa [Faults.refuses, hsector, Bool.true_and] at hrefuses
        | succ i => exact hspares i (Nat.lt_of_succ_lt_succ hi) (hplus i ▸ hsector)
      · rw [hplus] at hrun hbroken
        exact .inr ⟨Nat.succ_lt_succ hk, hrun, hbroken⟩
    · refine ⟨0, n, .inr ⟨Nat.succ_pos _, ?_, (Bool.and_eq_true_iff.mp hrefuses).1⟩⟩
      rw [bind_of_error hwrite, ByteArray.extract_eq_empty_iff.mpr (by simp), overwrite_empty]
      rfl

/-- A write leaves a block torn at the sector that it reports, unless it succeeds. -/
theorem writeBlock_cases (hs : d.checkSectorSize = .ok ()) (hb : b.toNat < d.blockCount) (block : Block) :
    (∃ n, writeBlock b block d = .ok () (d.torn b block d.sectorsPerBlock n) ∧
      ∀ i < d.sectorsPerBlock, d.faults.fragile (b.toNat * d.sectorsPerBlock + i) = true →
        ∃ m, d.faults.fails m = false) ∨
      ∃ k n, k < d.sectorsPerBlock ∧ d.faults.fragile (b.toNat * d.sectorsPerBlock + k) = true ∧
        writeBlock b block d =
          .error (.device (.broken (b.toNat * d.sectorsPerBlock + k))) (d.torn b block k n) := by
  have hmul := (sector_size hs).2
  have hsectors := block_sectors hs hb
  have hstart : b.toNat * d.sectorsPerBlock * d.sectorSize = b.toNat * blockSize := by
    rw [Nat.mul_assoc]
    exact congrArg _ hmul
  obtain ⟨k, n, hrun⟩ := writeSectors_cases d.sectorsPerBlock d block.bytes (b.toNat * d.sectorsPerBlock) 0 hsectors
    (by rw [block.size_bytes, Nat.zero_add]; exact Nat.le_of_eq hmul)
  rw [hstart, Nat.zero_add] at hrun
  rw [writeBlock, if_pos hb]
  simp only [EStateM.adaptExcept]
  rcases hrun with ⟨rfl, hrun, hspares⟩ | ⟨hk, hrun, hbroken⟩
  · rw [hrun]
    exact .inl ⟨n, rfl, hspares⟩
  · rw [hrun]
    exact .inr ⟨k, n, hk, hbroken, rfl⟩

theorem sectorSize_torn (d : Device) (b : UInt32) (block : Block) (k n : Nat) :
    (d.torn b block k n).sectorSize = d.sectorSize := by rw [torn]

section

variable (hs : d.checkSectorSize = .ok ()) (hb : b.toNat < d.blockCount) (hk : k ≤ d.sectorsPerBlock)

include hs hk in
theorem torn_fits (block : Block) : (block.bytes.extract 0 (k * d.sectorSize)).size ≤ blockSize := by
  have hmul : d.sectorsPerBlock * d.sectorSize = blockSize := (sector_size hs).2
  have := Nat.mul_le_mul_right d.sectorSize hk
  rw [ByteArray.size_extract, block.size_bytes]
  omega

include hs hb hk

theorem size_torn (block : Block) (n : Nat) : (d.torn b block k n).bytes.size = d.bytes.size := by
  have := block_bytes hb
  have := torn_fits hs hk block
  exact size_overwrite (by omega)

theorem blockCount_torn (block : Block) (n : Nat) : (d.torn b block k n).blockCount = d.blockCount := by
  rw [blockCount, blockCount, size, size, sectorCount, sectorCount, size_torn hs hb hk block n, sectorSize_torn]

theorem cell_torn (block : Block) (n : Nat) (hx : x ≠ b) : (d.torn b block k n).cell x = d.cell x := by
  have := block_bytes hb
  have hfits := torn_fits hs hk block
  have hne : x.toNat ≠ b.toNat := fun he => hx (UInt32.toNat_inj.mp he)
  apply Block.ext_byte
  intro i hi
  rw [cell, cell, Block.byte_ofFn _ hi, Block.byte_ofFn _ hi]
  refine byteAt_overwrite_outside (by omega) ?_
  simp only [blockSize] at *
  omega

end

theorem torn_whole (hs : d.checkSectorSize = .ok ()) (b : UInt32) (block : Block) (n : Nat) :
    d.torn b block d.sectorsPerBlock n = { d.put b block with faults := { d.faults with attempts := n } } := by
  have hmul : d.sectorsPerBlock * d.sectorSize = blockSize := (sector_size hs).2
  have hwhole : block.bytes.extract 0 (d.sectorsPerBlock * d.sectorSize) = block.bytes := by
    rw [hmul, ← block.size_bytes, ByteArray.extract_zero_size]
  simp only [torn, put, hwhole]

theorem byte_torn (hs : d.checkSectorSize = .ok ()) (hb : b.toNat < d.blockCount) (hk : k ≤ d.sectorsPerBlock)
    (block : Block) (n : Nat) {i : Nat} (hi : i < blockSize) :
    ((d.torn b block k n).cell b).byte i = if i < k * d.sectorSize then block.byte i else (d.cell b).byte i := by
  have hbytes := block_bytes hb
  have hmul : d.sectorsPerBlock * d.sectorSize = blockSize := (sector_size hs).2
  have hle := Nat.mul_le_mul_right d.sectorSize hk
  have hsize : (block.bytes.extract 0 (k * d.sectorSize)).size = k * d.sectorSize := by
    rw [ByteArray.size_extract, block.size_bytes]
    omega
  rw [cell, cell, Block.byte_ofFn _ hi, Block.byte_ofFn _ hi, torn]
  dsimp only
  by_cases hin : i < k * d.sectorSize
  · rw [if_pos hin, byteAt_overwrite_inside (by omega) (by omega), byteAt_extract, if_pos (by omega), Nat.zero_add]
    rfl
  · rw [if_neg hin, byteAt_overwrite_outside (by omega) (by omega)]

theorem pointer_torn (hs : d.checkSectorSize = .ok ()) (hb : b.toNat < d.blockCount) (hk : k ≤ d.sectorsPerBlock)
    {block : Block} (n : Nat) {slot : Nat} (hslot : slot < pointersPerBlock)
    (h : block.pointer slot = (d.cell b).pointer slot) :
    ((d.torn b block k n).cell b).pointer slot = (d.cell b).pointer slot := by
  refine wordAt_congr fun j hj => ?_
  have hbyte := byte_torn hs hb hk block n (i := 4 * slot + j) (by simp only [blockSize, pointersPerBlock] at *; omega)
  refine hbyte.trans ?_
  split
  · exact byteAt_of_wordAt h hj
  · rfl

theorem torn_faults (d : Device) (f : Faults) (b : UInt32) (block : Block) (k n : Nat) :
    torn { d with faults := f } b block k n = { d.torn b block k n with faults := { f with attempts := n } } := by
  simp only [torn]

theorem FaultFree.torn (h : d.FaultFree) (b : UInt32) (block : Block) (k n : Nat) : (d.torn b block k n).FaultFree := by
  rw [Device.torn]
  exact ⟨h.readable, h.writable, h.flushes⟩

attribute [irreducible] torn

end Device

end ImageFS
