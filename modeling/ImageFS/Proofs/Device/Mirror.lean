import ImageFS.Proofs.Device.Cells
import Mathlib.Data.List.Induction

/-!
# Sectors of any size

Devices in memory with sectors of different sizes but the same bytes are one array of blocks. Each block reads
as what was last written to it, and the bytes of all whole blocks stay the same when the same blocks are
written to both. Bytes behind the last whole block may be there on one device only; no block reaches them.
-/

set_option autoImplicit false

namespace ImageFS.Device

/-- Bytes in memory, cut to whole sectors, which no access fails on. -/
structure InMemory (d : Device) (sectorSize length : Nat) : Prop extends FaultFree d where
  sectors : d.sectorSize = sectorSize
  size : d.bytes.size = length / sectorSize * sectorSize

structure Spans (d : Device) (n : Nat) : Prop extends Sound d where
  count : d.blockCount = n

variable {d e : Device} {n sectorSize length : Nat} {b : UInt32}

theorem InMemory.spans (h : d.InMemory sectorSize length) (hdvd : sectorSize ∣ blockSize) :
    d.Spans (length / blockSize) := by
  have hpos : 0 < sectorSize := Nat.pos_of_dvd_of_pos hdvd (by decide)
  have hle : sectorSize ≤ blockSize := Nat.le_of_dvd (by decide) hdvd
  have hcheck : d.checkSectorSize = .ok () := by
    rw [checkSectorSize, h.sectors, if_neg]
    rintro (hzero | hlarge | hrest)
    · exact Nat.ne_of_gt hpos hzero
    · exact Nat.not_lt_of_le hle hlarge
    · exact hrest (Nat.mod_eq_zero_of_dvd hdvd)
  refine ⟨⟨h.toFaultFree, hcheck⟩, ?_⟩
  obtain ⟨ratio, hratio⟩ := hdvd
  rw [Sound.blockCount_eq ⟨h.toFaultFree, hcheck⟩, h.size, hratio, ← Nat.div_div_eq_div_mul,
    Nat.mul_div_cancel _ hpos, Nat.div_div_eq_div_mul]

theorem Spans.readBlock_eq (h : d.Spans n) (b : UInt32) :
    d.readBlock b = if b.toNat < n then .ok (d.cell b) else .error (.corrupt (.blockOutOfRange b n)) := by
  by_cases hb : b.toNat < n
  · rw [if_pos hb, Device.readBlock_eq h.toSound (h.count ▸ hb)]
  · rw [if_neg hb, readBlock, h.count, if_neg hb]

theorem Spans.writeBlock_eq (h : d.Spans n) (b : UInt32) (block : Block) :
    writeBlock b block d =
      if b.toNat < n then .ok () (d.put b block) else .error (.corrupt (.blockOutOfRange b n)) d := by
  by_cases hb : b.toNat < n
  · rw [if_pos hb, Device.writeBlock_eq h.toSound (h.count ▸ hb)]
  · rw [if_neg hb, writeBlock, h.count, if_neg hb]

theorem Spans.put (h : d.Spans n) (hb : b.toNat < n) (block : Block) : (d.put b block).Spans n :=
  ⟨h.toSound.put b block, by rw [blockCount_put block (h.count ▸ hb), h.count]⟩

def written (d : Device) (writes : List (UInt32 × Block)) : Device :=
  writes.foldl (fun d w => match writeBlock w.1 w.2 d with | .ok _ d | .error _ d => d) d

theorem written_append (writes : List (UInt32 × Block)) (b : UInt32) (block : Block) :
    d.written (writes ++ [(b, block)]) =
      match writeBlock b block (d.written writes) with | .ok _ d | .error _ d => d := by
  rw [written, List.foldl_append]
  rfl

/-- The device is an array of `n` blocks: writes inside it succeed, all others are refused and change nothing,
and a block reads as what was last written to it, or as it was at first. -/
structure StoresBlocks (d : Device) (n : Nat) : Prop where
  count : d.blockCount = n
  write : ∀ writes b block, writeBlock b block (d.written writes) =
    if b.toNat < n then .ok () (d.written (writes ++ [(b, block)]))
    else .error (.corrupt (.blockOutOfRange b n)) (d.written writes)
  read : ∀ writes b, (d.written writes).readBlock b =
    if b.toNat < n then .ok ((writes.reverse.lookup b).getD (d.cell b)) else .error (.corrupt (.blockOutOfRange b n))

theorem written_append_of_lt {writes : List (UInt32 × Block)} (h : (d.written writes).Spans n) (hb : b.toNat < n)
    (block : Block) : d.written (writes ++ [(b, block)]) = (d.written writes).put b block := by
  rw [written_append, h.writeBlock_eq, if_pos hb]

namespace Spans

variable (h : d.Spans n)

include h

theorem written (writes : List (UInt32 × Block)) : (d.written writes).Spans n := by
  induction writes using List.reverseRecOn with
  | nil => exact h
  | append_singleton writes w ih =>
    by_cases hb : w.1.toNat < n
    · rw [written_append_of_lt ih hb]
      exact ih.put hb w.2
    · rw [written_append, ih.writeBlock_eq, if_neg hb]
      exact ih

theorem cell_written (writes : List (UInt32 × Block)) (hb : b.toNat < n) :
    (d.written writes).cell b = (writes.reverse.lookup b).getD (d.cell b) := by
  induction writes using List.reverseRecOn with
  | nil => rfl
  | append_singleton writes w ih =>
    have hw := h.written writes
    rw [List.reverse_concat, List.lookup_cons]
    by_cases hwrite : w.1.toNat < n
    · rw [written_append_of_lt hw hwrite, cell_put w.2 (hw.count ▸ hwrite), ih]
      by_cases hbw : b = w.1
      · rw [if_pos hbw, beq_iff_eq.mpr hbw]
        rfl
      · rw [if_neg hbw, beq_eq_false_iff_ne.mpr hbw]
    · -- a write that is refused was not meant for a block of the device
      have hbw : b ≠ w.1 := fun hbw => hwrite (hbw ▸ hb)
      rw [written_append, hw.writeBlock_eq, if_neg hwrite, beq_eq_false_iff_ne.mpr hbw]
      exact ih

theorem storesBlocks : d.StoresBlocks n where
  count := h.count
  write writes b block := by
    rw [(h.written writes).writeBlock_eq]
    by_cases hb : b.toNat < n
    · rw [if_pos hb, if_pos hb, written_append_of_lt (h.written writes) hb]
    · rw [if_neg hb, if_neg hb]
  read writes b := by
    rw [(h.written writes).readBlock_eq]
    by_cases hb : b.toNat < n
    · rw [if_pos hb, if_pos hb, h.cell_written writes hb]
    · rw [if_neg hb, if_neg hb]

end Spans

/-- Two sound devices of `n` blocks with the same bytes in them. -/
structure Mirrors (n : Nat) (d e : Device) : Prop where
  left : d.Spans n
  right : e.Spans n
  bytes : ∀ i < n * blockSize, byteAt e.bytes i = byteAt d.bytes i

namespace Mirrors

variable (h : Mirrors n d e)

include h

theorem cell (hb : b.toNat < n) : e.cell b = d.cell b := by
  refine Block.ext_byte fun i hi => ?_
  have hnext : (b.toNat + 1) * blockSize ≤ n * blockSize := Nat.mul_le_mul_right _ hb
  rw [Nat.add_mul, Nat.one_mul] at hnext
  rw [Device.cell, Device.cell, Block.byte_ofFn _ hi, Block.byte_ofFn _ hi, h.bytes _ (by omega)]

theorem reads (b : UInt32) : e.readBlock b = d.readBlock b := by
  rw [h.left.readBlock_eq, h.right.readBlock_eq]
  by_cases hb : b.toNat < n
  · rw [if_pos hb, if_pos hb, h.cell hb]
  · rw [if_neg hb, if_neg hb]

theorem checks : e.checkSectorSize = d.checkSectorSize := by rw [h.left.sectors, h.right.sectors]

theorem counts : e.blockCount = d.blockCount := by rw [h.left.count, h.right.count]

theorem flush : e.flush = d.flush := by
  rw [Device.flush, Device.flush, h.left.flushes, h.right.flushes]

theorem put (hb : b.toNat < n) (block : Block) : Mirrors n (d.put b block) (e.put b block) where
  left := h.left.put hb block
  right := h.right.put hb block
  bytes i hi := by
    have fits : ∀ {f : Device}, f.Spans n → b.toNat * blockSize + block.bytes.size ≤ f.bytes.size := fun hf => by
      rw [block.size_bytes]
      exact block_bytes (hf.count ▸ hb)
    rw [Device.put, Device.put, byteAt_overwrite (fits h.left), byteAt_overwrite (fits h.right), h.bytes i hi]

end Mirrors

end ImageFS.Device
