import ImageFS.Proofs.Device.Torn
import ImageFS.Proofs.Volume.Blockwise
import ImageFS.Proofs.Volume.Allocation
import ImageFS.Proofs.Volume.Marking

/-!
# Volumes on their devices

A volume is seated when its device holds whole blocks and its map lies on it. Nothing is said of what the map
marks or of what the blocks hold. Whatever is written and whatever fails, a volume stays seated; and when
nothing fails, every block of the device is read and written, and every block is given back.
-/

set_option autoImplicit false

namespace ImageFS.Volume

/-- The device has `n` blocks, and the map is on it. -/
structure Seated (n : Nat) (v : Volume) : Prop where
  sectors : v.device.checkSectorSize = .ok ()
  blocks : v.device.blockCount = n
  fits : v.freeMap.blockCount.toNat ≤ n
  homes : ∀ b < v.freeMap.blockCount.toNat, (FreeMap.home b).toNat < n

/-- One volume with a property, put beside itself. -/
def Along (P : Volume → Prop) (v w : Volume) : Prop := v = w ∧ P v

variable {n : Nat} {v w : Volume} {b : UInt32} {slot : Nat}

theorem Seated.markFree (h : Seated n v) (i : Nat) : Seated n { v with freeMap := v.freeMap.markFree i } :=
  ⟨h.sectors, h.blocks, h.fits, h.homes⟩

theorem pointer_of_readPointer {target : UInt32} (hv : v.device.checkSectorSize = .ok ())
    (h : v.readPointer b slot = .ok target) : target = (v.cell b).pointer slot := by
  obtain ⟨_, -, h⟩ := ok_of_bind h
  obtain ⟨block, hblock, htarget⟩ := ok_of_bind h
  cases htarget
  exact congrArg (Block.pointer · slot) (Device.cell_of_readBlock hv hblock).symm

theorem writeBlock_out_of_range (hb : v.device.blockCount ≤ b.toNat) (block : Block) :
    writeBlock b block v = .error (.corrupt (.blockOutOfRange b v.device.blockCount)) v := by
  obtain ⟨d, s, m⟩ := v
  have hrun : Device.writeBlock b block d = .error (.corrupt (.blockOutOfRange b d.blockCount)) d :=
    if_neg (Nat.not_lt_of_le hb)
  simp only [writeBlock, hrun]

theorem writeBlock_breaks (hs : v.device.checkSectorSize = .ok ()) (hb : b.toNat < v.device.blockCount)
    (block : Block) :
    (∃ tries, writeBlock b block v =
        .ok () { v with device := v.device.torn b block v.device.sectorsPerBlock tries } ∧
      ∀ i < v.device.sectorsPerBlock, v.device.faults.fragile (b.toNat * v.device.sectorsPerBlock + i) = true →
        ∃ m, v.device.faults.fails m = false) ∨
      ∃ k tries, k < v.device.sectorsPerBlock ∧
        v.device.faults.fragile (b.toNat * v.device.sectorsPerBlock + k) = true ∧
        writeBlock b block v = .error (.device (.broken (b.toNat * v.device.sectorsPerBlock + k)))
          { v with device := v.device.torn b block k tries } := by
  obtain ⟨d, s, m⟩ := v
  rcases Device.writeBlock_cases hs hb block with ⟨tries, hrun, hspares⟩ | ⟨k, tries, hk, hbroken, hrun⟩
  · exact .inl ⟨tries, by simp only [writeBlock, hrun], hspares⟩
  · exact .inr ⟨k, tries, hk, hbroken, by simp only [writeBlock, hrun]⟩

theorem writeBlock_torn (hs : v.device.checkSectorSize = .ok ()) (hb : b.toNat < v.device.blockCount) (block : Block) :
    ∃ k tries, k ≤ v.device.sectorsPerBlock ∧
      let w := { v with device := v.device.torn b block k tries }
      (k = v.device.sectorsPerBlock ∧ writeBlock b block v = .ok () w) ∨ ∃ e, writeBlock b block v = .error e w := by
  rcases writeBlock_breaks hs hb block with ⟨tries, hrun, -⟩ | ⟨k, tries, hk, -, hrun⟩
  · exact ⟨_, tries, Nat.le_refl _, .inl ⟨rfl, hrun⟩⟩
  · exact ⟨k, tries, Nat.le_of_lt hk, .inr ⟨_, hrun⟩⟩

theorem sectors_torn (hs : v.device.checkSectorSize = .ok ()) (b : UInt32) (block : Block) (k tries : Nat) :
    (v.device.torn b block k tries).checkSectorSize = .ok () := by
  rwa [Device.checkSectorSize, Device.sectorSize_torn]

section

variable {P : Volume → Prop}

theorem blockwise_along (sectors : ∀ v, P v → v.device.checkSectorSize = .ok ())
    (torn : ∀ v b block k tries, P v → b.toNat < v.device.blockCount → k ≤ v.device.sectorsPerBlock →
      P { v with device := v.device.torn b block k tries })
    (updateByte : ∀ v b f, P v → P { v with freeMap := v.freeMap.updateByte b f }) : Blockwise (Along P) := by
  refine .of_updateByte (fun v _ ⟨hvw, _⟩ => hvw ▸ .refl v) (fun b block => ?_) fun b f => ?_
  · rintro v _ ⟨rfl, h⟩
    by_cases hb : b.toNat < v.device.blockCount
    · obtain ⟨k, tries, hk, ⟨-, hrun⟩ | ⟨e, hrun⟩⟩ := writeBlock_torn (sectors v h) hb block
      · rw [hrun]
        exact .ok ⟨rfl, torn v b block k tries h hb hk⟩
      · rw [hrun]
        exact .error ⟨rfl, torn v b block k tries h hb hk⟩
    · rw [writeBlock_out_of_range (Nat.le_of_not_lt hb)]
      exact .error ⟨rfl, h⟩
  · rintro v _ ⟨rfl, h⟩
    exact .ok ⟨rfl, updateByte v b f h⟩

theorem along_of_ok {α : Type} {act : VolumeM α} {a : α} (hact : Respects (Along P) act) (h : P v)
    (hrun : act v = .ok a w) : P w := by
  obtain ⟨_, -, -, hw⟩ := (hact v v ⟨rfl, h⟩).of_ok hrun
  exact hw

end

instance blockwise_seated (n : Nat) : Blockwise (Along (Seated n)) :=
  blockwise_along (fun _ h => h.sectors)
    (fun _ b block k tries h hb hk => ⟨sectors_torn h.sectors b block k tries,
      (Device.blockCount_torn h.sectors hb hk block tries).trans h.blocks, h.fits, h.homes⟩)
    fun _ _ _ h => ⟨h.sectors, h.blocks, h.fits, h.homes⟩

instance blockwise_sectors : Blockwise (Along fun v => v.device.checkSectorSize = .ok ()) :=
  blockwise_along (fun _ h => h) (fun _ b block k tries h _ _ => sectors_torn h b block k tries) fun _ _ _ h => h

theorem blockwise_sectorSize {d : Device} (hs : d.checkSectorSize = .ok ()) :
    Blockwise (Along fun v => v.device.sectorSize = d.sectorSize) :=
  blockwise_along (fun v h => by rwa [Device.checkSectorSize, h])
    (fun _ b block k tries h _ _ => (Device.sectorSize_torn _ b block k tries).trans h) fun _ _ _ h => h

theorem Seated.sound (h : Seated n v) (hd : v.device.FaultFree) : v.device.Sound := ⟨hd, h.sectors⟩

/-- A seated volume on a device without faults. -/
structure Quiet (n : Nat) (v : Volume) : Prop extends Seated n v where
  faultFree : v.device.FaultFree

namespace Quiet

variable (h : Quiet n v)

include h

theorem put (hb : b.toNat < n) (block : Block) : Quiet n (v.put b block) where
  sectors := (h.sound h.faultFree).put b block |>.sectors
  blocks := (Device.blockCount_put block (h.blocks.symm ▸ hb)).trans h.blocks
  fits := h.fits
  homes := h.homes
  faultFree := ((h.sound h.faultFree).put b block).toFaultFree

theorem writeBlock_eq (hb : b.toNat < n) (block : Block) : writeBlock b block v = .ok () (v.put b block) :=
  writeBlock_device (h.sound h.faultFree) (h.blocks.symm ▸ hb) block

theorem free_ok (b : UInt32) : ∃ w, free b v = .ok () w ∧ Quiet n w := by
  by_cases hdata : v.freeMap.firstData ≤ b ∧ b < v.freeMap.blockCount
  · have hmark : Quiet n { v with freeMap := v.freeMap.markFree b.toNat } := ⟨h.markFree _, h.faultFree⟩
    have hhome : (FreeMap.home b.toNat).toNat < n := h.homes _ (UInt32.lt_iff_toNat_lt.mp hdata.2)
    rw [free_of_data hdata]
    exact ⟨_, hmark.writeBlock_eq hhome _, hmark.put hhome _⟩
  · exact ⟨v, free_of_not_data hdata, h⟩

theorem readPointer_cases (b : UInt32) (slot : Nat) :
    (slot < pointersPerBlock ∧ b.toNat < n ∧ v.readPointer b slot = .ok ((v.cell b).pointer slot)) ∨
      ∃ cause, v.readPointer b slot = .error (.corrupt cause) := by
  rw [readPointer, checkPointerSlot]
  by_cases hslot : pointersPerBlock ≤ slot
  · rw [if_pos hslot]
    exact .inr ⟨_, rfl⟩
  · rw [if_neg hslot]
    by_cases hb : b.toNat < n
    · have hread : v.readBlock b = .ok (v.cell b) :=
        Device.readBlock_eq (h.sound h.faultFree) (h.blocks.symm ▸ hb)
      rw [hread]
      exact .inl ⟨Nat.lt_of_not_le hslot, hb, rfl⟩
    · have hread : v.readBlock b = .error (.corrupt (.blockOutOfRange b v.device.blockCount)) :=
        if_neg (by rw [h.blocks]; exact hb)
      rw [hread]
      exact .inr ⟨_, rfl⟩

theorem writePointer_ok (hb : b.toNat < n) (hslot : slot < pointersPerBlock) (target : UInt32) :
    ∃ w, writePointer b slot target v = .ok () w ∧ Quiet n w := by
  have hcheck : ask (fun _ => checkPointerSlot slot) v = .ok () v := by
    apply ask_of_ok
    rw [checkPointerSlot, if_neg (Nat.not_le_of_lt hslot)]
  rw [writePointer, bind_of_ok hcheck, updateBlock_device (h.sound h.faultFree) (h.blocks.symm ▸ hb)]
  exact ⟨_, rfl, h.put hb _⟩

end Quiet

end ImageFS.Volume
