import ImageFS.Proofs.Device.Mirror
import ImageFS.Proofs.Volume.Blockwise

/-!
# One volume on two devices

A volume on a device and the same volume on a mirror of the device run side by side: the map in memory is the
same, and writing a block keeps the devices mirrors of each other.
-/

set_option autoImplicit false

namespace ImageFS.Volume

/-- The same volume on two devices that mirror each other. -/
structure Mirrors (n : Nat) (v w : Volume) : Prop where
  device : v.device.Mirrors n w.device
  superblock : w.superblock = v.superblock
  freeMap : w.freeMap = v.freeMap

variable {n : Nat} {v w : Volume}

theorem Mirrors.indistinct (h : Mirrors n v w) : v.Indistinct w :=
  ⟨⟨h.superblock, h.device.reads⟩, h.freeMap, h.device.flush⟩

theorem respects_writeBlock (n : Nat) (b : UInt32) (block : Block) : Respects (Mirrors n) (writeBlock b block) := by
  rintro ⟨d, s, m⟩ ⟨e, _, _⟩ ⟨h, rfl, rfl⟩
  have hd := h.left.writeBlock_eq b block
  have he := h.right.writeBlock_eq b block
  by_cases hb : b.toNat < n
  · rw [if_pos hb] at hd he
    simp only [writeBlock, hd, he]
    exact .ok ⟨h.put hb block, rfl, rfl⟩
  · rw [if_neg hb] at hd he
    simp only [writeBlock, hd, he]
    exact .error ⟨h, rfl, rfl⟩

instance blockwise_mirrors (n : Nat) : Blockwise (Mirrors n) :=
  .of_updateByte (fun _ _ h => h.indistinct) (respects_writeBlock n) fun b f _ _ h =>
    .ok ⟨h.device, h.superblock, congrArg (·.updateByte b f) h.freeMap⟩

end ImageFS.Volume
