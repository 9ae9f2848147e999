import ImageFS.Proofs.Chain.ExactSizes
import ImageFS.Proofs.Volume.Unrest

/-!
# A failed step of growth is not seen

Whatever fails while a chain grows by a block, be it that the faults change before each access to the device, that
writes stop in the middle of a block, or that giving back fails too: when the step fails, the map is as before, and past
all faults the blocks of the chain are found where they were, with what they held. Only slots that the chain does not
reach to may have been written.
-/

set_option autoImplicit false

namespace ImageFS

open Volume Holding

namespace Amid

def fill (top : UInt32) (outer inner : Nat) (data : UInt32) : Holding Unrest Unit := do
  let entry ← access (ask (·.readPointer top outer))
  let table ← access (ask fun _ => Chain.required entry .indirect)
  writePointer table inner data

/-- The chain with room for one block more, access by access. -/
def extend (c : Chain) : Slot → Holding Unrest Chain
  | .direct i => withFresh fun data => return c.setDirect i data
  | .indirect i =>
    if c.indirect = nullPointer then
      withFresh fun table => withFresh fun data => do
        writePointer table i data
        return { c with indirect := table }
    else
      withFresh fun data => do
        writePointer c.indirect i data
        return c
  | .doubly outer inner =>
    if c.doubly = nullPointer then
      withFresh fun top => withFresh fun table => withFresh fun data => do
        writePointer top outer table
        fill top outer inner data
        return { c with doubly := top }
    else do
      let table ← access (ask (·.readPointer c.doubly outer))
      if table = nullPointer then
        withFresh fun table => withFresh fun data =>
          tryCatch (do
            writePointer c.doubly outer table
            fill c.doubly outer inner data
            return c) fun e => do
              tryCatch (writePointer c.doubly outer nullPointer) fun _ => pure ()
              throw e
      else
        withFresh fun data => do
          fill c.doubly outer inner data
          return c

def grow (c : Chain) : Holding Unrest Chain := do
  let n := c.blockCount
  if Tiers.onDisk.maxBlocks ≤ n then throw .fileTooLarge
  let c ← extend c (Tiers.onDisk.locate n)
  return { c with size := .ofNat ((n + 1) * blockSize) }

variable {v w : Volume} {c : Chain} {top table : UInt32} {outer : Nat}

variable (hv : v.device.checkSectorSize = .ok ())

include hv

end Amid

namespace Chain

variable {c : Chain} {v w : Volume} {m : FreeMap} {t b : UInt32} {slot k : Nat} {p q : Place}

/-- The blocks of the chain hold on `w` what they hold on `v`, but for slots that the chain does not reach to. -/
structure Unharmed (c : Chain) (v w : Volume) : Prop where
  sectors : w.device.checkSectorSize = .ok ()
  blocks : w.device.blockCount = v.device.blockCount
  data : ∀ k < c.blockCount, w.cell (c.pointer v.cell (.data k)) = v.cell (c.pointer v.cell (.data k))
  slots : ∀ (p q : Place) (i : Nat), p.parent? = some (q, i) → p.birth < c.blockCount →
    (w.cell (c.pointer v.cell q)).pointer i = c.pointer v.cell p

def At (c : Chain) (v : Volume) (m : FreeMap) (w : Volume) : Prop := Unharmed c v w ∧ w.freeMap = m

/-- What `m` has as free is free on `v`. -/
structure Within (v : Volume) (m : FreeMap) : Prop where
  count : m.blockCount = v.freeMap.blockCount
  first : m.firstData = v.freeMap.firstData
  free : ∀ i, m.isFree i = true → v.freeMap.isFree i = true

/-- The chain does not reach to a slot of a block: it does not have the block, or the slot is behind its end. -/
def Idle (c : Chain) (v : Volume) (t : UInt32) (slot : Nat) : Prop :=
  ∀ p : Place, p.birth < c.blockCount → c.pointer v.cell p = t →
    p.IsIndex ∧ ∀ r : Place, r.parent? = some (p, slot) → c.blockCount ≤ r.birth

theorem Within.refl (v : Volume) : Within v v.freeMap := ⟨rfl, rfl, fun _ => id⟩

theorem Within.markUsed (h : Within v m) {i : Nat} (hi : m.isFree i = true) : Within v (m.markUsed i) where
  count := h.count
  first := h.first
  free j hj := by
    rw [m.isFree_markUsed (m.lt_of_isFree hi)] at hj
    split at hj
    · cases hj
    · exact h.free j hj

theorem Unharmed.withFaults (h : Unharmed c v w) (f : Faults) : Unharmed c v (w.withFaults f) :=
  ⟨h.sectors, h.blocks, h.data, h.slots⟩

theorem Unharmed.setMap (h : Unharmed c v w) (m : FreeMap) : Unharmed c v { w with freeMap := m } :=
  ⟨h.sectors, h.blocks, h.data, h.slots⟩

section

variable (held : c.Held v)

include held

/-- A block may be torn when what is new about it is behind the end of the chain. -/
theorem Unharmed.torn (h : Unharmed c v w) (hb : b.toNat < w.device.blockCount) {block : Block}
    (hdata : ∀ k < c.blockCount, c.pointer v.cell (.data k) ≠ b)
    (hslots : ∀ i, block.pointer i = (w.cell b).pointer i ∨ Idle c v b i) (hk : k ≤ w.device.sectorsPerBlock)
    (tries : Nat) : Unharmed c v { w with device := w.device.torn b block k tries } where
  sectors := sectors_torn h.sectors b block k tries
  blocks := (Device.blockCount_torn h.sectors hb hk block tries).trans h.blocks
  data j hj := (Device.cell_torn h.sectors hb hk block tries (hdata j hj)).trans (h.data j hj)
  slots p q i hp hbirth := by
    have hq := Nat.lt_of_le_of_lt (Place.birth_parent_le hp) hbirth
    refine Eq.trans ?_ (h.slots p q i hp hbirth)
    by_cases he : c.pointer v.cell q = b
    · rw [he]
      refine Device.pointer_torn h.sectors hb hk tries (Place.slot_lt hp (Nat.lt_of_lt_of_le hbirth held.short)) ?_
      rcases hslots i with hsame | hidle
      · exact hsame
      · have := (hidle q hq he).2 p hp
        omega
    · exact congrArg (Block.pointer · i) (Device.cell_torn h.sectors hb hk block tries he)

omit held in
theorem At.withFaults (h : At c v m w) (f : Faults) : At c v m (w.withFaults f) := ⟨h.1.withFaults f, h.2⟩

section

variable (guarded : ∀ i < v.freeMap.firstData.toNat, v.freeMap.isFree i = false)

include guarded

end

end

theorem Unharmed.blockAt (h : Unharmed c v w) (held : c.Held v)
    (fits : v.freeMap.blockCount.toNat ≤ v.device.blockCount) (hk : k < c.blockCount) :
    c.blockAt (w.withFaults .none) k = .ok (c.pointer v.cell (.data k)) ∧
      (w.withFaults .none).readBlock (c.pointer v.cell (.data k)) = .ok (v.cell (c.pointer v.cell (.data k))) := by
  have hread : ∀ {b}, v.IsData b → (w.withFaults .none).readBlock b = .ok (w.cell b) := fun hb =>
    Device.readBlock_eq (Device.calm_sound h.sectors) (h.blocks.symm ▸ Nat.lt_of_lt_of_le hb.2 fits)
  refine ⟨(blockAt_of_slots held (fun p q i hp hb => ?_) hk).2, ?_⟩
  · have hq := (held.shape q).mpr (Nat.lt_of_le_of_lt (Place.birth_parent_le hp) hb)
    have hi : i < pointersPerBlock := Place.slot_lt hp (Nat.lt_of_lt_of_le hb held.short)
    rw [readPointer, checkPointerSlot, if_neg (Nat.not_le_of_lt hi), ok_bind, hread (held.data q hq), ok_bind,
      h.slots p q i hp hb]
    rfl
  · rw [hread (held.isData hk), h.data k hk]

end Chain

end ImageFS
