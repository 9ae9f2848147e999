import ImageFS.Volume

/-!
# Chains of blocks

Finding the blocks of a chain, and adding or removing them at its end. `grow` and `shrink` return
the chain they leave, and a failed step leaves the chain as it was. `resize` repeats them; what it
has done to the chain is kept when a later step fails, except that running out of space undoes it
all.
-/

set_option autoImplicit false

namespace ImageFS

open Volume

/-- An action on a volume and an object in hand. What became of the object is kept on failure too. -/
abbrev Holding (β : Type) := EStateM Error (β × Volume)

namespace Holding

variable {α β γ : Type}

def object : Holding β β := fun s => .ok s.1 s

def put (b : β) : Holding β Unit := fun s => .ok () (b, s.2)

def onVolume (act : VolumeM α) : Holding β α
  | (b, v) =>
    match act v with
    | .ok a v => .ok a (b, v)
    | .error e v => .error e (b, v)

def update (act : β → VolumeM β) : Holding β Unit
  | (b, v) =>
    match act b v with
    | .ok b' v => .ok () (b', v)
    | .error e v => .error e (b, v)

def onPart (part : γ) (rebuild : γ → β) (act : Holding γ α) : Holding β α
  | (_, v) =>
    match act (part, v) with
    | .ok a (c, v) => .ok a (rebuild c, v)
    | .error e (c, v) => .error e (rebuild c, v)

def run (act : Holding β α) (b : β) (v : Volume) : Except Error α × β × Volume :=
  match act (b, v) with
  | .ok a (b, v) => (.ok a, b, v)
  | .error e (b, v) => (.error e, b, v)

end Holding

namespace Chain

def required (pointer : UInt32) (part : ChainPart) : Except Error UInt32 :=
  if pointer = nullPointer then .error (.corrupt (.missing part)) else .ok pointer

def directAt (c : Chain) (i : Nat) : UInt32 := c.direct[i]?.getD nullPointer

def setDirect (c : Chain) (i : Nat) (b : UInt32) : Chain :=
  { c with direct := c.direct.setIfInBounds i b }

/-- What the slot of a block names; null pointers on the way to the slot are missing blocks. -/
def lookup (c : Chain) (v : Volume) : Slot → Except Error UInt32
  | .direct i => .ok (c.directAt i)
  | .indirect i => do
    let table ← required c.indirect .indirect
    v.readPointer table i
  | .doubly outer inner => do
    let top ← required c.doubly .doublyIndirect
    let table ← required (← v.readPointer top outer) .indirect
    v.readPointer table inner

def blockAt (c : Chain) (v : Volume) (block : Nat) : Except Error UInt32 := do
  if c.blockCount ≤ block then throw (.corrupt (.pastEnd block))
  required (← c.lookup v (Tiers.onDisk.locate block)) .data

/-- The chain with room for one block more, which is the one in the given slot. The blocks it takes
are zero; on failure they are given back, and a slot that was filled in an old block is cleared. -/
def extend (c : Chain) : Slot → VolumeM Chain
  | .direct i => withFresh fun data => return c.setDirect i data
  | .indirect i =>
    if c.indirect = nullPointer then
      withFresh fun table => withFresh fun data => do
        writePointer table i data
        return { c with indirect := table }
    else
      withFresh fun data => do
        writePointer c.indirect i data
        return c
  | .doubly outer inner =>
    if c.doubly = nullPointer then
      withFresh fun top => withFresh fun table => withFresh fun data => do
        writePointer top outer table
        writePointer table inner data
        return { c with doubly := top }
    else do
      let table ← ask (·.readPointer c.doubly outer)
      if table = nullPointer then
        withFresh fun table => withFresh fun data =>
          -- the slot is in a block that stays, so it is cleared before the new blocks are given back
          tryCatch (do
            writePointer c.doubly outer table
            writePointer table inner data
            return c) fun e => do
              tryCatch (writePointer c.doubly outer nullPointer) fun _ => pure ()
              throw e
      else
        withFresh fun data => do
          let table ← ask (·.readPointer c.doubly outer)
          let table ← ask fun _ => required table .indirect
          writePointer table inner data
          return c

def grow (c : Chain) : VolumeM Chain := do
  let n := c.blockCount
  if Tiers.onDisk.maxBlocks ≤ n then throw .fileTooLarge
  let c ← c.extend (Tiers.onDisk.locate n)
  return { c with size := .ofNat ((n + 1) * blockSize) }

/-- The chain without the block in the given slot, which is its last. Indirect blocks that become
empty are given back with it. Everything missing is found before anything is given back. -/
def retract (c : Chain) : Slot → VolumeM Chain
  | .direct i => do
    let data ← ask fun _ => required (c.directAt i) .data
    free data
    return c.setDirect i nullPointer
  | .indirect i => do
    let table ← ask fun _ => required c.indirect .indirect
    let data ← ask (·.readPointer table i)
    let data ← ask fun _ => required data .data
    free data
    writePointer table i nullPointer
    if i = 0 then
      free table
      return { c with indirect := nullPointer }
    return c
  | .doubly outer inner => do
    let top ← ask fun _ => required c.doubly .doublyIndirect
    let table ← ask (·.readPointer top outer)
    let table ← ask fun _ => required table .indirect
    let data ← ask (·.readPointer table inner)
    let data ← ask fun _ => required data .data
    free data
    writePointer table inner nullPointer
    if inner = 0 then
      free table
      writePointer top outer nullPointer
      if outer = 0 then
        free top
        return { c with doubly := nullPointer }
    return c

def shrink (c : Chain) : VolumeM Chain := do
  if c.blockCount = 0 then return c
  let tail := c.blockCount - 1
  let c ← c.retract (Tiers.onDisk.locate tail)
  return { c with size := .ofNat (tail * blockSize) }

/-- Clears what the last block holds behind the end of the file. -/
def zeroTail (c : Chain) : VolumeM Unit := do
  let used := c.size.toNat % blockSize
  if used ≠ 0 then
    let b ← ask fun v => c.blockAt v (c.blockCount - 1)
    updateBlock b (·.clearFrom used)

open Holding

def growBy : Nat → Holding Chain Unit
  | 0 => pure ()
  | n + 1 => do
    update grow
    growBy n

def shrinkBy : Nat → Holding Chain Unit
  | 0 => pure ()
  | n + 1 => do
    update shrink
    shrinkBy n

def setSize (size : UInt32) : Holding Chain Unit := do
  put { (← object) with size := size }

/-- Takes off the blocks that were added to the chain `before` and gives it its size back. -/
def undoGrowth (before : Chain) : Holding Chain Unit := do
  let now ← object
  shrinkBy (now.blockCount - before.blockCount)
  setSize before.size

/-- Makes the chain in hand hold exactly `size` bytes. Bytes that come in are zero, and the last
block is zero behind the end. -/
def resize (size : Nat) : Holding Chain Unit := do
  let before ← object
  let wanted := blocksForSize size
  if Tiers.onDisk.maxBlocks < wanted ∨ UInt32.size ≤ size then throw .fileTooLarge
  -- the old end comes to lie within the file
  if before.size.toNat < size then onVolume before.zeroTail
  tryCatch (growBy (wanted - before.blockCount)) fun e => do
    if e = .noSpace then undoGrowth before
    throw e
  shrinkBy (before.blockCount - wanted)
  setSize (.ofNat size)
  if size < before.size.toNat then
    onVolume (← object).zeroTail

end Chain

end ImageFS
