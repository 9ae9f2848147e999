import ImageFS.Chain.Resize

/-!
# Contents of a chain

The bytes of a file lie in the blocks of its chain, one after another. A range of bytes is cut at
the block boundaries into spans, and each span is read or written in its block.
-/

set_option autoImplicit false

namespace ImageFS

open Volume Holding

/-- A piece of a byte range within one block: `length` bytes from `start` in the chain's block
`block`, which stand at `position` in the range. -/
structure Span where
  block : Nat
  start : Nat
  position : Nat
  length : Nat
deriving DecidableEq

namespace Span

def inBlock (offset stop block : Nat) : Span :=
  let first := max offset (block * blockSize)
  let last := min stop ((block + 1) * blockSize)
  { block, start := first - block * blockSize, position := first - offset, length := last - first }

def ofRange (offset length : Nat) : List Span :=
  if length = 0 then []
  else
    (List.range' (offset / blockSize) (ceilDiv (offset + length) blockSize - offset / blockSize)).map
      (inBlock offset (offset + length))

end Span

namespace Chain

def bytesAt (c : Chain) (v : Volume) (offset length : Nat) : Except Error ByteArray :=
  (Span.ofRange offset (min length (c.size.toNat - offset))).foldlM (fun found s => do
    let block ← v.readBlock (← c.blockAt v s.block)
    return found ++ block.bytes.extract s.start (s.start + s.length)) .empty

/-- Copies one piece of a range to its position in the buffer in hand. If the block is missing or cannot
be read, the buffer stays as it is. -/
def copySpan (c : Chain) (v : Volume) (s : Span) : EStateM Error ByteArray Unit := fun out =>
  match c.blockAt v s.block >>= v.readBlock with
  | .ok block => .ok () (overwrite out s.position (block.bytes.extract s.start (s.start + s.length)))
  | .error e => .error e out

/-- Copies the bytes at `offset` to the front of the buffer in hand, up to `length` of them and not past
the end of the file. Returns how many. The buffer has to have room for them. -/
def read (c : Chain) (v : Volume) (offset length : Nat) : EStateM Error ByteArray Nat := do
  let count := min length (c.size.toNat - offset)
  let available := (← get).size
  if available < count then throw (.fault count available)
  (Span.ofRange offset count).forM (c.copySpan v)
  return count

/-- Writes one piece of `data`. A piece that fills its block is written without reading it. -/
def storeSpan (c : Chain) (data : ByteArray) (s : Span) : VolumeM Unit := do
  let b ← ask fun v => c.blockAt v s.block
  let piece := data.extract s.position (s.position + s.length)
  if s.length = blockSize then writeBlock b (Block.zero.patch 0 piece)
  else updateBlock b (·.patch s.start piece)

def store (c : Chain) (offset : Nat) (data : ByteArray) : VolumeM Unit :=
  (Span.ofRange offset data.size).forM (c.storeSpan data)

/-- Writes `data` at `offset`, or at the end, growing the chain in hand as far as it takes. Returns
the number of bytes. -/
def write (offset : Nat) (data : ByteArray) (append : Bool) : Holding Chain Nat := do
  let size := (← object).size.toNat
  let offset := if append then size else offset
  if size < offset + data.size then resize (offset + data.size)
  let c ← object
  onVolume (c.store offset data)
  return data.size

end Chain

end ImageFS
