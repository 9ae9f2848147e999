import ImageFS.Error

/-!
# Whole blocks on a device

A block is the run of sectors that its 1024 bytes occupy. It is read and written sector by sector in
ascending order, and the first sector that fails stops the access; the sectors written before that
one stay written. A block number past the end is refused before any sector is touched.
-/

set_option autoImplicit false

namespace ImageFS

abbrev DeviceM := EStateM Error Device

namespace Device

def checkSectorSize (d : Device) : Except Error Unit :=
  if d.sectorSize = 0 ∨ blockSize < d.sectorSize ∨ blockSize % d.sectorSize ≠ 0 then
    .error (.geometry (.sectorSize d.sectorSize))
  else .ok ()

def sectorsPerBlock (d : Device) : Nat := blockSize / d.sectorSize

def readSectors (d : Device) (first : Nat) : Nat → Except DeviceError ByteArray
  | 0 => .ok .empty
  | count + 1 => do
    let head ← d.readSector first
    let rest ← d.readSectors (first + 1) count
    return head ++ rest

/-- Writes `count` sectors in a row, taking their contents from `data` at `offset` on. -/
def writeSectors (sectorSize : Nat) (data : ByteArray) (first offset : Nat) : Nat → EStateM DeviceError Device Unit
  | 0 => pure ()
  | count + 1 => do
    writeSector first (data.extract offset (offset + sectorSize))
    writeSectors sectorSize data (first + 1) (offset + sectorSize) count

def readBlock (d : Device) (b : UInt32) : Except Error Block :=
  if b.toNat < d.blockCount then
    match d.readSectors (b.toNat * d.sectorsPerBlock) d.sectorsPerBlock with
    | .error e => .error (.device e)
    | .ok bytes =>
      match Block.ofBytes? bytes with
      | some block => .ok block
      | none => .error (.geometry (.blockLength bytes.size))
  else .error (.corrupt (.blockOutOfRange b d.blockCount))

def writeBlock (b : UInt32) (block : Block) : DeviceM Unit := fun d =>
  if b.toNat < d.blockCount then
    (writeSectors d.sectorSize block.bytes (b.toNat * d.sectorsPerBlock) 0 d.sectorsPerBlock).adaptExcept
      .device d
  else .error (.corrupt (.blockOutOfRange b d.blockCount)) d

end Device

end ImageFS
