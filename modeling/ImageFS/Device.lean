import ImageFS.Block

/-!
# Devices

A device is an array of bytes addressed by sectors. Sectors may be set to fail: some cannot be
read, and the writes to some are counted and fail at chosen times. A failed write leaves every byte
as it was, a successful one replaces one sector.
-/

set_option autoImplicit false

namespace ImageFS

inductive DeviceError where
  | sectorOutOfRange (sector count : Nat)
  | sectorSizeMismatch (expected got : Nat)
  | unreadable (sector : Nat)
  | broken (sector : Nat)
  | flushFailed
  | described (text : String)
deriving DecidableEq

def DeviceError.message : DeviceError → String
  | .sectorOutOfRange sector count => s!"sector {sector} out of range ({count} sectors)"
  | .sectorSizeMismatch expected got => s!"sector size mismatch - expected {expected}, got {got}"
  | .unreadable sector => s!"sector {sector} is unreadable"
  | .broken sector => s!"sector {sector} is broken"
  | .flushFailed => "flush failed"
  | .described text => text

/-- Which accesses fail. The writes to fragile sectors are counted, and the `k`-th of them fails
when `fails k`. -/
structure Faults where
  unreadable : Nat → Bool := fun _ => false
  fragile : Nat → Bool := fun _ => false
  fails : Nat → Bool := fun _ => true
  attempts : Nat := 0
  flush : Bool := false

namespace Faults

def none : Faults := {}

/-- Faults by block: reads of `read` fail, and so do the writes to `write` after the first `allow`. -/
def ofBlocks (sectorSize : Nat) (read write : List Nat) (allow : Nat) (flush : Bool) : Faults where
  unreadable sector := read.contains (sector * sectorSize / blockSize)
  fragile sector := write.contains (sector * sectorSize / blockSize)
  fails attempt := allow ≤ attempt
  flush := flush

def refuses (f : Faults) (sector : Nat) : Bool := f.fragile sector && f.fails f.attempts

def tried (f : Faults) (sector : Nat) : Faults :=
  if f.fragile sector then { f with attempts := f.attempts + 1 } else f

end Faults

structure Device where
  sectorSize : Nat
  bytes : ByteArray
  faults : Faults := .none

namespace Device

/-- A device of zeros, cut to whole sectors. With sector size 0 it has bytes but no sectors. -/
def blank (bytes sectorSize : Nat) : Device where
  sectorSize := sectorSize
  bytes := zeros (bytes / max sectorSize 1 * max sectorSize 1)

def sectorCount (d : Device) : Nat := d.bytes.size / d.sectorSize

def size (d : Device) : Nat := d.sectorCount * d.sectorSize

def blockCount (d : Device) : Nat := d.size / blockSize

def readSector (d : Device) (sector : Nat) : Except DeviceError ByteArray :=
  if d.faults.unreadable sector then .error (.unreadable sector)
  else if sector < d.sectorCount then
    .ok (d.bytes.extract (sector * d.sectorSize) (sector * d.sectorSize + d.sectorSize))
  else .error (.sectorOutOfRange sector d.sectorCount)

def writeSector (sector : Nat) (data : ByteArray) : EStateM DeviceError Device Unit
  | ⟨sectorSize, bytes, faults⟩ =>
    if faults.refuses sector then .error (.broken sector) ⟨sectorSize, bytes, faults.tried sector⟩
    else if bytes.size / sectorSize ≤ sector then
      .error (.sectorOutOfRange sector (bytes.size / sectorSize)) ⟨sectorSize, bytes, faults.tried sector⟩
    else if data.size ≠ sectorSize then
      .error (.sectorSizeMismatch sectorSize data.size) ⟨sectorSize, bytes, faults.tried sector⟩
    else .ok () ⟨sectorSize, overwrite bytes (sector * sectorSize) data, faults.tried sector⟩

def flush (d : Device) : Except DeviceError Unit :=
  if d.faults.flush then .error .flushFailed else .ok ()

def peek? (d : Device) (offset length : Nat) : Option ByteArray :=
  if offset + length ≤ d.bytes.size then some (d.bytes.extract offset (offset + length)) else none

def poke (d : Device) (offset : Nat) (data : ByteArray) : Device :=
  if offset + data.size ≤ d.bytes.size then { d with bytes := overwrite d.bytes offset data } else d

end Device

end ImageFS
