import ImageFS.FreeMap
import ImageFS.Inode

/-!
# Volumes

A mounted volume is its device, the superblock and the free map. An action on a volume may fail, and
keeps what it changed before it failed; `ask` is an action that changes nothing. Blocks are handed
out by `allocate` and given back by `free`, which keep the free map and its copy on the device in
step.
-/

set_option autoImplicit false

namespace ImageFS

structure Volume where
  device : Device
  superblock : Superblock
  freeMap : FreeMap

abbrev VolumeM := EStateM Error Volume

namespace Volume

/-- Finds something out and leaves the volume as it is. -/
def ask {α : Type} (f : Volume → Except Error α) : VolumeM α := fun v =>
  match f v with
  | .ok a => .ok a v
  | .error e => .error e v

/-- Runs an action and hands out its failure as a value. -/
def attempt {α : Type} (act : VolumeM α) : VolumeM (Except Error α) := fun v =>
  match act v with
  | .ok a v => .ok (.ok a) v
  | .error e v => .ok (.error e) v

def readBlock (v : Volume) (b : UInt32) : Except Error Block := v.device.readBlock b

def writeBlock (b : UInt32) (block : Block) : VolumeM Unit
  | ⟨device, superblock, freeMap⟩ =>
    match Device.writeBlock b block device with
    | .ok _ device => .ok () ⟨device, superblock, freeMap⟩
    | .error e device => .error e ⟨device, superblock, freeMap⟩

def updateBlock (b : UInt32) (f : Block → Block) : VolumeM Unit := do
  let block ← ask (·.readBlock b)
  writeBlock b (f block)

def checkPointerSlot (slot : Nat) : Except Error Unit :=
  if pointersPerBlock ≤ slot then .error (.corrupt (.pointerOutOfRange slot)) else .ok ()

def readPointer (v : Volume) (b : UInt32) (slot : Nat) : Except Error UInt32 := do
  checkPointerSlot slot
  let block ← v.readBlock b
  return block.pointer slot

def writePointer (b : UInt32) (slot : Nat) (target : UInt32) : VolumeM Unit := do
  ask fun _ => checkPointerSlot slot
  updateBlock b (·.setPointer slot target)

def freeBlocks (v : Volume) : Nat := v.freeMap.freeCount

def modifyMap (f : FreeMap → FreeMap) : VolumeM Unit
  | ⟨device, superblock, freeMap⟩ => .ok () ⟨device, superblock, f freeMap⟩

def writeMapPart (b : Nat) : VolumeM Unit := do
  let part ← ask fun v => .ok (v.freeMap.part b)
  writeBlock (FreeMap.home b) part

def writeMap : VolumeM Unit := do
  let parts ← ask fun v => .ok ((FreeMap.homes v.superblock).toList.zip v.freeMap.blocks.toList)
  parts.forM fun (home, part) => writeBlock home part

/-- Takes the lowest free block, leaving its contents as they are. If the map cannot be written, the
block stays free. -/
def allocate : VolumeM UInt32 := do
  match ← ask fun v => .ok v.freeMap.lowestFree with
  | none => throw .noSpace
  | some b =>
    modifyMap (·.markUsed b)
    tryCatch (writeMapPart b) fun e => do
      modifyMap (·.markFree b)
      throw e
    return .ofNat b

/-- Gives a block back. Metadata blocks and blocks past the end are left alone. -/
def free (b : UInt32) : VolumeM Unit := do
  let isData ← ask fun v => .ok (decide (v.freeMap.firstData ≤ b ∧ b < v.freeMap.blockCount))
  if isData then
    modifyMap (·.markFree b.toNat)
    writeMapPart b.toNat

/-- Gives a block back on the way out of a failure; a failure to do so is passed over. -/
def release (b : UInt32) : VolumeM Unit := tryCatch (free b) fun _ => pure ()

/-- Takes a block, clears it and goes on with it. If that fails, the block is given back. -/
def withFresh {α : Type} (use : UInt32 → VolumeM α) : VolumeM α := do
  let b ← allocate
  tryCatch (do writeBlock b .zero; use b) fun e => do
    release b
    throw e

def inodeBlock (v : Volume) (ino : UInt32) : UInt32 := v.superblock.firstInodeBlock + ino / 16

def inodeOffset (ino : UInt32) : Nat := ino.toNat % inodesPerBlock * inodeSize

def checkInode (v : Volume) (ino : UInt32) : Except Error Unit :=
  if v.superblock.inodeCount ≤ ino then .error (.invalidInode ino.toNat) else .ok ()

def readInode (v : Volume) (ino : UInt32) : Except Error Inode := do
  v.checkInode ino
  let block ← v.readBlock (v.inodeBlock ino)
  Inode.readAt block.bytes (inodeOffset ino) ino

def writeInode (inode : Inode) : VolumeM Unit := do
  ask (·.checkInode inode.id)
  let home ← ask fun v => .ok (v.inodeBlock inode.id)
  updateBlock home (·.patch (inodeOffset inode.id) inode.encode)

/-- The free inode numbers in the `k`-th block of the table. Inodes 0 and 1 are never free. -/
def freeInodesIn (v : Volume) (k : Nat) : Except Error (List UInt32) := do
  let block ← v.readBlock (v.superblock.firstInodeBlock + .ofNat k)
  return ((List.range' (k * inodesPerBlock) inodesPerBlock).filter fun i =>
      2 ≤ i ∧ i < v.superblock.inodeCount.toNat ∧
        Inode.nlinkAt block.bytes (i % inodesPerBlock * inodeSize) = 0).map .ofNat

def tableBlocks (v : Volume) : List Nat :=
  if v.superblock.inodeCount ≤ 2 then [] else List.range v.superblock.inodeBlocks.toNat

def firstFreeInode (v : Volume) : List Nat → Except Error UInt32
  | [] => .error .noInodes
  | k :: rest => do
    match ← v.freeInodesIn k with
    | [] => v.firstFreeInode rest
    | ino :: _ => return ino

/-- The lowest free inode number. It stays free until an inode is written there. -/
def allocateInode (v : Volume) : Except Error UInt32 := v.firstFreeInode v.tableBlocks

def freeNumbers (v : Volume) : Except Error (List UInt32) := do
  let found ← v.tableBlocks.mapM v.freeInodesIn
  return found.flatten

def freeInodes (v : Volume) : Except Error Nat := do
  let numbers ← v.freeNumbers
  return numbers.length

abbrev rootInode : UInt32 := 1

def rootMode : UInt32 := 0o755

/-- The volume that formatting is to make of a device, with nothing written yet. -/
def blueprint (device : Device) (inodeCount : UInt32) : Except Error Volume := do
  device.checkSectorSize
  let blocks := device.blockCount
  if UInt32.size ≤ blocks then throw (.geometry (.tooManyBlocks blocks))
  if inodeCount ≤ rootInode + 1 then throw (.geometry (.tooFewInodes inodeCount))
  let superblock := Superblock.plan (.ofNat blocks) inodeCount
  if superblock.blockCount ≤ superblock.firstDataBlock then
    throw (.geometry (.noRoom superblock.blockCount inodeCount))
  return { device, superblock, freeMap := .fresh superblock }

def layOut : VolumeM Unit := do
  writeBlock bootBlock .zero
  let superblock ← ask fun v => .ok v.superblock
  writeBlock superblockBlock superblock.block
  writeMap
  (List.range superblock.inodeBlocks.toNat).forM fun k =>
    writeBlock (superblock.firstInodeBlock + .ofNat k) .zero
  writeInode (.directory rootInode rootMode)
  ask fun v => v.device.flush.mapError .device

def format (inodeCount : UInt32) : DeviceM Volume := fun device =>
  match blueprint device inodeCount with
  | .error e => .error e device
  | .ok v =>
    match layOut v with
    | .ok _ v => .ok v v.device
    | .error e v => .error e v.device

/-- How mounting stops short: with an error, or with the end of the program at a sum that goes past 32 bits. -/
inductive Stop where
  | failed (e : Error)
  | aborted
deriving DecidableEq

/-- A volume has to fit its device and to end behind its metadata. -/
def checkLayout (device : Device) (s : Superblock) : Except Stop Unit :=
  if device.blockCount < s.blockCount.toNat then
    .error (.failed (.geometry (.shortDevice s.blockCount device.blockCount)))
  else
    match s.firstDataBlock? with
    | none => .error .aborted
    | some firstData =>
      if s.blockCount ≤ firstData then .error (.failed (.corrupt .metadataOverrun)) else .ok ()

def load (device : Device) (superblock : Superblock) : Except Error Volume := do
  let freeMap ← FreeMap.read device superblock
  let v : Volume := { device, superblock, freeMap }
  let root ← v.readInode rootInode
  if root.kind ≠ .directory then throw (.corrupt .rootNotDirectory)
  return v

def mount (device : Device) : Except Stop Volume := do
  device.checkSectorSize.mapError .failed
  let superblock ← (Superblock.read device).mapError .failed
  checkLayout device superblock
  (load device superblock).mapError .failed

def unmount (v : Volume) : Except Error Device := do
  v.device.flush.mapError .device
  return v.device

end Volume

end ImageFS
