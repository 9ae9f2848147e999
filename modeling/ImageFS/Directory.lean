import ImageFS.Contents
import ImageFS.Entry

/-!
# Directories

A directory is a chain of records of 64 bytes; slot `k` is the `k`-th of them. New records go into
the first empty slot, and the directory grows by a block when it has none. It never shrinks.
-/

set_option autoImplicit false

namespace ImageFS

open Volume Holding

structure Directory where
  id : UInt32
  nlink : UInt32
  mode : UInt32
  chain : Chain
deriving DecidableEq

def Inode.asDirectory (i : Inode) : Except Error Directory :=
  match i.body with
  | .directory mode chain => .ok ⟨i.id, i.nlink, mode, chain⟩
  | _ => .error (.notDirectory i.id)

namespace Directory

def toInode (dir : Directory) : Inode := ⟨dir.id, dir.nlink, .directory dir.mode dir.chain⟩

def slotCount (dir : Directory) : Nat := dir.chain.size.toNat / entrySize

def entries (dir : Directory) (v : Volume) : Except Error (List Entry) := do
  let blocks ← (List.range dir.chain.blockCount).mapM fun k => do v.readBlock (← dir.chain.blockAt v k)
  return (blocks.flatMap Entry.ofBlock).take dir.slotCount

def occupiedFrom (dir : Directory) (v : Volume) (slot : Nat) : Except Error (List (Nat × Entry)) := do
  let entries ← dir.entries v
  return (entries.zipIdx.drop slot).filterMap fun (e, k) => if e.isEmpty then none else some (k, e)

def find (dir : Directory) (v : Volume) (name : Name) : Except Error (Option (Nat × Entry)) := do
  let entries ← dir.entries v
  return (entries.zipIdx.find? fun (e, _) => !e.isEmpty && e.name = name).map fun (e, k) => (k, e)

def locate (dir : Directory) (v : Volume) (slot : Nat) : Except Error (UInt32 × Nat) := do
  if dir.slotCount ≤ slot then throw (.corrupt (.entryOutOfRange slot))
  let b ← dir.chain.blockAt v (slot * entrySize / blockSize)
  return (b, slot * entrySize % blockSize)

def writeEntry (dir : Directory) (slot : Nat) (e : Entry) : VolumeM Unit := do
  let (b, offset) ← ask fun v => dir.locate v slot
  updateBlock b (·.patch offset e.encode)

/-- Empties a slot. The name stays behind. -/
def clearEntry (dir : Directory) (slot : Nat) : VolumeM Unit := do
  let (b, offset) ← ask fun v => dir.locate v slot
  updateBlock b (·.setWord offset 0)

/-- The first empty slot of the directory in hand. If there is none, the directory grows by a block
and its inode is written. -/
def freeSlot : Holding Directory Nat := do
  let dir ← object
  let entries ← onVolume (ask dir.entries)
  match entries.findIdx? Entry.isEmpty with
  | some slot => return slot
  | none =>
    onPart dir.chain (fun chain => { dir with chain }) (update Chain.grow)
    onVolume (writeInode (← object).toInode)
    return dir.slotCount

end Directory

end ImageFS
