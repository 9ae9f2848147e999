import ImageFS.Inode.Access
import ImageFS.Link
import ImageFS.Metadata

/-!
# The file system

Operations on a volume by inode number and name. An inode is written back after every change of its
contents, also after one that failed halfway, unless the inode was of the wrong kind for it. A file
whose last name goes away gives its blocks back.
-/

set_option autoImplicit false

namespace ImageFS

namespace Error

/-- Whether an error says that the inode is of the wrong kind, so that nothing was changed. -/
def isRefusal : Error → Bool
  | .notPermitted _ | .isDirectory _ | .invalidArgument _ => true
  | _ => false

end Error

/-- An item of a directory listing. `next` is the cursor that goes on behind it. -/
structure ListItem where
  ino : UInt32
  kind : Kind
  name : Name
  next : Nat
deriving DecidableEq

namespace FileSystem

open Volume Holding

def liveInode (v : Volume) (ino : UInt32) : Except Error Inode := do
  let inode ← v.readInode ino
  if inode.isFree then throw (.invalidInode ino.toNat)
  return inode

def liveDirectory (v : Volume) (ino : UInt32) : Except Error Directory := do
  let inode ← liveInode v ino
  inode.asDirectory

def metadata (v : Volume) (ino : UInt32) : Except Error Metadata := do
  let inode ← liveInode v ino
  return inode.metadata

def lookup (v : Volume) (dir : UInt32) (name : Name) : Except Error Metadata := do
  if maxNameLength < name.length then throw .nameTooLong
  let dir ← liveDirectory v dir
  match ← dir.find v name with
  | none => throw .notFound
  | some (_, e) => metadata v e.ino

/-- The listing of a directory from a cursor on. Cursors 0 and 1 are those of `.` and `..`, cursor
`k + 2` is that of slot `k`. -/
def readDir (v : Volume) (dir parent : UInt32) (cursor : Nat) : Except Error (List ListItem) := do
  let inode ← liveInode v dir
  let dot := if cursor = 0 then [⟨dir, .directory, .dot, 1⟩] else []
  let dotDot := if cursor ≤ 1 then [⟨parent, .directory, .dotDot, 2⟩] else []
  let found ← inode.list v (cursor - 2)
  let items ← found.mapM fun (slot, e) => do
    let named ← v.readInode e.ino
    return { ino := e.ino, kind := named.kind, name := e.name, next := slot + 3 : ListItem }
  return dot ++ dotDot ++ items

def read (v : Volume) (ino : UInt32) (offset length : Nat) : Except Error ByteArray := do
  let inode ← liveInode v ino
  inode.bytesAt v offset length

def readLink (v : Volume) (ino : UInt32) (privileged : Bool) : Except Error (List UInt8) := do
  let inode ← liveInode v ino
  inode.resolve privileged

def stats (v : Volume) : Except Error Stats := do
  return {
    blockSize := blockSize
    blocks := v.superblock.blockCount
    freeBlocks := v.freeBlocks
    inodes := v.superblock.inodeCount
    freeInodes := ← v.freeInodes
    maxNameLength := maxNameLength }

def addName (dir : Directory) (inode : Inode) (name : Name) : VolumeM Inode := fun v =>
  match Directory.link name ((dir, inode), v) with
  | .ok _ ((_, inode), v) => .ok inode v
  | .error e (_, v) => .error e v

/-- Names a new inode. The number is chosen before a slot, so that a full inode table does not make
the directory grow. -/
def addNew (dir : UInt32) (name : Name) (body : Body) : VolumeM Metadata := do
  ask fun _ => Name.check name
  let dir ← ask (liveDirectory · dir)
  if (← ask (dir.find · name)).isSome then throw .alreadyExists
  let ino ← ask (·.allocateInode)
  let inode ← addName dir ⟨ino, 0, body⟩ name
  return inode.metadata

def create (dir : UInt32) (name : Name) (mode : UInt32) : VolumeM Metadata :=
  addNew dir name (.regular (Mode.permissions mode) .empty)

def link (ino dir : UInt32) (name : Name) : VolumeM Metadata := do
  let target ← ask (liveInode · ino)
  let dir ← ask (liveDirectory · dir)
  let target ← addName dir target name
  return target.metadata

def symlink (dir : UInt32) (name : Name) (target : List UInt8) : VolumeM Metadata := do
  ask fun _ => Symlink.validate target
  addNew dir name (.symlink target)

/-- A symlink that sends privileged callers to `root` and all others to `other`. -/
def symlinkConditional (dir : UInt32) (name : Name) (root other : List UInt8) : VolumeM Metadata := do
  let target ← ask fun _ => Symlink.conditional root other
  addNew dir name (.symlink target)

/-- Works on an inode and writes it back, unless it was of the wrong kind. -/
def changing {α : Type} (inode : Inode) (act : Holding Inode α) : VolumeM α := fun v =>
  match act (inode, v) with
  | .ok a (inode, v) => (do writeInode inode; return a : VolumeM α) v
  -- what a failed change has left of the chain is to be recorded too
  | .error e (inode, v) => if e.isRefusal then .error e v else (do writeInode inode; throw e : VolumeM α) v

/-- Takes a name away. With its last name a file loses its contents. -/
def unlink (dir : UInt32) (name : Name) : VolumeM Unit := do
  let dir ← ask (liveDirectory · dir)
  let inode ← dir.unlink name
  -- a symlink has no blocks to give back
  if inode.nlink = 0 ∧ inode.kind = .regular then
    fun v =>
      match Inode.resize 0 (inode, v) with
      | .ok _ (inode, v) => writeInode inode v
      | .error e (_, v) => .error e v

def setSize (ino : UInt32) (size : Nat) : VolumeM Metadata := do
  let inode ← ask (liveInode · ino)
  changing inode (Inode.resize size)
  ask (metadata · ino)

def setMode (ino : UInt32) (mode : UInt32) : VolumeM Metadata := do
  let inode ← ask (liveInode · ino)
  match inode.body with
  | .regular _ chain => setBody inode (.regular (Mode.permissions mode) chain)
  | .directory _ chain => setBody inode (.directory (Mode.permissions mode) chain)
  | .symlink _ => throw (.invalidArgument .symlinkMode)
where
  setBody (inode : Inode) (body : Body) : VolumeM Metadata := do
    let inode := { inode with body }
    writeInode inode
    return inode.metadata

def write (ino : UInt32) (offset : Nat) (data : ByteArray) (append : Bool) : VolumeM Nat := do
  let inode ← ask (liveInode · ino)
  changing inode (Inode.write offset data append)

end FileSystem

end ImageFS
