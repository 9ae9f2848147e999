import ImageFS.FileSystem.Call
import ImageFS.Proofs.Directory.Slots
import Mathlib.Algebra.BigOperators.Group.Finset.Basic

/-!
# A file system without blocks

The reference for what users of a file system may count on: files are byte strings, the root is a row of
records, and blocks are only counted. Each operation is a function of such a state; one that fails gives
no new state.
-/

set_option autoImplicit false

namespace ImageFS.Reference

open Volume

inductive File where
  | regular (nlink mode : UInt32) (bytes : ByteArray)
  | symlink (nlink : UInt32) (target : List UInt8)

namespace File

def kind : File → Kind
  | .regular _ _ _ => .regular
  | .symlink _ _ => .symlink

def nlink : File → UInt32
  | .regular nlink _ _ => nlink
  | .symlink nlink _ => nlink

def linked (n : UInt32) : File → File
  | .regular _ mode bytes => .regular n mode bytes
  | .symlink _ target => .symlink n target

def cost : File → Nat
  | .regular _ _ bytes => Chain.cost (blocksForSize bytes.size)
  | .symlink _ _ => 0

def metadata (ino : UInt32) : File → Metadata
  | .regular nlink mode bytes =>
    ⟨ino, .regular, .ofNat bytes.size, blocksForSize bytes.size, Mode.permissions mode, nlink⟩
  | .symlink nlink target => ⟨ino, .symlink, .ofNat target.length, 0, Mode.permissions symlinkMode, nlink⟩

end File

/-- `slots` are the records of the root, empty ones too; `file` are the files that have names. -/
structure State where
  superblock : Superblock
  rootMode : UInt32
  slots : List Entry
  file : UInt32 → Option File

namespace State

def new (superblock : Superblock) : State := ⟨superblock, Volume.rootMode, [], fun _ => none⟩

variable (s : State)

def rootBlocks : Nat := s.slots.length / entriesPerBlock

def capacity : Nat := s.superblock.blockCount.toNat - s.superblock.firstDataBlock.toNat

def used : Nat :=
  Chain.cost s.rootBlocks + ∑ n ∈ Finset.range s.superblock.inodeCount.toNat, ((s.file (.ofNat n)).map File.cost).getD 0

def freeBlocks : Nat := s.capacity - s.used

def fileAt (ino : UInt32) : Except Error File :=
  match s.file ino with
  | some f => .ok f
  | none => .error (.invalidInode ino.toNat)

def checkDirectory (dir : UInt32) : Except Error Unit :=
  if dir = rootInode then .ok () else do
    let _ ← s.fileAt dir
    throw (.notDirectory dir)

def rootMetadata : Metadata :=
  ⟨rootInode, .directory, .ofNat (s.slots.length * entrySize), s.rootBlocks, Mode.permissions s.rootMode, 1⟩

def metadata (ino : UInt32) : Except Error Metadata :=
  if ino = rootInode then .ok s.rootMetadata else do
    let f ← s.fileAt ino
    return f.metadata ino

def named (name : Name) : Option UInt32 :=
  (s.slots.find? fun e => !e.isEmpty && e.name = name).map (·.ino)

def lookup (dir : UInt32) (name : Name) : Except Error Metadata := do
  if maxNameLength < name.length then throw .nameTooLong
  s.checkDirectory dir
  match s.named name with
  | none => throw .notFound
  | some ino => s.metadata ino

def kindOf (ino : UInt32) : Kind := ((s.file ino).map File.kind).getD .regular

def readDir (dir parent : UInt32) (cursor : Nat) : Except Error (List ListItem) := do
  s.checkDirectory dir
  let dot := if cursor = 0 then [⟨dir, .directory, .dot, 1⟩] else []
  let dotDot := if cursor ≤ 1 then [⟨parent, .directory, .dotDot, 2⟩] else []
  let items := (s.slots.zipIdx.drop (cursor - 2)).filterMap fun (e, k) =>
    if e.isEmpty then none else some ⟨e.ino, s.kindOf e.ino, e.name, k + 3⟩
  return dot ++ dotDot ++ items

def read (ino : UInt32) (offset length : Nat) : Except Error ByteArray :=
  if ino = rootInode then .error (.isDirectory ino) else do
    match ← s.fileAt ino with
    | .regular _ _ bytes => return bytes.extract offset (min (offset + length) bytes.size)
    | .symlink _ _ => throw (.invalidArgument .readSymlink)

def readLink (ino : UInt32) (privileged : Bool) : Except Error (List UInt8) :=
  if ino = rootInode then .error (.notSymlink ino) else do
    match ← s.fileAt ino with
    | .regular _ _ _ => throw (.notSymlink ino)
    | .symlink _ target => return Symlink.resolve target privileged

def vacant : List Nat :=
  (List.range' 2 (s.superblock.inodeCount.toNat - 2)).filter fun n => (s.file (.ofNat n)).isNone

def stats : Stats where
  blockSize := blockSize
  blocks := s.superblock.blockCount
  freeBlocks := s.freeBlocks
  inodes := s.superblock.inodeCount
  freeInodes := s.vacant.length
  maxNameLength := maxNameLength

def checkRoom : Except Error Unit :=
  if s.slots.any Entry.isEmpty then .ok ()
  else if 65802 ≤ s.rootBlocks then .error .fileTooLarge
  else if s.freeBlocks < Chain.cost (s.rootBlocks + 1) - Chain.cost s.rootBlocks then .error .noSpace
  else .ok ()

def setFile (ino : UInt32) (f : Option File) : State := { s with file := Function.update s.file ino f }

def addName (ino : UInt32) (f : File) (name : Name) : Except Error (Metadata × State) := do
  if (s.named name).isSome then throw .alreadyExists
  s.checkRoom
  return (f.metadata ino, { s.setFile ino (some f) with slots := Entry.putFirst ⟨ino, name⟩ s.slots })

def addNew (dir : UInt32) (name : Name) (f : File) : Except Error (Metadata × State) := do
  Name.check name
  s.checkDirectory dir
  if (s.named name).isSome then throw .alreadyExists
  match s.vacant with
  | [] => throw .noInodes
  | n :: _ => s.addName (.ofNat n) f name

def link (ino dir : UInt32) (name : Name) : Except Error (Metadata × State) := do
  let _ ← s.metadata ino
  s.checkDirectory dir
  Name.check name
  if ino = rootInode then throw (.notPermitted ino)
  let f ← s.fileAt ino
  s.addName ino (f.linked (f.nlink + 1)) name

def unlink (dir : UInt32) (name : Name) : Except Error State := do
  s.checkDirectory dir
  if maxNameLength < name.length then throw .nameTooLong
  match s.named name with
  | none => throw .notFound
  | some ino =>
    let left := (s.file ino).bind fun f => if f.nlink - 1 = 0 then none else some (f.linked (f.nlink - 1))
    return { s.setFile ino left with slots := Entry.clearName name s.slots }

def checkLength (old new : Nat) : Except Error Unit :=
  if new ≤ old then .ok ()
  else if 65802 * blockSize < new then .error .fileTooLarge
  else if s.freeBlocks < Chain.cost (blocksForSize new) - Chain.cost (blocksForSize old) then .error .noSpace
  else .ok ()

def setSize (ino : UInt32) (size : Nat) : Except Error (Metadata × State) :=
  if ino = rootInode then .error (.notPermitted ino) else do
    match ← s.fileAt ino with
    | .symlink _ _ => throw (.invalidArgument .resizeSymlink)
    | .regular nlink mode bytes =>
      s.checkLength bytes.size size
      let f : File := .regular nlink mode (fitTo size bytes)
      return (f.metadata ino, s.setFile ino (some f))

def setMode (ino mode : UInt32) : Except Error (Metadata × State) :=
  if ino = rootInode then
    let s := { s with rootMode := Mode.permissions mode }
    .ok (s.rootMetadata, s)
  else do
    match ← s.fileAt ino with
    | .symlink _ _ => throw (.invalidArgument .symlinkMode)
    | .regular nlink _ bytes =>
      let f : File := .regular nlink (Mode.permissions mode) bytes
      return (f.metadata ino, s.setFile ino (some f))

def write (ino : UInt32) (offset : Nat) (data : ByteArray) (append : Bool) : Except Error (Nat × State) :=
  if ino = rootInode then .error (.isDirectory ino) else do
    match ← s.fileAt ino with
    | .symlink _ _ => throw (.invalidArgument .writeSymlink)
    | .regular nlink mode bytes =>
      let start := if append then bytes.size else offset
      s.checkLength bytes.size (start + data.size)
      let grown := fitTo (max bytes.size (start + data.size)) bytes
      return (data.size, s.setFile ino (some (.regular nlink mode (overwrite grown start data))))

end State

open FileSystem (Call Answer)

/-- What a call answers and the state after it. -/
def perform (s : State) : Call → Except Error (Answer × State)
  | .metadata ino => return (.metadata (← s.metadata ino), s)
  | .lookup dir name => return (.metadata (← s.lookup dir name), s)
  | .readDir dir parent cursor => return (.items (← s.readDir dir parent cursor), s)
  | .create dir name mode => do
    let (m, s) ← s.addNew dir name (.regular 1 (Mode.permissions mode) .empty)
    return (.metadata m, s)
  | .link ino dir name => do
    let (m, s) ← s.link ino dir name
    return (.metadata m, s)
  | .symlink dir name target => do
    Symlink.validate target
    let (m, s) ← s.addNew dir name (.symlink 1 target)
    return (.metadata m, s)
  | .symlinkConditional dir name root other => do
    let target ← Symlink.conditional root other
    let (m, s) ← s.addNew dir name (.symlink 1 target)
    return (.metadata m, s)
  | .unlink dir name => return (.done, ← s.unlink dir name)
  | .setSize ino size => do
    let (m, s) ← s.setSize ino size
    return (.metadata m, s)
  | .setMode ino mode => do
    let (m, s) ← s.setMode ino mode
    return (.metadata m, s)
  | .read ino offset length => return (.bytes (← s.read ino offset length), s)
  | .write ino offset data append => do
    let (n, s) ← s.write ino offset data append
    return (.count n, s)
  | .readLink ino privileged => return (.target (← s.readLink ino privileged), s)
  | .stats => return (.stats s.stats, s)

def outcomes (s : State) : List Call → List (Except Error Answer)
  | [] => []
  | c :: rest =>
    match perform s c with
    | .ok (answer, s') => .ok answer :: outcomes s' rest
    | .error e => .error e :: outcomes s rest

end ImageFS.Reference
