import ImageFS.FileSystem.Operations

/-!
# Kernel requests

How a volume answers the kernel. Inode numbers have 64 bits in a request and 32 on the volume. A
request that fails is answered by an error number. Nothing on the volume records an owner, so all
files belong to whoever mounted it. How the records of a listing are packed is up to the protocol:
a request is carried out with a function that adds an item to the reply, as long as there is room.
-/

set_option autoImplicit false

namespace ImageFS.Kernel

open Volume

/-- Offsets are signed, inode numbers 64 bits wide. -/
inductive Request where
  | lookup (parent : Nat) (name : Name)
  | getAttr (ino : Nat)
  | setAttr (ino : Nat) (mode : Option UInt32) (size : Option Nat)
  | readLink (ino : Nat) (uid : UInt32)
  | openFile (ino : Nat)
  | read (ino : Nat) (offset : Int) (length : Nat)
  | write (ino : Nat) (offset : Int) (data : ByteArray) (flags : UInt32)
  | readDir (ino : Nat) (offset : Int) (room : Nat)
  | create (parent : Nat) (name : Name) (mode umask : UInt32)
  | link (ino parent : Nat) (name : Name)
  | symlink (parent : Nat) (name : Name) (target : List UInt8)
  | unlink (parent : Nat) (name : Name)
  | statFs

structure Attributes where
  ino : UInt32
  size : UInt32
  /-- In units of 512 bytes. -/
  blocks : Nat
  mode : UInt32
  nlink : UInt32
  uid : UInt32
  gid : UInt32
deriving DecidableEq

inductive Reply where
  | failed (errno : Nat)
  | done
  | entry (attributes : Attributes)
  | attributes (attributes : Attributes)
  | bytes (bytes : ByteArray)
  | target (target : List UInt8)
  | opened
  | created (attributes : Attributes)
  | written (count : Nat)
  | listing (items : List ListItem)
  | stats (stats : Stats)
deriving DecidableEq

structure Owner where
  uid : UInt32
  gid : UInt32
deriving DecidableEq

def typeBits : Kind → UInt32
  | .regular => Mode.regularType
  | .directory => Mode.directoryType
  | .symlink => Mode.symlinkType

def Owner.attributes (owner : Owner) (m : Metadata) : Attributes where
  ino := m.ino
  size := m.size
  blocks := m.blocks * 2
  mode := typeBits m.kind ||| m.permissions
  nlink := m.nlink
  uid := owner.uid
  gid := owner.gid

def einval : Nat := 22

def eisdir : Nat := 21

def appendFlag : UInt32 := 1024

def inodeNumber (ino : Nat) : Except Error UInt32 :=
  if ino < UInt32.size then .ok (.ofNat ino) else .error (.invalidInode ino)

/-- Adds an item to a reply with so many bytes to go: how many are left, or nothing if it does not fit. -/
abbrev Adder := Nat → ListItem → Option Nat

def fitting (add : Adder) (room : Nat) : List ListItem → List ListItem
  | [] => []
  | item :: rest =>
    match add room item with
    | some left => item :: fitting add left rest
    | none => []

def Request.perform (owner : Owner) (add : Adder) : Request → VolumeM Reply
  | .lookup parent name => do
    let parent ← ask fun _ => inodeNumber parent
    return .entry (owner.attributes (← ask (FileSystem.lookup · parent name)))
  | .getAttr ino => do
    let ino ← ask fun _ => inodeNumber ino
    return .attributes (owner.attributes (← ask (FileSystem.metadata · ino)))
  | .setAttr ino mode size => do
    let ino ← ask fun _ => inodeNumber ino
    if let some mode := mode then
      let _ ← FileSystem.setMode ino mode
    if let some size := size then
      let _ ← FileSystem.setSize ino size
    return .attributes (owner.attributes (← ask (FileSystem.metadata · ino)))
  | .readLink ino uid => do
    let ino ← ask fun _ => inodeNumber ino
    return .target (← ask (FileSystem.readLink · ino (uid = 0)))
  | .openFile ino => do
    let ino ← ask fun _ => inodeNumber ino
    let m ← ask (FileSystem.metadata · ino)
    return if m.kind = .directory then .failed eisdir else .opened
  | .read ino offset length => do
    if offset < 0 then return .failed einval
    let ino ← ask fun _ => inodeNumber ino
    return .bytes (← ask (FileSystem.read · ino offset.toNat length))
  | .write ino offset data flags => do
    if offset < 0 then return .failed einval
    let ino ← ask fun _ => inodeNumber ino
    return .written (← FileSystem.write ino offset.toNat data (flags &&& appendFlag ≠ 0))
  | .readDir ino offset room => do
    let ino ← ask fun _ => inodeNumber ino
    -- only the root is a directory, so that every parent is the root
    return .listing (fitting add room (← ask (FileSystem.readDir · ino rootInode offset.toNat)))
  | .create parent name mode umask => do
    let parent ← ask fun _ => inodeNumber parent
    return .created (owner.attributes (← FileSystem.create parent name (mode &&& ~~~umask)))
  | .link ino parent name => do
    let ino ← ask fun _ => inodeNumber ino
    let parent ← ask fun _ => inodeNumber parent
    return .entry (owner.attributes (← FileSystem.link ino parent name))
  | .symlink parent name target => do
    let parent ← ask fun _ => inodeNumber parent
    return .entry (owner.attributes (← FileSystem.symlink parent name target))
  | .unlink parent name => do
    let parent ← ask fun _ => inodeNumber parent
    FileSystem.unlink parent name
    return .done
  | .statFs => return .stats (← ask FileSystem.stats)

def Request.answer (owner : Owner) (add : Adder) (request : Request) (v : Volume) : Reply × Volume :=
  match request.perform owner add v with
  | .ok reply v => (reply, v)
  | .error e v => (.failed e.errno, v)

end ImageFS.Kernel
