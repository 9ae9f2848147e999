import ImageFS.Directory
import ImageFS.Symlink

/-!
# What an inode can do

Reading, writing, resizing, listing and following an inode, each for the kinds that allow it.
-/

set_option autoImplicit false

namespace ImageFS.Inode

open Volume Holding

def asFile (i : Inode) : Except Error (UInt32 × Chain) :=
  match i.body with
  | .regular mode chain => .ok (mode, chain)
  | .directory _ _ => .error (.isDirectory i.id)
  | .symlink _ => .error (.invalidArgument .notRegularFile)

def asSymlink (i : Inode) : Except Error (List UInt8) :=
  match i.body with
  | .symlink target => .ok target
  | _ => .error (.notSymlink i.id)

def asReadable (i : Inode) : Except Error Chain :=
  match i.body with
  | .regular _ chain => .ok chain
  | .directory _ _ => .error (.isDirectory i.id)
  | .symlink _ => .error (.invalidArgument .readSymlink)

def bytesAt (i : Inode) (v : Volume) (offset length : Nat) : Except Error ByteArray := do
  let chain ← i.asReadable
  chain.bytesAt v offset length

def read (i : Inode) (v : Volume) (offset length : Nat) (out : ByteArray) : Except Error (Nat × ByteArray) := do
  let chain ← i.asReadable
  match chain.read v offset length out with
  | .ok count out => .ok (count, out)
  | .error e _ => .error e

def write (offset : Nat) (data : ByteArray) (append : Bool) : Holding Inode Nat := do
  let i ← object
  match i.body with
  | .regular mode chain =>
    onPart chain (fun chain => { i with body := .regular mode chain }) (Chain.write offset data append)
  | .directory _ _ => throw (.isDirectory i.id)
  | .symlink _ => throw (.invalidArgument .writeSymlink)

def resize (size : Nat) : Holding Inode Unit := do
  let i ← object
  match i.body with
  | .regular mode chain =>
    onPart chain (fun chain => { i with body := .regular mode chain }) (Chain.resize size)
  | .directory _ _ => throw (.notPermitted i.id)
  | .symlink _ => throw (.invalidArgument .resizeSymlink)

def list (i : Inode) (v : Volume) (slot : Nat) : Except Error (List (Nat × Entry)) := do
  let dir ← i.asDirectory
  dir.occupiedFrom v slot

def resolve (i : Inode) (privileged : Bool) : Except Error (List UInt8) := do
  let target ← i.asSymlink
  return Symlink.resolve target privileged

end ImageFS.Inode
