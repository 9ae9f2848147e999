import ImageFS.Superblock
import ImageFS.Tiers

/-!
# Inodes and their records

An inode is a regular file, a directory or a symlink. The first two carry permission bits and a
chain, the roots of the file's blocks; a symlink carries its destination. A record has 64 bytes:
size, kind and link count, and then either mode and pointers or the destination, ended by a zero.
-/

set_option autoImplicit false

namespace ImageFS

abbrev nullPointer : UInt32 := 0

/-- The roots of a file's blocks, and its size in bytes. -/
structure Chain where
  size : UInt32 := 0
  direct : Vector UInt32 directPointers := Vector.replicate directPointers nullPointer
  indirect : UInt32 := nullPointer
  doubly : UInt32 := nullPointer
deriving DecidableEq

def blocksForSize (size : Nat) : Nat := ceilDiv size blockSize

namespace Chain

def empty : Chain := {}

def blockCount (c : Chain) : Nat := blocksForSize c.size.toNat

end Chain

inductive Kind where
  | regular
  | directory
  | symlink
deriving DecidableEq

namespace Kind

def encode : Kind → UInt32
  | .regular => 0
  | .directory => 1
  | .symlink => 2

def decode? (w : UInt32) : Option Kind :=
  if w = 0 then some .regular
  else if w = 1 then some .directory
  else if w = 2 then some .symlink
  else none

theorem decode?_encode (k : Kind) : decode? k.encode = some k := by cases k <;> rfl

end Kind

inductive Body where
  | regular (mode : UInt32) (chain : Chain)
  | directory (mode : UInt32) (chain : Chain)
  | symlink (target : List UInt8)
deriving DecidableEq

structure Inode where
  id : UInt32
  nlink : UInt32
  body : Body
deriving DecidableEq

def symlinkMode : UInt32 := 0o777

abbrev targetOffset : Nat := 12

namespace Inode

def regular (id mode : UInt32) : Inode := ⟨id, 1, .regular mode .empty⟩

def directory (id mode : UInt32) : Inode := ⟨id, 1, .directory mode .empty⟩

def kind (i : Inode) : Kind :=
  match i.body with
  | .regular _ _ => .regular
  | .directory _ _ => .directory
  | .symlink _ => .symlink

def size (i : Inode) : UInt32 :=
  match i.body with
  | .regular _ chain | .directory _ chain => chain.size
  | .symlink target => .ofNat target.length

def mode (i : Inode) : UInt32 :=
  match i.body with
  | .regular mode _ | .directory mode _ => mode
  | .symlink _ => symlinkMode

def chain? (i : Inode) : Option Chain :=
  match i.body with
  | .regular _ chain | .directory _ chain => some chain
  | .symlink _ => none

def isFree (i : Inode) : Bool := i.nlink = 0

def encodeBody : Body → List UInt8
  | .regular mode chain | .directory mode chain =>
    encodeWords (mode :: chain.direct.toList ++ [chain.indirect, chain.doubly])
  | .symlink target => padTo (inodeSize - targetOffset) (target.take maxTargetLength)

def encode (i : Inode) : ByteArray :=
  (encodeWords [i.size, i.kind.encode, i.nlink] ++ encodeBody i.body).toByteArray

def nlinkAt (bytes : ByteArray) (offset : Nat) : UInt32 := wordAt bytes (offset + 8)

def chainAt (bytes : ByteArray) (offset : Nat) : Chain where
  size := wordAt bytes offset
  direct := Vector.ofFn fun i => wordAt bytes (offset + 16 + 4 * i)
  indirect := wordAt bytes (offset + 56)
  doubly := wordAt bytes (offset + 60)

def targetAt (bytes : ByteArray) (offset : Nat) : List UInt8 :=
  untilZero (slice bytes (offset + targetOffset) maxTargetLength)

def bodyAt (bytes : ByteArray) (offset : Nat) : Kind → Body
  | .regular => .regular (wordAt bytes (offset + 12)) (chainAt bytes offset)
  | .directory => .directory (wordAt bytes (offset + 12)) (chainAt bytes offset)
  | .symlink => .symlink (targetAt bytes offset)

/-- The inode recorded at `offset`, under the given number. The kind of a free record has no
meaning: one that is no kind reads as a regular file. -/
def readAt (bytes : ByteArray) (offset : Nat) (id : UInt32) : Except Error Inode :=
  let kindWord := wordAt bytes (offset + 4)
  let nlink := nlinkAt bytes offset
  match Kind.decode? kindWord with
  | some kind => .ok ⟨id, nlink, bodyAt bytes offset kind⟩
  | none =>
    if nlink = 0 then .ok ⟨id, nlink, bodyAt bytes offset .regular⟩
    else .error (.corrupt (.unknownKind kindWord))

/-- The inode in a record on its own. Records do not hold the inode's number, so it is 0. -/
def decode (bytes : ByteArray) : Except Error Inode :=
  if bytes.size < inodeSize then .error (.corrupt .inodeTruncated) else readAt bytes 0 0

end Inode

end ImageFS
