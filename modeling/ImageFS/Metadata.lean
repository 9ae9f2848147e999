import ImageFS.Inode
import ImageFS.Mode

/-!
# Metadata

What can be learnt about an inode, or about a volume, without reading any contents.
-/

set_option autoImplicit false

namespace ImageFS

/-- `blocks` counts the data blocks alone. -/
structure Metadata where
  ino : UInt32
  kind : Kind
  size : UInt32
  blocks : Nat
  permissions : UInt32
  nlink : UInt32
deriving DecidableEq

def Inode.metadata (i : Inode) : Metadata where
  ino := i.id
  kind := i.kind
  size := i.size
  blocks := (i.chain?.map Chain.blockCount).getD 0
  permissions := Mode.permissions i.mode
  nlink := i.nlink

structure Stats where
  blockSize : Nat
  blocks : UInt32
  freeBlocks : Nat
  inodes : UInt32
  freeInodes : Nat
  maxNameLength : Nat
deriving DecidableEq

end ImageFS
