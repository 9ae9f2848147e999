import ImageFS.Store

/-!
# The superblock

Block 1 records how a volume is laid out: a boot block, the superblock, the free map from block 2
on, the inode table, and then the data blocks. The words on a device may place the table so far back
that the block behind it has no 32-bit number; `firstDataBlock?` is `none` then.
-/

set_option autoImplicit false

namespace ImageFS

abbrev bootBlock : UInt32 := 0

abbrev superblockBlock : UInt32 := 1

abbrev firstMapBlock : UInt32 := 2

abbrev bitsPerBlock : Nat := 8192

abbrev inodeSize : Nat := 64

abbrev inodesPerBlock : Nat := 16

def superblockMagic : UInt32 := 0x013101AE

structure Superblock where
  magic : UInt32
  blockCount : UInt32
  inodeCount : UInt32
  firstInodeBlock : UInt32
deriving DecidableEq

/-- `n / d`, rounded up. -/
def ceilDiv (n d : Nat) : Nat := (n + (d - 1)) / d

namespace Superblock

def mapBlocksFor (blockCount : UInt32) : UInt32 := .ofNat (ceilDiv blockCount.toNat bitsPerBlock)

/-- The layout with the inode table right after the free map. -/
def plan (blockCount inodeCount : UInt32) : Superblock where
  magic := superblockMagic
  blockCount := blockCount
  inodeCount := inodeCount
  firstInodeBlock := firstMapBlock + mapBlocksFor blockCount

def mapBlocks (s : Superblock) : UInt32 := mapBlocksFor s.blockCount

def inodeBlocks (s : Superblock) : UInt32 := .ofNat (ceilDiv s.inodeCount.toNat inodesPerBlock)

/-- The first block behind the metadata, where there is one. -/
def firstDataBlock (s : Superblock) : UInt32 := s.firstInodeBlock + s.inodeBlocks

/-- The first block behind the metadata, if the sum does not go past 32 bits. -/
def firstDataBlock? (s : Superblock) : Option UInt32 :=
  if s.firstInodeBlock.toNat + s.inodeBlocks.toNat < UInt32.size then some s.firstDataBlock else none

def encode (s : Superblock) : List UInt8 :=
  encodeWords [s.magic, s.blockCount, s.inodeCount, s.firstInodeBlock]

def decode (bytes : ByteArray) : Except Error Superblock :=
  if bytes.size < 16 then .error (.corrupt .superblockTruncated)
  else if wordAt bytes 0 ≠ superblockMagic then .error (.badMagic (wordAt bytes 0))
  else .ok ⟨wordAt bytes 0, wordAt bytes 4, wordAt bytes 8, wordAt bytes 12⟩

def block (s : Superblock) : Block := .ofList s.encode

def read (d : Device) : Except Error Superblock := do
  let b ← d.readBlock superblockBlock
  decode b.bytes

end Superblock

end ImageFS
