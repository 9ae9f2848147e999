import ImageFS.Device
import ImageFS.Text.Hex

/-!
# Errors

Each way in which an operation on a volume can fail, with its wording (`Error.message`) and the
number by which a kernel request reports it (`Error.errno`).
-/

set_option autoImplicit false

namespace ImageFS

abbrev maxNameLength : Nat := 59

abbrev maxTargetLength : Nat := 51

inductive ChainPart where
  | data
  | indirect
  | doublyIndirect
deriving DecidableEq

def ChainPart.name : ChainPart → String
  | .data => "data block"
  | .indirect => "indirect block"
  | .doublyIndirect => "doubly-indirect block"

inductive Corruption where
  | blockOutOfRange (block : UInt32) (count : Nat)
  | pointerOutOfRange (slot : Nat)
  | pastEnd (block : Nat)
  | missing (part : ChainPart)
  | superblockTruncated
  | inodeTruncated
  | entryTruncated
  | unknownKind (word : UInt32)
  | metadataOverrun
  | rootNotDirectory
  | entryOutOfRange (slot : Nat)
  | described (text : String)
deriving DecidableEq

def Corruption.message : Corruption → String
  | .blockOutOfRange block count => s!"block {block} out of range ({count} blocks)"
  | .pointerOutOfRange slot => s!"pointer slot {slot} out of range"
  | .pastEnd block => s!"block {block} is past the end of the file"
  | .missing part => s!"expected {part.name} is missing"
  | .superblockTruncated => "superblock truncated"
  | .inodeTruncated => "inode record truncated"
  | .entryTruncated => "directory entry truncated"
  | .unknownKind word => s!"unknown inode type {word}"
  | .metadataOverrun => "metadata overruns the volume"
  | .rootNotDirectory => "root inode is not a directory"
  | .entryOutOfRange slot => s!"directory slot {slot} out of range"
  | .described text => text

inductive BadGeometry where
  | sectorSize (size : Nat)
  | blockLength (size : Nat)
  | tooManyBlocks (count : Nat)
  | tooFewInodes (count : UInt32)
  | noRoom (blocks inodes : UInt32)
  | shortDevice (claimed : UInt32) (held : Nat)
  | tiers (direct indirect : Nat)
  | described (text : String)
deriving DecidableEq

def BadGeometry.message : BadGeometry → String
  | .sectorSize size => s!"block size {blockSize} is not a multiple of sector size {size}"
  | .blockLength size => s!"block size mismatch: {size} bytes"
  | .tooManyBlocks count => s!"{count} blocks do not fit a 32-bit index"
  | .tooFewInodes count => s!"at least 3 inodes are needed, got {count}"
  | .noRoom blocks inodes => s!"{blocks} blocks cannot hold the metadata for {inodes} inodes"
  | .shortDevice claimed held => s!"superblock claims {claimed} blocks, device holds {held}"
  | .tiers direct indirect => s!"unsupported tiers {direct}/{indirect}"
  | .described text => text

inductive BadArgument where
  | reservedName
  | nameCharacters
  | notRegularFile
  | readSymlink
  | writeSymlink
  | resizeSymlink
  | symlinkMode
  | emptyTarget
  | zeroInTarget
  | separatorInTarget
  | described (text : String)
deriving DecidableEq

def BadArgument.message : BadArgument → String
  | .reservedName => "reserved or empty name"
  | .nameCharacters => "name contains '/' or NUL"
  | .notRegularFile => "not a regular file"
  | .readSymlink => "symlinks are read with readlink"
  | .writeSymlink => "symlinks cannot be written"
  | .resizeSymlink => "symlinks cannot be resized"
  | .symlinkMode => "symlinks have no mode of their own"
  | .emptyTarget => "empty symlink destination"
  | .zeroInTarget => "symlink destination contains NUL"
  | .separatorInTarget => "privileged destination may not contain ':'"
  | .described text => text

inductive Error where
  | noSpace
  | noInodes
  | corrupt (what : Corruption)
  | device (what : DeviceError)
  | nameTooLong
  | targetTooLong
  | alreadyExists
  | notFound
  | fault (needed available : Nat)
  | fileTooLarge
  | notDirectory (ino : UInt32)
  | isDirectory (ino : UInt32)
  | notSymlink (ino : UInt32)
  | notPermitted (ino : UInt32)
  | invalidArgument (what : BadArgument)
  | invalidInode (ino : Nat)
  | badMagic (magic : UInt32)
  | geometry (what : BadGeometry)
deriving DecidableEq

namespace Error

def message : Error → String
  | .noSpace => "no free blocks left on the volume"
  | .noInodes => "no free inodes left on the volume"
  | .corrupt what => s!"corrupt block chain: {what.message}"
  | .device what => s!"device error: {what.message}"
  | .nameTooLong => s!"name is longer than {maxNameLength} bytes"
  | .targetTooLong => s!"symlink destination is longer than {maxTargetLength} bytes"
  | .alreadyExists => "entry already exists"
  | .notFound => "entry not found"
  | .fault needed available => s!"output buffer too small: need {needed} bytes, got {available}"
  | .fileTooLarge => "file would exceed the maximum file size"
  | .notDirectory ino => s!"inode {ino} is not a directory"
  | .isDirectory ino => s!"inode {ino} is a directory"
  | .notSymlink ino => s!"inode {ino} is not a symlink"
  | .notPermitted ino => s!"operation not permitted on inode {ino}"
  | .invalidArgument what => s!"invalid argument: {what.message}"
  | .invalidInode ino => s!"invalid inode number {ino}"
  | .badMagic magic => s!"bad superblock magic {Text.hexWord magic}"
  | .geometry what => s!"invalid volume geometry: {what.message}"

def errno : Error → Nat
  | .notPermitted _ => 1
  | .notFound | .invalidInode _ => 2
  | .corrupt _ | .device _ => 5
  | .fault _ _ => 14
  | .alreadyExists => 17
  | .notDirectory _ => 20
  | .isDirectory _ => 21
  | .notSymlink _ | .invalidArgument _ | .badMagic _ | .geometry _ => 22
  | .fileTooLarge => 27
  | .noSpace | .noInodes => 28
  | .nameTooLong | .targetTooLong => 36

end Error

end ImageFS
