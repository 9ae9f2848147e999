import ImageFS.Store

/-!
# Names and directory records

A directory record has 64 bytes: an inode number, 0 in an empty record, and a name of up to 59
bytes, ended by a zero.
-/

set_option autoImplicit false

namespace ImageFS

abbrev Name := List UInt8

def Name.dot : Name := ['.'.toUInt8]

def Name.dotDot : Name := ['.'.toUInt8, '.'.toUInt8]

/-- The names that a new record may have. -/
def Name.check (name : Name) : Except Error Unit :=
  if maxNameLength < name.length then .error .nameTooLong
  else if name = [] ∨ name = dot ∨ name = dotDot then .error (.invalidArgument .reservedName)
  else if name.contains '/'.toUInt8 ∨ name.contains 0 then .error (.invalidArgument .nameCharacters)
  else .ok ()

abbrev entrySize : Nat := 64

abbrev entriesPerBlock : Nat := 16

structure Entry where
  ino : UInt32
  name : Name
deriving DecidableEq

namespace Entry

def isEmpty (e : Entry) : Bool := e.ino = 0

def encode (e : Entry) : ByteArray :=
  (encodeWord e.ino ++ padTo (entrySize - 4) (e.name.take maxNameLength)).toByteArray

def readAt (bytes : ByteArray) (offset : Nat) : Entry where
  ino := wordAt bytes offset
  name := untilZero (slice bytes (offset + 4) maxNameLength)

def decode (bytes : ByteArray) : Except Error Entry :=
  if bytes.size < entrySize then .error (.corrupt .entryTruncated) else .ok (readAt bytes 0)

def ofBlock (b : Block) : List Entry :=
  (List.range entriesPerBlock).map fun i => readAt b.bytes (i * entrySize)

end Entry

end ImageFS
