/-!
# Mode words

The low twelve bits of a mode word are permissions, the four above them the type of a file.
-/

set_option autoImplicit false

namespace ImageFS.Mode

def permissions (mode : UInt32) : UInt32 := mode &&& 0o7777

def typeBits (mode : UInt32) : UInt32 := mode &&& 0o170000

def regularType : UInt32 := 0o100000

def directoryType : UInt32 := 0o040000

def symlinkType : UInt32 := 0o120000

def isDirectory (mode : UInt32) : Bool := typeBits mode = directoryType

/-- A bare set of permissions, without type bits, is that of a regular file. -/
def isRegular (mode : UInt32) : Bool := typeBits mode = 0 ∨ typeBits mode = regularType

def isSymlink (mode : UInt32) : Bool := typeBits mode = symlinkType

end ImageFS.Mode
