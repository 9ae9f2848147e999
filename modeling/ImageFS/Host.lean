import ImageFS.Store

/-!
# Hosts

The computer around an image has files and folders. A host is what the command line asks of it, in
any monad: the true one performs the questions, and one that lives in memory answers them from a
value.
-/

set_option autoImplicit false

namespace ImageFS

inductive HostError where
  | notFound
  | alreadyExists
  | notFolder
  | isFolder
  | nameTooLong
  | nulInName
  | sizeTooLarge
  | notText
  | described (text : String)
deriving DecidableEq

def HostError.message : HostError → String
  | .notFound => "No such file or directory (os error 2)"
  | .alreadyExists => "File exists (os error 17)"
  | .notFolder => "Not a directory (os error 20)"
  | .isFolder => "Is a directory (os error 21)"
  | .nameTooLong => "File name too long (os error 36)"
  | .nulInName => "file name contained an unexpected NUL byte"
  | .sizeTooLarge => "out of range integral type conversion attempted"
  | .notText => "stream did not contain valid UTF-8"
  | .described text => text

/-- What can be asked of a host. Files are named by path. -/
structure Host (m : Type → Type) where
  knows : String → m Bool
  isFolder : String → m Bool
  /-- The contents of a file that can be written to as well. -/
  load : String → m (Except HostError ByteArray)
  loadText : String → m (Except HostError String)
  create : String → Nat → m (Except HostError Unit)
  save : String → ByteArray → m (Except HostError Unit)

end ImageFS
