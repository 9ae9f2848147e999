import ImageFS.CommandLine.Run

/-!
# The program

The command line on the true host.
-/

set_option autoImplicit false

namespace ImageFS

def HostError.ofIO : IO.Error → HostError
  | .noFileOrDirectory _ _ _ => .notFound
  | .alreadyExists _ _ _ => .alreadyExists
  | .inappropriateType _ 21 _ => .isFolder
  | .inappropriateType _ _ _ => .notFolder
  | e => .described (toString e)

def attemptIO {α : Type} (act : IO α) : IO (Except HostError α) := do
  try
    return .ok (← act)
  catch e =>
    return .error (.ofIO e)

def isFolderIO (path : String) : IO Bool := do
  match ← attemptIO (IO.FS.realPath path) with
  | .ok place => place.isDir
  | .error _ => return false

def trueHost : Host IO where
  knows path := return (← attemptIO (IO.FS.realPath path)).isOk
  isFolder := isFolderIO
  load path := attemptIO (IO.FS.readBinFile path)
  loadText path := do
    match ← attemptIO (IO.FS.readBinFile path) with
    | .error e => return .error e
    | .ok bytes =>
      match String.fromUTF8? bytes with
      | some text => return .ok text
      | none => return .error .notText
  create path bytes := attemptIO do
    let handle ← IO.FS.Handle.mk path .writeNew
    handle.write (zeros bytes)
  save path bytes := attemptIO (IO.FS.writeBinFile path bytes)

end ImageFS

def main (arguments : List String) : IO UInt32 := do
  let outcome ← ImageFS.CommandLine.run ImageFS.trueHost arguments
  IO.print outcome.output
  IO.eprint outcome.errors
  return outcome.code
