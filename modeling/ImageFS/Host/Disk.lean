import ImageFS.Host

/-!
# A host in memory

A disk is a tree of folders and files, kept as a list of absolute paths with what is found there.
One folder is the working folder, from which relative paths lead on.
-/

set_option autoImplicit false

namespace ImageFS

inductive Item where
  | folder
  | file (contents : ByteArray)
deriving DecidableEq

structure Disk where
  here : List String
  items : List (List String × Item)

namespace Disk

def maxFileName : Nat := 255

def maxPath : Nat := 4095

def sizeLimit : Nat := 1 <<< 63

/-- A disk on which there is nothing but the working folder, the folders around it, and a file that is
always empty. -/
def blank (here : List String) : Disk where
  here := here
  items := (["dev", "null"], .file (zeros 0)) :: (["dev"], .folder) ::
    (List.range (here.length + 1)).map fun n => (here.take n, .folder)

def item? (d : Disk) (place : List String) : Option Item := d.items.lookup place

def put (d : Disk) (place : List String) (item : Item) : Disk :=
  { d with items := (place, item) :: d.items.filter (·.1 ≠ place) }

def enter (d : Disk) (place : List String) (step : String) : Except HostError (List String) :=
  match d.item? place with
  | none => .error .notFound
  | some (.file _) => .error .notFolder
  | some .folder =>
    if step = "" ∨ step = "." then .ok place
    else if step = ".." then .ok place.dropLast
    else if maxFileName < step.utf8ByteSize then .error .nameTooLong
    else .ok (place ++ [step])

/-- The steps of a path, and the place from which they lead on. An empty step is that behind a slash
with nothing else behind it. -/
def steps (d : Disk) (path : String) : Except HostError (List String × List String) :=
  if path.toList.contains '\x00' then .error .nulInName
  else if path = "" then .error .notFound
  else if maxPath < path.utf8ByteSize then .error .nameTooLong
  else
    match path.splitOn "/" with
    | "" :: steps => .ok ([], steps)
    | steps => .ok (d.here, steps)

/-- Where a path leads. Everything on the way has to be a folder, the last step may be missing. -/
def walk (d : Disk) (path : String) : Except HostError (List String) := do
  let (start, steps) ← d.steps path
  steps.foldlM d.enter start

def find (d : Disk) (path : String) : Except HostError Item := do
  match d.item? (← d.walk path) with
  | some item => return item
  | none => throw .notFound

def isFolder (d : Disk) (path : String) : Bool :=
  match d.find path with
  | .ok .folder => true
  | _ => false

def load (d : Disk) (path : String) : Except HostError ByteArray := do
  match ← d.find path with
  | .file contents => return contents
  | .folder => throw .isFolder

def loadText (d : Disk) (path : String) : Except HostError String := do
  match String.fromUTF8? (← d.load path) with
  | some text => return text
  | none => throw .notText

def fileDoor (d : Disk) (path : String) : Except HostError (List String) := do
  let (start, steps) ← d.steps path
  let named := (steps.reverse.dropWhile (· = "")).reverse
  let place ← named.dropLast.foldlM d.enter start
  match named.getLast? with
  | some last =>
    if named.length < steps.length ∧ last ≠ "." ∧ last ≠ ".." then
      let _ ← d.enter place "."
      throw .isFolder
  | none => pure ()
  d.walk path

def vacant (d : Disk) (place : List String) : Except HostError (List String) :=
  if (d.item? place).isSome then .error .alreadyExists else .ok place

/-- A new file of zeros. It stays empty if it cannot be made that large. -/
def create (d : Disk) (path : String) (bytes : Nat) : Except HostError Unit × Disk :=
  match d.fileDoor path >>= d.vacant with
  | .error e => (.error e, d)
  | .ok place =>
    if bytes < sizeLimit then (.ok (), d.put place (.file (zeros bytes)))
    else (.error .sizeTooLarge, d.put place (.file (zeros 0)))

def makeFolder (d : Disk) (path : String) : Except HostError Disk := do
  let place ← d.vacant (← d.walk path)
  return d.put place .folder

def save (d : Disk) (path : String) (contents : ByteArray) : Except HostError Disk := do
  let place ← d.fileDoor path
  match d.item? place with
  | some .folder => throw .isFolder
  | _ => return d.put place (.file contents)

def change (act : Disk → Except HostError Disk) : StateM Disk (Except HostError Unit) := fun d =>
  match act d with
  | .ok d' => (.ok (), d')
  | .error e => (.error e, d)

def host : Host (StateM Disk) where
  knows path := fun d => ((d.find path).isOk, d)
  isFolder path := fun d => (d.isFolder path, d)
  load path := fun d => (d.load path, d)
  loadText path := fun d => (d.loadText path, d)
  create path bytes := fun d => d.create path bytes
  save path contents := change (·.save path contents)

end Disk

end ImageFS
