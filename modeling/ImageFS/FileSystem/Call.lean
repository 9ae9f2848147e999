import ImageFS.FileSystem.Operations

/-!
# Calls

The operations of a file system as data, so that a run is a list of calls.
-/

set_option autoImplicit false

namespace ImageFS.FileSystem

open Volume

inductive Call where
  | metadata (ino : UInt32)
  | lookup (dir : UInt32) (name : Name)
  | readDir (dir parent : UInt32) (cursor : Nat)
  | create (dir : UInt32) (name : Name) (mode : UInt32)
  | link (ino dir : UInt32) (name : Name)
  | symlink (dir : UInt32) (name : Name) (target : List UInt8)
  | symlinkConditional (dir : UInt32) (name : Name) (root other : List UInt8)
  | unlink (dir : UInt32) (name : Name)
  | setSize (ino : UInt32) (size : Nat)
  | setMode (ino mode : UInt32)
  | read (ino : UInt32) (offset length : Nat)
  | write (ino : UInt32) (offset : Nat) (data : ByteArray) (append : Bool)
  | readLink (ino : UInt32) (privileged : Bool)
  | stats

inductive Answer where
  | done
  | metadata (m : Metadata)
  | items (items : List ListItem)
  | bytes (bytes : ByteArray)
  | target (target : List UInt8)
  | count (n : Nat)
  | stats (s : Stats)
deriving DecidableEq

def Call.perform : Call → VolumeM Answer
  | .metadata ino => return .metadata (← ask (FileSystem.metadata · ino))
  | .lookup dir name => return .metadata (← ask (FileSystem.lookup · dir name))
  | .readDir dir parent cursor => return .items (← ask (FileSystem.readDir · dir parent cursor))
  | .create dir name mode => return .metadata (← FileSystem.create dir name mode)
  | .link ino dir name => return .metadata (← FileSystem.link ino dir name)
  | .symlink dir name target => return .metadata (← FileSystem.symlink dir name target)
  | .symlinkConditional dir name root other =>
    return .metadata (← FileSystem.symlinkConditional dir name root other)
  | .unlink dir name => do
    FileSystem.unlink dir name
    return .done
  | .setSize ino size => return .metadata (← FileSystem.setSize ino size)
  | .setMode ino mode => return .metadata (← FileSystem.setMode ino mode)
  | .read ino offset length => return .bytes (← ask (FileSystem.read · ino offset length))
  | .write ino offset data append => return .count (← FileSystem.write ino offset data append)
  | .readLink ino privileged => return .target (← ask (FileSystem.readLink · ino privileged))
  | .stats => return .stats (← ask FileSystem.stats)

def Call.run (c : Call) (v : Volume) : Except Error Answer × Volume :=
  match c.perform v with
  | .ok a v => (.ok a, v)
  | .error e v => (.error e, v)

def after (v : Volume) (calls : List Call) : Volume := calls.foldl (fun v c => (c.run v).2) v

def outcomes (v : Volume) : List Call → List (Except Error Answer)
  | [] => []
  | c :: rest => (c.run v).1 :: outcomes (c.run v).2 rest

end ImageFS.FileSystem
