import ImageFS.Directory

/-!
# Links

Giving a file a name and taking one away. The link count of an inode is the number of its names.
-/

set_option autoImplicit false

namespace ImageFS

open Volume Holding

namespace Directory

/-- Adds a name for the inode in hand to the directory in hand, and writes both out. If the inode
cannot be written, the record is taken back. -/
def link (name : Name) : Holding (Directory × Inode) Unit := do
  let (dir, target) ← object
  onVolume (ask fun _ => Name.check name)
  if target.kind = .directory then throw (.notPermitted target.id)
  if (← onVolume (ask (dir.find · name))).isSome then throw .alreadyExists
  let slot ← onPart dir (fun dir => (dir, target)) freeSlot
  let (dir, _) ← object
  onVolume (dir.writeEntry slot ⟨target.id, name⟩)
  let linked := { target with nlink := target.nlink + 1 }
  put (dir, linked)
  -- the record is on the device already
  tryCatch (onVolume (writeInode linked)) fun e => do
    put (dir, target)
    onVolume (tryCatch (dir.clearEntry slot) fun _ => pure ())
    throw e

/-- Takes a name away and lowers the link count of the inode that it named. Returns that inode; its
blocks are still its own. -/
def unlink (dir : Directory) (name : Name) : VolumeM Inode := do
  if maxNameLength < name.length then throw .nameTooLong
  match ← ask (dir.find · name) with
  | none => throw .notFound
  | some (slot, e) =>
    let inode ← ask (·.readInode e.ino)
    if inode.kind = .directory then throw (.isDirectory inode.id)
    dir.clearEntry slot
    let inode := { inode with nlink := if inode.nlink = 0 then 0 else inode.nlink - 1 }
    writeInode inode
    return inode

end Directory

end ImageFS
