/-!
# Settings

How a new volume is shaped and how a volume is mounted.
-/

set_option autoImplicit false

namespace ImageFS

structure VolumeSettings where
  blockCount : UInt32 := 4096
  inodeCount : UInt32 := 256
deriving DecidableEq

structure MountSettings where
  /-- Name under which the kernel lists the mount. -/
  fsName : String := "flatfs"
  allowRoot : Bool := false
  autoUnmount : Bool := false
deriving DecidableEq

structure Settings where
  volume : VolumeSettings := {}
  mount : MountSettings := {}
deriving DecidableEq

inductive BadSetting where
  | tooFewInodes (count : UInt32)
  | noBlocks
  | emptyName
deriving DecidableEq

def BadSetting.message : BadSetting → String
  | .tooFewInodes count => s!"volume.inode_count must be at least 3, got {count}"
  | .noBlocks => "volume.block_count must be positive"
  | .emptyName => "mount.fs_name must not be empty"

def Settings.check (s : Settings) : Except BadSetting Unit :=
  if s.volume.inodeCount ≤ 2 then .error (.tooFewInodes s.volume.inodeCount)
  else if s.volume.blockCount = 0 then .error .noBlocks
  else if s.mount.fsName = "" then .error .emptyName
  else .ok ()

inductive MountOption where
  | fsName (name : String)
  | defaultPermissions
  | allowRoot
  | autoUnmount
deriving DecidableEq

def MountSettings.options (s : MountSettings) : List MountOption :=
  [.fsName s.fsName, .defaultPermissions]
    ++ (if s.allowRoot then [.allowRoot] else [])
    ++ (if s.autoUnmount then [.autoUnmount] else [])

end ImageFS
