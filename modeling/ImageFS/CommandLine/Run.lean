import ImageFS.CommandLine.Help
import ImageFS.FileSystem.Operations
import ImageFS.Host
import ImageFS.Settings.Document
import ImageFS.Text.Size

/-!
# Running commands

A command works on an image that a host keeps as a file. Its settings come from a document, over
which options go; they are checked before and after that.
-/

set_option autoImplicit false

namespace ImageFS.CommandLine

inductive Failure where
  | unreadableSettings (cause : HostError)
  | settings (what : SettingsError)
  | noImage (doing image : String) (cause : HostError)
  | noMountPoint
  | noKernel
  | volume (what : Error)
  | aborted
deriving DecidableEq

namespace Failure

def message : Failure → String
  | .unreadableSettings cause => s!"IO error: {cause.message}"
  | .settings what => what.message
  | .noImage doing image _ => s!"cannot {doing} {image}"
  | .noMountPoint => "mount point must be a directory"
  | .noKernel => "this program cannot serve a mount"
  | .volume what => what.message
  | .aborted => "attempt to add with overflow"

/-- What lies behind a failure, if it is worth a line of its own. -/
def cause? : Failure → Option String
  | .noImage _ _ cause => some cause.message
  | .volume (.device what) => some what.message
  | _ => none

def report (f : Failure) : String :=
  match f.cause? with
  | some cause => s!"Error: {f.message}\n\nCaused by:\n    {cause}\n"
  | none => s!"Error: {f.message}\n"

def ofStop : Volume.Stop → Failure
  | .failed what => .volume what
  | .aborted => .aborted

end Failure

structure Outcome where
  code : UInt32
  output : String
  errors : String
deriving DecidableEq

def Outcome.ofHalt : Halt → Outcome
  | .help topic => ⟨0, topic.text, ""⟩
  | .version => ⟨0, versionText, ""⟩
  | wrong => ⟨2, "", s!"error: {wrong.message}\n"⟩

def Outcome.ofResult : Except Failure String → Outcome
  | .ok output => ⟨0, output, ""⟩
  | .error .aborted => ⟨101, "", s!"{Failure.aborted.message}\n"⟩
  | .error failure => ⟨1, "", failure.report⟩

def standardConfig : String := "flatfs.yml"

def imageSectorSize : Nat := 512

def blocksText (blocks : Nat) : String := s!"{blocks} ({Text.sizeText (blocks * blockSize)})"

def formattedText (image : String) (stats : Stats) : String :=
  let size := Text.sizeText (stats.blocks.toNat * blockSize)
  s!"formatted {image}: {stats.blocks} blocks ({size}), {stats.inodes} inodes\n"

def infoText (s : Superblock) (stats : Stats) : String :=
  s!"magic:             {Text.hexWord s.magic}\n"
    ++ s!"block size:        {stats.blockSize}\n"
    ++ s!"blocks:            {blocksText stats.blocks.toNat}\n"
    ++ s!"free blocks:       {blocksText stats.freeBlocks}\n"
    ++ s!"first inode block: {s.firstInodeBlock}\n"
    ++ s!"first data block:  {s.firstDataBlock}\n"
    ++ s!"inodes:            {stats.inodes} ({stats.freeInodes} free)\n"

variable {m : Type → Type} [Monad m]

def orFail {α ε : Type} (wrap : ε → Failure) (result : Except ε α) : ExceptT Failure m α :=
  ExceptT.mk (pure (result.mapError wrap))

def loadSettings (host : Host m) (config : Option String) : ExceptT Failure m Settings := do
  let config ←
    match config with
    | some path => pure (some path)
    | none => do pure (if ← host.knows standardConfig then some standardConfig else none)
  match config with
  | none => return {}
  | some path =>
    let text ← orFail .unreadableSettings (← host.loadText path)
    orFail .settings (Settings.ofText text)

def checkSettings (s : Settings) : ExceptT Failure m Unit := orFail (.settings ∘ .invalid) s.check

def mountImage (host : Host m) (image : String) : ExceptT Failure m Volume := do
  let bytes ← orFail (.noImage "open" image) (← host.load image)
  orFail .ofStop (Volume.mount { sectorSize := imageSectorSize, bytes })

def formatImage (host : Host m) (image : String) (s : VolumeSettings) : ExceptT Failure m String := do
  let bytes := s.blockCount.toNat * blockSize
  orFail (.noImage "create" image) (← host.create image bytes)
  match Volume.format s.inodeCount (.blank bytes imageSectorSize) with
  | .error e _ => throw (.volume e)
  | .ok v _ =>
    let stats ← orFail .volume (FileSystem.stats v)
    let device ← orFail .volume v.unmount
    orFail (.noImage "create" image) (← host.save image device.bytes)
    return formattedText image stats

def Command.perform (host : Host m) (settings : Settings) : Command → ExceptT Failure m String
  | .format image blocks inodes => do
    let volume : VolumeSettings := {
      blockCount := blocks.getD settings.volume.blockCount
      inodeCount := inodes.getD settings.volume.inodeCount }
    checkSettings { settings with volume }
    formatImage host image volume
  | .mount image point fsName allowRoot autoUnmount => do
    let mount : MountSettings := {
      fsName := fsName.getD settings.mount.fsName
      allowRoot := settings.mount.allowRoot || allowRoot
      autoUnmount := settings.mount.autoUnmount || autoUnmount }
    checkSettings { settings with mount }
    if !(← host.isFolder point) then throw .noMountPoint
    let _ ← mountImage host image
    throw .noKernel
  | .info image => do
    let v ← mountImage host image
    let stats ← orFail .volume (FileSystem.stats v)
    let _ ← orFail .volume v.unmount
    return infoText v.superblock stats

def run (host : Host m) (arguments : List String) : m Outcome :=
  match Invocation.read arguments with
  | .error halt => return .ofHalt halt
  | .ok invocation => do
    let result ← ExceptT.run do
      let settings ← loadSettings host invocation.config
      invocation.command.perform host settings
    return .ofResult result

end ImageFS.CommandLine
