import ImageFS.Settings
import ImageFS.Yaml.Value

/-!
# Settings as a document

Settings are written as a mapping with the sections `volume` and `mount`. What is missing keeps its
default, and keys that mean nothing are passed over.
-/

set_option autoImplicit false

namespace ImageFS

open Yaml

def VolumeSettings.ofNode (d : Document) (node : Node) : Except BadValue VolumeSettings := do
  let fields ← d.fields node
  let standard : VolumeSettings := {}
  return {
    blockCount := ← fieldOr fields "block_count" d.number standard.blockCount
    inodeCount := ← fieldOr fields "inode_count" d.number standard.inodeCount }

def MountSettings.ofNode (d : Document) (node : Node) : Except BadValue MountSettings := do
  let fields ← d.fields node
  let standard : MountSettings := {}
  return {
    fsName := ← fieldOr fields "fs_name" d.text standard.fsName
    allowRoot := ← fieldOr fields "allow_root" d.truth standard.allowRoot
    autoUnmount := ← fieldOr fields "auto_unmount" d.truth standard.autoUnmount }

def Settings.ofDocument (d : Document) : Except BadValue Settings := do
  let fields ← d.fields d.root
  return {
    volume := ← fieldOr fields "volume" (VolumeSettings.ofNode d) {}
    mount := ← fieldOr fields "mount" (MountSettings.ofNode d) {} }

inductive SettingsError where
  | malformed (what : Malformed)
  | badValue (what : BadValue)
  | invalid (what : BadSetting)
deriving DecidableEq

def SettingsError.message : SettingsError → String
  | .malformed what => s!"Parse error: {what.message}"
  | .badValue what => s!"Parse error: {what.message}"
  | .invalid what => s!"Invalid configuration: {what.message}"

def Settings.ofText (text : String) : Except SettingsError Settings := do
  let document ← (Document.ofText text).mapError .malformed
  let settings ← (Settings.ofDocument document).mapError .badValue
  settings.check.mapError .invalid
  return settings

end ImageFS
