import ImageFS.Host.Disk

/-!
# Drives

A drive is a device of its own, or one whose bytes are those of a file. A file drive has the length
of its file, whole sectors or not, and what is written to it is found in the file.
-/

set_option autoImplicit false

namespace ImageFS

structure Drive where
  device : Device
  file : Option String

namespace Drive

def memory (bytes sectorSize : Nat) : Drive := ⟨.blank bytes sectorSize, none⟩

def openFile (disk : Disk) (path : String) (sectorSize : Nat) : Except HostError Drive := do
  let bytes ← disk.load path
  return ⟨{ sectorSize, bytes }, some path⟩

def createFile (path : String) (bytes sectorSize : Nat) : StateM Disk (Except HostError Drive) := fun disk =>
  match disk.create path bytes with
  | (.ok _, disk) => (openFile disk path sectorSize, disk)
  | (.error e, disk) => (.error e, disk)

def store (drive : Drive) (disk : Disk) : Disk :=
  match drive.file with
  | none => disk
  | some path =>
    match disk.save path drive.device.bytes with
    | .ok disk => disk
    | .error _ => disk

def writeSector (sector : Nat) (data : ByteArray) : EStateM DeviceError (Drive × Disk) Unit
  | (⟨device, file⟩, disk) =>
    match Device.writeSector sector data device with
    | .ok _ device => .ok () (⟨device, file⟩, store ⟨device, file⟩ disk)
    | .error e device => .error e (⟨device, file⟩, disk)

def bytes? (drive : Drive) : Option ByteArray := if drive.file = none then some drive.device.bytes else none

end Drive

end ImageFS
