import ImageFS.Proofs.Reference.Refinement

/-!
# Old bytes stay unseen

What a device held before it was formatted cannot be told from anything that the new file system answers:
each answer follows from the size of the device, the number of inodes and the calls made so far.
-/

set_option autoImplicit false

namespace ImageFS.FileSystem

open Volume Reference

/-- Formats a device and makes calls on the new file system: its superblock and the answers, in order. -/
def session (device : Device) (inodes : UInt32) (calls : List Call) :
    Except Error (Superblock × List (Except Error Answer)) :=
  match Volume.format inodes device with
  | .ok v _ => .ok (v.superblock, outcomes v calls)
  | .error e _ => .error e

variable {v w : Volume} {device d : Device} {inodes : UInt32}

theorem session_eq (hd : device.FaultFree) (calls : List Call) :
    session device inodes calls = (do
      let s ← (blueprint device inodes).map Volume.superblock
      return (s, Reference.outcomes (.new s) calls)) := by
  cases hplan : blueprint device inodes with
  | error e =>
    have hrun : Volume.format inodes device = .error e device := by rw [Volume.format, hplan]
    rw [session, hrun]
    rfl
  | ok u =>
    obtain ⟨v, hrun⟩ := format_ok hd hplan
    have hsuper := (blueprint_planned hd hplan).superblock
    rw [(blueprint_planned hd hplan).count] at hsuper
    have hanswers := (format_consistent hd hrun).outcomes_eq calls
    rw [state_format hd hrun, ← hsuper] at hanswers
    have hlayout := (format_layout hd hrun).1
    rw [← hsuper] at hlayout
    rw [session, hrun]
    dsimp only
    rw [hanswers, hlayout]
    rfl

theorem superblock_blueprint {d' : Device} (size : d'.size = d.size) (sectors : d'.sectorSize = d.sectorSize) :
    (blueprint d' inodes).map Volume.superblock = (blueprint d inodes).map Volume.superblock := by
  have hcheck : d'.checkSectorSize = d.checkSectorSize := by
    rw [Device.checkSectorSize, Device.checkSectorSize, sectors]
  have hblocks : d'.blockCount = d.blockCount := by rw [Device.blockCount, Device.blockCount, size]
  rw [blueprint_congr hcheck hblocks]
  cases blueprint d inodes <;> rfl

/-- On two devices of the same size, formatting and then making the same calls gives the same answers,
whatever bytes were there before. -/
theorem old_bytes_unseen {d' : Device} (hd : d.FaultFree) (hd' : d'.FaultFree) (size : d'.size = d.size)
    (sectors : d'.sectorSize = d.sectorSize) (inodes : UInt32) (calls : List Call) :
    session d' inodes calls = session d inodes calls := by
  rw [session_eq hd, session_eq hd', superblock_blueprint size sectors]

theorem old_bytes_unseen_ones : ∃ d : Device, d.FaultFree ∧ d.bytes ≠ (Device.blank 16384 512).bytes ∧
    session d 16 [.create rootInode ['a'.toUInt8] 0o644, .setSize 2 700, .read 2 0 700] =
      session (.blank 16384 512) 16 [.create rootInode ['a'.toUInt8] 0o644, .setSize 2 700, .read 2 0 700] := by
  obtain ⟨ones, hones⟩ : ∃ ones, ones = List.replicate 16384 (1 : UInt8) := ⟨_, rfl⟩
  have hblank : (Device.blank 16384 512).bytes = zeros 16384 := congrArg zeros (by decide)
  have hones' : Device.FaultFree ⟨512, ones.toByteArray, .none⟩ := ⟨fun _ => rfl, fun _ => rfl, rfl⟩
  have hsize : Device.size ⟨512, ones.toByteArray, .none⟩ = (Device.blank 16384 512).size := by
    rw [Device.size, Device.size, Device.sectorCount, Device.sectorCount, hblank, size_zeros, List.size_toByteArray,
      hones, List.length_replicate]
    rfl
  refine ⟨⟨512, ones.toByteArray, .none⟩, hones', fun he => ?_, old_bytes_unseen (blank_faultFree _ _) hones' hsize rfl 16 _⟩
  have hone : byteAt ones.toByteArray 0 = 1 := by
    rw [byteAt_toByteArray, hones, List.getD_eq_getElem?_getD, List.getElem?_replicate, if_pos (by decide),
      Option.getD_some]
  have hbytes : ones.toByteArray = zeros 16384 := he.trans hblank
  rw [hbytes, byteAt_zeros] at hone
  exact absurd hone (by decide)

end ImageFS.FileSystem
