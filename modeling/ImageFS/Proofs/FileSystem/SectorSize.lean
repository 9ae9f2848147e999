import ImageFS.Proofs.FileSystem.Blockwise
import ImageFS.Proofs.FileSystem.Formatting
import ImageFS.Proofs.Volume.Mirror

/-!
# The size of the sectors cannot be seen

A device in memory is formatted, mounted, worked on and unmounted, in any order. What each step comes to, and
the bytes of the whole blocks, do not depend on the size of the sectors: the devices mirror each other at
first, and every step keeps them mirrors.
-/

set_option autoImplicit false

namespace ImageFS.FileSystem

open Volume

/-- A device, and the volume mounted from it if there is one, until the program ends. -/
inductive Medium where
  | idle (device : Device)
  | mounted (volume : Volume)
  | ended (device : Device)

inductive Step where
  | format (inodes : UInt32)
  | mount
  | call (c : Call)
  | unmount

/-- What a step comes to. Where nothing is mounted, calls and unmounting come to nothing. -/
inductive Report where
  | mounted (superblock : Superblock)
  | answer (a : Answer)
  | unmounted
  | failed (e : Error)
  | aborted
  | nothing

def Medium.device : Medium → Device
  | idle device | ended device => device
  | mounted volume => volume.device

def formatDevice (inodes : UInt32) (d : Device) : Report × Medium :=
  match Volume.format inodes d with
  | .ok v _ => (.mounted v.superblock, .mounted v)
  | .error e d => (.failed e, .idle d)

def mountDevice (d : Device) : Report × Medium :=
  match Volume.mount d with
  | .ok v => (.mounted v.superblock, .mounted v)
  | .error (.failed e) => (.failed e, .idle d)
  | .error .aborted => (.aborted, .ended d)

/-- Formatting and mounting drop what was mounted before, unflushed. If they fail, nothing is mounted. -/
def Step.run : Step → Medium → Report × Medium
  | _, .ended d => (.nothing, .ended d)
  | format inodes, .idle d => formatDevice inodes d
  | format inodes, .mounted v => formatDevice inodes v.device
  | mount, .idle d => mountDevice d
  | mount, .mounted v => mountDevice v.device
  | call c, .mounted v =>
    match c.run v with
    | (.ok a, v) => (.answer a, .mounted v)
    | (.error e, v) => (.failed e, .mounted v)
  | unmount, .mounted v =>
    match v.unmount with
    | .ok d => (.unmounted, .idle d)
    | .error e => (.failed e, .idle v.device)
  | call _, .idle d | unmount, .idle d => (.nothing, .idle d)

namespace Medium

def reports (m : Medium) : List Step → List Report
  | [] => []
  | s :: steps => (s.run m).1 :: (s.run m).2.reports steps

def after (m : Medium) (steps : List Step) : Medium := steps.foldl (fun m s => (s.run m).2) m

/-- The same state of affairs on two devices that mirror each other. -/
inductive Mirrors (n : Nat) : Medium → Medium → Prop
  | idle {d e : Device} : d.Mirrors n e → Mirrors n (.idle d) (.idle e)
  | mounted {v w : Volume} : v.Mirrors n w → Mirrors n (.mounted v) (.mounted w)
  | ended {d e : Device} : d.Mirrors n e → Mirrors n (.ended d) (.ended e)

end Medium

variable {n : Nat} {d e : Device} {v w : Volume} {m k : Medium}

theorem load_congr (reads : ∀ b, e.readBlock b = d.readBlock b) (s : Superblock) :
    load e s = (load d s).map fun v => { v with device := e } := by
  have hreads : e.readBlock = d.readBlock := funext reads
  have hmap : FreeMap.read e s = FreeMap.read d s := by rw [FreeMap.read, FreeMap.read, hreads]
  have hroot : ∀ map, readInode ⟨e, s, map⟩ rootInode = readInode ⟨d, s, map⟩ rootInode := fun map =>
    (SameReads.mk (v := ⟨d, s, map⟩) (w := ⟨e, s, map⟩) rfl reads).readInode rootInode
  rw [load, load, hmap]
  simp only [hroot]
  cases FreeMap.read d s with
  | error err => rfl
  | ok map =>
    simp only [ok_bind]
    cases readInode ⟨d, s, map⟩ rootInode with
    | error err => rfl
    | ok root =>
      simp only [ok_bind]
      split_ifs <;> rfl

theorem mount_congr (check : e.checkSectorSize = d.checkSectorSize) (blocks : e.blockCount = d.blockCount)
    (reads : ∀ b, e.readBlock b = d.readBlock b) : Volume.mount e = (Volume.mount d).map fun v => { v with device := e } := by
  have hreads : e.readBlock = d.readBlock := funext reads
  have hsuper : Superblock.read e = Superblock.read d := by rw [Superblock.read, Superblock.read, hreads]
  have hlayout : ∀ s, checkLayout e s = checkLayout d s := fun s => by rw [checkLayout, checkLayout, blocks]
  rw [Volume.mount, Volume.mount, check, hsuper]
  simp only [hlayout, load_congr reads]
  cases d.checkSectorSize with
  | error err => rfl
  | ok _ =>
    cases Superblock.read d with
    | error err => rfl
    | ok s =>
      simp only [Except.mapError, ok_bind]
      cases checkLayout d s with
      | error stop => rfl
      | ok _ =>
        simp only [ok_bind]
        cases load d s <;> rfl

section

variable (h : d.Mirrors n e)

include h

theorem mirrors_of_map {ε : Type} {x y : Except ε Volume} (hx : x = x.map fun v => { v with device := d })
    (hy : y = x.map fun v => { v with device := e }) :
    (∃ v w, v.Mirrors n w ∧ x = .ok v ∧ y = .ok w) ∨ ∃ err, x = .error err ∧ y = .error err := by
  cases x with
  | ok v =>
    have hdevice : v.device = d := congrArg Volume.device (Except.ok.inj hx)
    exact .inl ⟨v, { v with device := e }, ⟨hdevice ▸ h, rfl, rfl⟩, rfl, hy⟩
  | error err => exact .inr ⟨err, rfl, hy⟩

theorem blueprint_mirrors (inodes : UInt32) :
    (∃ v w, v.Mirrors n w ∧ blueprint d inodes = .ok v ∧ blueprint e inodes = .ok w) ∨
      ∃ err, blueprint d inodes = .error err ∧ blueprint e inodes = .error err :=
  mirrors_of_map h (blueprint_congr rfl rfl inodes) (blueprint_congr h.checks h.counts inodes)

theorem format_mirrors (inodes : UInt32) :
    (∃ v w, v.Mirrors n w ∧ Volume.format inodes d = .ok v v.device ∧ Volume.format inodes e = .ok w w.device) ∨
      ∃ err d' e', d'.Mirrors n e' ∧ Volume.format inodes d = .error err d' ∧ Volume.format inodes e = .error err e' := by
  unfold Volume.format
  rcases blueprint_mirrors h inodes with ⟨v, w, hvw, hd, he⟩ | ⟨err, hd, he⟩
  · rw [hd, he]
    rcases respects_layOut.cases hvw with ⟨_, v', w', hv, hw, hvw'⟩ | ⟨err, v', w', hv, hw, hvw'⟩
    · exact .inl ⟨v', w', hvw', by simp only [hv], by simp only [hw]⟩
    · exact .inr ⟨err, v'.device, w'.device, hvw'.device, by simp only [hv], by simp only [hw]⟩
  · rw [hd, he]
    exact .inr ⟨err, d, e, h, rfl, rfl⟩

theorem mount_mirrors :
    (∃ v w, v.Mirrors n w ∧ Volume.mount d = .ok v ∧ Volume.mount e = .ok w) ∨
      ∃ err, Volume.mount d = .error err ∧ Volume.mount e = .error err :=
  mirrors_of_map h (mount_congr rfl rfl fun _ => rfl) (mount_congr h.checks h.counts h.reads)

end

theorem unmount_eq (h : v.device.Spans n) : v.unmount = .ok v.device := by
  rw [Volume.unmount, Device.flush, h.flushes]
  rfl

theorem Medium.Mirrors.device (h : m.Mirrors n k) : m.device.Mirrors n k.device := by
  cases h with
  | idle h | ended h => exact h
  | mounted h => exact h.device

theorem formatDevice_mirrors (h : d.Mirrors n e) (inodes : UInt32) :
    (formatDevice inodes e).1 = (formatDevice inodes d).1 ∧
      (formatDevice inodes d).2.Mirrors n (formatDevice inodes e).2 := by
  rcases format_mirrors h inodes with ⟨v, w, hvw, hd, he⟩ | ⟨err, d', e', hde, hd, he⟩
  · simp only [formatDevice, hd, he, hvw.superblock]
    exact ⟨trivial, .mounted hvw⟩
  · simp only [formatDevice, hd, he]
    exact ⟨trivial, .idle hde⟩

theorem mountDevice_mirrors (h : d.Mirrors n e) :
    (mountDevice e).1 = (mountDevice d).1 ∧ (mountDevice d).2.Mirrors n (mountDevice e).2 := by
  rcases mount_mirrors h with ⟨v, w, hvw, hd, he⟩ | ⟨stop, hd, he⟩
  · simp only [mountDevice, hd, he, hvw.superblock]
    exact ⟨trivial, .mounted hvw⟩
  · cases stop with
    | failed err =>
      simp only [mountDevice, hd, he]
      exact ⟨trivial, .idle h⟩
    | aborted =>
      simp only [mountDevice, hd, he]
      exact ⟨trivial, .ended h⟩

theorem Medium.Mirrors.step (h : m.Mirrors n k) (s : Step) :
    (s.run k).1 = (s.run m).1 ∧ (s.run m).2.Mirrors n (s.run k).2 := by
  cases h with
  | ended h => exact ⟨rfl, .ended h⟩
  | idle h =>
    cases s with
    | format inodes => exact formatDevice_mirrors h inodes
    | mount => exact mountDevice_mirrors h
    | call c => exact ⟨rfl, .idle h⟩
    | unmount => exact ⟨rfl, .idle h⟩
  | mounted h =>
    cases s with
    | format inodes => exact formatDevice_mirrors h.device inodes
    | mount => exact mountDevice_mirrors h.device
    | call c =>
      rcases (respects_perform c).cases h with ⟨a, v', w', hv, hw, hvw⟩ | ⟨err, v', w', hv, hw, hvw⟩
      · simp only [Step.run, Call.run, hv, hw]
        exact ⟨trivial, .mounted hvw⟩
      · simp only [Step.run, Call.run, hv, hw]
        exact ⟨trivial, .mounted hvw⟩
    | unmount =>
      simp only [Step.run, unmount_eq h.device.left, unmount_eq h.device.right]
      exact ⟨trivial, .idle h.device⟩

theorem Medium.Mirrors.run (h : m.Mirrors n k) (steps : List Step) :
    k.reports steps = m.reports steps ∧ (m.after steps).Mirrors n (k.after steps) := by
  induction steps generalizing m k with
  | nil => exact ⟨rfl, h⟩
  | cons s steps ih =>
    obtain ⟨hreport, hnext⟩ := h.step s
    obtain ⟨hreports, hafter⟩ := ih hnext
    refine ⟨?_, hafter⟩
    rw [reports, reports, hreport, hreports]

/-- Two devices of the same length and with the same whole blocks, whatever their sectors: every run of steps
reports the same on both and leaves the same whole blocks, and both are all the time arrays of as many blocks as
fit in their length. -/
theorem sector_size_invisible {sectorSize sectorSize' length : Nat} (hsize : sectorSize ∣ blockSize)
    (hsize' : sectorSize' ∣ blockSize) (hd : d.InMemory sectorSize length) (he : e.InMemory sectorSize' length)
    (bytes : ∀ i < length / blockSize * blockSize, byteAt e.bytes i = byteAt d.bytes i) (steps : List Step) :
    (Medium.idle e).reports steps = (Medium.idle d).reports steps ∧
      (∀ i < length / blockSize * blockSize,
        byteAt ((Medium.idle e).after steps).device.bytes i = byteAt ((Medium.idle d).after steps).device.bytes i) ∧
      ((Medium.idle d).after steps).device.StoresBlocks (length / blockSize) ∧
      ((Medium.idle e).after steps).device.StoresBlocks (length / blockSize) := by
  have hmirrors : (Medium.idle d).Mirrors (length / blockSize) (.idle e) :=
    .idle ⟨hd.spans hsize, he.spans hsize', bytes⟩
  obtain ⟨hreports, hafter⟩ := hmirrors.run steps
  exact ⟨hreports, hafter.device.bytes, hafter.device.left.storesBlocks, hafter.device.right.storesBlocks⟩

theorem inMemory_blank {sectorSize : Nat} (hpos : 0 < sectorSize) (length : Nat) :
    (Device.blank length sectorSize).InMemory sectorSize length := by
  refine ⟨⟨fun _ => rfl, fun _ => rfl, rfl⟩, rfl, ?_⟩
  rw [Device.blank, size_zeros, Nat.max_eq_left hpos]

theorem sector_size_invisible_remainder :
    ∃ steps, steps = [.format 16, .call (.create rootInode ['a'.toUInt8] 0o644), .call (.write 2 0 (zeros 700) false),
        .unmount, .mount, .call .stats] ∧
      (Device.blank 20000 512).bytes.size = 19968 ∧ (Device.blank 20000 1024).bytes.size = 19456 ∧
      (Medium.idle (.blank 20000 1024)).reports steps = (Medium.idle (.blank 20000 512)).reports steps ∧
      ((Medium.idle (.blank 20000 1024)).after steps).device.StoresBlocks 19 := by
  have hd : (Device.blank 20000 512).InMemory 512 20000 := inMemory_blank (by decide) _
  have he : (Device.blank 20000 1024).InMemory 1024 20000 := inMemory_blank (by decide) _
  have hbytes : ∀ i < 20000 / blockSize * blockSize,
      byteAt (Device.blank 20000 1024).bytes i = byteAt (Device.blank 20000 512).bytes i := fun i _ => by
    rw [Device.blank, Device.blank, byteAt_zeros, byteAt_zeros]
  obtain ⟨hreports, -, -, hstores⟩ := sector_size_invisible (by decide) (by decide) hd he hbytes
    [.format 16, .call (.create rootInode ['a'.toUInt8] 0o644), .call (.write 2 0 (zeros 700) false), .unmount, .mount,
      .call .stats]
  exact ⟨_, rfl, hd.size, he.size, hreports, hstores⟩

end ImageFS.FileSystem
