import ImageFS.Proofs.Chain.TableFaults
import ImageFS.Proofs.FileSystem.Layout
import ImageFS.Proofs.FileSystem.Reachable

/-!
# Links that fail

A file is given one more name while the inode table refuses writes. Whatever goes wrong, the records in use of the
directory and the inode in hand are as before. The record of the inode is not written back, though: when its write
stops behind the link count, the count on the device stays one too high.
-/

set_option autoImplicit false

namespace ImageFS

open Volume Holding

variable {f : Faults} {v x y u w : Volume} {c c' d : Chain} {i target : Inode} {dir : Directory} {name : Name}
  {sector slot : Nat}

/-- On `w` the chain `c'` has the records in use that `c` has on `v`, and all link counts are the same. -/
structure Traceless (c : Chain) (v : Volume) (c' : Chain) (w : Volume) : Prop where
  held : c'.Held w
  occupied : c'.occupied w.cell = c.occupied v.cell
  links : ∀ j : UInt32, j.toNat < v.superblock.inodeCount.toNat → w.nlinkOf j = v.nlinkOf j

theorem traceless_restored (held : c.Held v) (l : v.Arranged) (hv : v.Sound) (r : Restored v w) : Traceless c v c w := by
  have m := held.moves_restored r
  exact ⟨m.held, (held.untouched r).occupied held, fun j hj => m.nlinkOf_eq held l hv hj⟩

namespace Directory

theorem traceless_grown (h : Beside f v x y) (held : c.Held x) (grown : Chain.Grown c x c' u)
    (aligned : c.size.toNat % blockSize = 0) (hsize : c'.size = .ofNat ((c.blockCount + 1) * blockSize))
    (hcount : c'.blockCount = c.blockCount + 1) (p : PutBefore u i sector w)
    (hi : i.id.toNat < x.superblock.inodeCount.toNat) (hlink : x.nlinkOf i.id = i.nlink) :
    Traceless c x c' w ∧ c.slotCount < c'.slotCount ∧ (c'.entry w.cell c.slotCount).ino = 0 := by
  have l := h.arranged.evolves h.evolves
  have lu := l.evolves grown.moves.evolves
  have hu := grown.moves.evolves.sound
  have hi' : i.id.toNat < u.superblock.inodeCount.toNat := grown.moves.evolves.superblock.symm ▸ hi
  have hlinks := fun {j} hj => grown.moves.nlinkOf_eq held l h.sound (j := j) hj
  have hshort := held.short
  obtain ⟨hslots, hentry⟩ := grown.slots aligned (Chain.aligned_of_size (by omega) hsize) hcount
  have hmore : c.slotCount < c'.slotCount := hslots ▸ Nat.lt_add_of_pos_right (by decide)
  have hsame := Chain.untouched_of_putBefore p lu hi' grown.moves.held
  have hheld := Chain.held_of_putBefore p lu hi' grown.moves.held
  refine ⟨⟨hheld, ?_, fun j hj => ?_⟩, hmore, ?_⟩
  · rw [hsame.occupied grown.moves.held]
    refine Chain.occupied_congr (Nat.le_of_lt hmore) (fun s hs => .inl ?_) fun s hlow hhigh => ?_
    · rw [hentry s (Nat.lt_trans hs hmore), if_pos hs]
    · rw [hentry s hhigh, if_neg (Nat.not_lt_of_le hlow)]
  · have hj' : j.toNat < u.superblock.inodeCount.toNat := grown.moves.evolves.superblock.symm ▸ hj
    rw [← hlinks hj]
    by_cases hij : j = i.id
    · subst hij
      exact p.nlinkOf_of_eq lu hu hi' ((hlinks hi).trans hlink)
    · exact p.nlinkOf_other lu hu hi' hij
  · rw [hsame.entry grown.moves.held hmore, hentry _ hmore, if_neg (Nat.lt_irrefl _)]

section

variable (h : Beside f v x y) (held : dir.chain.Held x)

include h held

theorem freeSlot_ends (aligned : dir.chain.size.toNat % blockSize = 0)
    (hin : dir.id.toNat < x.superblock.inodeCount.toNat) (hlink : x.nlinkOf dir.id = dir.nlink) :
    Ends (fun slot s => ∃ w, Beside f v w s.2 ∧ Traceless dir.chain x s.1.chain w ∧ slot < s.1.slotCount ∧
        (s.1.chain.entry w.cell slot).ino = 0)
      (fun _ s => ∃ w, Beside f v w s.2 ∧ Traceless dir.chain x s.1.chain w) (freeSlot (dir, y)) := by
  have l := h.arranged.evolves h.evolves
  have hstart : Traceless dir.chain x dir.chain x := traceless_restored held l h.sound (.refl h.sound)
  by_cases hany : ∃ s < dir.slotCount, (dir.chain.entry x.cell s).ino = 0
  · obtain ⟨slot, hrun, hslot, hempty, -⟩ := freeSlot_of_empty dir held h.sound (h.sameReads.entries dir) hany
    rw [hrun]
    exact .ok ⟨x, h, hstart, hslot, hempty⟩
  · push Not at hany
    rw [freeSlot_of_full dir held h.sound (h.sameReads.entries dir) hany]
    rcases (held.grow_ends h).cases with ⟨c', t, hrun, u, hu, grown, hsize, hcount⟩ | ⟨e, t, hrun, u, hu, restored⟩
    · have hin' : dir.id.toNat < u.superblock.inodeCount.toNat := grown.moves.evolves.superblock.symm ▸ hin
      rw [bind_of_ok (onPart_of_ok (update_of_ok hrun)), object_bind]
      rcases (hu.writeInode (i := { dir with chain := c' }.toInode) hin').cases with
        ⟨_, t', hput, hw, -⟩ | ⟨e, t', hput, sector, w, -, -, p, hw⟩
      · rw [bind_of_ok (onVolume_of_ok hput)]
        have p := putBefore_putInode (i := { dir with chain := c' }.toInode) (l.evolves grown.moves.evolves) hu.sound hin'
        obtain ⟨htrace, hslot, hempty⟩ := traceless_grown h held grown aligned hsize hcount p hin hlink
        exact .ok ⟨_, hw, htrace, hslot, hempty⟩
      · rw [bind_of_error (onVolume_of_error hput)]
        exact .error ⟨w, hw, (traceless_grown h held grown aligned hsize hcount p hin hlink).1⟩
    · rw [bind_of_error (onPart_of_error (update_of_error hrun))]
      exact .error ⟨u, hu, traceless_restored held l h.sound restored⟩

variable (hslot : slot < dir.slotCount)

include hslot

theorem agree_updateSlot (change : Nat → Block → Block) :
    Agree (Beside f v) ((do
        let (b, offset) ← ask fun v => dir.locate v slot
        updateBlock b (change offset) : VolumeM Unit) x) ((do
        let (b, offset) ← ask fun v => dir.locate v slot
        updateBlock b (change offset) : VolumeM Unit) y) := by
  refine .ask h (h.sameReads.locate dir slot) fun _ hlocate => ?_
  rw [locate_eq dir held h.sound hslot] at hlocate
  cases hlocate
  exact h.updateBlock ((h.evolves.isData_iff _).mp (held.isData (Chain.slot_block hslot))) _

theorem writeEntry_beside {e : Entry} (hshort : e.name.length ≤ maxNameLength) (hzero : ∀ a ∈ e.name, a ≠ 0) :
    ∃ u t, dir.writeEntry slot e y = .ok () t ∧ Beside f v u t ∧ dir.chain.Stored x u ∧ ∀ s < dir.slotCount,
      dir.chain.entry u.cell s = if s = slot then e else dir.chain.entry x.cell s := by
  obtain ⟨u, hrun, stored, hentry⟩ := writeEntry_ok dir held h.sound hslot hshort hzero
  obtain ⟨t, hy, ht⟩ := (agree_updateSlot h held hslot fun offset b => b.patch offset e.encode).of_ok hrun
  exact ⟨u, t, hy, ht, stored, hentry⟩

theorem clearEntry_beside :
    ∃ u t, dir.clearEntry slot y = .ok () t ∧ Beside f v u t ∧ dir.chain.Stored x u ∧ ∀ s < dir.slotCount,
      dir.chain.entry u.cell s = if s = slot then ⟨0, (dir.chain.entry x.cell slot).name⟩
        else dir.chain.entry x.cell s := by
  obtain ⟨u, hrun, stored, hentry⟩ := clearEntry_ok dir held h.sound hslot
  obtain ⟨t, hy, ht⟩ := (agree_updateSlot h held hslot fun offset b => b.setWord offset 0).of_ok hrun
  exact ⟨u, t, hy, ht, stored, hentry⟩

theorem clearEntry_undoes {e : Entry} (hempty : (dir.chain.entry w.cell slot).ino = 0)
    (hentry : ∀ s < dir.slotCount, dir.chain.entry x.cell s = if s = slot then e else dir.chain.entry w.cell s) :
    ∃ u t, dir.clearEntry slot y = .ok () t ∧ Beside f v u t ∧ dir.chain.Held u ∧
      dir.chain.occupied u.cell = dir.chain.occupied w.cell ∧
      ∀ j : UInt32, j.toNat < v.superblock.inodeCount.toNat → u.nlinkOf j = x.nlinkOf j := by
  obtain ⟨u, t, hrun, hu, stored, hcleared⟩ := clearEntry_beside h held hslot
  refine ⟨u, t, hrun, hu, stored.held held, ?_, fun j hj => ?_⟩
  · refine Chain.occupied_congr (Nat.le_refl _) (fun s hs => ?_) fun s hlow hhigh => absurd hhigh (Nat.not_lt_of_le hlow)
    rw [hcleared s hs]
    by_cases hss : s = slot
    · rw [if_pos hss, hss]
      exact .inr ⟨rfl, hempty⟩
    · rw [if_neg hss, hentry s hs, if_neg hss]
      exact .inl rfl
  · exact (stored.moves held).nlinkOf_eq held (h.arranged.evolves h.evolves) h.sound (h.evolves.superblock.symm ▸ hj)

end

def settle (target : Inode) (name : Name) (slot : Nat) : Holding (Directory × Inode) Unit := do
  let (dir, _) ← object
  onVolume (dir.writeEntry slot ⟨target.id, name⟩)
  let linked := { target with nlink := target.nlink + 1 }
  put (dir, linked)
  tryCatch (onVolume (writeInode linked)) fun e => do
    put (dir, target)
    onVolume (tryCatch (dir.clearEntry slot) fun _ => pure ())
    throw e

theorem link_settle (hcheck : Name.check name = .ok ()) (hkind : target.kind ≠ .directory)
    (hfind : dir.find y name = .ok none) :
    link name ((dir, target), y) =
      (onPart dir (fun dir => (dir, target)) freeSlot >>= settle target name) ((dir, target), y) := by
  rw [FileSystem.link_eq hcheck hkind, bind_of_ok (onVolume_of_ok (ask_of_ok hfind))]
  rfl

section

variable {t t' t'' : Volume} (hwrite : dir.writeEntry slot ⟨target.id, name⟩ y = .ok () t)

include hwrite

theorem settle_of_ok (hput : writeInode { target with nlink := target.nlink + 1 } t = .ok () t') :
    settle target name slot ((dir, target), y) = .ok () ((dir, { target with nlink := target.nlink + 1 }), t') := by
  rw [settle, object_bind]
  exact (bind_of_ok (onVolume_of_ok hwrite)).trans (catch_of_ok (onVolume_of_ok hput))

theorem settle_of_error {e : Error} (hput : writeInode { target with nlink := target.nlink + 1 } t = .error e t')
    (hclear : dir.clearEntry slot t' = .ok () t'') :
    settle target name slot ((dir, target), y) = .error e ((dir, target), t'') := by
  rw [settle, object_bind]
  refine (bind_of_ok (onVolume_of_ok hwrite)).trans ((catch_of_error (onVolume_of_error hput)).trans ?_)
  exact bind_of_ok (onVolume_of_ok (catch_of_ok hclear))

end

/-- The write of the record of the target has stopped at a fragile sector: the link count on the device is one more if
that sector lies behind it, and as before if not. -/
structure Stopped (f : Faults) (v : Volume) (target : Inode) (sector : Nat) (w : Volume) : Prop where
  fragile : f.fragile sector = true
  others : ∀ j : UInt32, j.toNat < v.superblock.inodeCount.toNat → j ≠ target.id → w.nlinkOf j = v.nlinkOf j
  front : sector ≤ v.linkSector target.id → w.nlinkOf target.id = v.nlinkOf target.id
  behind : v.linkSector target.id < sector → 4 ∣ v.device.sectorSize → w.nlinkOf target.id = target.nlink + 1

theorem Stopped.cases (s : Stopped f v target sector w) :
    (∀ j : UInt32, j.toNat < v.superblock.inodeCount.toNat → w.nlinkOf j = v.nlinkOf j) ∨ v.linkSector target.id < sector := by
  by_cases hlt : v.linkSector target.id < sector
  · exact .inr hlt
  · refine .inl fun j hj => ?_
    by_cases hne : j = target.id
    · rw [hne]
      exact s.front (Nat.le_of_not_lt hlt)
    · exact s.others j hj hne

theorem stopped_of_putBefore (p : PutBefore v i sector w) (l : v.Arranged) (hv : v.Sound)
    (hi : i.id.toNat < v.superblock.inodeCount.toNat) (hid : i.id = target.id) (hlink : i.nlink = target.nlink + 1)
    (hfragile : f.fragile sector = true) : Stopped f v target sector w := by
  rw [hid] at hi
  refine ⟨hfragile, fun j hj hne => ?_, fun hle => ?_, fun hlt hsize => ?_⟩
  · exact p.nlinkOf_other l hv (hid ▸ hi) (hid ▸ hne)
  · rw [← hid] at hle ⊢
    exact p.nlinkOf_of_le hle
  · rw [← hid] at hi hlt ⊢
    rw [p.nlinkOf_of_lt hsize hlt, (l.tabled hv).nlinkOf_putInode hi, if_pos rfl, hlink]

theorem Stopped.congr (s : Stopped f x target sector u) (superblock : x.superblock = v.superblock)
    (sectorSize : x.device.sectorSize = v.device.sectorSize) (hin : target.id.toNat < v.superblock.inodeCount.toNat)
    (before : ∀ j : UInt32, j.toNat < v.superblock.inodeCount.toNat → x.nlinkOf j = v.nlinkOf j)
    (after : ∀ j : UInt32, j.toNat < v.superblock.inodeCount.toNat → w.nlinkOf j = u.nlinkOf j) :
    Stopped f v target sector w := by
  have hsector := linkSector_congr superblock sectorSize target.id
  refine ⟨s.fragile, fun j hj hne => ?_, fun hle => ?_, fun hlt hsize => ?_⟩
  · rw [after j hj, s.others j (superblock ▸ hj) hne, before j hj]
  · rw [after _ hin, s.front (le_of_le_of_eq hle hsector.symm), before _ hin]
  · rw [after _ hin, s.behind (lt_of_eq_of_lt hsector hlt) (by rwa [sectorSize])]

theorem settle_ends (target : Inode) (h : Beside f v x y) (held : dir.chain.Held x) (hslot : slot < dir.slotCount)
    (hempty : (dir.chain.entry x.cell slot).ino = 0) (hvalid : name.Valid) :
    Ends (fun _ _ => ∀ sector, sector * v.device.sectorSize / blockSize = (v.inodeBlock target.id).toNat →
        f.fragile sector = true → ∃ m, f.fails m = false)
      (fun e s => s.1 = (dir, target) ∧ ∃ w, Beside f v w s.2 ∧ dir.chain.Held w ∧
        dir.chain.occupied w.cell = dir.chain.occupied x.cell ∧
        (v.superblock.inodeCount.toNat ≤ target.id.toNat ∧
            (∀ j : UInt32, j.toNat < v.superblock.inodeCount.toNat → w.nlinkOf j = x.nlinkOf j) ∨
          target.id.toNat < v.superblock.inodeCount.toNat ∧
            ∃ sector, e = .device (.broken sector) ∧ Stopped f x target sector w))
      (settle target name slot ((dir, target), y)) := by
  have l := h.arranged.evolves h.evolves
  have hsuper := h.evolves.superblock
  obtain ⟨u, t, hwrite, hu, stored, hentry⟩ := writeEntry_beside h held hslot (e := ⟨target.id, name⟩) hvalid.short
    fun _ hx hz => hvalid.noZero (hz ▸ hx)
  have lu := l.evolves stored.evolves
  have hheld := stored.held held
  -- the entry is on the device before the record is tried, so it is taken back in both cases
  have hlinks : ∀ j : UInt32, j.toNat < v.superblock.inodeCount.toNat → u.nlinkOf j = x.nlinkOf j := fun j hj =>
    (stored.moves held).nlinkOf_eq held l h.sound (hsuper.symm ▸ hj)
  by_cases hin : target.id.toNat < v.superblock.inodeCount.toNat
  · have hin' : target.id.toNat < u.superblock.inodeCount.toNat := hu.evolves.superblock.symm ▸ hin
    rcases (hu.writeInode (i := { target with nlink := target.nlink + 1 }) hin').cases with
      ⟨_, t', hrun, -, hspares⟩ | ⟨_, t', hrun, sector, w, rfl, hfragile, p, hw⟩
    · rw [settle_of_ok hwrite hrun]
      refine .ok fun sector hsector => hspares sector ?_
      rw [hsector, inodeBlock, inodeBlock, hu.evolves.superblock]
    · have hsame := Chain.untouched_of_putBefore p lu hin' hheld
      obtain ⟨z, t'', hclear, hz, hheld', hoccupied, hlinks'⟩ := clearEntry_undoes hw
        (Chain.held_of_putBefore p lu hin' hheld) hslot (w := x) (e := ⟨target.id, name⟩) hempty
        fun s hs => (hsame.entry hheld hs).trans (hentry s hs)
      rw [settle_of_error hwrite hrun hclear]
      have hstopped : Stopped f u target sector w := stopped_of_putBefore p lu hu.sound hin' rfl rfl hfragile
      refine .error ⟨rfl, z, hz, hheld', hoccupied, .inr ⟨hin, sector, rfl, ?_⟩⟩
      exact hstopped.congr stored.evolves.superblock (hu.sectorSize.trans h.sectorSize.symm) (hsuper.symm ▸ hin)
        (fun j hj => hlinks j (hsuper ▸ hj)) fun j hj => hlinks' j (hsuper ▸ hj)
  · have hout := Nat.le_of_not_lt hin
    obtain ⟨z, t', hclear, hz, hheld', hoccupied, hlinks'⟩ := clearEntry_undoes hu hheld hslot hempty hentry
    have hput : writeInode { target with nlink := target.nlink + 1 } t = .error (.invalidInode target.id.toNat) t := by
      refine bind_of_error (ask_of_error ?_)
      rw [hu.sameReads.checkInode]
      refine if_pos ?_
      rw [UInt32.le_iff_toNat_le, hu.evolves.superblock]
      exact hout
    rw [settle_of_error hwrite hput hclear]
    exact .error ⟨rfl, z, hz, hheld', hoccupied, .inl ⟨hout, fun j hj => (hlinks' j hj).trans (hlinks j hj)⟩⟩

/-- A link that fails leaves the inode in hand and the records in use as they were, and all link counts as well unless
the write of the record of the target has stopped. -/
theorem link_ends (dir : Directory) (target : Inode) (name : Name) (h : Beside f v v y) (held : dir.chain.Held v)
    (aligned : dir.chain.size.toNat % blockSize = 0) (hin : dir.id.toNat < v.superblock.inodeCount.toNat)
    (hlink : v.nlinkOf dir.id = dir.nlink) :
    Ends (fun _ _ => True)
      (fun e s => s.1.2 = target ∧ ∃ w, Beside f v w s.2 ∧ s.1.1.chain.Held w ∧
        s.1.1.chain.occupied w.cell = dir.chain.occupied v.cell ∧
        ((∀ j : UInt32, j.toNat < v.superblock.inodeCount.toNat → w.nlinkOf j = v.nlinkOf j) ∨
          ∃ sector, e = .device (.broken sector) ∧ Stopped f v target sector w))
      (link name ((dir, target), y)) := by
  -- Up to the search for a slot nothing is written, so what is refused there has left all as it was.
  cases hcheck : Name.check name with
  | error e =>
    rw [FileSystem.linkName_invalid hcheck]
    exact .error ⟨rfl, v, h, held, rfl, .inl fun _ _ => rfl⟩
  | ok _ =>
    by_cases hkind : target.kind = .directory
    · rw [FileSystem.linkName_directory hcheck hkind]
      exact .error ⟨rfl, v, h, held, rfl, .inl fun _ _ => rfl⟩
    · obtain ⟨found, hfind⟩ := find_total dir held h.sound name
      rw [← h.sameReads.find] at hfind
      cases found with
      | some p =>
        rw [FileSystem.linkName_taken hcheck hkind hfind]
        exact .error ⟨rfl, v, h, held, rfl, .inl fun _ _ => rfl⟩
      | none =>
        rw [link_settle hcheck hkind hfind]
        rcases (freeSlot_ends h held aligned hin hlink).cases with
          ⟨slot, s, hrun, x, hx, htrace, hslot, hempty⟩ | ⟨e, s, hrun, x, hx, htrace⟩
        · rw [bind_of_ok (onPart_of_ok hrun)]
          refine (settle_ends target hx htrace.held hslot hempty (Name.check_ok.mp hcheck)).imp (fun _ _ _ => trivial) ?_
          rintro e ⟨_, t⟩ ⟨rfl, w, hw, hheld, hoccupied, hlinks⟩
          refine ⟨rfl, w, hw, hheld, hoccupied.trans htrace.occupied, ?_⟩
          rcases hlinks with ⟨-, hlinks⟩ | ⟨hin, sector, rfl, hstopped⟩
          · exact .inl fun j hj => (hlinks j hj).trans (htrace.links j hj)
          · exact .inr ⟨sector, rfl, hstopped.congr hx.evolves.superblock hx.sectorSize hin htrace.links fun _ _ => rfl⟩
        · rw [bind_of_error (onPart_of_error hrun)]
          exact .error ⟨rfl, x, hx, htrace.held, htrace.occupied, .inl htrace.links⟩

theorem link_broken (dir : Directory) (h : Beside f v v y) (held : dir.chain.Held v) (hcheck : Name.check name = .ok ())
    (hkind : target.kind ≠ .directory) (hfind : dir.find v name = .ok none)
    (hany : ∃ s < dir.slotCount, (dir.chain.entry v.cell s).ino = 0)
    (hin : target.id.toNat < v.superblock.inodeCount.toNat)
    (hsector : sector * v.device.sectorSize / blockSize = (v.inodeBlock target.id).toNat)
    (hfragile : f.fragile sector = true) (hfails : ∀ m, f.fails m = true) :
    ∃ broken w t, link name ((dir, target), y) = .error (.device (.broken broken)) ((dir, target), t) ∧ Beside f v w t ∧
      Stopped f v target broken w := by
  obtain ⟨slot, hslot, hlt, hempty, -⟩ := freeSlot_of_empty dir held h.sound (h.sameReads.entries dir) hany
  rw [link_settle hcheck hkind ((h.sameReads.find dir name).trans hfind), bind_of_ok (onPart_of_ok hslot)]
  rcases (settle_ends target h held hlt hempty (Name.check_ok.mp hcheck)).cases with
    ⟨_, s, hrun, hspares⟩ | ⟨_, ⟨hand, t⟩, hrun, rfl, w, hw, -, -, ⟨hout, -⟩ | ⟨-, broken, rfl, stopped⟩⟩
  · obtain ⟨m, hm⟩ := hspares sector hsector hfragile
    rw [hfails m] at hm
    cases hm
  · omega
  · exact ⟨broken, w, t, hrun, hw, stopped⟩

end Directory

namespace FileSystem

theorem sectorSize_format {device d : Device} {inodes : UInt32} (h : Volume.format inodes device = .ok v d) :
    v.device.sectorSize = device.sectorSize := by
  unfold Volume.format at h
  cases hplan : blueprint device inodes with
  | error e =>
    rw [hplan] at h
    cases h
  | ok u =>
    obtain ⟨hs, -, -, -, rfl⟩ := blueprint_eq hplan
    have := blockwise_sectorSize hs
    rw [hplan] at h
    dsimp only at h
    split at h
    · rename_i hrun
      cases h
      exact along_of_ok (P := fun v => v.device.sectorSize = device.sectorSize) respects_layOut rfl hrun
    · cases h

theorem sectorSize_run (hs : v.device.checkSectorSize = .ok ()) (call : Call) :
    (call.run v).2.device.sectorSize = v.device.sectorSize := by
  have := blockwise_sectorSize hs
  have hrespects : Respects (Along fun w => w.device.sectorSize = v.device.sectorSize) call.perform := respects_perform call
  rcases hrespects.cases ⟨rfl, rfl⟩ with ⟨a, w, _, hrun, -, -, hw⟩ | ⟨e, w, _, hrun, -, -, hw⟩
  · rw [run_of_ok hrun]
    exact hw
  · rw [run_of_error hrun]
    exact hw

theorem beside_withFaults (h : Reachable v) (hf : f.InTable v) : Beside f v v (v.withFaults f) := by
  obtain ⟨T, hT⟩ := h.consistent
  exact ⟨hT.ledger.laidOut.toArranged, hf, .refl hT.ledger.sound, rfl, f.attempts, rfl⟩

theorem nlinkOf_beside (h : Beside f v x y) (j : UInt32) : y.nlinkOf j = x.nlinkOf j := by
  obtain ⟨n, rfl⟩ := h.eq
  rfl

theorem occupiedFrom_beside (h : Beside f v x y) (held : dir.chain.Held x) :
    dir.occupiedFrom y 0 = .ok (dir.chain.occupied x.cell) := by
  rw [Directory.occupiedFrom, h.sameReads.entries, ← Directory.occupiedFrom, Directory.occupiedFrom_eq dir held h.sound]

/-- When a link fails on a device whose inode table may refuse writes, the inode in hand and the records in use are as
before, and so are all link counts on the device, unless a write has stopped in a sector behind the link count of the
target. Then that count is one more, although there is no name for it. This does happen: it is enough that one sector
of the block that holds the record refuses writes. -/
theorem failed_link_traces {ino : UInt32} (h : Reachable v) (hdir : liveDirectory v ino = .ok dir) (target : Inode)
    (name : Name) :
    (∀ f : Faults, f.InTable v → ∀ e dir' target' w,
      (Directory.link name).run (dir, target) (v.withFaults f) = (.error e, (dir', target'), w) →
        target' = target ∧ (∃ rows, dir.occupiedFrom v 0 = .ok rows ∧ dir'.occupiedFrom w 0 = .ok rows) ∧
          ((∀ j : UInt32, j.toNat < v.superblock.inodeCount.toNat → w.nlinkOf j = v.nlinkOf j) ∨
            ∃ sector, e = .device (.broken sector) ∧ f.fragile sector = true ∧ v.linkSector target.id < sector ∧
              (∀ j : UInt32, j.toNat < v.superblock.inodeCount.toNat → j ≠ target.id → w.nlinkOf j = v.nlinkOf j) ∧
              (4 ∣ v.device.sectorSize → w.nlinkOf target.id = target.nlink + 1))) ∧
    ∀ sector, target.id.toNat < v.superblock.inodeCount.toNat → target.kind ≠ .directory → Name.check name = .ok () →
      nameMap v name = none → (rootEntries v).any Entry.isEmpty = true → 4 ∣ v.device.sectorSize →
      sector * v.device.sectorSize / blockSize = (v.inodeBlock target.id).toNat → v.linkSector target.id < sector →
        ∃ w, (Directory.link name).run (dir, target) (v.withFaults { fragile := fun s => decide (s = sector) }) =
            (.error (.device (.broken sector)), (dir, target), w) ∧ w.nlinkOf target.id = target.nlink + 1 := by
  obtain ⟨T, hT⟩ := h.consistent
  have l := hT.ledger.laidOut.toArranged
  have hv := hT.ledger.sound
  obtain ⟨mode, rfl⟩ := hT.liveDirectory_cases hdir
  refine ⟨fun f hf e dir' target' w hrun => ?_, fun sector hin hkind hcheck hfresh hempty hsize hsector hlt => ?_⟩
  · have hlink : v.nlinkOf rootInode = 1 := (hT.ledger.nlinkOf_eq hT.root_lt).trans hT.rootLink
    rcases (Directory.link_ends ⟨rootInode, 1, mode, rootChain T⟩ target name (beside_withFaults h hf) hT.held_root
        hT.aligned hT.root_lt hlink).cases with
      ⟨_, s, hact, -⟩ | ⟨_, ⟨⟨grown, kept⟩, t⟩, hact, rfl, x, hx, hheld, hoccupied, hlinks⟩
    · rw [Holding.run, hact] at hrun
      cases hrun
    · rw [Holding.run_of_error hact] at hrun
      cases hrun
      refine ⟨rfl, ⟨_, Directory.occupiedFrom_eq _ hT.held_root hv, ?_⟩, ?_⟩
      · exact (occupiedFrom_beside hx hheld).trans (congrArg Except.ok hoccupied)
      · simp only [nlinkOf_beside hx]
        rcases hlinks with hlinks | ⟨sector, rfl, stopped⟩
        · exact .inl hlinks
        · exact stopped.cases.imp_right fun hlt =>
            ⟨sector, rfl, stopped.fragile, hlt, stopped.others, stopped.behind hlt⟩
  · have hf : Faults.InTable { fragile := fun s => decide (s = sector) } v := by
      obtain ⟨hhome, hlast⟩ := l.toNat_inodeBlock hin
      refine ⟨fun _ => rfl, fun s hs => ?_⟩
      rw [of_decide_eq_true hs, hsector, l.firstData_eq]
      exact ⟨hhome ▸ Nat.le_add_right _ _, hlast⟩
    have hy := beside_withFaults h hf
    obtain ⟨broken, x, w, hrun, hx, stopped⟩ := Directory.link_broken ⟨rootInode, 1, mode, rootChain T⟩ hy hT.held_root
      hcheck hkind (hT.find_of_fresh hfresh) (hT.any_isEmpty.mp hempty) hin hsector (decide_eq_true rfl) fun _ => rfl
    obtain rfl : broken = sector := of_decide_eq_true stopped.fragile
    exact ⟨w, Holding.run_of_error hrun, (nlinkOf_beside hx _).trans (stopped.behind hlt hsize)⟩

theorem failed_link_traces_second_sector : ∃ v dir w, Reachable v ∧ liveDirectory v rootInode = .ok dir ∧
    nameMap v ['b'.toUInt8] = none ∧ v.nlinkOf 2 = 1 ∧
    (Directory.link ['b'.toUInt8]).run (dir, ⟨2, 1, .regular 0o644 .empty⟩)
        (v.withFaults { fragile := fun s => decide (s = 7) }) =
      (.error (.device (.broken 7)), (dir, ⟨2, 1, .regular 0o644 .empty⟩), w) ∧
    (∃ rows, dir.occupiedFrom v 0 = .ok rows ∧ dir.occupiedFrom w 0 = .ok rows) ∧ w.nlinkOf 2 = 2 := by
  obtain ⟨v₀, d, hformat⟩ := exists_new
  have hd := blank_faultFree 16384 512
  obtain ⟨-, hlive, -, hentries⟩ := create_format hd hformat (by decide : Name.check ['a'.toUInt8] = .ok ()) 0o644
  have hlayout := (format_layout hd hformat).1
  rw [blockCount_blank] at hlayout
  have hsuper := (alike_run (.create rootInode ['a'.toUInt8] 0o644) v₀).superblock.trans hlayout
  have hsize : (Call.run (.create rootInode ['a'.toUInt8] 0o644) v₀).2.device.sectorSize = 512 :=
    (sectorSize_run (format_consistent hd hformat).ledger.sound.device.sectors _).trans (sectorSize_format hformat)
  have hv : Reachable (Call.run (.create rootInode ['a'.toUInt8] 0o644) v₀).2 := .call _ (.format hd hformat)
  generalize (Call.run (.create rootInode ['a'.toUInt8] 0o644) v₀).2 = v at hlive hentries hsuper hsize hv
  obtain ⟨T, hT⟩ := hv.consistent
  obtain ⟨mode, hroot⟩ := hT.root_eq
  have hdir := hT.liveDirectory_of_root hroot
  have hfresh : nameMap v ['b'.toUInt8] = none := by
    rw [nameMap, hentries]
    decide
  have hnlink : v.nlinkOf 2 = 1 := by
    obtain ⟨⟨hin, -⟩, hrecord⟩ := hT.ledger.liveInode_iff.mp hlive
    rw [hT.ledger.nlinkOf_eq hin, hrecord]
  have hblock : v.inodeBlock 2 = 3 := by
    rw [inodeBlock, hsuper]
    decide
  have hsector : v.linkSector 2 = 6 := by
    rw [linkSector, hblock, hsize]
    decide
  obtain ⟨hkept, hhappens⟩ := failed_link_traces hv hdir ⟨2, 1, .regular 0o644 .empty⟩ ['b'.toUInt8]
  obtain ⟨w, hrun, hcount⟩ := hhappens 7 (by rw [hsuper]; decide) (by decide) (by decide) hfresh
    (by rw [hentries]; decide) (by rw [hsize]; decide) (by rw [hsize, hblock]; decide) (by rw [hsector]; decide)
  have hf : Faults.InTable { fragile := fun s => decide (s = 7) } v := by
    refine ⟨fun _ => rfl, fun s hs => ?_⟩
    rw [of_decide_eq_true hs, hsize, hsuper]
    decide
  exact ⟨v, _, w, hv, hdir, hfresh, hnlink, hrun, (hkept _ hf _ _ _ _ hrun).2.1, hcount⟩

end FileSystem

end ImageFS
