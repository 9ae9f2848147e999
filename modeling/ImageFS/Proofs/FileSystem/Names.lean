import ImageFS.Proofs.FileSystem.Root

/-!
# Giving and taking names

Adding a record to the root goes with one more link of the inode, taking one away with one link less; a
file without links gives its blocks back. Seen from outside, one name of the map changes.
-/

set_option autoImplicit false

namespace ImageFS.FileSystem

open Volume Holding

/-- An inode that can be given a name: a file in use, or a new one without a chain of its own. -/
structure Linkable (v : Volume) (T : UInt32 → Inode) (i : Inode) : Prop where
  low : 2 ≤ i.id.toNat
  count : i.id.toNat < v.superblock.inodeCount.toNat
  nlink : i.nlink = (T i.id).nlink
  kind : i.kind ≠ .directory
  fits : Inode.Fits i.body
  chain : i.chain? = chains v T i.id ∨ chains v T i.id = none ∧ i.chain? = some .empty

/-- `w` is `v` with a name of the root standing for something else, and with another inode `ino`. -/
structure NameStep (v : Volume) (name : Name) (named : Option UInt32) (ino : UInt32) (w : Volume) : Prop where
  consistent : ∃ T, Consistent w T
  names : nameMap w = Function.update (nameMap v) name named
  others : ∀ j, j ≠ rootInode → j ≠ ino → SameInode v w j
  rootMode : (liveDirectory w rootInode).map Directory.mode = (liveDirectory v rootInode).map Directory.mode

variable {v w u : Volume} {T T' : UInt32 → Inode} {ino j dir : UInt32} {c c' d : Chain} {mode mode' : UInt32}
  {i : Inode} {name : Name} {slot : Nat} {e : Error}

theorem Linkable.ledger (l : Linkable v T i) (ledger : Ledger w (Function.update T i.id { i with nlink := i.nlink + 1 })
      (chains v T)) (superblock : w.superblock = v.superblock) (hlink : i.nlink + 1 ≠ 0) :
    Ledger w (Function.update T i.id { i with nlink := i.nlink + 1 })
      (chains w (Function.update T i.id { i with nlink := i.nlink + 1 })) := by
  have hchains := chains_update (T := T) (i := { i with nlink := i.nlink + 1 }) superblock l.count
  rw [if_neg hlink] at hchains
  have hbody : ({ i with nlink := i.nlink + 1 } : Inode).chain? = i.chain? := rfl
  rw [hchains, hbody]
  rcases l.chain with hsame | ⟨hnone, hempty⟩
  · rw [hsame, Function.update_eq_self]
    exact ledger
  · rw [hempty]
    exact ledger.add _ hnone

namespace Consistent

variable (h : Consistent v T)

include h

theorem stored_put (stored : (rootChain T).Stored v u) (hcount : i.id.toNat < v.superblock.inodeCount.toNat)
    (hfits : Inode.Fits i.body) (hw : w = u.putInode i) :
    Ledger w (Function.update T i.id i) (chains v T) ∧ w.superblock = v.superblock ∧
      (∀ j d, j ≠ rootInode → chains v T j = some d → d.Untouched v w) ∧
      ∀ s < (rootChain T).slotCount, (rootChain T).entry w.cell s = (rootChain T).entry u.cell s := by
  subst hw
  have m := stored.moves h.held_root
  have hmoved := h.ledger.moves h.chains_root m
  rw [← h.chains_root, Function.update_eq_self] at hmoved
  have hcount' : i.id.toNat < u.superblock.inodeCount.toNat := by
    rw [m.evolves.superblock]
    exact hcount
  refine ⟨hmoved.putInode hcount' hfits, m.evolves.superblock, fun j d hj hd => ?_, fun s hs => ?_⟩
  · have hsame := (h.ledger.accounts.untouched h.chains_root m hd hj).1
    exact hsame.trans (hmoved.untouched_putInode hcount' (hmoved.accounts.held j d hd))
  · exact (hmoved.untouched_putInode hcount' m.held).entry m.held hs

theorem writeInode_stored (stored : (rootChain T).Stored v u) (hcount : i.id.toNat < v.superblock.inodeCount.toNat) :
    writeInode i u = .ok () (u.putInode i) := by
  have hmoved := h.ledger.moves h.chains_root (stored.moves h.held_root)
  apply hmoved.writeInode_eq
  rw [stored.evolves.superblock]
  exact hcount

theorem rootEntries_set (h' : Consistent w T') (hchain : rootChain T' = rootChain T) {new : Entry}
    (hentry : ∀ s < (rootChain T).slotCount, (rootChain T).entry w.cell s =
      if s = slot then new else (rootChain T).entry v.cell s) :
    rootEntries w = (rootEntries v).set slot new := by
  rw [h'.rootEntries_eq, h.rootEntries_eq, hchain]
  exact Entry.map_range_set hentry

theorem rootMode_update (h' : Consistent w (Function.update T ino i)) (hne : ino ≠ rootInode) :
    (liveDirectory w rootInode).map Directory.mode = (liveDirectory v rootInode).map Directory.mode := by
  obtain ⟨mode, hmode⟩ := h.root_eq
  have hmode' := Function.update_of_ne hne.symm i T
  rw [hmode, ← rootChain_update hne T i] at hmode'
  rw [h.liveDirectory_of_root hmode, h'.liveDirectory_of_root hmode', rootChain_update hne]

theorem nameMap_fill (h' : Consistent w T') (hchain : rootChain T' = rootChain T)
    (hslot : slot < (rootChain T).slotCount) (hempty : ((rootChain T).entry v.cell slot).ino = 0) (hne : ino ≠ 0)
    (hfresh : nameMap v name = none)
    (hentry : ∀ s < (rootChain T).slotCount, (rootChain T).entry w.cell s =
      if s = slot then ⟨ino, name⟩ else (rootChain T).entry v.cell s) :
    nameMap w = Function.update (nameMap v) name (some ino) := by
  funext other
  apply Option.ext
  intro j
  rw [h'.nameMap_eq_some, hchain]
  by_cases hother : other = name
  · subst hother
    rw [Function.update_self, Option.some.injEq]
    constructor
    · rintro ⟨hj, s, hs, he⟩
      rw [hentry s hs] at he
      by_cases hss : s = slot
      · rw [if_pos hss, Entry.mk.injEq] at he
        exact he.1
      · rw [if_neg hss] at he
        have hsome := h.nameMap_eq_some.mpr ⟨hj, s, hs, he⟩
        rw [hfresh] at hsome
        cases hsome
    · rintro rfl
      exact ⟨hne, slot, hslot, by rw [hentry slot hslot, if_pos rfl]⟩
  · rw [Function.update_of_ne hother, h.nameMap_eq_some]
    refine and_congr_right fun hj => exists_congr fun s => and_congr_right fun hs => ?_
    rw [hentry s hs]
    by_cases hss : s = slot
    · rw [if_pos hss]
      refine iff_of_false (fun he => hother ?_) fun he => hj ?_
      · exact (congrArg Entry.name he).symm
      · rw [hss] at he
        rw [← hempty, he]
    · rw [if_neg hss]

theorem nameMap_clear (h' : Consistent w T') (hchain : rootChain T' = rootChain T)
    (hslot : slot < (rootChain T).slotCount) (hold : (rootChain T).entry v.cell slot = ⟨ino, name⟩) (hne : ino ≠ 0)
    (hentry : ∀ s < (rootChain T).slotCount, (rootChain T).entry w.cell s =
      if s = slot then ⟨0, name⟩ else (rootChain T).entry v.cell s) :
    nameMap w = Function.update (nameMap v) name none := by
  funext other
  apply Option.ext
  intro j
  rw [h'.nameMap_eq_some, hchain]
  by_cases hother : other = name
  · subst hother
    rw [Function.update_self]
    refine iff_of_false ?_ fun he => by cases he
    rintro ⟨hj, s, hs, he⟩
    rw [hentry s hs] at he
    by_cases hss : s = slot
    · rw [if_pos hss] at he
      exact hj (congrArg Entry.ino he).symm
    · rw [if_neg hss] at he
      refine hss (h.names.distinct s hs slot hslot ?_ ?_ ?_)
      · rw [he]
        exact hj
      · rw [hold]
        exact hne
      · rw [he, hold]
  · rw [Function.update_of_ne hother, h.nameMap_eq_some]
    refine and_congr_right fun hj => exists_congr fun s => and_congr_right fun hs => ?_
    rw [hentry s hs]
    by_cases hss : s = slot
    · rw [if_pos hss]
      refine iff_of_false (fun he => hother ?_) fun he => hother ?_
      · exact (congrArg Entry.name he).symm
      · rw [hss, hold] at he
        exact (congrArg Entry.name he).symm
    · rw [if_neg hss]

theorem named_fill (l : Linkable v T i) (hslot : slot < (rootChain T).slotCount)
    (hempty : ((rootChain T).entry v.cell slot).ino = 0) (hname : name.Valid) (hfresh : nameMap v name = none)
    (hentry : ∀ s < (rootChain T).slotCount, (rootChain T).entry w.cell s =
      if s = slot then ⟨i.id, name⟩ else (rootChain T).entry v.cell s) :
    Named v.superblock.inodeCount.toNat (rootChain T).slotCount ((rootChain T).entry w.cell)
      fun j => (Function.update T i.id { i with nlink := i.nlink + 1 } j).nlink := by
  have hadd : Named v.superblock.inodeCount.toNat (rootChain T).slotCount
      (fun s => if s = slot then ⟨i.id, name⟩ else (rootChain T).entry v.cell s)
      fun j => (Function.update T i.id { i with nlink := i.nlink + 1 } j).nlink := by
    refine h.names.add hslot hempty hname (h.nameMap_eq_none.mp hfresh) l.low l.count h.slotCount_lt (if_pos rfl)
      (fun s hs => if_neg hs) fun j => ?_
    by_cases hj : j = i.id
    · rw [if_pos hj, hj, Function.update_self, ← l.nlink]
    · rw [if_neg hj, Function.update_of_ne hj]
  exact hadd.congr hentry fun _ _ => rfl

theorem fill (l : Linkable v T i) (hslot : slot < (rootChain T).slotCount)
    (hempty : ((rootChain T).entry v.cell slot).ino = 0) (hname : name.Valid) (hfresh : nameMap v name = none)
    (stored : (rootChain T).Stored v u)
    (hentry : ∀ s < (rootChain T).slotCount, (rootChain T).entry u.cell s =
      if s = slot then ⟨i.id, name⟩ else (rootChain T).entry v.cell s)
    (hw : w = u.putInode { i with nlink := i.nlink + 1 }) :
    NameStep v name (some i.id) i.id w ∧ liveInode w i.id = .ok { i with nlink := i.nlink + 1 } ∧
      (contents w i.id = i.chain?.map fun c => c.contents v.cell) ∧
      rootEntries w = (rootEntries v).set slot ⟨i.id, name⟩ := by
  obtain ⟨ledger, hsuper, hothers, hroot⟩ := h.stored_put stored (i := { i with nlink := i.nlink + 1 }) l.count l.fits hw
  have hentry' : ∀ s < (rootChain T).slotCount, (rootChain T).entry w.cell s =
      if s = slot then ⟨i.id, name⟩ else (rootChain T).entry v.cell s := fun s hs => by rw [hroot s hs, hentry s hs]
  have names := h.named_fill l hslot hempty hname hfresh hentry'
  have hlink : i.nlink + 1 ≠ 0 := by
    have hlinked := names.linked hslot (by rw [hentry' slot hslot, if_pos rfl]; exact ne_zero l.low)
    rw [hentry' slot hslot, if_pos rfl, Function.update_self] at hlinked
    exact hlinked
  have hnext := h.put_named (i := { i with nlink := i.nlink + 1 }) l.low l.kind hsuper
    (l.ledger ledger hsuper hlink) names
  have hne := ne_root l.low
  have hlive : liveInode w i.id = .ok { i with nlink := i.nlink + 1 } := by
    refine hnext.ledger.liveInode_iff.mpr ⟨?_, Function.update_self _ _ _⟩
    rw [InUse, hsuper, Function.update_self]
    exact ⟨l.count, hlink⟩
  refine ⟨⟨⟨_, hnext⟩, ?_, fun j hj hji => ?_, ?_⟩, hlive, ?_, h.rootEntries_set hnext (rootChain_update hne _ _) hentry'⟩
  · exact h.nameMap_fill hnext (rootChain_update hne _ _) hslot hempty (ne_zero l.low) hfresh hentry'
  · exact h.sameInode hnext hsuper (Function.update_of_ne hji _ _) fun d hd => hothers j d hj hd
  · exact h.rootMode_update hnext hne
  · rcases l.chain with hsame | ⟨-, hnew⟩
    · refine contents_untouched (i := { i with nlink := i.nlink + 1 }) hlive fun d hchain => ?_
      have hd : chains v T i.id = some d := hsame.symm.trans hchain
      exact ⟨h.ledger.accounts.held _ d hd, hothers _ d hne hd⟩
    · rw [contents_of_live hlive]
      change i.chain?.map _ = _
      rw [hnew, Option.map_some, Option.map_some, Chain.contents_empty, Chain.contents_empty]

end Consistent

section

variable {parent grown : Directory}

theorem linkName_invalid (hcheck : Name.check name = .error e) :
    Directory.link name ((parent, i), v) = .error e ((parent, i), v) := by
  rw [Directory.link, object_bind]
  exact bind_of_error (onVolume_of_error (ask_of_error hcheck))

theorem addName_invalid (hcheck : Name.check name = .error e) : addName parent i name v = .error e v := by
  rw [addName, linkName_invalid hcheck]

variable (hcheck : Name.check name = .ok ())

include hcheck

theorem linkName_directory (hkind : i.kind = .directory) :
    Directory.link name ((parent, i), v) = .error (.notPermitted i.id) ((parent, i), v) := by
  rw [Directory.link, object_bind]
  dsimp only
  rw [bind_of_ok (onVolume_of_ok (ask_of_ok hcheck)), if_pos hkind]
  rfl

theorem addName_directory (hkind : i.kind = .directory) :
    addName parent i name v = .error (.notPermitted i.id) v := by
  rw [addName, linkName_directory hcheck hkind]

variable (hkind : i.kind ≠ .directory)

include hkind

theorem link_eq : Directory.link name ((parent, i), v) = (do
    if (← onVolume (ask (parent.find · name))).isSome then throw .alreadyExists
    let slot ← onPart parent (fun dir => (dir, i)) Directory.freeSlot
    let (dir, _) ← object
    onVolume (dir.writeEntry slot ⟨i.id, name⟩)
    let linked := { i with nlink := i.nlink + 1 }
    put (dir, linked)
    tryCatch (onVolume (writeInode linked)) fun e => do
      put (dir, i)
      onVolume (tryCatch (dir.clearEntry slot) fun _ => pure ())
      throw e : Holding (Directory × Inode) Unit) ((parent, i), v) := by
  rw [Directory.link, object_bind]
  dsimp only
  rw [bind_of_ok (onVolume_of_ok (ask_of_ok hcheck)), if_neg hkind]

theorem linkName_taken {p : Nat × Entry} (hfind : parent.find v name = .ok (some p)) :
    Directory.link name ((parent, i), v) = .error .alreadyExists ((parent, i), v) := by
  rw [link_eq hcheck hkind, bind_of_ok (onVolume_of_ok (ask_of_ok hfind))]
  rfl

theorem addName_taken {p : Nat × Entry} (hfind : parent.find v name = .ok (some p)) :
    addName parent i name v = .error .alreadyExists v := by
  rw [addName, linkName_taken hcheck hkind hfind]

variable (hfind : parent.find v name = .ok none)

include hfind

theorem addName_full (hslot : Directory.freeSlot (parent, v) = .error e (grown, u)) :
    addName parent i name v = .error e u := by
  have hrun : Directory.link name ((parent, i), v) = .error e ((grown, i), u) := by
    rw [link_eq hcheck hkind, bind_of_ok (onVolume_of_ok (ask_of_ok hfind))]
    exact bind_of_error (onPart_of_error hslot)
  rw [addName, hrun]

theorem addName_ok {v' : Volume} (hslot : Directory.freeSlot (parent, v) = .ok slot (grown, v'))
    (hwrite : grown.writeEntry slot ⟨i.id, name⟩ v' = .ok () u)
    (hput : writeInode { i with nlink := i.nlink + 1 } u = .ok () w) :
    addName parent i name v = .ok { i with nlink := i.nlink + 1 } w := by
  have hhand : (put (grown, { i with nlink := i.nlink + 1 }) : Holding (Directory × Inode) Unit) ((grown, i), u) =
      .ok () ((grown, { i with nlink := i.nlink + 1 }), u) := rfl
  have hrun : Directory.link name ((parent, i), v) = .ok () ((grown, { i with nlink := i.nlink + 1 }), w) := by
    rw [link_eq hcheck hkind, bind_of_ok (onVolume_of_ok (ask_of_ok hfind))]
    refine (bind_of_ok (onPart_of_ok hslot)).trans ((object_bind _).trans ?_)
    exact (bind_of_ok (onVolume_of_ok hwrite)).trans ((bind_of_ok hhand).trans (catch_of_ok (onVolume_of_ok hput)))
  rw [addName, hrun]

end

theorem Linkable.inUse_iff (l : Linkable v T i) (s : SlotStep v T slot w T') : InUse w T' i.id ↔ InUse v T i.id := by
  rw [InUse, InUse, s.superblock, s.table _ (ne_root l.low)]

theorem Linkable.afterSlot (l : Linkable v T i) (s : SlotStep v T slot w T') : Linkable w T' i := by
  have htable := s.table _ (ne_root l.low)
  have hchains : chains w T' i.id = chains v T i.id := by
    by_cases hino : InUse v T i.id
    · rw [chains_of_inUse hino, chains_of_inUse ((l.inUse_iff s).mpr hino), htable]
    · rw [chains, chains, if_neg hino, if_neg (mt (l.inUse_iff s).mp hino)]
  refine ⟨l.low, ?_, ?_, l.kind, l.fits, ?_⟩
  · rw [s.superblock]
    exact l.count
  · rw [htable]
    exact l.nlink
  · rw [hchains]
    exact l.chain

namespace Consistent

variable (h : Consistent v T)

include h

theorem bytes_slot (l : Linkable v T i) (s : SlotStep v T slot w T') :
    (i.chain?.map fun c => c.contents w.cell) = i.chain?.map fun c => c.contents v.cell := by
  have hne := ne_root l.low
  rcases l.chain with hsame | ⟨-, hnew⟩
  · cases hchain : i.chain? with
    | none => rw [Option.map_none, Option.map_none]
    | some d =>
      rw [hchain] at hsame
      obtain ⟨hino, hbody⟩ := chains_eq_some hsame.symm
      have hbytes := (s.others _ hne).2
      rw [contents_of_live (s.consistent.ledger.liveInode_ok ((l.inUse_iff s).mpr hino)),
        contents_of_live (h.ledger.liveInode_ok hino), s.table _ hne, hbody] at hbytes
      exact hbytes
  · rw [hnew, Option.map_some, Option.map_some, Chain.contents_empty, Chain.contents_empty]

section

variable (hroot : T rootInode = ⟨rootInode, 1, .directory mode (rootChain T)⟩)

theorem find_eq_ok (mode : UInt32) (name : Name) :
    ∃ found, Directory.find ⟨rootInode, 1, mode, rootChain T⟩ v name = .ok found ∧
      nameMap v name = found.map fun p => p.2.ino := by
  obtain ⟨found, hfind⟩ := Directory.find_total ⟨rootInode, 1, mode, rootChain T⟩ h.held_root h.ledger.sound name
  exact ⟨found, hfind, h.find_root hfind⟩

theorem find_of_fresh (hfresh : nameMap v name = none) :
    Directory.find ⟨rootInode, 1, mode, rootChain T⟩ v name = .ok none := by
  obtain ⟨found, hfind, hmap⟩ := h.find_eq_ok mode name
  rw [hfresh] at hmap
  cases found with
  | none => exact hfind
  | some p => cases hmap

theorem find_of_named (mode : UInt32) (hmap : nameMap v name = some ino) :
    ∃ s < (rootChain T).slotCount,
      Directory.find ⟨rootInode, 1, mode, rootChain T⟩ v name = .ok (some (s, ⟨ino, name⟩)) ∧
        (rootChain T).entry v.cell s = ⟨ino, name⟩ := by
  obtain ⟨found, hfind, hfound⟩ := h.find_eq_ok mode name
  rw [hmap] at hfound
  cases found with
  | none => cases hfound
  | some p =>
    obtain ⟨s, e⟩ := p
    obtain ⟨hs, he, -, hname⟩ := Directory.find_some ⟨rootInode, 1, mode, rootChain T⟩ h.held_root h.ledger.sound hfind
    rw [Directory.slotCount_eq] at hs
    have hino : e.ino = ino := (Option.some.inj hfound).symm
    have heq : e = ⟨ino, name⟩ := by rw [← hino, ← hname]
    rw [heq] at hfind he
    exact ⟨s, hs, hfind, he.symm⟩

variable (l : Linkable v T i) (hcheck : Name.check name = .ok ())

include l hcheck

theorem addName_exists (hmap : nameMap v name = some ino) :
    addName ⟨rootInode, 1, mode, rootChain T⟩ i name v = .error .alreadyExists v := by
  obtain ⟨s, -, hfind, -⟩ := h.find_of_named mode hmap
  exact addName_taken hcheck l.kind hfind

variable (hfresh : nameMap v name = none)

include hfresh

theorem addName_noRoom (mode : UInt32) (hfull : slotError v = some e) :
    ∃ w, addName ⟨rootInode, 1, mode, rootChain T⟩ i name v = .error e w ∧ Spared v T w := by
  obtain ⟨w, hrun, hsame⟩ := h.freeSlot_error mode hfull
  exact ⟨w, addName_full hcheck l.kind (h.find_of_fresh hfresh) hrun, hsame⟩

include hroot in
theorem addName_fresh (hfree : slotError v = none) :
    ∃ w, addName ⟨rootInode, 1, mode, rootChain T⟩ i name v = .ok { i with nlink := i.nlink + 1 } w ∧
      NameStep v name (some i.id) i.id w ∧ liveInode w i.id = .ok { i with nlink := i.nlink + 1 } ∧
      (contents w i.id = i.chain?.map fun c => c.contents v.cell) ∧
      rootEntries w = Entry.putFirst ⟨i.id, name⟩ (rootEntries v) := by
  obtain ⟨slot, v', T', hslot, step, hroot'⟩ := h.freeSlot_ok hroot hfree
  have hvalid := Name.check_ok.mp hcheck
  have l' := l.afterSlot step
  obtain ⟨u, hwrite, stored, hentry⟩ := Directory.writeEntry_ok ⟨rootInode, 1, mode, rootChain T'⟩
    (e := ⟨i.id, name⟩) step.consistent.held_root step.consistent.ledger.sound step.slot_lt hvalid.short
    (fun _ hx hz => hvalid.noZero (hz ▸ hx))
  have hput := step.consistent.writeInode_stored (i := { i with nlink := i.nlink + 1 }) stored l'.count
  have hnone : nameMap v' name = none := by rw [step.names, hfresh]
  obtain ⟨named, hlive, hbytes, hslots⟩ :=
    step.consistent.fill l' step.slot_lt step.empty hvalid hnone stored hentry rfl
  refine ⟨_, addName_ok hcheck l.kind (h.find_of_fresh hfresh) hslot hwrite hput, ?_, hlive, ?_, ?_⟩
  · refine ⟨named.consistent, ?_, fun j hj hji => ?_, ?_⟩
    · rw [named.names, step.names]
    · have hfirst := step.others j hj
      have hthen := named.others j hj hji
      exact ⟨hthen.1.trans hfirst.1, hthen.2.trans hfirst.2⟩
    · rw [named.rootMode, step.consistent.liveDirectory_of_root hroot', h.liveDirectory_of_root hroot]
      rfl
  · rw [hbytes, h.bytes_slot l step]
  · rw [hslots, step.entries, step.first]
    rfl

end

end Consistent

end ImageFS.FileSystem
