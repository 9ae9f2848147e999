import ImageFS.Proofs.FileSystem.View

/-!
# The root directory

The records of the root are a map from names to inodes; searching the root asks that map. Making room for a
record leaves the map alone, and fails only for want of blocks.
-/

set_option autoImplicit false

namespace ImageFS.FileSystem

open Volume Holding

def rootBlocks (v : Volume) : Nat :=
  match liveDirectory v rootInode with
  | .ok dir => dir.chain.blockCount
  | .error _ => 0

/-- Why the root directory cannot take one more record, if it cannot. -/
def slotError (v : Volume) : Option Error :=
  if (rootEntries v).any Entry.isEmpty then none
  else if 65802 ≤ rootBlocks v then some .fileTooLarge
  else if v.freeBlocks < Chain.cost (rootBlocks v + 1) - Chain.cost (rootBlocks v) then some .noSpace
  else none

structure SlotStep (v : Volume) (T : UInt32 → Inode) (slot : Nat) (w : Volume) (T' : UInt32 → Inode) : Prop where
  consistent : Consistent w T'
  superblock : w.superblock = v.superblock
  table : ∀ j, j ≠ rootInode → T' j = T j
  others : ∀ j, j ≠ rootInode → SameInode v w j
  names : nameMap w = nameMap v
  entries : rootEntries w = Entry.withRoom (rootEntries v)
  first : slot = (rootEntries v).findIdx Entry.isEmpty
  slot_lt : slot < (rootChain T').slotCount
  empty : ((rootChain T').entry w.cell slot).ino = 0

variable {v w u : Volume} {T T' : UInt32 → Inode} {ino j dir : UInt32} {c c' d : Chain} {mode mode' : UInt32}
  {i : Inode} {name : Name} {slot : Nat}

theorem nameMap_withRoom (hentries : rootEntries w = Entry.withRoom (rootEntries v)) : nameMap w = nameMap v := by
  funext name
  have hnew : (List.replicate entriesPerBlock (⟨0, []⟩ : Entry)).find? (fun e => !e.isEmpty && e.name = name) = none := by
    rw [List.find?_replicate]
    rfl
  rw [nameMap, nameMap, hentries, Entry.withRoom]
  split
  · rfl
  · rw [List.find?_append, hnew, Option.or_none]

namespace Consistent

variable (h : Consistent v T)

include h

theorem rootBlocks_eq : rootBlocks v = (rootChain T).blockCount := by
  obtain ⟨mode, hroot⟩ := h.root_eq
  rw [rootBlocks, h.liveDirectory_of_root hroot]

theorem liveDirectory_error (hne : dir ≠ rootInode) : ∃ e, liveDirectory v dir = .error e := by
  rw [liveDirectory]
  by_cases hin : InUse v T dir
  · have hkind := h.files dir (h.two_le_of_ne hin hne) hin
    rw [h.ledger.liveInode_ok hin]
    refine ⟨.notDirectory (T dir).id, ?_⟩
    simp only [bind, Except.bind, Inode.asDirectory]
    unfold Inode.kind at hkind
    split at hkind
    · rename_i hbody
      rw [hbody]
    · exact absurd rfl hkind
    · rename_i hbody
      rw [hbody]
  · rw [h.ledger.liveInode_error hin]
    exact ⟨_, rfl⟩

theorem liveDirectory_cases {d : Directory} (hdir : liveDirectory v dir = .ok d) :
    ∃ mode, d = ⟨rootInode, 1, mode, rootChain T⟩ := by
  by_cases hroot : dir = rootInode
  · obtain ⟨mode, htable⟩ := h.root_eq
    rw [hroot, h.liveDirectory_of_root htable, Except.ok.injEq] at hdir
    exact ⟨mode, hdir.symm⟩
  · obtain ⟨e, herror⟩ := h.liveDirectory_error hroot
    rw [herror] at hdir
    cases hdir

theorem mem_rootEntries {e : Entry} :
    e ∈ rootEntries v ↔ ∃ s < (rootChain T).slotCount, (rootChain T).entry v.cell s = e := by
  rw [h.rootEntries_eq, List.mem_map]
  constructor
  · rintro ⟨s, hs, he⟩
    exact ⟨s, List.mem_range.mp hs, he⟩
  · rintro ⟨s, hs, he⟩
    exact ⟨s, List.mem_range.mpr hs, he⟩

theorem nameMap_eq_some :
    nameMap v name = some ino ↔ ino ≠ 0 ∧ ∃ s < (rootChain T).slotCount, (rootChain T).entry v.cell s = ⟨ino, name⟩ := by
  constructor
  · intro hmap
    obtain ⟨e, hfound, rfl⟩ := Option.map_eq_some_iff.mp hmap
    have hfirst := List.find?_some hfound
    have htest := Entry.found_iff.mp hfirst
    obtain ⟨s, hs, he⟩ := h.mem_rootEntries.mp (List.mem_of_find?_eq_some hfound)
    exact ⟨htest.1, s, hs, by rw [he, ← htest.2]⟩
  · rintro ⟨hne, s, hs, he⟩
    cases hfound : (rootEntries v).find? fun e => !e.isEmpty && e.name = name with
    | none =>
      have hno := List.find?_eq_none.mp hfound _ (h.mem_rootEntries.mpr ⟨s, hs, he⟩)
      simp [Entry.isEmpty, hne] at hno
    | some e =>
      have hfirst := List.find?_some hfound
      have htest := Entry.found_iff.mp hfirst
      obtain ⟨t, ht, rfl⟩ := h.mem_rootEntries.mp (List.mem_of_find?_eq_some hfound)
      have hst : s = t := by
        refine h.names.distinct s hs t ht ?_ htest.1 ?_
        · rw [he]
          exact hne
        · rw [he, htest.2]
      rw [nameMap, hfound, ← hst, he]
      rfl

theorem nameMap_eq_none : nameMap v name = none ↔
    ∀ s < (rootChain T).slotCount, ((rootChain T).entry v.cell s).ino ≠ 0 → ((rootChain T).entry v.cell s).name ≠ name := by
  rw [← not_iff_not, ← Ne, Option.ne_none_iff_exists']
  constructor
  · rintro ⟨ino, hmap⟩ hno
    obtain ⟨hne, s, hs, he⟩ := h.nameMap_eq_some.mp hmap
    refine hno s hs ?_ ?_
    · rw [he]
      exact hne
    · rw [he]
  · intro hno
    push Not at hno
    obtain ⟨s, hs, hne, hname⟩ := hno
    refine ⟨((rootChain T).entry v.cell s).ino, h.nameMap_eq_some.mpr ⟨hne, s, hs, ?_⟩⟩
    rw [← hname]

theorem find_root {found : Option (Nat × Entry)}
    (hfind : Directory.find ⟨rootInode, 1, mode, rootChain T⟩ v name = .ok found) :
    nameMap v name = found.map fun p => p.2.ino := by
  cases found with
  | none =>
    exact h.nameMap_eq_none.mpr ((Directory.find_none ⟨rootInode, 1, mode, rootChain T⟩
      h.held_root h.ledger.sound).mp hfind)
  | some p =>
    obtain ⟨s, e⟩ := p
    obtain ⟨hs, he, hne, hname⟩ := Directory.find_some ⟨rootInode, 1, mode, rootChain T⟩
      h.held_root h.ledger.sound hfind
    rw [Directory.slotCount_eq] at hs
    rw [Option.map_some]
    refine h.nameMap_eq_some.mpr ⟨hne, s, hs, ?_⟩
    rw [← hname]
    exact he.symm

theorem inUse_of_named (hmap : nameMap v name = some ino) : 2 ≤ ino.toNat ∧ InUse v T ino := by
  obtain ⟨hne, s, hs, he⟩ := h.nameMap_eq_some.mp hmap
  have hino : ((rootChain T).entry v.cell s).ino = ino := by rw [he]
  obtain ⟨-, hlow, hhigh⟩ := h.names.valid s hs (by rw [hino]; exact hne)
  have hlink := h.names.linked hs (by rw [hino]; exact hne)
  rw [hino] at hlow hhigh hlink
  exact ⟨hlow, hhigh, hlink⟩

theorem length_of_named (hmap : nameMap v name = some ino) : ¬ maxNameLength < name.length := by
  obtain ⟨hne, s, hs, he⟩ := h.nameMap_eq_some.mp hmap
  obtain ⟨hvalid, -⟩ := h.names.valid s hs (by rw [he]; exact hne)
  rw [he] at hvalid
  exact Nat.not_lt_of_le hvalid.short

theorem named_of_inUse (hlow : 2 ≤ ino.toNat) (hino : InUse v T ino) : ∃ name, nameMap v name = some ino := by
  obtain ⟨s, hs, he⟩ := h.names.exists_slot hlow hino.1 hino.2
  refine ⟨((rootChain T).entry v.cell s).name, h.nameMap_eq_some.mpr ⟨ne_zero hlow, s, hs, ?_⟩⟩
  rw [← he]

theorem any_isEmpty : (rootEntries v).any Entry.isEmpty = true ↔
    ∃ s < (rootChain T).slotCount, ((rootChain T).entry v.cell s).ino = 0 := by
  rw [List.any_eq_true]
  constructor
  · rintro ⟨e, he, hempty⟩
    obtain ⟨s, hs, rfl⟩ := h.mem_rootEntries.mp he
    exact ⟨s, hs, of_decide_eq_true hempty⟩
  · rintro ⟨s, hs, hempty⟩
    exact ⟨_, h.mem_rootEntries.mpr ⟨s, hs, rfl⟩, decide_eq_true hempty⟩

theorem not_any_isEmpty (hfull : ∀ s < (rootChain T).slotCount, ((rootChain T).entry v.cell s).ino ≠ 0) :
    ¬ (rootEntries v).any Entry.isEmpty = true := by
  rw [h.any_isEmpty]
  rintro ⟨s, hs, hempty⟩
  exact hfull s hs hempty

theorem length_rootEntries : (rootEntries v).length = (rootChain T).slotCount := by
  rw [h.rootEntries_eq, List.length_map, List.length_range]

theorem findIdx_isEmpty (hfull : ∀ s < (rootChain T).slotCount, ((rootChain T).entry v.cell s).ino ≠ 0) :
    (rootEntries v).findIdx Entry.isEmpty = (rootChain T).slotCount := by
  rw [← h.length_rootEntries]
  refine List.findIdx_eq_length_of_false fun e he => ?_
  obtain ⟨s, hs, rfl⟩ := h.mem_rootEntries.mp he
  exact decide_eq_false (hfull s hs)

theorem slotError_of_empty (hany : ∃ s < (rootChain T).slotCount, ((rootChain T).entry v.cell s).ino = 0) :
    slotError v = none := by
  rw [slotError, if_pos (h.any_isEmpty.mpr hany)]

theorem slotError_of_full (hall : ∀ s < (rootChain T).slotCount, ((rootChain T).entry v.cell s).ino ≠ 0) :
    slotError v =
      if 65802 ≤ (rootChain T).blockCount then some .fileTooLarge
      else if v.freeBlocks < Chain.cost ((rootChain T).blockCount + 1) - Chain.cost (rootChain T).blockCount then
        some .noSpace
      else none := by
  rw [slotError, if_neg (h.not_any_isEmpty hall), h.rootBlocks_eq]

theorem restored (r : Restored v u) : Spared v T u := by
  have hsame : ∀ j d, chains v T j = some d → d.Untouched v u := fun j d hd =>
    (h.ledger.accounts.held j d hd).untouched r
  have hmoved := h.ledger.moves h.chains_root (h.held_root.moves_restored r)
  rw [← h.chains_root, Function.update_eq_self, ← chains_congr r.evolves.superblock] at hmoved
  have hnext : Consistent u T := by
    refine ⟨hmoved, h.rootLink, h.rootKind, h.aligned, h.zero, fun j hj hjuse => ?_, ?_⟩
    · rw [InUse, r.evolves.superblock] at hjuse
      exact h.files j hj hjuse
    · rw [r.evolves.superblock]
      exact h.names.congr (fun s hs => (hsame _ _ h.chains_root).entry h.held_root hs) fun _ _ => rfl
  refine ⟨hnext, r.evolves, r.bits, fun j => ?_, ?_⟩
  · exact h.sameInode hnext r.evolves.superblock rfl (hsame j)
  · exact h.rootEntries_untouched hnext rfl (hsame _ _ h.chains_root)

theorem grown (mode : UInt32) (hfull : ∀ s < (rootChain T).slotCount, ((rootChain T).entry v.cell s).ino ≠ 0)
    (g : Chain.Grown (rootChain T) v c' u) (aligned : c'.size.toNat % blockSize = 0)
    (hcount : c'.blockCount = (rootChain T).blockCount + 1)
    (hw : w = u.putInode ⟨rootInode, 1, .directory mode c'⟩) :
    SlotStep v T (rootChain T).slotCount w (Function.update T rootInode ⟨rootInode, 1, .directory mode c'⟩) := by
  obtain ⟨hslots, hentry⟩ := g.slots h.aligned aligned hcount
  have hmore : (rootChain T).slotCount ≤ c'.slotCount := hslots ▸ Nat.le_add_right _ _
  have hhigh : (rootChain T).slotCount < c'.slotCount := hslots ▸ Nat.lt_add_of_pos_right (by decide)
  obtain ⟨hnext, hsuper, hothers, hown⟩ := h.put_root g.moves hw aligned (h.names.grow hmore
    (fun s hs => by rw [hentry s (Nat.lt_of_lt_of_le hs hmore), if_pos hs])
    (fun s hs hs' => by rw [hentry s hs', if_neg (Nat.not_lt_of_le hs)]))
  have hchain := rootChain_put T mode c'
  have hentry' : ∀ s < c'.slotCount,
      c'.entry w.cell s = if s < (rootChain T).slotCount then (rootChain T).entry v.cell s else ⟨0, []⟩ := by
    intro s hs
    rw [hown.entry g.moves.held hs, hentry s hs]
  have hentries : rootEntries w = Entry.withRoom (rootEntries v) := by
    rw [Entry.withRoom, if_neg (h.not_any_isEmpty hfull), hnext.rootEntries_eq, h.rootEntries_eq, hchain, hslots,
      List.range_add, List.map_append, List.map_map]
    refine congrArg₂ _ (List.map_congr_left fun s hs => ?_) (List.eq_replicate_iff.mpr ⟨?_, fun e he => ?_⟩)
    · have hs := List.mem_range.mp hs
      rw [hentry' s (Nat.lt_of_lt_of_le hs hmore), if_pos hs]
    · rw [List.length_map, List.length_range]
    · obtain ⟨k, hk, rfl⟩ := List.mem_map.mp he
      have hk := List.mem_range.mp hk
      rw [Function.comp, hentry' _ (by omega), if_neg (by omega)]
  refine ⟨hnext, hsuper, fun j hj => Function.update_of_ne hj _ _, fun j hj => ?_, nameMap_withRoom hentries, hentries,
    (h.findIdx_isEmpty hfull).symm, ?_, ?_⟩
  · exact h.sameInode hnext hsuper (Function.update_of_ne hj _ _) fun d hd => hothers j d hj hd
  · rw [hchain]
    exact hhigh
  · rw [hchain, hentry' _ hhigh, if_neg (Nat.lt_irrefl _)]

theorem freeSlot_ok (hroot : T rootInode = ⟨rootInode, 1, .directory mode (rootChain T)⟩) (hfree : slotError v = none) :
    ∃ slot w T', Directory.freeSlot (⟨rootInode, 1, mode, rootChain T⟩, v) =
        .ok slot (⟨rootInode, 1, mode, rootChain T'⟩, w) ∧
      SlotStep v T slot w T' ∧ T' rootInode = ⟨rootInode, 1, .directory mode (rootChain T')⟩ := by
  by_cases hany : ∃ s < (rootChain T).slotCount, ((rootChain T).entry v.cell s).ino = 0
  · obtain ⟨slot, hrun, hslot, hempty, hfirst⟩ := Directory.freeSlot_of_empty ⟨rootInode, 1, mode, rootChain T⟩
      h.held_root h.ledger.sound rfl hany
    rw [Directory.slotCount_eq, ← h.rootEntries_eq] at hfirst
    have hentries : rootEntries v = Entry.withRoom (rootEntries v) := by
      rw [Entry.withRoom, if_pos (h.any_isEmpty.mpr hany)]
    exact ⟨slot, v, T, hrun, ⟨h, rfl, fun _ _ => rfl, fun _ _ => ⟨rfl, rfl⟩, rfl, hentries, hfirst, hslot, hempty⟩, hroot⟩
  · push Not at hany
    rw [h.slotError_of_full hany] at hfree
    split_ifs at hfree with hlong hspace
    have hcost := Chain.cost_mono (Nat.le_succ (rootChain T).blockCount)
    obtain ⟨c', u, hgrow, hsize, hcount, g⟩ := Chain.grow_ok h.held_root h.ledger.sound (by omega) (by omega)
    have hshort := h.held_root.short
    have aligned : c'.size.toNat % blockSize = 0 := Chain.aligned_of_size (by omega) hsize
    have hmoved := h.ledger.moves h.chains_root g.moves
    have hput : writeInode ⟨rootInode, 1, .directory mode c'⟩ u =
        .ok () (u.putInode ⟨rootInode, 1, .directory mode c'⟩) := by
      apply hmoved.writeInode_eq
      rw [g.moves.evolves.superblock]
      exact h.root_lt
    have hchain := rootChain_put T mode c'
    refine ⟨(rootChain T).slotCount, _, _, ?_, h.grown mode hany g aligned hcount rfl, ?_⟩
    · rw [Directory.freeSlot_of_full ⟨rootInode, 1, mode, rootChain T⟩ h.held_root h.ledger.sound rfl hany,
        bind_of_ok (onPart_of_ok (update_of_ok hgrow)), hchain]
      exact (object_bind _).trans (bind_of_ok (onVolume_of_ok hput))
    · rw [Function.update_self, hchain]

theorem freeSlot_error (mode : UInt32) {e : Error} (hfull : slotError v = some e) :
    ∃ w, Directory.freeSlot (⟨rootInode, 1, mode, rootChain T⟩, v) = .error e (⟨rootInode, 1, mode, rootChain T⟩, w) ∧
      Spared v T w := by
  have hall : ∀ s < (rootChain T).slotCount, ((rootChain T).entry v.cell s).ino ≠ 0 := by
    intro s hs hempty
    rw [h.slotError_of_empty ⟨s, hs, hempty⟩] at hfull
    cases hfull
  rw [Directory.freeSlot_of_full ⟨rootInode, 1, mode, rootChain T⟩ h.held_root h.ledger.sound rfl hall]
  rw [h.slotError_of_full hall] at hfull
  split_ifs at hfull with hlong hspace
  · cases hfull
    exact ⟨v, bind_of_error (onPart_of_error (update_of_error (Chain.grow_tooLarge hlong))),
      h.restored (.refl h.ledger.sound)⟩
  · cases hfull
    obtain ⟨u, hgrow, hrestored⟩ := Chain.grow_noSpace h.held_root h.ledger.sound (by omega) (by omega)
    exact ⟨u, bind_of_error (onPart_of_error (update_of_error hgrow)), h.restored hrestored⟩

theorem setMode_root (new : UInt32) :
    ∃ w, setMode rootInode new v =
        .ok (Inode.metadata ⟨rootInode, 1, .directory (Mode.permissions new) (rootChain T)⟩) w ∧
      (∃ T', Consistent w T') ∧ (∀ j, j ≠ rootInode → SameInode v w j) ∧ rootEntries w = rootEntries v ∧
      liveInode w rootInode = .ok ⟨rootInode, 1, .directory (Mode.permissions new) (rootChain T)⟩ := by
  obtain ⟨mode, hroot⟩ := h.root_eq
  have m := h.held_root.moves_refl h.ledger.sound
  have hput : writeInode ⟨rootInode, 1, .directory (Mode.permissions new) (rootChain T)⟩ v =
      .ok () (v.putInode ⟨rootInode, 1, .directory (Mode.permissions new) (rootChain T)⟩) :=
    h.ledger.writeInode_eq h.root_lt
  obtain ⟨w, hw⟩ : ∃ w, w = v.putInode ⟨rootInode, 1, .directory (Mode.permissions new) (rootChain T)⟩ := ⟨_, rfl⟩
  rw [← hw] at hput
  obtain ⟨hnext, hsuper, hothers, hown⟩ := h.put_root m hw h.aligned h.names
  refine ⟨w, ?_, ⟨_, hnext⟩, fun j hj => ?_, h.rootEntries_untouched hnext (rootChain_put _ _ _) hown,
    hnext.ledger.liveInode_iff.mpr ⟨hnext.root_inUse, Function.update_self _ _ _⟩⟩
  · rw [setMode, bind_of_ok (ask_of_ok (h.ledger.liveInode_ok h.root_inUse)), hroot]
    exact bind_of_ok hput
  · exact h.sameInode hnext hsuper (Function.update_of_ne hj _ _) fun d hd => hothers j d hj hd

end Consistent

end ImageFS.FileSystem
