import ImageFS.Proofs.FileSystem.Reachable

/-!
# Names and links agree

In every reachable file system the records of the root have valid, different names and stand for files in
use, and every file is named as often as its link count says.
-/

set_option autoImplicit false

namespace ImageFS.FileSystem

open Volume

variable {v : Volume} {T : UInt32 → Inode} {ino : UInt32} {e e' : Entry} {s t : Nat}

namespace Consistent

variable (h : Consistent v T)

include h

theorem entries_root : ∃ dir, liveDirectory v rootInode = .ok dir ∧ dir.entries v = .ok (rootEntries v) := by
  obtain ⟨mode, hroot⟩ := h.root_eq
  refine ⟨_, h.liveDirectory_of_root hroot, ?_⟩
  rw [Directory.entries_eq ⟨rootInode, 1, mode, rootChain T⟩ h.held_root h.ledger.sound, h.rootEntries_eq]
  rfl

theorem getElem_rootEntries (he : (rootEntries v)[s]? = some e) :
    s < (rootChain T).slotCount ∧ (rootChain T).entry v.cell s = e := by
  rw [h.rootEntries_eq, List.getElem?_map, Option.map_eq_some_iff] at he
  obtain ⟨k, hk, rfl⟩ := he
  obtain ⟨hlt, hks⟩ := List.getElem?_eq_some_iff.mp hk
  rw [List.length_range] at hlt
  rw [List.getElem_range] at hks
  exact ⟨hlt, by rw [hks]⟩

theorem countP_rootEntries (ino : UInt32) :
    (rootEntries v).countP (fun e => e.ino = ino) =
      refs (rootChain T).slotCount ((rootChain T).entry v.cell) ino := by
  rw [h.rootEntries_eq, List.countP_map]
  simp only [refs, Function.comp_def]

theorem entry_live (he : e ∈ rootEntries v) (hne : e.ino ≠ 0) :
    Name.check e.name = .ok () ∧ 2 ≤ e.ino.toNat ∧ e.ino.toNat < v.superblock.inodeCount.toNat ∧
      ∃ i, liveInode v e.ino = .ok i ∧ (i.kind = .regular ∨ i.kind = .symlink) := by
  obtain ⟨s, hs, rfl⟩ := h.mem_rootEntries.mp he
  obtain ⟨hname, hlow, hhigh⟩ := h.names.valid s hs hne
  have hino : InUse v T ((rootChain T).entry v.cell s).ino := ⟨hhigh, h.names.linked hs hne⟩
  refine ⟨Name.check_ok.mpr hname, hlow, hhigh, _, h.ledger.liveInode_ok hino, ?_⟩
  have hdir := h.files _ hlow hino
  cases hkind : (T ((rootChain T).entry v.cell s).ino).kind with
  | regular => exact .inl rfl
  | directory => exact absurd hkind hdir
  | symlink => exact .inr rfl

theorem name_injective (hs : (rootEntries v)[s]? = some e) (ht : (rootEntries v)[t]? = some e')
    (hne : e.ino ≠ 0) (hne' : e'.ino ≠ 0) (hname : e.name = e'.name) : s = t := by
  obtain ⟨hlt, rfl⟩ := h.getElem_rootEntries hs
  obtain ⟨hlt', rfl⟩ := h.getElem_rootEntries ht
  exact h.names.distinct s hlt t hlt' hne hne' hname

theorem nlink_lt (hino : ino.toNat < v.superblock.inodeCount.toNat) : (T ino).nlink.toNat + 1 < UInt32.size := by
  have hsize : UInt32.size = 4294967296 := rfl
  by_cases hlow : 2 ≤ ino.toNat
  · have hrefs := refs_le (rootChain T).slotCount ((rootChain T).entry v.cell) ino
    have hslots := (rootChain T).slotCount_le
    have hshort := h.held_root.short
    rw [h.names.links ino hlow hino]
    simp only [entriesPerBlock] at hslots
    omega
  · by_cases hroot : ino = rootInode
    · rw [hroot, h.rootLink]
      decide
    · have hzero : ino = 0 := by
        apply UInt32.toNat_inj.mp
        have hne : ino.toNat ≠ 1 := fun he => hroot (UInt32.toNat_inj.mp he)
        change ino.toNat = 0
        omega
      rw [hzero, h.zero]
      decide

end Consistent

/-- The names of a reachable file system and its link counts agree. -/
theorem names_agree (h : Reachable v) :
    (∃ dir, liveDirectory v rootInode = .ok dir ∧ dir.entries v = .ok (rootEntries v)) ∧
    (∀ e ∈ rootEntries v, e.isEmpty = false → Name.check e.name = .ok () ∧
      2 ≤ e.ino.toNat ∧ e.ino.toNat < v.superblock.inodeCount.toNat ∧
      ∃ i, liveInode v e.ino = .ok i ∧ (i.kind = .regular ∨ i.kind = .symlink)) ∧
    (∀ (s t : Nat) e e', (rootEntries v)[s]? = some e → (rootEntries v)[t]? = some e' →
      e.isEmpty = false → e'.isEmpty = false → e.name = e'.name → s = t) ∧
    (∀ ino : UInt32, 2 ≤ ino.toNat → ino.toNat < v.superblock.inodeCount.toNat →
      ∃ i, v.readInode ino = .ok i ∧ i.nlink.toNat = (rootEntries v).countP fun e => e.ino = ino) ∧
    (∃ i, v.readInode 0 = .ok i ∧ i.isFree) ∧
    (∃ mode chain, v.readInode rootInode = .ok ⟨rootInode, 1, .directory mode chain⟩ ∧
      chain.size.toNat % 1024 = 0) ∧
    (∀ ino i, v.readInode ino = .ok i → (i.nlink + 1).toNat = i.nlink.toNat + 1) := by
  obtain ⟨T, hT⟩ := h.consistent
  refine ⟨hT.entries_root, fun e he hempty => ?_, fun s t e e' hs ht hempty hempty' hname => ?_,
    fun ino hlow hhigh => ?_, ?_, ?_, fun ino i hread => ?_⟩
  · exact hT.entry_live he (of_decide_eq_false hempty)
  · exact hT.name_injective hs ht (of_decide_eq_false hempty) (of_decide_eq_false hempty') hname
  · refine ⟨T ino, hT.ledger.readInode_eq hhigh, ?_⟩
    rw [hT.countP_rootEntries, hT.names.links ino hlow hhigh]
  · have hin : (0 : UInt32).toNat < v.superblock.inodeCount.toNat := Nat.lt_trans (by decide) hT.root_lt
    refine ⟨T 0, hT.ledger.readInode_eq hin, ?_⟩
    rw [Inode.isFree, decide_eq_true_eq, hT.zero]
  · obtain ⟨mode, hroot⟩ := hT.root_eq
    refine ⟨mode, rootChain T, ?_, hT.aligned⟩
    rw [hT.ledger.readInode_eq hT.root_lt, hroot]
  · by_cases hino : ino.toNat < v.superblock.inodeCount.toNat
    · rw [hT.ledger.readInode_eq hino, Except.ok.injEq] at hread
      have hlt := hT.nlink_lt hino
      rw [hread] at hlt
      rw [UInt32.toNat_add]
      exact Nat.mod_eq_of_lt hlt
    · rw [readInode_of_le (Nat.le_of_not_lt hino)] at hread
      cases hread

theorem names_agree_file : ∃ v, Reachable v ∧ nameMap v ['a'.toUInt8] = some 2 ∧
    ∃ i, v.readInode 2 = .ok i ∧ i.nlink.toNat = (rootEntries v).countP fun e => e.ino = 2 := by
  obtain ⟨v, hv, hmap, -⟩ := exists_file
  obtain ⟨T, hT⟩ := hv.consistent
  obtain ⟨-, -, -, hlinks, -⟩ := names_agree hv
  exact ⟨v, hv, hmap, hlinks 2 (Nat.le_refl 2) hT.ledger.laidOut.inodes⟩

end ImageFS.FileSystem
