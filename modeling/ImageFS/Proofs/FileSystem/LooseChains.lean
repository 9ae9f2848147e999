import ImageFS.Proofs.FileSystem.Reachable

/-!
# Chains that grow and shrink side by side

Loose chains on a new volume are grown, shrunk and resized in any order. Every step moves one of them,
also when it fails, so the accounts of the volume stay exact; and a chain that is held has its pointers
just where its length asks for them.
-/

set_option autoImplicit false

namespace ImageFS.Chain

open Volume Holding

inductive Adjustment where
  | grow
  | shrink
  | resize (size : Nat)
deriving DecidableEq

def Adjustment.act : Adjustment → Holding Chain Unit
  | grow => update Chain.grow
  | shrink => update Chain.shrink
  | resize size => Chain.resize size

/-- Chains that no inode records, and the volume with their blocks. -/
structure Loose (ι : Type) where
  chain : ι → Chain
  volume : Volume

namespace Loose

variable {ι : Type}

def start (v : Volume) : Loose ι := ⟨fun _ => .empty, v⟩

variable [DecidableEq ι]

def adjust (s : Loose ι) (i : ι) (a : Adjustment) : Loose ι :=
  match a.act.run (s.chain i) s.volume with
  | (_, c, v) => ⟨Function.update s.chain i c, v⟩

def run (s : Loose ι) : List (ι × Adjustment) → Loose ι
  | [] => s
  | (i, a) :: rest => (s.adjust i a).run rest

end Loose

variable {c : Chain} {v w : Volume}

theorem grow_moves (h : c.Held v) (hv : v.Sound) :
    ∃ r c' w, (update grow).run c v = (r, c', w) ∧ Moves c v c' w := by
  by_cases hlong : 65802 ≤ c.blockCount
  · exact ⟨_, c, v, Holding.run_of_error (update_of_error (grow_tooLarge hlong)), h.moves_refl hv⟩
  · by_cases hfree : cost (c.blockCount + 1) ≤ cost c.blockCount + v.freeBlocks
    · obtain ⟨c', w, hrun, -, -, grown⟩ := grow_ok h hv (Nat.lt_of_not_le hlong) hfree
      exact ⟨_, c', w, Holding.run_of_ok (update_of_ok hrun), grown.moves⟩
    · obtain ⟨w, hrun, restored⟩ := grow_noSpace h hv (Nat.lt_of_not_le hlong) (Nat.lt_of_not_le hfree)
      exact ⟨_, c, w, Holding.run_of_error (update_of_error hrun), h.moves_restored restored⟩

theorem shrink_moves (h : c.Held v) (hv : v.Sound) :
    ∃ r c' w, (update shrink).run c v = (r, c', w) ∧ Moves c v c' w := by
  cases hn : c.blockCount with
  | zero =>
    have hrun : c.shrink v = .ok c v := by
      rw [shrink, if_pos hn]
      rfl
    exact ⟨_, c, v, Holding.run_of_ok (update_of_ok hrun), h.moves_refl hv⟩
  | succ n =>
    obtain ⟨c', w, hrun, -, moves, -⟩ := shrink_ok h hv hn
    exact ⟨_, c', w, Holding.run_of_ok (update_of_ok hrun), moves⟩

theorem resize_moves (h : c.Held v) (hv : v.Sound) (size : Nat) :
    ∃ r c' w, (resize size).run c v = (r, c', w) ∧ Moves c v c' w := by
  rcases resize_cases h hv size with ⟨-, hrun⟩ | ⟨-, -, w, hrun, kept⟩ | ⟨-, -, c', w, hrun, resized⟩
  · exact ⟨_, c, v, hrun, h.moves_refl hv⟩
  · exact ⟨_, c, w, hrun, kept.moves⟩
  · exact ⟨_, c', w, hrun, resized.moves⟩

theorem adjustment_moves (h : c.Held v) (hv : v.Sound) (a : Adjustment) :
    ∃ r c' w, a.act.run c v = (r, c', w) ∧ Moves c v c' w := by
  cases a with
  | grow => exact grow_moves h hv
  | shrink => exact shrink_moves h hv
  | resize size => exact resize_moves h hv size

structure Loose.Exact {ι : Type} (v : Volume) (s : Loose ι) : Prop where
  evolves : Evolves v s.volume
  accounts : s.volume.Accounts fun i => some (s.chain i)

namespace Loose

variable {ι : Type} {s : Loose ι}

theorem exact_start (hv : v.Sound) (free : ∀ b, v.IsData b → ¬ v.Busy b) : (start v : Loose ι).Exact v where
  evolves := .refl hv
  accounts := by
    refine ⟨fun i c hc => ?_, fun i j c d b hc _ hb => ?_, fun b hdata hbusy => absurd hbusy (free b hdata)⟩
    · cases hc
      exact held_empty v
    · cases hc
      exact absurd hb (Accounts.not_owns_of_empty (held_empty v) rfl b)

variable [DecidableEq ι]

theorem Exact.adjust (x : s.Exact v) (i : ι) (a : Adjustment) : (s.adjust i a).Exact v := by
  have held := x.accounts.held i (s.chain i) rfl
  obtain ⟨r, c', w, hrun, moves⟩ := adjustment_moves held x.evolves.sound a
  have hnext : s.adjust i a = ⟨Function.update s.chain i c', w⟩ := by
    rw [Loose.adjust, hrun]
  have hchains : (fun j => some (Function.update s.chain i c' j)) =
      Function.update (fun j => some (s.chain j)) i (some c') := by
    funext j
    by_cases hj : j = i
    · rw [hj, Function.update_self, Function.update_self]
    · rw [Function.update_of_ne hj, Function.update_of_ne hj]
  rw [hnext]
  refine ⟨x.evolves.trans moves.evolves, ?_⟩
  change w.Accounts fun j => some (Function.update s.chain i c' j)
  rw [hchains]
  exact x.accounts.moves rfl moves

theorem Exact.run (x : s.Exact v) (steps : List (ι × Adjustment)) : (s.run steps).Exact v := by
  induction steps generalizing s with
  | nil => exact x
  | cons step steps ih => exact ih (x.adjust step.1 step.2)

end Loose

/-- The pointers of a chain stand just where its length asks for them, and lead to its blocks. -/
structure Canonical (c : Chain) (v : Volume) : Prop where
  direct : ∀ (i : Nat) (hi : i < directPointers), c.direct[i] ≠ nullPointer ↔ i < min c.blockCount 10
  indirect : c.indirect ≠ nullPointer ↔ 10 < c.blockCount
  slots : c.indirect ≠ nullPointer → ∀ j < pointersPerBlock,
    ∃ b, v.readPointer c.indirect j = .ok b ∧ (b ≠ nullPointer ↔ 10 + j < c.blockCount)
  doubly : c.doubly ≠ nullPointer ↔ 266 < c.blockCount
  outer : c.doubly ≠ nullPointer → ∀ o < pointersPerBlock,
    ∃ t, v.readPointer c.doubly o = .ok t ∧ (t ≠ nullPointer ↔ 266 + 256 * o < c.blockCount) ∧
      (t ≠ nullPointer → ∀ k < pointersPerBlock,
        ∃ b, v.readPointer t k = .ok b ∧ (b ≠ nullPointer ↔ 266 + 256 * o + k < c.blockCount))
  found : ∀ k < c.blockCount, ∃ b, c.blockAt v k = .ok b ∧ c.Owns v b
  injective : ∀ j k b, c.blockAt v j = .ok b → c.blockAt v k = .ok b → j = k

theorem lt_of_blockAt {k : Nat} {b : UInt32} (h : c.blockAt v k = .ok b) : k < c.blockCount := by
  by_contra hk
  rw [blockAt, if_pos (Nat.le_of_not_lt hk)] at h
  cases h

theorem Held.slot (h : c.Held v) (hv : v.Sound) {p q : Place} {i : Nat} (hp : p.parent? = some (q, i))
    (hi : i < pointersPerBlock) (hq : c.pointer v.cell q ≠ nullPointer) :
    v.readPointer (c.pointer v.cell q) i = .ok (c.pointer v.cell p) := by
  rw [readPointer_eq hv (h.data q hq).2 hi, pointer_of_parent hp, follow_of_ne _ hq]

theorem Held.canonical (h : c.Held v) (hv : v.Sound) : c.Canonical v where
  direct i hi := by
    have hshape := h.shape (.data i)
    rw [pointer_of_root (Place.parent_direct hi), root, directAt, Vector.getElem?_eq_getElem hi, Place.birth_data]
      at hshape
    have hi : i < 10 := hi
    rw [Nat.lt_min, and_iff_left hi]
    exact hshape
  indirect := h.shape .indirect
  slots hne j hj := by
    have hj : j < 256 := hj
    have hpar : (Place.data (10 + j)).parent? = some (.indirect, j) := by
      rw [Place.parent_indirect (by omega) (by omega), Nat.add_sub_cancel_left]
    exact ⟨_, h.slot hv hpar hj hne, h.shape (.data (10 + j))⟩
  doubly := h.shape .doubly
  outer hne o ho := by
    refine ⟨_, h.slot hv (Place.parent_table o) ho hne, ?_, fun htable k hk => ?_⟩
    · rw [h.shape, Place.birth_table, Nat.mul_comm]
    · have hk : k < 256 := hk
      have hpar : (Place.data (266 + 256 * o + k)).parent? = some (.table o, k) := by
        rw [Place.parent_doubly (by omega), show (266 + 256 * o + k - 266) / 256 = o by omega,
          show (266 + 256 * o + k - 266) % 256 = k by omega]
      exact ⟨_, h.slot hv hpar hk htable, h.shape (.data (266 + 256 * o + k))⟩
  found k hk := ⟨_, blockAt_eq h hv hk, h.data_ne_null hk, _, rfl⟩
  injective j k b hj hk := by
    have hlt := lt_of_blockAt hj
    rw [blockAt_eq h hv hlt, Except.ok.injEq] at hj
    rw [blockAt_eq h hv (lt_of_blockAt hk), Except.ok.injEq] at hk
    exact h.data_injective hlt (hj.trans hk.symm)

theorem Held.eq_empty (h : c.Held v) (hsize : c.size = 0) : c = .empty := by
  refine ext_pointer v.cell v.cell hsize fun p => ?_
  have hcount : c.blockCount = 0 := by
    rw [blockCount, hsize]
    rfl
  rw [pointer_empty, (h.null_iff p).mpr (by omega)]

end ImageFS.Chain

namespace ImageFS.FileSystem

open Chain Volume Holding

variable {ι : Type} {v : Volume} {device d : Device} {inodes : UInt32}

theorem exact_format (hd : device.FaultFree) (h : Volume.format inodes device = .ok v d) :
    (Loose.start v : Loose ι).Exact v := by
  obtain ⟨p, u, planned, cleared, rfl⟩ := format_cases hd h
  have hroot : rootInode.toNat < u.superblock.inodeCount.toNat := Nat.lt_trans (by decide) cleared.laidOut.inodes
  have evolves := evolves_putInode cleared.laidOut.toArranged cleared.sound (i := .directory rootInode rootMode) hroot
  refine Loose.exact_start evolves.sound fun b hdata hbusy => ?_
  rw [evolves.isData_iff, IsData, dataStart, cleared.map] at hdata
  rw [Busy, freeMap_putInode, cleared.map, planned.free hdata] at hbusy
  cases hbusy

/-- Chains that are grown, shrunk and resized in turn on a new volume, with or without success, keep the
shape that their lengths ask for; they have no block in common, their blocks lie behind the metadata and
are taken, and all other blocks there are free. An empty one is as good as new. -/
theorem chains_stay_canonical [DecidableEq ι] (hd : device.FaultFree) (h : Volume.format inodes device = .ok v d)
    (steps : List (ι × Adjustment)) :
    let s := (Loose.start v).run steps
    (∀ i, (s.chain i).Canonical s.volume) ∧
    (∀ i j b, (s.chain i).Owns s.volume b → (s.chain j).Owns s.volume b → i = j) ∧
    (∀ b : UInt32, (∃ i, (s.chain i).Owns s.volume b) ↔
      v.superblock.firstDataBlock ≤ b ∧ b < v.superblock.blockCount ∧ s.volume.freeMap.isFree b.toNat = false) ∧
    (∀ i, (s.chain i).size = 0 → s.chain i = .empty) := by
  have hlaid := (format_consistent hd h).ledger.laidOut
  have x := (exact_format (ι := ι) hd h).run steps
  generalize (Loose.start v).run steps = s at x ⊢
  have held : ∀ i, (s.chain i).Held s.volume := fun i => x.accounts.held i _ rfl
  have hdata : ∀ b, s.volume.IsData b ↔ v.superblock.firstDataBlock ≤ b ∧ b < v.superblock.blockCount := by
    intro b
    rw [x.evolves.isData_iff, IsData, hlaid.dataStart_eq, UInt32.le_iff_toNat_le, UInt32.lt_iff_toNat_lt,
      hlaid.firstData_eq, hlaid.blockCount_eq]
  refine ⟨fun i => (held i).canonical x.evolves.sound, fun i j b hi hj => ?_, fun b => ?_,
    fun i hi => (held i).eq_empty hi⟩
  · exact x.accounts.apart i j _ _ b rfl rfl hi hj
  · rw [← and_assoc, ← hdata]
    constructor
    · rintro ⟨i, hi⟩
      obtain ⟨hin, hbusy⟩ := (held i).owns_data hi
      exact ⟨hin, by rwa [FreeMap.isFree_eq_bit _ hin.2]⟩
    · rintro ⟨hin, hbusy⟩
      rw [FreeMap.isFree_eq_bit _ hin.2] at hbusy
      obtain ⟨i, c, hc, howns⟩ := x.accounts.owned b hin hbusy
      cases hc
      exact ⟨i, howns⟩

theorem chains_stay_canonical_grown : ∃ v d b, Volume.format 16 (.blank 16384 512) = .ok v d ∧
    let s := (Loose.start v).run [(true, .grow)]
    (s.chain true).blockCount = 1 ∧ (s.chain true).blockAt s.volume 0 = .ok b ∧
      v.superblock.firstDataBlock ≤ b ∧ s.volume.freeMap.isFree b.toNat = false ∧
      ¬ (s.chain false).Owns s.volume b := by
  obtain ⟨v, d, hformat⟩ := exists_new
  have hd := blank_faultFree 16384 512
  have hsound := (format_consistent hd hformat).ledger.sound
  have hroom := format_room hd hformat
  have hempty : Chain.empty.blockCount = 0 := rfl
  have hone : cost (Chain.empty.blockCount + 1) ≤ cost Chain.empty.blockCount + v.freeBlocks := by
    rw [hempty, cost_succ]
    exact Nat.add_le_add_left hroom _
  obtain ⟨c, w, hrun, -, hcount, -⟩ := grow_ok (held_empty v) hsound (by decide) hone
  have hchain : ((Loose.start v).run [(true, .grow)]).chain true = c := by
    have hgrow : Holding.run (update grow) .empty v = (.ok (), c, w) := Holding.run_of_ok (update_of_ok hrun)
    simp only [Loose.run, Loose.adjust, Loose.start, Adjustment.act, hgrow, Function.update_self]
  obtain ⟨hcanonical, happart, hused, -⟩ := chains_stay_canonical hd hformat [(true, Adjustment.grow)]
  have hcount : (((Loose.start v).run [(true, .grow)]).chain true).blockCount = 1 := hchain ▸ hcount
  obtain ⟨b, hb, howns⟩ := (hcanonical true).found 0 (by omega)
  obtain ⟨hlow, -, hbusy⟩ := (hused b).mp ⟨true, howns⟩
  exact ⟨v, d, b, hformat, hcount, hb, hlow, hbusy, fun hother => absurd (happart true false b howns hother) (by decide)⟩

end ImageFS.FileSystem
