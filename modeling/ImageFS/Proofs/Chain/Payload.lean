import ImageFS.Proofs.Chain.Retraction

/-!
# The bytes in a chain

Byte `k` of a chain lies in its data block `k / 1024`. A step that writes into data blocks of a held
chain alone leaves the chain held, and all pointers and the free map as they are.
-/

set_option autoImplicit false

namespace ImageFS.Chain

open Volume

variable {c c' c'' : Chain} {v w u : Volume} {m m' : Memory} {k n : Nat}

def byte (c : Chain) (m : Memory) (k : Nat) : UInt8 :=
  (m (c.pointer m (.data (k / blockSize)))).byte (k % blockSize)

theorem Held.data_ne_null (h : c.Held v) (hk : k < c.blockCount) : c.pointer v.cell (.data k) ≠ nullPointer :=
  (h.shape (.data k)).mpr hk

theorem Held.isData (h : c.Held v) (hk : k < c.blockCount) : v.IsData (c.pointer v.cell (.data k)) :=
  h.data _ (h.data_ne_null hk)

theorem Held.data_injective (h : c.Held v) {j : Nat} (hk : k < c.blockCount)
    (he : c.pointer v.cell (.data k) = c.pointer v.cell (.data j)) : k = j :=
  Place.data.inj (h.apart _ _ (h.data_ne_null hk) he)

theorem Held.data_ne_index (h : c.Held v) (hk : k < c.blockCount) {q : Place} (hq : q.IsIndex) :
    c.pointer v.cell (.data k) ≠ c.pointer v.cell q := by
  intro he
  obtain rfl := h.apart _ q (h.data_ne_null hk) he
  exact hq

theorem blockAt_of_slots (h : c.Held v) (hread : ∀ (p q : Place) (i : Nat), p.parent? = some (q, i) →
      p.birth < c.blockCount → w.readPointer (c.pointer v.cell q) i = .ok (c.pointer v.cell p))
    (hk : k < c.blockCount) : c.lookup w (Tiers.onDisk.locate k) = .ok (c.pointer v.cell (.data k)) ∧
      c.blockAt w k = .ok (c.pointer v.cell (.data k)) := by
  have hlookup : c.lookup w (Tiers.onDisk.locate k) = .ok (c.pointer v.cell (.data k)) := by
    rcases Place.tier_cases k with hlow | ⟨hlow, hlow'⟩ | hlow
    · rw [Place.locate_direct hlow, lookup, pointer_of_root (Place.parent_direct hlow), root]
    · have hindirect : c.indirect ≠ nullPointer := (h.shape .indirect).mpr (by rw [Place.birth_indirect]; omega)
      rw [Place.locate_indirect hlow hlow', lookup, required_eq hindirect]
      exact hread _ _ _ (Place.parent_indirect hlow hlow') hk
    · have hdoubly : c.doubly ≠ nullPointer := (h.shape .doubly).mpr (by rw [Place.birth_doubly]; omega)
      have hbirth : (Place.table ((k - 266) / 256)).birth < c.blockCount := by rw [Place.birth_table]; omega
      have htop := hread _ _ _ (Place.parent_table ((k - 266) / 256)) hbirth
      rw [pointer_doubly] at htop
      rw [Place.locate_doubly hlow, lookup, required_eq hdoubly]
      simp only [bind, Except.bind, htop, required_eq ((h.shape _).mpr hbirth)]
      exact hread _ _ _ (Place.parent_doubly hlow) hk
  refine ⟨hlookup, ?_⟩
  rw [blockAt, if_neg (Nat.not_le_of_lt hk)]
  simp only [bind, Except.bind, hlookup, required_eq (h.data_ne_null hk)]

theorem Held.slots (h : c.Held v) (hv : v.Sound) (p q : Place) (i : Nat) (hp : p.parent? = some (q, i))
    (hb : p.birth < c.blockCount) : v.readPointer (c.pointer v.cell q) i = .ok (c.pointer v.cell p) :=
  h.readPointer hv hp (Nat.lt_of_lt_of_le hb h.short) (Nat.lt_of_le_of_lt (Place.birth_parent_le hp) hb)

theorem lookup_eq (h : c.Held v) (hv : v.Sound) (hk : k < c.blockCount) :
    c.lookup v (Tiers.onDisk.locate k) = .ok (c.pointer v.cell (.data k)) :=
  (blockAt_of_slots h (h.slots hv) hk).1

theorem blockAt_eq (h : c.Held v) (hv : v.Sound) (hk : k < c.blockCount) :
    c.blockAt v k = .ok (c.pointer v.cell (.data k)) :=
  (blockAt_of_slots h (h.slots hv) hk).2

/-- Of all blocks, only data blocks of the chain were written. -/
structure Stored (c : Chain) (v w : Volume) : Prop where
  evolves : Evolves v w
  map : w.freeMap = v.freeMap
  cell : ∀ x, (∀ k < c.blockCount, c.pointer v.cell (.data k) ≠ x) → w.cell x = v.cell x

theorem Stored.refl (hv : v.Sound) : Stored c v v := ⟨.refl hv, rfl, fun _ _ => rfl⟩

theorem Stored.pointer (s : Stored c v w) (h : c.Held v) (p : Place) :
    c.pointer w.cell p = c.pointer v.cell p :=
  pointer_congr (fun _ hq _ => s.cell _ fun _ hk => h.data_ne_index hk hq) p

theorem Stored.trans (h : c.Held v) (s : Stored c v w) (s' : Stored c w u) : Stored c v u where
  evolves := s.evolves.trans s'.evolves
  map := s'.map.trans s.map
  cell x hx := by
    rw [s'.cell x fun k hk => ?_, s.cell x hx]
    rw [s.pointer h]
    exact hx k hk

theorem Stored.freeBlocks (s : Stored c v w) : w.freeBlocks = v.freeBlocks := by
  rw [Volume.freeBlocks, s.map]
  rfl

theorem Stored.held (s : Stored c v w) (h : c.Held v) : c.Held w := by
  apply h.congr s.evolves rfl (s.pointer h)
  intro p hp
  rw [Busy, s.map]
  exact h.busy p hp

theorem Stored.moves (s : Stored c v w) (h : c.Held v) : Moves c v c w := by
  refine ⟨s.evolves, s.held h, fun b => ?_, fun b _ _ ho => s.cell b fun k hk he => ?_⟩
  · rw [owns_congr (s.pointer h), Busy, Busy, s.map]
  · exact ho ⟨he ▸ h.data_ne_null hk, _, he⟩

theorem Held.stored_put (h : c.Held v) (hv : v.Sound) (hk : k < c.blockCount) (block : Block) :
    Stored c v (v.put (c.pointer v.cell (.data k)) block) where
  evolves := hv.evolves_put_data (h.isData hk) block
  map := freeMap_put _ _
  cell x hx := by rw [cell_put hv (h.isData hk).2, if_neg (Ne.symm (hx k hk))]

theorem Held.byte_put (h : c.Held v) (hv : v.Sound) (hk : k < c.blockCount) (block : Block) (j : Nat)
    (hj : j / blockSize < c.blockCount) :
    c.byte (v.put (c.pointer v.cell (.data k)) block).cell j =
      if j / blockSize = k then block.byte (j % blockSize) else c.byte v.cell j := by
  rw [byte, byte, (h.stored_put hv hk block).pointer h, cell_put hv (h.isData hk).2]
  by_cases hjk : j / blockSize = k
  · rw [if_pos hjk, if_pos (by rw [hjk])]
  · rw [if_neg hjk, if_neg fun he => hjk (h.data_injective hj he)]

theorem le_blockCount (c : Chain) : c.size.toNat ≤ c.blockCount * blockSize := by
  simp only [blockCount, blocksForSize, ceilDiv, blockSize]
  omega

theorem lt_blockCount (hk : k < c.size.toNat) : k / blockSize < c.blockCount := by
  simp only [blockCount, blocksForSize, ceilDiv, blockSize] at *
  omega

theorem size_mod (c : Chain) (h : c.size.toNat % blockSize ≠ 0) :
    c.size.toNat = (c.blockCount - 1) * blockSize + c.size.toNat % blockSize ∧ 0 < c.blockCount := by
  simp only [blockCount, blocksForSize, ceilDiv, blockSize] at *
  omega

theorem blockCount_le (c : Chain) : c.blockCount ≤ 4194304 := by
  have := c.size.toNat_lt
  simp only [blockCount, blocksForSize, ceilDiv, blockSize]
  omega

theorem toNat_size_of_blocks (hn : n < 4194304) (hs : c.size = .ofNat (n * blockSize)) :
    c.size.toNat = n * blockSize := by
  rw [hs]
  apply UInt32.toNat_ofNat_of_lt'
  simp only [UInt32.size, blockSize]
  omega

theorem blockCount_of_size (hn : n < 4194304) (hs : c.size = .ofNat (n * blockSize)) : c.blockCount = n := by
  rw [blockCount, toNat_size_of_blocks hn hs]
  simp only [blocksForSize, ceilDiv, blockSize]
  omega

theorem aligned_of_size (hn : n < 4194304) (hs : c.size = .ofNat (n * blockSize)) : c.size.toNat % blockSize = 0 := by
  rw [toNat_size_of_blocks hn hs, Nat.mul_mod_left]

theorem pointer_size (c : Chain) (m : Memory) (s : UInt32) (p : Place) :
    ({ c with size := s } : Chain).pointer m p = c.pointer m p := by
  cases p <;> rfl

theorem byte_size (c : Chain) (m : Memory) (s : UInt32) (k : Nat) :
    ({ c with size := s } : Chain).byte m k = c.byte m k := by
  rw [byte, byte, pointer_size]

theorem Held.moves_size (h : c.Held v) (hv : v.Sound) {s : UInt32} (hs : blocksForSize s.toNat = c.blockCount) :
    Moves c v { c with size := s } v := by
  have same := pointer_size c v.cell s
  refine ⟨.refl hv, h.congr (.refl hv) hs same h.busy, fun b => ?_, fun _ _ _ _ => rfl⟩
  rw [owns_congr same]

theorem zeroTail_ok (h : c.Held v) (hv : v.Sound) :
    ∃ u, c.zeroTail v = .ok () u ∧ Stored c v u ∧
      ∀ k, k / blockSize < c.blockCount → c.byte u.cell k = if k < c.size.toNat then c.byte v.cell k else 0 := by
  by_cases hused : c.size.toNat % blockSize = 0
  · refine ⟨v, ?_, .refl hv, fun k hk => ?_⟩
    · rw [zeroTail, if_neg (not_not_intro hused)]
      rfl
    · rw [if_pos]
      simp only [blockCount, blocksForSize, ceilDiv, blockSize] at *
      omega
  · obtain ⟨hsize, hpos⟩ := c.size_mod hused
    have hlast : c.blockCount - 1 < c.blockCount := by omega
    have hask : ask (fun v => c.blockAt v (c.blockCount - 1)) v =
        .ok (c.pointer v.cell (.data (c.blockCount - 1))) v := ask_of_ok (blockAt_eq h hv hlast)
    have hwrite := updateBlock_eq hv (h.isData hlast).2 (·.clearFrom (c.size.toNat % blockSize))
    generalize hclear : (v.cell (c.pointer v.cell (.data (c.blockCount - 1)))).clearFrom
      (c.size.toNat % blockSize) = cleared at hwrite
    refine ⟨_, ?_, h.stored_put hv hlast cleared, fun k hk => ?_⟩
    · rw [zeroTail, if_pos hused, bind_of_ok hask, hwrite]
    · have hmod : c.size.toNat % blockSize ≤ blockSize := Nat.le_of_lt (Nat.mod_lt _ (by decide))
      rw [h.byte_put hv hlast cleared k hk, ← hclear, Block.byte_clearFrom _ hmod]
      by_cases hkl : k / blockSize = c.blockCount - 1
      · rw [if_pos hkl, byte, hkl]
        simp only [blockSize] at *
        by_cases hks : k < c.size.toNat
        · rw [if_pos hks, if_neg (by omega)]
        · rw [if_neg hks, if_pos (by omega)]
      · rw [if_neg hkl, if_pos]
        simp only [blockSize] at *
        omega

end ImageFS.Chain
