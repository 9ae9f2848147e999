import ImageFS.Proofs.Chain.Payload

/-!
# Resizing a chain

A chain can be given any size for which the tiers have slots and the volume has blocks; nothing else
decides whether that succeeds. The bytes up to the smaller size stay, bytes that come in are zero. When
the volume runs out of blocks on the way, what was added is taken off again, and the chain and the map
are as they were.
-/

set_option autoImplicit false

namespace ImageFS.Chain

open Volume Holding

variable {c c' c'' : Chain} {v w u : Volume} {bs : List UInt32} {k n : Nat}

/-- `c'` on `w` is `c` on `v` with zeroed blocks added at the end. -/
structure Grown (c : Chain) (v : Volume) (c' : Chain) (w : Volume) : Prop where
  moves : Moves c v c' w
  longer : Extends c v c' w
  zero : ∀ k, c.blockCount ≤ k → k < c'.blockCount → w.cell (c'.pointer w.cell (.data k)) = .zero

theorem Grown.refl (h : c.Held v) (hv : v.Sound) : Grown c v c v :=
  ⟨h.moves_refl hv, .refl, fun _ hlow hhigh => absurd hhigh (Nat.not_lt_of_le hlow)⟩

theorem Grown.trans (g : Grown c v c' w) (g' : Grown c' w c'' u) : Grown c v c'' u where
  moves := g.moves.trans g'.moves
  longer := g.longer.trans g'.longer
  zero k hlow hhigh := by
    by_cases hk : k < c'.blockCount
    · have hcontents := g'.longer.contents k hk
      rw [g'.longer.kept (.data k) hk, hcontents]
      exact g.zero k hlow hk
    · exact g'.zero k (Nat.le_of_not_lt hk) hhigh

theorem Extended.size (ext : Extended c v bs c' u) (s : UInt32) : Extended c v bs { c' with size := s } u := by
  have same : ({ c' with size := s } : Chain).pointer u.cell = c'.pointer u.cell := funext (c'.pointer_size u.cell s)
  refine ⟨ext.taken, ?_, ?_, ?_⟩
  · rw [same]
    exact ext.new
  · rw [same]
    exact ext.old
  · rw [same]
    exact ext.zero

theorem Cut.size {ps : List Place} (cut : Cut c v ps c' u) (s : UInt32) : Cut c v ps { c' with size := s } u := by
  refine ⟨cut.evolves, cut.bits, cut.freeBlocks, cut.cell, fun r => ?_⟩
  rw [pointer_size]
  exact cut.pointer r

theorem grow_ok (h : c.Held v) (hv : v.Sound) (hshort : c.blockCount < 65802)
    (hfree : cost (c.blockCount + 1) ≤ cost c.blockCount + v.freeBlocks) :
    ∃ c' u, c.grow v = .ok c' u ∧ c'.size = .ofNat ((c.blockCount + 1) * blockSize) ∧
      c'.blockCount = c.blockCount + 1 ∧ Grown c v c' u := by
  have hmax : Tiers.onDisk.maxBlocks = 65802 := rfl
  rw [cost_succ] at hfree
  obtain ⟨c₁, u, hrun, -, bs, ext⟩ := extend_ok h hv hshort (by omega)
  have count : ({ c₁ with size := .ofNat ((c.blockCount + 1) * blockSize) } : Chain).blockCount = c.blockCount + 1 :=
    blockCount_of_size (by omega) rfl
  have ext := ext.size (.ofNat ((c.blockCount + 1) * blockSize))
  refine ⟨_, u, ?_, rfl, count, ext.moves h count, ext.extends h count, fun k hlow hhigh => ?_⟩
  · rw [grow, if_neg (by omega)]
    exact bind_of_ok hrun
  · obtain rfl : k = c.blockCount := by omega
    exact ext.zero

theorem grow_noSpace (h : c.Held v) (hv : v.Sound) (hshort : c.blockCount < 65802)
    (hfree : cost c.blockCount + v.freeBlocks < cost (c.blockCount + 1)) :
    ∃ u, c.grow v = .error .noSpace u ∧ Restored v u := by
  have hmax : Tiers.onDisk.maxBlocks = 65802 := rfl
  rw [cost_succ] at hfree
  obtain ⟨u, hrun, restored⟩ := extend_noSpace h hv hshort (by omega)
  refine ⟨u, ?_, restored⟩
  rw [grow, if_neg (by omega)]
  exact bind_of_error hrun

theorem grow_tooLarge (hlong : 65802 ≤ c.blockCount) : c.grow v = .error .fileTooLarge v := by
  have hmax : Tiers.onDisk.maxBlocks ≤ c.blockCount := hlong
  rw [grow, if_pos hmax]
  rfl

theorem shrink_ok (h : c.Held v) (hv : v.Sound) (hn : c.blockCount = n + 1) :
    ∃ c' u, c.shrink v = .ok c' u ∧ c'.blockCount = n ∧ Moves c v c' u ∧ Extends c' u c v := by
  have hshort := h.short
  obtain ⟨c₁, u, hrun, -, cut⟩ := retract_ok h hv hn
  have count : ({ c₁ with size := .ofNat (n * blockSize) } : Chain).blockCount = n :=
    blockCount_of_size (by omega) rfl
  have cut := cut.size (.ofNat (n * blockSize))
  refine ⟨_, u, ?_, count, cut.moves h hn count, cut.extends h hn count⟩
  rw [shrink, if_neg (by omega), hn]
  exact bind_of_ok hrun

theorem growBy_ok (h : c.Held v) (hv : v.Sound) (k : Nat) (hshort : c.blockCount + k ≤ 65802)
    (hfree : cost (c.blockCount + k) ≤ cost c.blockCount + v.freeBlocks) :
    ∃ c' u, growBy k (c, v) = .ok () (c', u) ∧ c'.blockCount = c.blockCount + k ∧ Grown c v c' u := by
  induction k generalizing c v with
  | zero => exact ⟨c, v, rfl, rfl, .refl h hv⟩
  | succ k ih =>
    have hstep := cost_mono (show c.blockCount + 1 ≤ c.blockCount + (k + 1) by omega)
    obtain ⟨c₁, v₁, hrun, -, count, grown⟩ := grow_ok h hv (by omega) (by omega)
    have hcount : c₁.blockCount + k = c.blockCount + (k + 1) := by omega
    have hblocks := grown.longer.freeBlocks
    obtain ⟨c₂, v₂, hrest, count', grown'⟩ := ih grown.moves.held grown.moves.evolves.sound (by omega) (by
      rw [hcount]
      omega)
    refine ⟨c₂, v₂, ?_, by omega, grown.trans grown'⟩
    rw [growBy, bind_of_ok (update_of_ok hrun), hrest]

theorem growBy_noSpace (h : c.Held v) (hv : v.Sound) (k : Nat) (hshort : c.blockCount + k ≤ 65802)
    (hfree : cost c.blockCount + v.freeBlocks < cost (c.blockCount + k)) :
    ∃ c' u, growBy k (c, v) = .error .noSpace (c', u) ∧ Grown c v c' u := by
  induction k generalizing c v with
  | zero =>
    rw [Nat.add_zero] at hfree
    omega
  | succ k ih =>
    by_cases hstep : cost (c.blockCount + 1) ≤ cost c.blockCount + v.freeBlocks
    · obtain ⟨c₁, v₁, hrun, -, count, grown⟩ := grow_ok h hv (by omega) hstep
      have hcount : c₁.blockCount + k = c.blockCount + (k + 1) := by omega
      have hblocks := grown.longer.freeBlocks
      obtain ⟨c₂, v₂, hrest, grown'⟩ := ih grown.moves.held grown.moves.evolves.sound (by omega) (by
        rw [hcount]
        omega)
      refine ⟨c₂, v₂, ?_, grown.trans grown'⟩
      rw [growBy, bind_of_ok (update_of_ok hrun), hrest]
    · obtain ⟨u, hrun, restored⟩ := grow_noSpace h hv (by omega) (by omega)
      refine ⟨c, u, ?_, h.moves_restored restored, h.extends_restored restored, fun j hlow hhigh => ?_⟩
      · rw [growBy, bind_of_error (update_of_error hrun)]
      · omega

theorem shrinkBy_ok (h : c.Held v) (hv : v.Sound) (k : Nat) (hk : k ≤ c.blockCount) :
    ∃ c' u, shrinkBy k (c, v) = .ok () (c', u) ∧ c'.blockCount + k = c.blockCount ∧
      Moves c v c' u ∧ Extends c' u c v := by
  induction k generalizing c v with
  | zero => exact ⟨c, v, rfl, rfl, h.moves_refl hv, .refl⟩
  | succ k ih =>
    obtain ⟨n, hn⟩ : ∃ n, c.blockCount = n + 1 := ⟨c.blockCount - 1, by omega⟩
    obtain ⟨c₁, v₁, hrun, count, moves, hext⟩ := shrink_ok h hv hn
    obtain ⟨c₂, v₂, hrest, count', moves', hext'⟩ := ih moves.held moves.evolves.sound (by omega)
    refine ⟨c₂, v₂, ?_, by omega, moves.trans moves', hext'.trans hext⟩
    rw [shrinkBy, bind_of_ok (update_of_ok hrun), hrest]

/-- `c'` on `u` is `c` on `v` cut or filled up to `size` bytes. -/
structure Resized (c : Chain) (v : Volume) (size : Nat) (c' : Chain) (u : Volume) : Prop where
  moves : Moves c v c' u
  length : c'.size.toNat = size
  kept : ∀ p : Place, p.birth < c.blockCount → p.birth < c'.blockCount → c'.pointer u.cell p = c.pointer v.cell p
  bytes : ∀ k < size, c'.byte u.cell k = if k < c.size.toNat then c.byte v.cell k else 0
  tail : size ≠ c.size.toNat → ∀ k, size ≤ k → k / blockSize < c'.blockCount → c'.byte u.cell k = 0
  freeBlocks : u.freeBlocks + cost (blocksForSize size) = v.freeBlocks + cost c.blockCount

/-- The chain is on `u` what it was on `v`, and the map has the same blocks free. -/
structure Kept (c : Chain) (v u : Volume) : Prop where
  moves : Moves c v c u
  bits : ∀ i, u.freeMap.bit i = v.freeMap.bit i
  pointers : ∀ p, c.pointer u.cell p = c.pointer v.cell p
  bytes : ∀ k < c.size.toNat, c.byte u.cell k = c.byte v.cell k
  tail : ∀ k, c.size.toNat ≤ k → k / blockSize < c.blockCount →
    c.byte u.cell k = 0 ∨ c.byte u.cell k = c.byte v.cell k

theorem Held.kept_refl (h : c.Held v) (hv : v.Sound) : Kept c v v :=
  ⟨h.moves_refl hv, fun _ => rfl, fun _ => rfl, fun _ _ => rfl, fun _ _ _ => .inr rfl⟩

theorem Extends.byte (e : Extends c v c' w) (hk : k / blockSize < c.blockCount) :
    c'.byte w.cell k = c.byte v.cell k := by
  unfold Chain.byte
  rw [e.kept (.data (k / blockSize)) hk, e.contents _ hk]

theorem setSize_eq (s : UInt32) : setSize s (c, v) = .ok () ({ c with size := s }, v) := rfl

theorem undoGrowth_ok (h : c.Held v) (grown : Grown c v c' w) :
    ∃ u, c.undoGrowth (c', w) = .ok () (c, u) ∧ Moves c v c u ∧ (∀ i, u.freeMap.bit i = v.freeMap.bit i) ∧
      (∀ p, c.pointer u.cell p = c.pointer v.cell p) ∧
      ∀ k, k / blockSize < c.blockCount → c.byte u.cell k = c.byte v.cell k := by
  have hle := grown.longer.count
  obtain ⟨c₂, u, hrun, hcount, moves, longer⟩ :=
    shrinkBy_ok grown.moves.held grown.moves.evolves.sound (c'.blockCount - c.blockCount) (Nat.sub_le _ _)
  have count : c₂.blockCount = c.blockCount := by omega
  have pointers : ∀ p : Place, c₂.pointer u.cell p = c.pointer v.cell p := by
    intro p
    by_cases hp : p.birth < c.blockCount
    · rw [← longer.kept p (by omega), grown.longer.kept p hp]
    · rw [(h.null_iff p).mpr (by omega), (moves.held.null_iff p).mpr (by omega)]
  have same : ({ c₂ with size := c.size } : Chain) = c :=
    ext_pointer u.cell v.cell rfl fun p => (c₂.pointer_size u.cell c.size p).trans (pointers p)
  have hmoves := (grown.moves.trans moves).trans (moves.held.moves_size moves.evolves.sound (s := c.size) count.symm)
  rw [same] at hmoves
  refine ⟨u, ?_, hmoves, fun i => ?_, fun p => ?_, fun k hk => ?_⟩
  · rw [undoGrowth, object_bind, bind_of_ok hrun, setSize_eq, same]
  · apply Bool.eq_iff_iff.mpr
    rw [grown.longer.bits, longer.bits, count]
  · rw [← pointers p, ← same, pointer_size]
  · have hback := longer.byte (k := k) (by omega)
    have hforth := grown.longer.byte hk
    rw [← same, byte_size, ← hback, hforth, same]

theorem resize_tooLarge {size : Nat} (hsize : 65802 * blockSize < size) :
    resize size (c, v) = .error .fileTooLarge (c, v) := by
  have hmax : Tiers.onDisk.maxBlocks = 65802 := rfl
  rw [resize, object_bind]
  dsimp only
  rw [if_pos, bind_of_error (throw_run _ _)]
  simp only [hmax, blocksForSize, ceilDiv, blockSize] at *
  omega

section

variable {size : Nat} (h : c.Held v) (hv : v.Sound) (hsize : size ≤ 65802 * blockSize)

include hsize in
theorem resize_guard : ¬ (Tiers.onDisk.maxBlocks < blocksForSize size ∨ UInt32.size ≤ size) := by
  have hmax : Tiers.onDisk.maxBlocks = 65802 := rfl
  simp only [hmax, blocksForSize, ceilDiv, blockSize, UInt32.size] at *
  omega

include hsize in
theorem toNat_size : (UInt32.ofNat size).toNat = size := by
  apply UInt32.toNat_ofNat_of_lt'
  simp only [UInt32.size, blockSize] at *
  omega

include hsize in
theorem blocksForSize_short : blocksForSize size ≤ 65802 := by
  simp only [blocksForSize, ceilDiv, blockSize] at *
  omega

theorem blocksForSize_le {a b : Nat} (hab : a ≤ b) : blocksForSize a ≤ blocksForSize b := by
  simp only [blocksForSize, ceilDiv, blockSize]
  omega

include h hv hsize

theorem resize_noSpace (hfree : cost c.blockCount + v.freeBlocks < cost (blocksForSize size)) :
    ∃ u, resize size (c, v) = .error .noSpace (c, u) ∧ Kept c v u := by
  have hmore : c.blockCount < blocksForSize size := by
    by_contra hle
    have := cost_mono (Nat.le_of_not_lt hle)
    omega
  have hlt : c.size.toNat < size := by
    by_contra hle
    have : blocksForSize size ≤ c.blockCount := blocksForSize_le (Nat.le_of_not_lt hle)
    omega
  have hshort := blocksForSize_short hsize
  obtain ⟨v₁, htail, stored, hbytes⟩ := zeroTail_ok h hv
  have hcount : c.blockCount + (blocksForSize size - c.blockCount) = blocksForSize size := by omega
  obtain ⟨c₂, v₂, hgrow, grown⟩ := growBy_noSpace (stored.held h) stored.evolves.sound
    (blocksForSize size - c.blockCount) (by omega) (by
      rw [hcount, stored.freeBlocks]
      exact hfree)
  obtain ⟨u, hundo, moves, bits, pointers, bytes⟩ := undoGrowth_ok (stored.held h) grown
  refine ⟨u, ?_, (stored.moves h).trans moves, fun i => ?_, fun p => ?_, fun k hk => ?_, fun k hk hin => ?_⟩
  · rw [resize, object_bind]
    dsimp only
    rw [if_neg (resize_guard hsize), if_pos hlt, bind_of_ok (onVolume_of_ok htail), bind_of_error]
    rw [catch_of_error hgrow, if_pos rfl, bind_of_ok hundo]
    rfl
  · rw [bits, stored.map]
  · rw [pointers, stored.pointer h]
  · rw [bytes k (lt_blockCount hk), hbytes k (lt_blockCount hk), if_pos hk]
  · rw [bytes k hin, hbytes k hin, if_neg (Nat.not_lt_of_le hk)]
    exact .inl rfl

theorem resize_longer (hlt : c.size.toNat < size)
    (hfree : cost (blocksForSize size) ≤ cost c.blockCount + v.freeBlocks) :
    ∃ c' u, resize size (c, v) = .ok () (c', u) ∧ Resized c v size c' u := by
  have hle : c.blockCount ≤ blocksForSize size := blocksForSize_le (Nat.le_of_lt hlt)
  have hshort := blocksForSize_short hsize
  obtain ⟨v₁, htail, stored, hbytes⟩ := zeroTail_ok h hv
  have hcount : c.blockCount + (blocksForSize size - c.blockCount) = blocksForSize size := by omega
  obtain ⟨c₂, v₂, hgrow, count, grown⟩ := growBy_ok (stored.held h) stored.evolves.sound
    (blocksForSize size - c.blockCount) (by omega) (by
      rw [hcount, stored.freeBlocks]
      exact hfree)
  rw [hcount] at count
  have hnat := toNat_size hsize
  have resized := grown.moves.held.moves_size grown.moves.evolves.sound (s := .ofNat size) (by rw [hnat, count])
  -- Behind the old end there are zeros: the old tail was cleared, and new blocks are zero.
  have hall : ∀ k, k / blockSize < blocksForSize size → ({ c₂ with size := .ofNat size } : Chain).byte v₂.cell k =
      if k < c.size.toNat then c.byte v.cell k else 0 := by
    intro k hk
    rw [byte_size]
    by_cases hold : k / blockSize < c.blockCount
    · rw [grown.longer.byte hold, hbytes k hold]
    · have hout : ¬ k < c.size.toNat := fun hc => hold (lt_blockCount hc)
      rw [if_neg hout, byte, grown.zero _ (Nat.le_of_not_lt hold) (count.symm ▸ hk), Block.byte_zero]
  have hfilled : ({ c₂ with size := .ofNat size } : Chain).blockCount = blocksForSize size := by rw [blockCount, hnat]
  refine ⟨{ c₂ with size := .ofNat size }, v₂, ?_, ((stored.moves h).trans grown.moves).trans resized, hnat,
    fun p hp _ => ?_, fun k hk => hall k ?_, fun _ k hk hin => ?_, ?_⟩
  · have hzero : c.blockCount - blocksForSize size = 0 := by omega
    rw [resize, object_bind]
    dsimp only
    rw [if_neg (resize_guard hsize), if_pos hlt, bind_of_ok (onVolume_of_ok htail), bind_of_ok (catch_of_ok hgrow),
      hzero, bind_of_ok (show shrinkBy 0 (c₂, v₂) = .ok () (c₂, v₂) from rfl),
      bind_of_ok (setSize_eq _), if_neg (by omega)]
    rfl
  · rw [pointer_size, grown.longer.kept p hp, stored.pointer h]
  · rw [← hfilled]
    exact lt_blockCount (hnat.symm ▸ hk)
  · rw [hall k (hfilled ▸ hin), if_neg (by omega)]
  · have hblocks := grown.longer.freeBlocks
    rw [count, stored.freeBlocks] at hblocks
    exact hblocks.symm

theorem resize_cut (hle : size ≤ c.size.toNat) :
    ∃ c' w, resize size (c, v) = (if size < c.size.toNat then do
        onVolume (← object).zeroTail
      else pure () : Holding Chain Unit) (c', w) ∧ c'.size.toNat = size ∧ Moves c v c' w ∧
      (∀ p : Place, p.birth < blocksForSize size → c'.pointer w.cell p = c.pointer v.cell p) ∧
      (∀ k < size, c'.byte w.cell k = c.byte v.cell k) ∧
      w.freeBlocks + cost (blocksForSize size) = v.freeBlocks + cost c.blockCount := by
  have hcount : blocksForSize size ≤ c.blockCount := blocksForSize_le hle
  have hzero : blocksForSize size - c.blockCount = 0 := by omega
  obtain ⟨c₁, v₁, hshrink, count, moves, longer⟩ := shrinkBy_ok h hv (c.blockCount - blocksForSize size) (by omega)
  have count : c₁.blockCount = blocksForSize size := by omega
  have hnat := toNat_size hsize
  have resized := moves.held.moves_size moves.evolves.sound (s := .ofNat size) (by rw [hnat, count])
  refine ⟨{ c₁ with size := .ofNat size }, v₁, ?_, hnat, moves.trans resized, fun p hp => ?_, fun k hk => ?_, ?_⟩
  · rw [resize, object_bind]
    dsimp only
    rw [if_neg (resize_guard hsize), if_neg (by omega), hzero,
      bind_of_ok (catch_of_ok (show growBy 0 (c, v) = .ok () (c, v) from rfl)), bind_of_ok hshrink,
      bind_of_ok (setSize_eq _)]
  · rw [pointer_size, ← longer.kept p (count.symm ▸ hp)]
  · have hin : k / blockSize < c₁.blockCount := by
      rw [count]
      simp only [blocksForSize, ceilDiv, blockSize] at *
      omega
    rw [byte_size, longer.byte hin]
  · rw [← count]
    exact longer.freeBlocks

theorem resize_shorter (hle : size ≤ c.size.toNat) :
    ∃ c' u, resize size (c, v) = .ok () (c', u) ∧ Resized c v size c' u := by
  obtain ⟨c', w, hrun, hnat, moves, hkept, hbytes, hblocks⟩ := resize_cut h hv hsize hle
  have hfilled : c'.blockCount = blocksForSize size := congrArg blocksForSize hnat
  rw [hrun]
  by_cases hlt : size < c.size.toNat
  · obtain ⟨u, htail, stored, htailBytes⟩ := zeroTail_ok moves.held moves.evolves.sound
    refine ⟨c', u, ?_, moves.trans (stored.moves moves.held), hnat, fun p _ hp => ?_, fun k hk => ?_,
      fun _ k hk hin => ?_, ?_⟩
    · rw [if_pos hlt]
      exact onVolume_of_ok htail
    · rw [stored.pointer moves.held, hkept p (hfilled ▸ hp)]
    · have hks : k < c'.size.toNat := hnat.symm ▸ hk
      rw [htailBytes k (lt_blockCount hks), if_pos hks, hbytes k hk, if_pos (by omega)]
    · rw [htailBytes k hin, if_neg (Nat.not_lt_of_le (hnat.symm ▸ hk))]
    · rw [stored.freeBlocks]
      exact hblocks
  · refine ⟨c', w, ?_, moves, hnat, fun p _ hp => hkept p (hfilled ▸ hp), fun k hk => ?_,
      fun hne => absurd (Nat.le_antisymm hle (Nat.le_of_not_lt hlt)) hne, hblocks⟩
    · rw [if_neg hlt]
      rfl
    · rw [hbytes k hk, if_pos (by omega)]

theorem resize_ok (hfree : cost (blocksForSize size) ≤ cost c.blockCount + v.freeBlocks) :
    ∃ c' u, resize size (c, v) = .ok () (c', u) ∧ Resized c v size c' u := by
  by_cases hlt : c.size.toNat < size
  · exact resize_longer h hv hsize hlt hfree
  · exact resize_shorter h hv hsize (Nat.le_of_not_lt hlt)

omit hsize in
theorem resize_cases (size : Nat) :
    (65802 * blockSize < size ∧ (resize size).run c v = (.error .fileTooLarge, c, v)) ∨
    (size ≤ 65802 * blockSize ∧ cost c.blockCount + v.freeBlocks < cost (blocksForSize size) ∧
      ∃ u, (resize size).run c v = (.error .noSpace, c, u) ∧ Kept c v u) ∨
    (size ≤ 65802 * blockSize ∧ cost (blocksForSize size) ≤ cost c.blockCount + v.freeBlocks ∧
      ∃ c' u, (resize size).run c v = (.ok (), c', u) ∧ Resized c v size c' u) := by
  by_cases hsize : size ≤ 65802 * blockSize
  · by_cases hfree : cost (blocksForSize size) ≤ cost c.blockCount + v.freeBlocks
    · obtain ⟨c', u, hrun, resized⟩ := resize_ok h hv hsize hfree
      exact .inr (.inr ⟨hsize, hfree, c', u, Holding.run_of_ok hrun, resized⟩)
    · obtain ⟨u, hrun, kept⟩ := resize_noSpace h hv hsize (Nat.lt_of_not_le hfree)
      exact .inr (.inl ⟨hsize, Nat.lt_of_not_le hfree, u, Holding.run_of_error hrun, kept⟩)
  · exact .inl ⟨Nat.lt_of_not_le hsize, Holding.run_of_error (resize_tooLarge (Nat.lt_of_not_le hsize))⟩

end

end ImageFS.Chain
