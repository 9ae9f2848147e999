import ImageFS.Proofs.Chain.Contents
import ImageFS.Proofs.Volume.Rejecting

/-!
# Growing a chain where blocks reject writes

On a device that rejects the writes to some blocks a chain grows as far as it can: a step that fails is as if it had
not been tried. The index blocks through which it has grown take writes, so when space runs out the blocks that were
added are all taken off again. Whatever stops a change of size or a write, what it leaves is a held chain.
-/

set_option autoImplicit false

namespace ImageFS.Chain

open Volume Holding

variable {B : Set Nat} {c c' : Chain} {v w x y u : Volume} {k n : Nat}

theorem bounces_link (h : Rejecting B v v w) (c : Chain) {table : UInt32} (htable : table.toNat ∉ B)
    (outer inner : Nat) (data : UInt32) :
    let link : VolumeM Chain := tryCatch (do
      writePointer c.doubly outer table
      writePointer table inner data
      return c) fun e => do
        tryCatch (writePointer c.doubly outer nullPointer) fun _ => pure ()
        throw e
    Bounces B v (link v) (link w) := by
  have hclear : ∀ {y y' e}, writePointer c.doubly outer nullPointer y = .error e y' →
      (tryCatch (writePointer c.doubly outer nullPointer) fun _ => pure () : VolumeM Unit) y = .ok () y' :=
    fun hrun => catch_of_error hrun
  by_cases hB : c.doubly.toNat ∈ B
  · rcases h.writePointer hB outer with ⟨e, hfails⟩ | hrejected
    · left
      obtain ⟨hv, hw⟩ := hfails table w h
      obtain ⟨hv', hw'⟩ := hfails nullPointer w h
      rw [catch_of_error (bind_of_error hv), catch_of_error (bind_of_error hw), bind_of_ok (hclear hv'),
        bind_of_ok (hclear hw')]
      exact .error h
    · obtain ⟨e, y, hfirst, hy⟩ := hrejected table w h
      obtain ⟨e', y', hsecond, hy'⟩ := hrejected nullPointer y hy
      refine .inr ⟨e, v, y', ?_, hy', .refl h.sound⟩
      rw [catch_of_error (bind_of_error hfirst), bind_of_ok (hclear hsecond)]
      rfl
  · left
    refine Respects.tryCatch (.bind (respects_writePointer_spared hB outer table) fun _ =>
      .bind (respects_writePointer_spared htable inner data) fun _ => .pure _) (fun e => ?_) v w h
    exact .bind (.tryCatch (respects_writePointer_spared hB outer nullPointer) fun _ => .pure _) fun _ => .throw e

theorem bounces_extend (h : Rejecting B v v w) (c : Chain) (slot : Slot) :
    Bounces B v (c.extend slot v) (c.extend slot w) := by
  cases slot with
  | direct i => exact bounces_withFresh h fun data x y _ hxy _ => .inl (.ok hxy)
  | indirect i =>
    rw [extend]
    split
    · refine bounces_withFresh h fun table x y htable hxy _ => bounces_withFresh hxy fun data x y _ hxy _ => ?_
      exact .inl (((respects_writePointer_spared htable i data).bind fun _ => .pure _) x y hxy)
    · refine bounces_withFresh h fun data x y _ hxy _ => ?_
      exact (bounces_writePointer hxy c.indirect i data).bind fun _ => .pure _
  | doubly outer inner =>
    rw [extend]
    split
    · refine bounces_withFresh h fun top x y htop hxy _ => bounces_withFresh hxy fun table x y htable hxy _ =>
        bounces_withFresh hxy fun data x y _ hxy _ => ?_
      exact .inl (((respects_writePointer_spared htop outer table).bind fun _ =>
        (respects_writePointer_spared htable inner data).bind fun _ => .pure _) x y hxy)
    · refine bounces_ask h (h.sameReads.readPointer c.doubly outer) fun old _ => ?_
      split
      · refine bounces_withFresh h fun table x y htable hxy _ => bounces_withFresh hxy fun data x y _ hxy _ => ?_
        exact bounces_link hxy c htable outer inner data
      · refine bounces_withFresh h fun data x y _ hxy _ => ?_
        refine bounces_ask hxy (hxy.sameReads.readPointer c.doubly outer) fun entry _ => ?_
        refine bounces_ask hxy rfl fun table _ => ?_
        exact (bounces_writePointer hxy table inner data).bind fun _ => .pure _

inductive Hindrance : Error → Prop
  | noSpace : Hindrance .noSpace
  | fileTooLarge : Hindrance .fileTooLarge
  | device (e : DeviceError) : Hindrance (.device e)
  | corrupt (cause : Corruption) : Hindrance (.corrupt cause)

theorem grow_ends (h : Rejecting B v v w) (held : c.Held v) :
    (∃ c' u u', c.grow w = .ok c' u' ∧ Rejecting B v u u' ∧ c'.blockCount = c.blockCount + 1 ∧ Grown c v c' u) ∨
      ∃ e u u', c.grow w = .error e u' ∧ Hindrance e ∧ Rejecting B v u u' ∧ Restored v u := by
  have hsound := h.sound
  have hmax : Tiers.onDisk.maxBlocks = 65802 := rfl
  by_cases hlong : 65802 ≤ c.blockCount
  · exact .inr ⟨_, v, w, grow_tooLarge hlong, .fileTooLarge, h, .refl hsound⟩
  · have hshort := Nat.lt_of_not_le hlong
    have hbounces : Bounces B v (c.grow v) (c.grow w) := by
      rw [grow, if_neg (by omega)]
      exact (bounces_extend h c _).bind fun _ => .pure _
    rcases hbounces with hagree | ⟨e, u, u', hrun, hu, restored⟩
    · by_cases hfree : cost (c.blockCount + 1) ≤ cost c.blockCount + v.freeBlocks
      · obtain ⟨c', x, hrun, -, count, grown⟩ := grow_ok held hsound hshort hfree
        obtain ⟨u', hw, hu⟩ := hagree.of_ok hrun
        exact .inl ⟨c', x, u', hw, hu, count, grown⟩
      · obtain ⟨x, hrun, restored⟩ := grow_noSpace held hsound hshort (Nat.lt_of_not_le hfree)
        obtain ⟨u', hw, hu⟩ := hagree.of_error hrun
        exact .inr ⟨_, x, u', hw, .noSpace, hu, restored⟩
    · exact .inr ⟨_, u, u', hrun, .device e, hu, restored⟩

theorem grown_of_restored (held : c.Held v) (restored : Restored v u) : Grown c v c u :=
  ⟨held.moves_restored restored, held.extends_restored restored, fun _ hlow hhigh =>
    absurd hhigh (Nat.not_lt_of_le hlow)⟩

theorem growBy_ends (h : Rejecting B v v w) (held : c.Held v) (k : Nat) :
    (∃ c' u u', growBy k (c, w) = .ok () (c', u') ∧ c'.blockCount = c.blockCount + k ∧ Rejecting B v u u' ∧
      Grown c v c' u) ∨
    ∃ e c' u u', growBy k (c, w) = .error e (c', u') ∧ Hindrance e ∧ Rejecting B v u u' ∧ Grown c v c' u := by
  induction k generalizing c v w with
  | zero => exact .inl ⟨c, v, w, rfl, rfl, h, .refl held h.sound⟩
  | succ k ih =>
    rw [growBy]
    rcases grow_ends h held with ⟨c₁, v₁, w₁, hrun, h₁, count, grown⟩ | ⟨e, u, u', hrun, he, hu, restored⟩
    · rw [bind_of_ok (update_of_ok hrun)]
      rcases ih h₁.rebase grown.moves.held with
        ⟨c', u, u', hrest, count', hu, grown'⟩ | ⟨e, c', u, u', hrest, he, hu, grown'⟩
      · exact .inl ⟨c', u, u', hrest, by omega, h₁.trans hu, grown.trans grown'⟩
      · exact .inr ⟨e, c', u, u', hrest, he, h₁.trans hu, grown.trans grown'⟩
    · exact .inr ⟨e, c, u, u', bind_of_error (update_of_error hrun), he, hu, grown_of_restored held restored⟩

/-- The index blocks that name the blocks of the chain from the `n`-th on take writes. -/
def Wired (B : Set Nat) (c : Chain) (v : Volume) (n : Nat) : Prop :=
  ∀ (p q : Place) (i : Nat), p.parent? = some (q, i) → n ≤ p.birth → p.birth < c.blockCount →
    (c.pointer v.cell q).toNat ∉ B

/-- The chain has grown through blocks that take writes: a new index block is none of `B`, for nothing of that was
taken, and neither is an old one, for a slot of it was filled. -/
theorem Grown.wired (grown : Grown c v c' u) (held : c.Held v) (h : Rejecting B v u w) : Wired B c' u c.blockCount := by
  intro p q i hp hlow hhigh hB
  have hbirth := Place.birth_parent_le hp
  have hq : c'.pointer u.cell q ≠ nullPointer := (grown.moves.held.shape q).mpr (by omega)
  by_cases hnew : c.blockCount ≤ q.birth
  · have hfree := (grown.longer.bits _).mpr (.inr ⟨q, hnew, by omega, rfl⟩)
    have hbusy := h.busy _ hB (grown.moves.held.busy q hq)
    rw [Busy, hfree] at hbusy
    cases hbusy
  · have hkept := grown.longer.kept q (Nat.lt_of_not_le hnew)
    have hnull := (held.null_iff p).mpr hlow
    refine (grown.moves.held.shape p).mpr hhigh ?_
    rw [pointer_of_parent hp] at hnull ⊢
    rw [follow_of_ne _ hq, h.cell _ hB, hkept]
    rwa [follow_of_ne _ (hkept ▸ hq)] at hnull

section

variable (h : Rejecting B v v w)

include h

theorem retract_direct_agrees (c : Chain) (i : Nat) :
    Agree (Rejecting B v) (c.retract (.direct i) v) (c.retract (.direct i) w) := by
  rw [retract]
  exact .ask h rfl fun data _ => (respects_free_rejecting data).bind (fun _ => .pure _) v w h

theorem retract_indirect_agrees (htable : c.indirect.toNat ∉ B) (i : Nat) :
    Agree (Rejecting B v) (c.retract (.indirect i) v) (c.retract (.indirect i) w) := by
  rw [retract]
  refine .ask h rfl fun table hrequired => ?_
  obtain rfl := eq_of_required hrequired
  refine .ask h (h.sameReads.readPointer _ _) fun entry _ => .ask h rfl fun data _ => ?_
  refine (Respects.bind (respects_free_rejecting data) fun _ => .bind (respects_writePointer_spared htable _ _)
    fun _ => ?_) v w h
  exact .ite (.bind (respects_free_rejecting _) fun _ => .pure _) (.pure _)

theorem retract_doubly_agrees {table : UInt32} {outer inner : Nat} (hread : v.readPointer c.doubly outer = .ok table)
    (htable : table.toNat ∉ B) (htop : inner = 0 → c.doubly.toNat ∉ B) :
    Agree (Rejecting B v) (c.retract (.doubly outer inner) v) (c.retract (.doubly outer inner) w) := by
  rw [retract]
  refine .ask h rfl fun top hrequired => ?_
  obtain rfl := eq_of_required hrequired
  refine .ask h (h.sameReads.readPointer _ _) fun entry hentry => .ask h rfl fun _ hrequired => ?_
  obtain rfl := eq_of_required hrequired
  obtain rfl := Except.ok.inj (hread.symm.trans hentry)
  refine .ask h (h.sameReads.readPointer _ _) fun entry _ => .ask h rfl fun data _ => ?_
  refine (Respects.bind (respects_free_rejecting data) fun _ => .bind (respects_writePointer_spared htable _ _)
    fun _ => ?_) v w h
  by_cases hinner : inner = 0
  · rw [if_pos hinner]
    refine .bind (respects_free_rejecting _) fun _ => .bind (respects_writePointer_spared (htop hinner) _ _) fun _ => ?_
    exact .ite (.bind (respects_free_rejecting _) fun _ => .pure _) (.pure _)
  · rw [if_neg hinner]
    exact .pure _

theorem shrink_agrees (held : c.Held v) (hn : c.blockCount = n + 1) (wired : Wired B c v n) :
    Agree (Rejecting B v) (c.shrink v) (c.shrink w) := by
  have hlast : (Place.data n).birth < c.blockCount := by
    rw [Place.birth_data]
    omega
  rw [shrink, if_neg (by omega), hn, Nat.add_sub_cancel]
  refine Agree.bind ?_ fun _ _ _ _ h' => .ok h'
  rcases Place.tier_cases n with hd | ⟨hlow, hhigh⟩ | hlow
  · rw [Place.locate_direct hd]
    exact retract_direct_agrees h c n
  · rw [Place.locate_indirect hlow hhigh]
    exact retract_indirect_agrees h (wired _ .indirect _ (Place.parent_indirect hlow hhigh) (Nat.le_refl _) hlast) _
  · have hparent := Place.parent_doubly hlow
    have hshort := held.short
    have hbirth : (Place.table ((n - 266) / 256)).birth ≤ n := Place.birth_parent_le hparent
    have hdoubly : Place.doubly.birth < c.blockCount := Nat.lt_of_le_of_lt hlow (by omega)
    have hread := held.readPointer h.sound (Place.parent_table ((n - 266) / 256)) (by omega) hdoubly
    rw [Place.locate_doubly hlow]
    refine retract_doubly_agrees h hread (wired _ _ _ hparent (Nat.le_refl _) hlast) fun hinner => ?_
    refine wired (.table ((n - 266) / 256)) .doubly _ (Place.parent_table _) ?_ (by omega)
    rw [Place.birth_table]
    omega

end

theorem shrinkBy_agrees (h : Rejecting B v v w) (held : c.Held v) (hn : c.blockCount = n + k) (wired : Wired B c v n) :
    ∃ c' u u', shrinkBy k (c, v) = .ok () (c', u) ∧ shrinkBy k (c, w) = .ok () (c', u') ∧ Rejecting B v u u' := by
  induction k generalizing c v w with
  | zero => exact ⟨c, v, w, rfl, rfl, h⟩
  | succ k ih =>
    have hlast : c.blockCount = n + k + 1 := hn
    obtain ⟨c₁, v₁, hrun, count, moves, longer⟩ := shrink_ok held h.sound hlast
    have hagree := shrink_agrees h held hlast fun p q i hp hlow hhigh => wired p q i hp (by omega) hhigh
    obtain ⟨w₁, hw, h₁⟩ := hagree.of_ok hrun
    have wired₁ : Wired B c₁ v₁ n := fun p q i hp hlow hhigh => by
      rw [← longer.kept q (Nat.lt_of_le_of_lt (Place.birth_parent_le hp) hhigh)]
      exact wired p q i hp hlow (by omega)
    obtain ⟨c', u, u', hrest, hrest', hu⟩ := ih h₁.rebase moves.held count wired₁
    refine ⟨c', u, u', ?_, ?_, h₁.trans hu⟩
    · rw [shrinkBy, bind_of_ok (update_of_ok hrun), hrest]
    · rw [shrinkBy, bind_of_ok (update_of_ok hw), hrest']

theorem undoGrowth_ends (held : c.Held v) (grown : Grown c v c' x) (h : Rejecting B v x y) :
    ∃ u u', c.undoGrowth (c', y) = .ok () (c, u') ∧ Rejecting B v u u' ∧ Moves c v c u := by
  have hle := grown.longer.count
  obtain ⟨u, hundo, moves, -⟩ := undoGrowth_ok held grown
  obtain ⟨c₁, u₁, u', hrun, hrun', hu⟩ := shrinkBy_agrees h.rebase grown.moves.held
    (n := c.blockCount) (k := c'.blockCount - c.blockCount) (by omega) (grown.wired held h)
  have hrest : ∀ z, (setSize c.size : Holding Chain Unit) (c₁, z) = .ok () ({ c₁ with size := c.size }, z) :=
    fun _ => rfl
  rw [undoGrowth, object_bind, bind_of_ok hrun, hrest] at hundo
  simp only [EStateM.Result.ok.injEq, Prod.mk.injEq, true_and] at hundo
  obtain ⟨hchain, rfl⟩ := hundo
  refine ⟨u₁, u', ?_, h.trans hu, moves⟩
  rw [undoGrowth, object_bind, bind_of_ok hrun', hrest, hchain]

/-- The outcome of an action that leaves what it is to leave also when something stops it. -/
def Leaves {σ α : Type} (P : σ → Prop) (r : EStateM.Result Error σ α) : Prop :=
  Ends (fun _ => P) (fun e s => Hindrance e ∧ P s) r

theorem Leaves.bind {σ α β : Type} {P : σ → Prop} {act : EStateM Error σ α} {next : α → EStateM Error σ β} {s : σ}
    (h : Leaves P (act s)) (hnext : ∀ a t, P t → Leaves P (next a t)) : Leaves P ((act >>= next) s) :=
  Ends.bind h hnext

theorem Leaves.imp {σ α : Type} {P P' : σ → Prop} {r : EStateM.Result Error σ α} (h : Leaves P r)
    (hP : ∀ s, P s → P' s) : Leaves P' r :=
  Ends.imp h (fun _ => hP) fun _ s hs => ⟨hs.1, hP s hs.2⟩

/-- Some blocks of the chain have been written, and none else. -/
def Scribbled (B : Set Nat) (c : Chain) (v w : Volume) : Prop := ∃ u, Rejecting B v u w ∧ Stored c v u

section

variable (h : Rejecting B v v w) (held : c.Held v)

include h

theorem scribbled_refl : Scribbled B c v w := ⟨v, h, .refl h.sound⟩

include held

theorem stores_writeBlock (hk : k < c.blockCount) (block : Block) :
    Leaves (Scribbled B c v) (writeBlock (c.pointer v.cell (.data k)) block w) := by
  have hrange := h.sound.in_range (held.isData hk).2
  by_cases hB : (c.pointer v.cell (.data k)).toNat ∈ B
  · obtain ⟨e, u', hrun, hu⟩ := h.writeBlock hrange hB block
    rw [hrun]
    exact .error ⟨.device e, v, hu, .refl h.sound⟩
  · have hwrite := writeBlock_device h.sound.device hrange block
    obtain ⟨u', hw, hu⟩ := (respects_writeBlock_spared hB block v w h).of_ok hwrite
    rw [hw]
    exact .ok ⟨_, hu, held.stored_put h.sound hk block⟩

theorem stores_updateBlock (hk : k < c.blockCount) (f : Block → Block) :
    Leaves (Scribbled B c v) (updateBlock (c.pointer v.cell (.data k)) f w) := by
  have hread : w.readBlock (c.pointer v.cell (.data k)) = .ok (v.cell (c.pointer v.cell (.data k))) :=
    (h.sameReads.reads _).trans (readBlock_eq h.sound (held.isData hk).2)
  rw [updateBlock, bind_of_ok (ask_of_ok hread)]
  exact stores_writeBlock h held hk _

theorem stores_zeroTail : Leaves (Scribbled B c v) (c.zeroTail w) := by
  rw [zeroTail]
  by_cases hused : c.size.toNat % blockSize = 0
  · rw [if_neg (not_not_intro hused)]
    exact .ok (scribbled_refl h)
  · rw [if_pos hused]
    obtain ⟨-, hpos⟩ := c.size_mod hused
    have hlast : c.blockCount - 1 < c.blockCount := by omega
    have hfind : c.blockAt w (c.blockCount - 1) = .ok (c.pointer v.cell (.data (c.blockCount - 1))) :=
      (h.sameReads.blockAt c _).trans (blockAt_eq held h.sound hlast)
    rw [bind_of_ok (ask_of_ok hfind)]
    exact stores_updateBlock h held hlast _

theorem stores_storeSpan (data : ByteArray) (s : Span) : Leaves (Scribbled B c v) (c.storeSpan data s w) := by
  rw [storeSpan]
  have hsame := h.sameReads.blockAt c s.block
  by_cases hblock : s.block < c.blockCount
  · rw [blockAt_eq held h.sound hblock] at hsame
    rw [bind_of_ok (ask_of_ok hsame)]
    split
    · exact stores_writeBlock h held hblock _
    · exact stores_updateBlock h held hblock _
  · have hpast : c.blockAt w s.block = .error (.corrupt (.pastEnd s.block)) := by
      rw [blockAt, if_pos (Nat.le_of_not_lt hblock)]
      rfl
    rw [bind_of_error (ask_of_error hpast)]
    exact .error ⟨.corrupt _, scribbled_refl h⟩

theorem stores_store (offset : Nat) (data : ByteArray) : Leaves (Scribbled B c v) (c.store offset data w) := by
  rw [store]
  generalize Span.ofRange offset data.size = spans
  induction spans generalizing v w with
  | nil => exact .ok (scribbled_refl h)
  | cons s spans ih =>
    refine (stores_storeSpan h held data s).bind ?_
    rintro _ x ⟨u, hx, stored⟩
    refine (ih hx.rebase (stored.held held)).imp ?_
    rintro y ⟨u', hy, stored'⟩
    exact ⟨u', hx.trans hy, stored.trans held stored'⟩

end

/-- The chain in hand is what has become of `c`: it is held, and no block of others has changed. -/
def Carried (B : Set Nat) (c : Chain) (v : Volume) (s : Chain × Volume) : Prop :=
  ∃ u, Rejecting B v u s.2 ∧ Moves c v s.1 u

theorem Carried.since {s : Chain × Volume} (hs : Carried B c' x s) (h : Rejecting B v x y) (moves : Moves c v c' x) :
    Carried B c v s := by
  obtain ⟨u, hu, moves'⟩ := hs
  exact ⟨u, h.trans hu, moves.trans moves'⟩

theorem Scribbled.carried (h : Scribbled B c v w) (held : c.Held v) : Carried B c v (c, w) := by
  obtain ⟨u, hu, stored⟩ := h
  exact ⟨u, hu, stored.moves held⟩

theorem strives_of_stores {α : Type} {act : VolumeM α} (held : c.Held v) (hact : Leaves (Scribbled B c v) (act w)) :
    Ends (fun _ s => s.1 = c ∧ Scribbled B c v s.2) (fun e s => Hindrance e ∧ Carried B c v s)
      ((onVolume act : Holding Chain α) (c, w)) := by
  refine (ends_onVolume hact).imp (fun _ _ => id) ?_
  rintro e ⟨_, x⟩ ⟨rfl, he, hx⟩
  exact ⟨he, hx.carried held⟩

section

variable (h : Rejecting B v v w) (held : c.Held v)

include h held

/-- Growing steps that run out of space are undone, those that something else stops are kept. -/
theorem strives_growBy (k : Nat) :
    let act : Holding Chain Unit := tryCatch (growBy k) fun e => do
      if e = .noSpace then undoGrowth c
      throw e
    Ends (fun _ s => Carried B c v s ∧ s.1.blockCount = c.blockCount + k) (fun e s => Hindrance e ∧ Carried B c v s)
      (act (c, w)) := by
  intro act
  simp only [act]
  rcases growBy_ends h held k with ⟨c', u, u', hrun, count, hu, grown⟩ | ⟨e, c', u, u', hrun, he, hu, grown⟩
  · rw [catch_of_ok hrun]
    exact .ok ⟨⟨u, hu, grown.moves⟩, count⟩
  · rw [catch_of_error hrun]
    by_cases hspace : e = .noSpace
    · obtain ⟨x, x', hundo, hx, moves⟩ := undoGrowth_ends held grown hu
      rw [if_pos hspace, bind_of_ok hundo]
      exact .error ⟨he, x, hx, moves⟩
    · rw [if_neg hspace]
      exact .error ⟨he, u, hu, grown.moves⟩

omit h held in
theorem resize_of_zeroTail {size : Nat} {e : Error} (hsize : size ≤ 65802 * blockSize) (hlong : c.size.toNat < size)
    (htail : c.zeroTail w = .error e u) : resize size (c, w) = .error e (c, u) := by
  rw [resize, object_bind]
  dsimp only
  rw [if_neg (resize_guard hsize), if_pos hlong, bind_of_error (onVolume_of_error htail)]

omit held in
theorem zeroTail_rejected (held : c.Held v) (hused : c.size.toNat % blockSize ≠ 0)
    (hB : (c.pointer v.cell (.data (c.blockCount - 1))).toNat ∈ B) :
    ∃ e u, c.zeroTail w = .error (.device e) u := by
  obtain ⟨-, hpos⟩ := c.size_mod hused
  have hlast : c.blockCount - 1 < c.blockCount := by omega
  have hdata := (held.isData hlast).2
  have hfind : c.blockAt w (c.blockCount - 1) = .ok (c.pointer v.cell (.data (c.blockCount - 1))) :=
    (h.sameReads.blockAt c _).trans (blockAt_eq held h.sound hlast)
  have hread : w.readBlock (c.pointer v.cell (.data (c.blockCount - 1))) = .ok (v.cell _) :=
    (h.sameReads.reads _).trans (readBlock_eq h.sound hdata)
  obtain ⟨e, u, hwrite, -⟩ := h.writeBlock (h.sound.in_range hdata) hB _
  refine ⟨e, u, ?_⟩
  rw [zeroTail, if_pos hused, bind_of_ok (ask_of_ok hfind), updateBlock, bind_of_ok (ask_of_ok hread)]
  exact hwrite

theorem strives_resize {size : Nat} (hlong : c.size.toNat < size) : Leaves (Carried B c v) (resize size (c, w)) := by
  have hle : c.blockCount ≤ blocksForSize size := blocksForSize_le (Nat.le_of_lt hlong)
  by_cases hsize : size ≤ 65802 * blockSize
  · rw [resize, object_bind]
    dsimp only
    rw [if_neg (resize_guard hsize), if_pos hlong]
    refine Ends.bind (strives_of_stores held (stores_zeroTail h held)) ?_
    rintro _ ⟨c, y⟩ ⟨rfl, x, hx, stored⟩
    have hgrow := strives_growBy hx.rebase (stored.held held) (blocksForSize size - c.blockCount)
    have moved := stored.moves held
    refine Ends.bind (hgrow.imp (fun _ s hs => And.imp_left (·.since hx moved) hs) fun e s hs =>
      ⟨hs.1, hs.2.since hx moved⟩) ?_
    rintro _ ⟨c', u'⟩ ⟨⟨u, hu, moves⟩, hcount⟩
    have hcount : c'.blockCount = blocksForSize (UInt32.ofNat size).toNat := by
      rw [toNat_size hsize]
      exact hcount.trans (Nat.add_sub_cancel' hle)
    have hnone : shrinkBy (c.blockCount - blocksForSize size) (c', u') = .ok () (c', u') := by
      rw [Nat.sub_eq_zero_of_le hle]
      rfl
    rw [bind_of_ok hnone, bind_of_ok (setSize_eq _), if_neg (by omega)]
    exact .ok ⟨u, hu, moves.trans (moves.held.moves_size moves.evolves.sound hcount.symm)⟩
  · rw [resize_tooLarge (Nat.lt_of_not_le hsize)]
    exact .error ⟨.fileTooLarge, v, h, held.moves_refl h.sound⟩

theorem strives_write (offset : Nat) (data : ByteArray) (append : Bool) :
    Leaves (Carried B c v) (write offset data append (c, w)) := by
  have hstore : ∀ s, Carried B c v s → Leaves (Carried B c v) ((do
      let c' ← object
      onVolume (c'.store (c.startOf offset append) data)
      return data.size : Holding Chain Nat) s) := by
    rintro ⟨c', y⟩ ⟨x, hxy, moves⟩
    rw [object_bind]
    have hcarried : Leaves (Carried B c v)
        ((onVolume (c'.store (c.startOf offset append) data) : Holding Chain Unit) (c', y)) := by
      refine (strives_of_stores moves.held (stores_store hxy.rebase moves.held _ data)).imp ?_ fun e s hs =>
        ⟨hs.1, hs.2.since hxy moves⟩
      rintro _ ⟨_, z⟩ ⟨rfl, hz⟩
      exact (hz.carried moves.held).since hxy moves
    exact hcarried.bind fun _ s hs => .ok hs
  rw [write_eq]
  by_cases hlong : c.size.toNat < c.startOf offset append + data.size
  · rw [if_pos hlong]
    exact (strives_resize h held hlong).bind fun _ s hs => hstore s hs
  · rw [if_neg hlong]
    exact hstore _ ⟨v, h, held.moves_refl h.sound⟩

end

end ImageFS.Chain
