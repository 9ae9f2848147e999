import ImageFS.Tiers
import Mathlib.Data.Prod.Lex
import Mathlib.Data.Set.Function
import Mathlib.Order.Interval.Set.Basic

/-!
# Blocks and slots

Locating takes the blocks that tiers can name one to one to the slots that they have, and in order: the
direct slots come first, then those of the indirect block, then those of each table in turn. Block numbers
past the last slot are sent to tables that the doubly-indirect block does not name.
-/

set_option autoImplicit false

namespace ImageFS

def Slot.Within (t : Tiers) : Slot → Prop
  | .direct i => i < t.direct
  | .indirect i => i < t.indirect
  | .doubly outer inner => outer < t.indirect ∧ inner < t.indirect

/-- Slots are ordered by tier, then by table, then by their place in it. -/
def Slot.rank : Slot → ℕ ×ₗ ℕ ×ₗ ℕ
  | .direct i => toLex (0, toLex (0, i))
  | .indirect i => toLex (1, toLex (0, i))
  | .doubly outer inner => toLex (2, toLex (outer, inner))

namespace Tiers

variable {t : Tiers} {s : Slot} {direct indirect block other : Nat}

theorem ofSizes_eq_ok : ofSizes direct indirect = .ok t ↔
    (direct ≤ directPointers ∧ 0 < indirect ∧ indirect ≤ pointersPerBlock) ∧ t = ⟨direct, indirect⟩ := by
  unfold ofSizes
  split_ifs with hbad
  · simp only [false_iff]
    omega
  · simp only [Except.ok.injEq]
    constructor
    · intro h
      exact ⟨by omega, h.symm⟩
    · intro h
      exact h.2.symm

theorem locate_of_isDirect (h : t.isDirect block = true) : t.locate block = .direct block := by
  simp only [isDirect, decide_eq_true_eq] at h
  simp [locate, h]

theorem locate_of_isIndirect (h : t.isIndirect block = true) : t.locate block = .indirect (block - t.direct) := by
  simp only [isIndirect, decide_eq_true_eq] at h
  simp [locate, Nat.not_lt_of_le h.1, h.2]

theorem locate_of_isDoubly (h : t.isDoubly block = true) :
    t.locate block =
      .doubly ((block - t.direct - t.indirect) / t.indirect) ((block - t.direct - t.indirect) % t.indirect) := by
  simp only [isDoubly, decide_eq_true_eq] at h
  have hdirect : ¬ block < t.direct := by omega
  simp [locate, hdirect, Nat.not_lt_of_le h]

theorem tier_cases (t : Tiers) (block : Nat) :
    t.isDirect block = true ∧ block < t.direct ∨
    t.isIndirect block = true ∧ t.direct ≤ block ∧ block < t.direct + t.indirect ∨
    t.isDoubly block = true ∧ t.direct + t.indirect ≤ block := by
  simp only [isDirect, isIndirect, isDoubly, decide_eq_true_eq]
  omega

theorem count_tiers (t : Tiers) (block : Nat) :
    [t.isDirect block, t.isIndirect block, t.isDoubly block].count true = 1 := by
  rcases t.tier_cases block with ⟨-, hlt⟩ | ⟨-, hlow, hhigh⟩ | ⟨-, hle⟩
  · have hdoubly : ¬ t.direct + t.indirect ≤ block := by omega
    simp [isDirect, isIndirect, isDoubly, hlt, hdoubly]
  · simp [isDirect, isIndirect, isDoubly, Nat.not_lt_of_le hlow, hlow, hhigh]
  · have hdirect : ¬ block < t.direct := by omega
    simp [isDirect, isIndirect, isDoubly, hdirect, Nat.not_lt_of_le hle, hle]

theorem locate_index (h : s.Within t) : t.locate (s.index t) = s := by
  cases s with
  | direct i =>
    have hi : i < t.direct := h
    apply locate_of_isDirect
    simp [isDirect, Slot.index, hi]
  | indirect i =>
    have hi : i < t.indirect := h
    have htier : t.isIndirect (t.direct + i) = true := by simp [isIndirect, hi]
    rw [Slot.index, locate_of_isIndirect htier, Nat.add_sub_cancel_left]
  | doubly outer inner =>
    have hinner : inner < t.indirect := h.2
    have hpos : 0 < t.indirect := Nat.zero_lt_of_lt hinner
    have htier : t.isDoubly (t.direct + t.indirect + outer * t.indirect + inner) = true := by
      simp only [isDoubly, decide_eq_true_eq]
      omega
    have hrest : t.direct + t.indirect + outer * t.indirect + inner - t.direct - t.indirect =
        inner + outer * t.indirect := by omega
    rw [Slot.index, locate_of_isDoubly htier, hrest, Nat.add_mul_div_right _ _ hpos, Nat.div_eq_of_lt hinner,
      Nat.zero_add, Nat.add_mul_mod_self_right, Nat.mod_eq_of_lt hinner]

theorem index_lt_maxBlocks (h : s.Within t) : s.index t < t.maxBlocks := by
  cases s with
  | direct i =>
    have hi : i < t.direct := h
    simp only [Slot.index, maxBlocks]
    omega
  | indirect i =>
    have hi : i < t.indirect := h
    simp only [Slot.index, maxBlocks]
    omega
  | doubly outer inner =>
    have hinner : inner < t.indirect := h.2
    have hrow : (outer + 1) * t.indirect ≤ t.indirect * t.indirect := Nat.mul_le_mul_right _ h.1
    rw [Nat.succ_mul] at hrow
    simp only [Slot.index, maxBlocks]
    omega

theorem within_locate (h : block < t.maxBlocks) : (t.locate block).Within t := by
  rcases t.tier_cases block with ⟨htier, hlt⟩ | ⟨htier, hlow, hhigh⟩ | ⟨htier, hle⟩
  · rw [locate_of_isDirect htier]
    exact hlt
  · rw [locate_of_isIndirect htier]
    change block - t.direct < t.indirect
    omega
  · have hrest : block - t.direct - t.indirect < t.indirect * t.indirect := by
      simp only [maxBlocks] at h
      omega
    have hpos : 0 < t.indirect := Nat.pos_of_mul_pos_left (Nat.zero_lt_of_lt hrest)
    rw [locate_of_isDoubly htier]
    exact ⟨Nat.div_lt_of_lt_mul hrest, Nat.mod_lt _ hpos⟩

theorem locate_of_maxBlocks_le (hpos : 0 < t.indirect) (h : t.maxBlocks ≤ block) :
    ∃ outer inner, t.locate block = .doubly outer inner ∧ t.indirect ≤ outer := by
  simp only [maxBlocks] at h
  have htier : t.isDoubly block = true := by
    simp only [isDoubly, decide_eq_true_eq]
    omega
  refine ⟨_, _, locate_of_isDoubly htier, ?_⟩
  rw [Nat.le_div_iff_mul_le hpos]
  omega

theorem lex_div_mod {m n : Nat} (k : Nat) (h : m < n) : toLex (m / k, m % k) < toLex (n / k, n % k) := by
  have hm := Nat.div_add_mod m k
  have hn := Nat.div_add_mod n k
  rw [Prod.Lex.toLex_lt_toLex]
  rcases (Nat.div_le_div_right (c := k) (Nat.le_of_lt h)).lt_or_eq with hlt | heq
  · exact .inl hlt
  · rw [heq] at hm
    exact .inr ⟨heq, by omega⟩

theorem strictMono_rank (t : Tiers) : StrictMono fun block => (t.locate block).rank := by
  intro block other h
  change (t.locate block).rank < (t.locate other).rank
  -- Tiers come in order, so that only blocks of one tier have to be compared within it.
  rcases t.tier_cases block with ⟨htier, hlt⟩ | ⟨htier, hlow, hhigh⟩ | ⟨htier, hle⟩ <;>
    rcases t.tier_cases other with ⟨htier', hlt'⟩ | ⟨htier', hlow', hhigh'⟩ | ⟨htier', hle'⟩
  · rw [locate_of_isDirect htier, locate_of_isDirect htier']
    simpa [Slot.rank, Prod.Lex.toLex_lt_toLex] using h
  · rw [locate_of_isDirect htier, locate_of_isIndirect htier']
    simp [Slot.rank, Prod.Lex.toLex_lt_toLex]
  · rw [locate_of_isDirect htier, locate_of_isDoubly htier']
    simp [Slot.rank, Prod.Lex.toLex_lt_toLex]
  · omega
  · rw [locate_of_isIndirect htier, locate_of_isIndirect htier']
    simp [Slot.rank, Prod.Lex.toLex_lt_toLex]
    omega
  · rw [locate_of_isIndirect htier, locate_of_isDoubly htier']
    simp [Slot.rank, Prod.Lex.toLex_lt_toLex]
  · omega
  · omega
  · rw [locate_of_isDoubly htier, locate_of_isDoubly htier', Slot.rank, Slot.rank, Prod.Lex.toLex_lt_toLex]
    exact .inr ⟨rfl, lex_div_mod t.indirect (by omega)⟩

/-- Whatever tiers are allowed, each block is of one tier, and locating it subtracts nothing from less. The
blocks that the tiers can name go one to one to the slots, in order, and the blocks past these go past the
last table. -/
theorem locate_bijective (h : ofSizes direct indirect = .ok t) :
    (∀ block, [t.isDirect block, t.isIndirect block, t.isDoubly block].count true = 1) ∧
    (∀ block, (t.isIndirect block = true → t.direct ≤ block) ∧
      (t.isDoubly block = true → t.direct ≤ block ∧ t.indirect ≤ block - t.direct) ∧
      (t.locate block).index t = block) ∧
    Set.BijOn t.locate (Set.Iio t.maxBlocks) {s | s.Within t} ∧
    (StrictMono fun block => (t.locate block).rank) ∧
    ∀ block, t.maxBlocks ≤ block → ∃ outer inner, t.locate block = .doubly outer inner ∧ t.indirect ≤ outer := by
  have hpos : 0 < t.indirect := by
    obtain ⟨⟨-, hpos, -⟩, rfl⟩ := ofSizes_eq_ok.mp h
    exact hpos
  refine ⟨t.count_tiers, fun block => ⟨fun htier => ?_, fun htier => ?_, index_locate t block⟩, ?_, t.strictMono_rank,
    fun block hle => locate_of_maxBlocks_le hpos hle⟩
  · simp only [isIndirect, decide_eq_true_eq] at htier
    exact htier.1
  · simp only [isDoubly, decide_eq_true_eq] at htier
    omega
  · have hinverse : Set.InvOn (Slot.index t) t.locate (Set.Iio t.maxBlocks) {s | s.Within t} := by
      constructor
      · intro block _
        exact index_locate t block
      · intro s hs
        exact locate_index hs
    apply hinverse.bijOn
    · intro block hlt
      exact within_locate hlt
    · intro s hs
      exact index_lt_maxBlocks hs

theorem locate_bijective_narrowest : ofSizes 0 1 = .ok ⟨0, 1⟩ ∧ maxBlocks ⟨0, 1⟩ = 2 ∧
    Set.BijOn (locate ⟨0, 1⟩) (Set.Iio 2) {s | s.Within ⟨0, 1⟩} ∧
    [0, 1, 2].map (locate ⟨0, 1⟩) = [.indirect 0, .doubly 0 0, .doubly 1 0] := by
  have h : ofSizes 0 1 = .ok ⟨0, 1⟩ := by decide
  obtain ⟨-, -, hbijection, -⟩ := locate_bijective h
  exact ⟨h, by decide, hbijection, by decide⟩

end Tiers

end ImageFS
