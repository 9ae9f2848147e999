import ImageFS.Error

/-!
# Addressing tiers

A file's blocks are numbered from 0. The first few are named by the inode itself, the next ones by
an indirect block, the rest by indirect blocks that a doubly-indirect block names. `locate` says
which slot names a given block; `Slot.index` goes the other way.
-/

set_option autoImplicit false

namespace ImageFS

abbrev directPointers : Nat := 10

/-- How many pointers the inode and each indirect block contribute. -/
structure Tiers where
  direct : Nat
  indirect : Nat
deriving DecidableEq

inductive Slot where
  | direct (i : Nat)
  | indirect (i : Nat)
  | doubly (outer inner : Nat)
deriving DecidableEq

namespace Tiers

def onDisk : Tiers := ⟨directPointers, pointersPerBlock⟩

/-- Tiers may be narrower than those of a volume, but have to fit its pointer arrays. -/
def ofSizes (direct indirect : Nat) : Except Error Tiers :=
  if directPointers < direct ∨ indirect = 0 ∨ pointersPerBlock < indirect then
    .error (.geometry (.tiers direct indirect))
  else .ok ⟨direct, indirect⟩

def maxBlocks (t : Tiers) : Nat := t.direct + t.indirect + t.indirect * t.indirect

def isDirect (t : Tiers) (block : Nat) : Bool := block < t.direct

def isIndirect (t : Tiers) (block : Nat) : Bool := t.direct ≤ block ∧ block < t.direct + t.indirect

def isDoubly (t : Tiers) (block : Nat) : Bool := t.direct + t.indirect ≤ block

def locate (t : Tiers) (block : Nat) : Slot :=
  if block < t.direct then .direct block
  else if block < t.direct + t.indirect then .indirect (block - t.direct)
  else
    let rest := block - t.direct - t.indirect
    .doubly (rest / t.indirect) (rest % t.indirect)

end Tiers

def Slot.index (t : Tiers) : Slot → Nat
  | .direct i => i
  | .indirect i => t.direct + i
  | .doubly outer inner => t.direct + t.indirect + outer * t.indirect + inner

theorem Tiers.index_locate (t : Tiers) (block : Nat) : (t.locate block).index t = block := by
  unfold Tiers.locate
  split
  · rfl
  · split
    · simp only [Slot.index]
      omega
    · simp only [Slot.index]
      have := Nat.div_add_mod' (block - t.direct - t.indirect) t.indirect
      omega

end ImageFS
