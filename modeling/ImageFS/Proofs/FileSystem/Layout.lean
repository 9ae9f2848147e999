import ImageFS.Proofs.FileSystem.Blockwise
import ImageFS.Proofs.Volume.Marking

/-!
# The layout stays

No operation changes the superblock or the measures of the free map, and none has metadata given back,
whether it succeeds or fails and whatever the device does. This is what two runs side by side say of one run,
when it is put beside itself.
-/

set_option autoImplicit false

namespace ImageFS

open Volume

def Steady {α : Type} (act : VolumeM α) : Prop :=
  ∀ v, match act v with
    | .ok _ w | .error _ w => Alike v w

def Twins (v w u : Volume) : Prop := w = u ∧ Alike v w

section

variable {α : Type} {act : VolumeM α} {v w : Volume} {a : α} {e : Error}

theorem Steady.ok (h : Steady act) (hrun : act v = .ok a w) : Alike v w := by
  have := h v
  rwa [hrun] at this

theorem Steady.error (h : Steady act) (hrun : act v = .error e w) : Alike v w := by
  have := h v
  rwa [hrun] at this

theorem Steady.superblock (h : Steady act) (hrun : act v = .ok a w) : w.superblock = v.superblock :=
  (h.ok hrun).superblock

theorem Steady.respects (h : Steady act) (v : Volume) : Respects (Twins v) act := by
  rintro w _ ⟨rfl, hvw⟩
  cases hrun : act w with
  | ok a u => exact .ok ⟨rfl, hvw.trans (h.ok hrun)⟩
  | error e u => exact .error ⟨rfl, hvw.trans (h.error hrun)⟩

theorem steady_of_respects (h : ∀ v, Respects (Twins v) act) : Steady act := by
  intro v
  rcases (h v).cases ⟨rfl, .refl v⟩ with ⟨a, w, u, hv, -, hw⟩ | ⟨e, w, u, hv, -, hw⟩
  · rw [hv]
    exact hw.2
  · rw [hv]
    exact hw.2

end

theorem steady_writeBlock (b : UInt32) (block : Block) : Steady (writeBlock b block) := by
  intro v
  rcases writeBlock_cases b block v with ⟨d, hrun⟩ | ⟨d, e, hrun⟩
  · rw [hrun]
    exact alike_device v d
  · rw [hrun]
    exact alike_device v d

theorem steady_allocate : Steady allocate := by
  intro v
  rcases allocate_cases v with ⟨i, d, hlow, hrun⟩ | ⟨d, e, hrun⟩
  · rw [hrun]
    exact alike_markUsed (v.freeMap.lowestFree_eq_some hlow)
  · rw [hrun]
    exact alike_device v d

theorem steady_free (b : UInt32) : Steady (free b) := by
  intro v
  rcases free_cases b v with ⟨-, hrun⟩ | ⟨hdata, ⟨d, hrun⟩ | ⟨d, e, hrun⟩⟩
  · rw [hrun]
    exact .refl v
  · rw [hrun]
    exact alike_markFree hdata
  · rw [hrun]
    exact alike_markFree hdata

instance blockwise_twins (v : Volume) : Blockwise (Twins v) where
  indistinct := by
    rintro w _ ⟨rfl, -⟩
    exact .refl w
  writeBlock b block := (steady_writeBlock b block).respects v
  allocate := steady_allocate.respects v
  free b := (steady_free b).respects v

namespace FileSystem

theorem alike_run (c : Call) (v : Volume) : Alike v (c.run v).2 := by
  have hperform : Steady c.perform := steady_of_respects fun _ => respects_perform c
  unfold Call.run
  cases hrun : c.perform v with
  | ok a w => exact hperform.ok hrun
  | error e w => exact hperform.error hrun

theorem alike_after (v : Volume) (calls : List Call) : Alike v (after v calls) := by
  induction calls generalizing v with
  | nil => exact .refl v
  | cons c calls ih => exact (alike_run c v).trans (ih _)

end FileSystem

end ImageFS
