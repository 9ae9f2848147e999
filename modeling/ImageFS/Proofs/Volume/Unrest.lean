import ImageFS.Proofs.Volume.ReadOnly
import ImageFS.Proofs.Volume.Seated

/-!
# Faults that change under an action

What fails on a device may change before each access to it, also in the middle of an action. The actions that a chain
grows by are put together here from single accesses, so that they can be run amid such changes. When nothing changes,
they run as they do on a volume.
-/

set_option autoImplicit false

namespace ImageFS

/-- What becomes of the faults of a device before each access to come. -/
abbrev Unrest := Nat → Faults → Faults

def Unrest.none : Unrest := fun _ => id

namespace Amid

open Volume Holding

variable {α β : Type}

/-- An action with one access to the device at most; what fails changes first. -/
def access (act : VolumeM α) : Holding Unrest α := fun (u, v) =>
  onVolume act (fun k => u (k + 1), v.withFaults (u 0 v.device.faults))

def writePointer (b : UInt32) (slot : Nat) (target : UInt32) : Holding Unrest Unit := do
  let block ← access (ask fun v => do
    checkPointerSlot slot
    v.readBlock b)
  access (writeBlock b (block.setPointer slot target))

def withFresh (use : UInt32 → Holding Unrest α) : Holding Unrest α := do
  let b ← access allocate
  tryCatch (do
    access (writeBlock b .zero)
    use b) fun e => do
      access (release b)
      throw e

def settle (u : Unrest) (act : Holding Unrest α) : VolumeM α := fun v =>
  match act (u, v) with
  | .ok a (_, v) => .ok a v
  | .error e (_, v) => .error e v

variable {act : Holding Unrest α} {act' : VolumeM α} {next : α → Holding Unrest β} {next' : α → VolumeM β}
  {v w : Volume} {n slot : Nat} {b target : UInt32} {a : α} {e : Error}

/-- Without changes the action comes to the same as one on the volume. -/
def Follows (act : Holding Unrest α) (act' : VolumeM α) (v : Volume) : Prop :=
  act (.none, v) = onVolume act' (.none, v)

theorem Follows.bind (h : Follows act act' v) (hnext : ∀ a w, act' v = .ok a w → Follows (next a) (next' a) w) :
    Follows (act >>= next) (act' >>= next') v := by
  cases hrun : act' v with
  | ok a w =>
    have hact := h.trans (onVolume_of_ok hrun)
    rw [Follows, bind_of_ok hact, hnext a w hrun]
    simp only [onVolume, bind_of_ok hrun]
  | error e w =>
    have hact := h.trans (onVolume_of_error hrun)
    rw [Follows, bind_of_error hact, onVolume_of_error (bind_of_error hrun)]

theorem Follows.tryCatch {handler : Error → Holding Unrest α} {handler' : Error → VolumeM α} (h : Follows act act' v)
    (hhandler : ∀ e w, Follows (handler e) (handler' e) w) :
    Follows (tryCatch act handler) (tryCatch act' handler') v := by
  cases hrun : act' v with
  | ok a w =>
    have hact := h.trans (onVolume_of_ok hrun)
    rw [Follows, catch_of_ok hact, onVolume_of_ok (catch_of_ok hrun)]
  | error e w =>
    have hact := h.trans (onVolume_of_error hrun)
    rw [Follows, catch_of_error hact, hhandler e w]
    simp only [onVolume, catch_of_error hrun]

/-- However the faults change, the action leads from volumes with `P` to volumes with `Q`, or fails with `E`. -/
def Leads (P : Volume → Prop) (act : Holding Unrest α) (Q : α → Volume → Prop) (E : Volume → Prop) : Prop :=
  ∀ u v, P v → Ends (fun a s => Q a s.2) (fun _ s => E s.2) (act (u, v))

section

variable {P P' E R : Volume → Prop} {Q Q' : α → Volume → Prop} {S : β → Volume → Prop}

theorem Leads.imp (h : Leads P act Q E) (hP : ∀ v, P' v → P v) (hQ : ∀ a v, Q a v → Q' a v) : Leads P' act Q' E :=
  fun u v hv => (h u v (hP v hv)).imp (fun a s => hQ a s.2) fun _ _ => id

theorem Leads.bind (h : Leads P act Q E) (hnext : ∀ a, Leads (Q a) (next a) S E) : Leads P (act >>= next) S E :=
  fun u v hP => Ends.bind (h u v hP) fun a s hQ => hnext a s.1 s.2 hQ

theorem Leads.tryCatch {handler : Error → Holding Unrest α} (h : Leads P act Q R)
    (hhandler : ∀ e, Leads R (handler e) Q E) : Leads P (tryCatch act handler) Q E :=
  fun u v hP => Ends.tryCatch (h u v hP) fun e s hR => hhandler e s.1 s.2 hR

end

end Amid

end ImageFS
