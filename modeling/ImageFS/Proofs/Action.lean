import ImageFS.Chain.Resize

/-!
# Running actions step by step

An action that is a sequence runs its first part; what that part leaves decides how it goes on.
-/

set_option autoImplicit false

namespace ImageFS

section

variable {ε σ α β : Type} {act : EStateM ε σ α} {f : α → EStateM ε σ β} {s t : σ} {a : α} {e : ε}

theorem bind_of_ok (h : act s = .ok a t) : (act >>= f) s = f a t := by
  simp only [bind, EStateM.bind, h]

theorem bind_of_error (h : act s = .error e t) : (act >>= f) s = .error e t := by
  simp only [bind, EStateM.bind, h]

theorem catch_of_ok {handler : ε → EStateM ε σ α} (h : act s = .ok a t) : (tryCatch act handler) s = .ok a t := by
  change (tryCatch (fun _ => act s : EStateM ε σ α) handler) s = .ok a t
  rw [h]
  rfl

theorem catch_of_error {handler : ε → EStateM ε σ α} (h : act s = .error e t) :
    (tryCatch act handler) s = handler e t := by
  change (tryCatch (fun _ => act s : EStateM ε σ α) handler) s = handler e t
  rw [h]
  rfl

/-- The outcome of an action, with what holds of its result on success and of its error on failure. -/
inductive Ends (Q : α → σ → Prop) (E : ε → σ → Prop) : EStateM.Result ε σ α → Prop
  | ok {a : α} {s : σ} : Q a s → Ends Q E (.ok a s)
  | error {e : ε} {s : σ} : E e s → Ends Q E (.error e s)

section

variable {Q Q' : α → σ → Prop} {R : β → σ → Prop} {E E' : ε → σ → Prop}

theorem Ends.cases {r : EStateM.Result ε σ α} (h : Ends Q E r) :
    (∃ a t, r = .ok a t ∧ Q a t) ∨ ∃ e t, r = .error e t ∧ E e t := by
  cases h with
  | ok h => exact .inl ⟨_, _, rfl, h⟩
  | error h => exact .inr ⟨_, _, rfl, h⟩

theorem Ends.imp {r : EStateM.Result ε σ α} (h : Ends Q E r) (hQ : ∀ a t, Q a t → Q' a t)
    (hE : ∀ e t, E e t → E' e t) : Ends Q' E' r := by
  cases h with
  | ok h => exact .ok (hQ _ _ h)
  | error h => exact .error (hE _ _ h)

theorem Ends.bind (h : Ends Q E (act s)) (hf : ∀ a t, Q a t → Ends R E (f a t)) : Ends R E ((act >>= f) s) := by
  rcases h.cases with ⟨a, t, hrun, ha⟩ | ⟨e, t, hrun, he⟩
  · rw [bind_of_ok hrun]
    exact hf a t ha
  · rw [bind_of_error hrun]
    exact .error he

theorem Ends.tryCatch {handler : ε → EStateM ε σ α} (h : Ends Q E' (act s))
    (hhandler : ∀ e t, E' e t → Ends Q E (handler e t)) : Ends Q E ((tryCatch act handler) s) := by
  rcases h.cases with ⟨a, t, hrun, ha⟩ | ⟨e, t, hrun, he⟩
  · rw [catch_of_ok hrun]
    exact .ok ha
  · rw [catch_of_error hrun]
    exact hhandler e t he

end

theorem throw_run (e : ε) (s : σ) : (throw e : EStateM ε σ α) s = .error e s := rfl

theorem ok_bind (a : α) (f : α → Except ε β) : (Except.ok a >>= f) = f a := rfl

theorem ok_of_mapError {δ : Type} {x : Except ε α} {g : ε → δ} (h : x.mapError g = .ok a) : x = .ok a := by
  cases x with
  | error e => cases h
  | ok a => exact congrArg Except.ok (Except.ok.inj h)

theorem error_of_mapError {δ : Type} {x : Except ε α} {g : ε → δ} {e : δ} (h : x.mapError g = .error e) :
    ∃ cause, x = .error cause ∧ g cause = e := by
  cases x with
  | error cause => exact ⟨cause, rfl, Except.error.inj h⟩
  | ok a => cases h

theorem ok_of_bind {x : Except ε α} {f : α → Except ε β} {b : β} (h : (x >>= f) = .ok b) :
    ∃ a, x = .ok a ∧ f a = .ok b := by
  cases x with
  | error e => cases h
  | ok a => exact ⟨a, rfl, h⟩

theorem error_of_bind {x : Except ε α} {f : α → Except ε β} (h : (x >>= f) = .error e) :
    x = .error e ∨ ∃ a, x = .ok a ∧ f a = .error e := by
  cases x with
  | error e' =>
    cases h
    exact .inl rfl
  | ok a => exact .inr ⟨a, rfl, h⟩

theorem bind_congr_of_ok {x : Except ε α} {f g : α → Except ε β} (h : ∀ a, x = .ok a → f a = g a) :
    (x >>= f) = (x >>= g) := by
  cases x with
  | error e => rfl
  | ok a => exact h a rfl

theorem mapM_ok (f : α → Except ε β) (g : α → β) (l : List α) (h : ∀ x ∈ l, f x = .ok (g x)) :
    l.mapM f = .ok (l.map g) := by
  induction l with
  | nil => rfl
  | cons x l ih =>
    rw [List.mapM_cons, h x List.mem_cons_self, ih fun y hy => h y (List.mem_cons_of_mem _ hy)]
    rfl

theorem error_of_mapM {f : α → Except ε β} {l : List α} (h : l.mapM f = .error e) : ∃ x ∈ l, f x = .error e := by
  induction l with
  | nil => cases h
  | cons x l ih =>
    rw [List.mapM_cons] at h
    rcases error_of_bind h with hx | ⟨y, -, h⟩
    · exact ⟨x, List.mem_cons_self, hx⟩
    · rcases error_of_bind h with hrest | ⟨ys, -, h⟩
      · obtain ⟨z, hz, hrun⟩ := ih hrest
        exact ⟨z, List.mem_cons_of_mem _ hz, hrun⟩
      · cases h

end

namespace Volume

variable {α : Type} {v w : Volume} {a : α} {e : Error}

theorem ask_of_ok {f : Volume → Except Error α} (h : f v = .ok a) : ask f v = .ok a v := by
  simp only [ask, h]

theorem ask_of_error {f : Volume → Except Error α} (h : f v = .error e) : ask f v = .error e v := by
  simp only [ask, h]

theorem attempt_of_ok {act : VolumeM α} (h : act v = .ok a w) : attempt act v = .ok (.ok a) w := by
  simp only [attempt, h]

theorem attempt_of_error {act : VolumeM α} (h : act v = .error e w) : attempt act v = .ok (.error e) w := by
  simp only [attempt, h]

end Volume

namespace Holding

variable {α β γ : Type} {b b' : β} {c c' : γ} {v w : Volume} {a : α} {e : Error}

theorem object_bind (f : β → Holding β α) : (object >>= f) (b, v) = f b (b, v) := rfl

theorem onVolume_of_ok {act : VolumeM α} (h : act v = .ok a w) :
    (onVolume act : Holding β α) (b, v) = .ok a (b, w) := by
  simp only [onVolume, h]

theorem onVolume_of_error {act : VolumeM α} (h : act v = .error e w) :
    (onVolume act : Holding β α) (b, v) = .error e (b, w) := by
  simp only [onVolume, h]

theorem ends_onVolume {act : VolumeM α} {Q : α → Volume → Prop} {E : Error → Volume → Prop} (h : Ends Q E (act v)) :
    Ends (fun a s => s.1 = b ∧ Q a s.2) (fun e s => s.1 = b ∧ E e s.2) ((onVolume act : Holding β α) (b, v)) := by
  rcases h.cases with ⟨a, w, hrun, ha⟩ | ⟨e, w, hrun, he⟩
  · rw [onVolume_of_ok hrun]
    exact .ok ⟨rfl, ha⟩
  · rw [onVolume_of_error hrun]
    exact .error ⟨rfl, he⟩

theorem update_of_ok {act : β → VolumeM β} (h : act b v = .ok b' w) :
    update act (b, v) = .ok () (b', w) := by
  simp only [update, h]

theorem update_of_error {act : β → VolumeM β} (h : act b v = .error e w) :
    update act (b, v) = .error e (b, w) := by
  simp only [update, h]

theorem onPart_of_ok {act : Holding γ α} {rebuild : γ → β} (h : act (c, v) = .ok a (c', w)) :
    onPart c rebuild act (b, v) = .ok a (rebuild c', w) := by
  simp only [onPart, h]

theorem onPart_of_error {act : Holding γ α} {rebuild : γ → β} (h : act (c, v) = .error e (c', w)) :
    onPart c rebuild act (b, v) = .error e (rebuild c', w) := by
  simp only [onPart, h]

theorem run_of_ok {act : Holding β α} (h : act (b, v) = .ok a (b', w)) : act.run b v = (.ok a, b', w) := by
  simp only [run, h]

theorem run_of_error {act : Holding β α} (h : act (b, v) = .error e (b', w)) : act.run b v = (.error e, b', w) := by
  simp only [run, h]

end Holding

end ImageFS
