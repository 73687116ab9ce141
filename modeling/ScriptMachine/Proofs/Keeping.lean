import ScriptMachine.Machine.Action

/-!
# What an action keeps

A relation between earlier and later states that holds of no change, and of two changes in a
row, passes from the parts of an action to the whole.  What a script can do to its machine
is described by such relations.

Main results:

- {lit}`Action.Keeps.bind`: a sequence keeps what its parts keep.
- {lit}`Action.Keeps.onPart`: an action on a part of the state.
-/

namespace ScriptMachine

variable {σ τ ε δ α β : Type}

/-! ## Lasting relations -/

/-- The state in which an outcome ends has a property. -/
def Outcome.Ends (P : σ → Prop) : Outcome σ ε α → Prop
  | .done _ s => P s
  | .failed _ s => P s
  | .exhausted => True

/-- A weaker property holds as well. -/
theorem Outcome.Ends.mono {P Q : σ → Prop} {outcome : Outcome σ ε α} (h : outcome.Ends P)
    (hPQ : ∀ s, P s → Q s) : outcome.Ends Q := by
  cases outcome with
  | done x s => exact hPQ s h
  | failed e s => exact hPQ s h
  | exhausted => trivial

/-- A relation between earlier and later states: it holds of no change and of two changes in
a row. -/
class Lasting (R : σ → σ → Prop) : Prop where
  refl : ∀ s, R s s
  trans : ∀ {s t u}, R s t → R t u → R s u

/-- An action relates every state to the one in which it ends. -/
def Action.Keeps (R : σ → σ → Prop) (action : Action σ ε α) : Prop :=
  ∀ s, (action s).Ends (R s)

namespace Action

/-- An answer of a sequence comes from answers of both parts. -/
theorem exists_of_bind_done {action : Action σ ε α} {next : α → Action σ ε β} {s t : σ} {y : β}
    (h : (action >>= next) s = .done y t) :
    ∃ x u, action s = .done x u ∧ next x u = .done y t := by
  rw [bind_run] at h
  cases hfirst : action s with
  | exhausted =>
    rw [hfirst] at h
    cases h
  | failed e u =>
    rw [hfirst] at h
    cases h
  | done x u =>
    rw [hfirst] at h
    exact ⟨x, u, rfl, h⟩

/-- A sequence fails where one of its parts fails. -/
theorem of_bind_failed {action : Action σ ε α} {next : α → Action σ ε β} {s t : σ} {e : ε}
    (h : (action >>= next) s = .failed e t) :
    action s = .failed e t ∨ ∃ x u, action s = .done x u ∧ next x u = .failed e t := by
  rw [bind_run] at h
  cases hfirst : action s with
  | exhausted =>
    rw [hfirst] at h
    cases h
  | failed e' u =>
    rw [hfirst] at h
    cases h
    exact .inl rfl
  | done x u =>
    rw [hfirst] at h
    exact .inr ⟨x, u, rfl, h⟩

/-- A sequence ends well if its first part does and the second part keeps it so. -/
theorem ends_bind {P : σ → Prop} {action : Action σ ε α} {next : α → Action σ ε β} {s : σ}
    (h : (action s).Ends P) (hnext : ∀ x t, P t → (next x t).Ends P) :
    ((action >>= next) s).Ends P := by
  rw [bind_run]
  cases hrun : action s with
  | done x t =>
    rw [hrun] at h
    exact hnext x t h
  | failed e t =>
    rw [hrun] at h
    exact h
  | exhausted => trivial

/-- The error of an action does not matter for the state in which it ends. -/
theorem ends_mapError {P : σ → Prop} {action : Action σ ε α} {f : ε → δ} {s : σ}
    (h : (action s).Ends P) : (mapError f action s).Ends P := by
  rw [mapError_run]
  cases hrun : action s with
  | done x t =>
    rw [hrun] at h
    exact h
  | failed e t =>
    rw [hrun] at h
    exact h
  | exhausted => trivial

/-- A sequence whose first part ends in a related state keeps to the relation if its second part
does. -/
theorem ends_bind_keeps {R : σ → σ → Prop} [Lasting R] {action : Action σ ε α}
    {next : α → Action σ ε β} {s : σ} (h : (action s).Ends (R s)) (hnext : ∀ x, (next x).Keeps R) :
    ((action >>= next) s).Ends (R s) :=
  ends_bind h fun x _ ht => (hnext x _).mono fun _ hu => Lasting.trans ht hu

namespace Keeps

variable {R S : σ → σ → Prop}

/-- The state behind an answer. -/
theorem of_done {action : Action σ ε α} (h : action.Keeps R) {s t : σ} {x : α}
    (hrun : action s = .done x t) : R s t := by
  have hend := h s
  rw [hrun] at hend
  exact hend

/-- The state behind a failure. -/
theorem of_failed {action : Action σ ε α} (h : action.Keeps R) {s t : σ} {e : ε}
    (hrun : action s = .failed e t) : R s t := by
  have hend := h s
  rw [hrun] at hend
  exact hend

/-- A weaker relation is kept as well. -/
theorem mono {action : Action σ ε α} (h : action.Keeps R) (hRS : ∀ s t, R s t → S s t) :
    action.Keeps S := by
  intro s
  exact (h s).mono (hRS s)

theorem pure [Lasting R] (x : α) : (pure x : Action σ ε α).Keeps R :=
  fun s => Lasting.refl s

theorem fail [Lasting R] (e : ε) : (fail e : Action σ ε α).Keeps R :=
  fun s => Lasting.refl s

theorem get [Lasting R] : (get : Action σ ε σ).Keeps R :=
  fun s => Lasting.refl s

theorem ofExcept [Lasting R] (result : Except ε α) : (ofExcept result).Keeps R := by
  intro s
  cases result <;> exact Lasting.refl s

/-- A change that the relation allows. -/
theorem change {f : σ → σ} (h : ∀ s, R s (f s)) : (change f : Action σ ε Unit).Keeps R :=
  fun s => h s

/-- A sequence keeps what its parts keep. -/
theorem bind [Lasting R] {action : Action σ ε α} {next : α → Action σ ε β}
    (h : action.Keeps R) (hnext : ∀ x, (next x).Keeps R) : (action >>= next).Keeps R :=
  fun s => ends_bind_keeps (h s) hnext

/-- What comes behind the state may depend on the state. -/
theorem get_bind {next : σ → Action σ ε β} (h : ∀ s, (next s s).Ends (R s)) :
    (Action.get >>= next).Keeps R :=
  fun s => h s

theorem mapError {action : Action σ ε α} (f : ε → δ) (h : action.Keeps R) :
    (mapError f action).Keeps R :=
  fun s => ends_mapError (h s)

theorem attempt {action : Action σ ε α} (h : action.Keeps R) :
    (attempt action : Action σ δ (Except ε α)).Keeps R := by
  intro s
  rw [attempt_run]
  have hend := h s
  cases hrun : action s <;> rw [hrun] at hend <;> exact hend

/-- An action on a part of the state. -/
theorem onPart {part : τ → σ} {restore : σ → τ → τ} {action : Action σ ε α} {T : τ → τ → Prop}
    (h : action.Keeps R) (hT : ∀ t s, R (part t) s → T t (restore s t)) :
    (onPart part restore action).Keeps T := by
  intro t
  have hend := h (part t)
  unfold Action.onPart
  cases hrun : action (part t) with
  | done x s =>
    rw [hrun] at hend
    exact hT t s hend
  | failed e s =>
    rw [hrun] at hend
    exact hT t s hend
  | exhausted => trivial

end Keeps
end Action

end ScriptMachine
