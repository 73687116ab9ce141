/-!
# Actions

An action reads and changes a state.  It answers, fails with an error, or runs out of the
fuel that it was given.  A failure keeps the changes made before it, so that what a broken
statement did is still to be seen afterwards.

Main results:

- {lit}`Action.bind_run`: a sequence of actions, one state at a time.
- {lit}`Action.attempt_run`: an attempt answers with the error of a failure.
-/

namespace ScriptMachine

variable {σ τ ε δ α β : Type}

/-! ## Outcomes -/

/-- How an action ends. -/
inductive Outcome (σ ε α : Type) where
  | done (answer : α) (state : σ)
  | failed (error : ε) (state : σ)
  /-- The fuel ran out before there was an answer. -/
  | exhausted

/-- An action on a state. -/
def Action (σ ε α : Type) : Type := σ → Outcome σ ε α

namespace Action

/-! ## Sequences -/

/-- Answers without touching the state. -/
def answer (x : α) : Action σ ε α := fun s => .done x s

/-- Continues with the answer of an action. -/
def andThen (action : Action σ ε α) (next : α → Action σ ε β) : Action σ ε β := fun s =>
  match action s with
  | .done x s => next x s
  | .failed e s => .failed e s
  | .exhausted => .exhausted

instance : Monad (Action σ ε) where
  pure := answer
  bind := andThen

/-- Continuing with the answer itself changes nothing. -/
theorem id_map (action : Action σ ε α) : id <$> action = action := by
  funext s
  simp only [Functor.map, andThen, Function.comp_apply, id_eq, answer]
  cases action s <;> rfl

/-- Sequences may be grouped in any way. -/
theorem bind_assoc {γ : Type} (action : Action σ ε α) (f : α → Action σ ε β) (g : β → Action σ ε γ) :
    action >>= f >>= g = action >>= fun x => f x >>= g := by
  funext s
  simp only [bind, andThen]
  cases action s <;> rfl

instance : LawfulMonad (Action σ ε) :=
  LawfulMonad.mk' (Action σ ε) id_map (fun _ _ => rfl) bind_assoc

/-! ## State and errors -/

/-- The state. -/
def get : Action σ ε σ := fun s => .done s s

/-- A part of the state. -/
def ask (part : σ → α) : Action σ ε α := fun s => .done (part s) s

/-- Replaces the state. -/
def put (s : σ) : Action σ ε Unit := fun _ => .done () s

/-- Changes the state. -/
def change (f : σ → σ) : Action σ ε Unit := fun s => .done () (f s)

/-- Fails with an error. -/
def fail (e : ε) : Action σ ε α := fun s => .failed e s

/-- Runs out of fuel. -/
def starve : Action σ ε α := fun _ => .exhausted

/-- A result that needs no state. -/
def ofExcept : Except ε α → Action σ ε α
  | .ok x => answer x
  | .error e => fail e

/-- Wraps the error of an action. -/
def mapError (f : ε → δ) (action : Action σ ε α) : Action σ δ α := fun s =>
  match action s with
  | .done x s => .done x s
  | .failed e s => .failed (f e) s
  | .exhausted => .exhausted

/-- Answers with the error of an action that fails. -/
def attempt (action : Action σ ε α) : Action σ δ (Except ε α) := fun s =>
  match action s with
  | .done x s => .done (.ok x) s
  | .failed e s => .done (.error e) s
  | .exhausted => .exhausted

/-- Runs an action on a part of the state. -/
def onPart (part : τ → σ) (restore : σ → τ → τ) (action : Action σ ε α) : Action τ ε α := fun t =>
  match action (part t) with
  | .done x s => .done x (restore s t)
  | .failed e s => .failed e (restore s t)
  | .exhausted => .exhausted

/-! ## One state at a time -/

@[simp]
theorem pure_run (x : α) (s : σ) : (pure x : Action σ ε α) s = .done x s := rfl

theorem bind_run (action : Action σ ε α) (next : α → Action σ ε β) (s : σ) :
    (action >>= next) s =
      match action s with
      | .done x s => next x s
      | .failed e s => .failed e s
      | .exhausted => .exhausted := rfl

@[simp]
theorem get_run (s : σ) : (get : Action σ ε σ) s = .done s s := rfl

@[simp]
theorem ask_run (part : σ → α) (s : σ) : (ask part : Action σ ε α) s = .done (part s) s := rfl

@[simp]
theorem put_run (s t : σ) : (put s : Action σ ε Unit) t = .done () s := rfl

@[simp]
theorem change_run (f : σ → σ) (s : σ) : (change f : Action σ ε Unit) s = .done () (f s) := rfl

@[simp]
theorem fail_run (e : ε) (s : σ) : (fail e : Action σ ε α) s = .failed e s := rfl

@[simp]
theorem starve_run (s : σ) : (starve : Action σ ε α) s = .exhausted := rfl

@[simp]
theorem ofExcept_ok_run (x : α) (s : σ) : (ofExcept (.ok x) : Action σ ε α) s = .done x s := rfl

@[simp]
theorem ofExcept_error_run (e : ε) (s : σ) :
    (ofExcept (.error e) : Action σ ε α) s = .failed e s := rfl

theorem mapError_run (f : ε → δ) (action : Action σ ε α) (s : σ) :
    mapError f action s =
      match action s with
      | .done x s => .done x s
      | .failed e s => .failed (f e) s
      | .exhausted => .exhausted := rfl

theorem attempt_run (action : Action σ ε α) (s : σ) :
    (attempt action : Action σ δ (Except ε α)) s =
      match action s with
      | .done x s => .done (.ok x) s
      | .failed e s => .done (.error e) s
      | .exhausted => .exhausted := rfl

end Action
end ScriptMachine
