import ScriptMachine.Machine.Run

/-!
# Commands that decline

A built-in command looks at all its arguments before it does anything.  So a call that fails has
changed nothing at all: neither the context nor the machine, and no array.  A call that has done
something answers with a value of the declared type, so no effect is followed by a complaint about
the type of the answer.

Main results:

- {lit}`Action.Declines`: an action that changes nothing when it fails.
- {lit}`Builtin.perform_declines`: what a built-in command does is of this kind.
- {lit}`Builtin.call_declined`: a call that fails leaves everything as it was.
-/

namespace ScriptMachine

variable {σ ε δ α β : Type}

/-! ## Actions that decline -/

/-- Answers have a property, and so have errors with the states behind them. -/
def Outcome.Meets (P : α → Prop) (F : ε → σ → Prop) : Outcome σ ε α → Prop
  | .done x _ => P x
  | .failed e s => F e s
  | .exhausted => True

/-- Weaker properties are met as well. -/
theorem Outcome.Meets.mono {P Q : α → Prop} {F G : ε → σ → Prop} {outcome : Outcome σ ε α}
    (h : outcome.Meets P F) (hPQ : ∀ x, P x → Q x) (hFG : ∀ e s, F e s → G e s) :
    outcome.Meets Q G := by
  cases outcome with
  | done x s => exact hPQ x h
  | failed e s => exact hFG e s h
  | exhausted => trivial

/-- Every answer has a property, and there is no error. -/
def Action.Succeeds (P : α → Prop) (action : Action σ ε α) : Prop :=
  ∀ s, (action s).Meets P fun _ _ => False

/-- Every answer has a property, and an action that fails, with an error of some kind, has changed
nothing. -/
def Action.Declines (P : α → Prop) (E : ε → Prop) (action : Action σ ε α) : Prop :=
  ∀ s, (action s).Meets P fun error t => E error ∧ t = s

namespace Action

variable {P : α → Prop} {Q : β → Prop} {E : ε → Prop}

/-- What comes behind an answer has to meet what the whole has to meet. -/
theorem meets_bind {F : ε → σ → Prop} {action : Action σ ε α} {next : α → Action σ ε β} {s : σ}
    (h : (action s).Meets P F) (hnext : ∀ x, P x → (next x).Succeeds Q) :
    ((action >>= next) s).Meets Q F := by
  rw [bind_run]
  cases hrun : action s with
  | done x t =>
    rw [hrun] at h
    exact (hnext x h t).mono (fun _ => id) fun _ _ => False.elim
  | failed e t =>
    rw [hrun] at h
    exact h
  | exhausted => trivial

namespace Succeeds

theorem pure {x : α} (h : P x) : (pure x : Action σ ε α).Succeeds P :=
  fun _ => h

theorem change (f : σ → σ) : (change f : Action σ ε Unit).Succeeds fun _ => True :=
  fun _ => trivial

theorem put (s : σ) : (put s : Action σ ε Unit).Succeeds fun _ => True :=
  fun _ => trivial

/-- What comes behind the state may depend on the state. -/
theorem get_bind {next : σ → Action σ ε β} (h : ∀ s, (next s).Succeeds Q) :
    (Action.get >>= next).Succeeds Q :=
  fun s => h s s

/-- An attempt has no error. -/
theorem attempt (action : Action σ ε α) :
    (attempt action : Action σ δ (Except ε α)).Succeeds fun _ => True := by
  intro s
  rw [attempt_run]
  cases action s <;> trivial

/-- A sequence of parts that succeed. -/
theorem bind {action : Action σ ε α} {next : α → Action σ ε β} (h : action.Succeeds P)
    (hnext : ∀ x, P x → (next x).Succeeds Q) : (action >>= next).Succeeds Q :=
  fun s => meets_bind (h s) hnext

/-- What has no error changes nothing when it fails. -/
theorem declines {action : Action σ ε α} (h : action.Succeeds P) : action.Declines P E :=
  fun s => (h s).mono (fun _ => id) fun _ _ => False.elim

end Succeeds

namespace Declines

theorem pure {x : α} (h : P x) : (pure x : Action σ ε α).Declines P E :=
  fun _ => h

theorem fail {e : ε} (h : E e) : (fail e : Action σ ε α).Declines P E :=
  fun _ => ⟨h, rfl⟩

/-- An effect that cannot fail, and an answer behind it. -/
theorem effect {action : Action σ ε α} {f : α → β} (h : action.Succeeds fun _ => True)
    (hf : ∀ x, Q (f x)) : (action >>= fun x => Pure.pure (f x)).Declines Q E :=
  (h.bind fun x _ => .pure (hf x)).declines

/-- A check in front of what declines. -/
theorem ofExcept_bind {result : Except ε α} {next : α → Action σ ε β}
    (hresult : ∀ error, result = .error error → E error) (h : ∀ x, (next x).Declines Q E) :
    (ofExcept result >>= next).Declines Q E := by
  intro s
  cases result with
  | ok x => exact h x s
  | error e => exact ⟨hresult e rfl, rfl⟩

/-- A check in front of what declines with any error. -/
theorem check {result : Except ε α} {next : α → Action σ ε β}
    (h : ∀ x, (next x).Declines Q fun _ => True) :
    (ofExcept result >>= next).Declines Q fun _ => True :=
  ofExcept_bind (fun _ _ => trivial) h

/-- What comes behind the state may depend on the state. -/
theorem get_bind {next : σ → Action σ ε β} (h : ∀ s, (next s).Declines Q E) :
    (Action.get >>= next).Declines Q E :=
  fun s => h s s

/-- Only the first part of a sequence may fail: nothing has changed then. -/
theorem bind {action : Action σ ε α} {next : α → Action σ ε β} (h : action.Declines P E)
    (hnext : ∀ x, P x → (next x).Succeeds Q) : (action >>= next).Declines Q E :=
  fun s => meets_bind (h s) hnext

/-- Errors of another kind. -/
theorem mapError {E' : δ → Prop} {action : Action σ ε α} {f : ε → δ} (h : action.Declines P E)
    (hf : ∀ error, E error → E' (f error)) : (mapError f action).Declines P E' := by
  intro s
  have hend := h s
  rw [mapError_run]
  cases hrun : action s with
  | done x t =>
    rw [hrun] at hend
    exact hend
  | failed error t =>
    rw [hrun] at hend
    exact ⟨hf error hend.1, hend.2⟩
  | exhausted => trivial

end Declines
end Action

/-! ## What commands do -/

/-- The answer of a command passes the check of its type. -/
def Signature.Admits (signature : Signature) (reply : Reply) : Prop :=
  checkReply signature reply = .ok reply.value

namespace CommandStep

theorem onMachine_succeeds (f : Machine → Machine) : (onMachine f).Succeeds fun _ => True :=
  .change _

theorem onContext_succeeds (f : Context → Context) : (onContext f).Succeeds fun _ => True :=
  .change _

theorem createArray_succeeds (elements : List Value) :
    (createArray elements).Succeeds fun _ => True :=
  fun _ => trivial

/-- A position that is out of range changes no array. -/
theorem updateArray_declines (id : ArrayId) (position : Nat) (update : Arrays → Option Arrays) :
    (updateArray id position update).Declines (fun _ => True) fun _ => True := by
  refine .get_bind fun e => ?_
  split
  · exact (onMachine_succeeds _).declines
  · exact .fail trivial

end CommandStep

namespace Builtin

open CommandStep

/-- The call of another script has no error once its arguments are checked. -/
theorem doCall_declines (callee : Callee) (arguments : List Value) :
    (doCall callee arguments).Declines callScript.signature.Admits fun _ => True := by
  refine .check fun name => ?_
  simp only
  split
  · exact .fail trivial
  · have htarget : (target name).Succeeds fun _ => True := by
      refine .get_bind fun e => ?_
      split
      · exact .pure trivial
      · exact .attempt _
    refine (htarget.bind fun program _ => ?_).declines
    cases program with
    | error e => exact .pure rfl
    | ok program =>
      refine .bind (.attempt _) fun result _ => ?_
      split <;> exact .pure rfl

/-- A built-in command that fails has changed nothing, and its answer is of the declared type. -/
theorem perform_declines (callee : Callee) (line : Nat) (arguments : List Value)
    (builtin : Builtin) :
    (builtin.perform callee line arguments).Declines builtin.signature.Admits fun _ => True := by
  cases builtin with
  | returnValue =>
    show (doReturn arguments).Declines _ _
    unfold doReturn
    split
    · exact .fail trivial
    · exact .check fun halt => .effect (onContext_succeeds _) fun _ => rfl
  | callScript => exact doCall_declines callee arguments
  | breakLoop => exact .effect (onContext_succeeds _) fun _ => rfl
  | continueLoop => exact .effect (onContext_succeeds _) fun _ => rfl
  | secondsPassed => exact .get_bind fun _ => .pure rfl
  | formatNumber =>
    refine .check fun format => .check fun x => .check fun unsigned => ?_
    split
    · exact .pure rfl
    · exact .fail trivial
  | printToConsole => exact .check fun v => .effect (onMachine_succeeds _) fun _ => rfl
  | randomNumber =>
    refine .check fun a => .check fun b => ?_
    split
    · exact .get_bind fun e => .effect (.put _) fun _ => rfl
    · exact .fail trivial
  | raiseError =>
    exact .check fun message => .get_bind fun e =>
      .effect (onMachine_succeeds _) fun _ => rfl
  | isBackgrounding => exact .get_bind fun _ => .pure rfl
  | arrayCreate => exact .effect (createArray_succeeds arguments) fun _ => rfl
  | arrayInsert =>
    show (doInsert arguments).Declines _ _
    unfold doInsert
    split
    · exact .fail trivial
    · refine .check fun id => .check fun v => .check fun position => ?_
      cases position with
      | none => exact .effect (onMachine_succeeds _) fun _ => rfl
      | some i => exact (updateArray_declines id i _).bind fun _ _ => .pure rfl
  | arrayErase =>
    exact .check fun id => .check fun i =>
      (updateArray_declines id i _).bind fun _ _ => .pure rfl
  | arrayClear => exact .check fun id => .effect (onMachine_succeeds _) fun _ => rfl
  | arraySize =>
    exact .check fun id => .get_bind fun e => .pure rfl
  | arrayAt =>
    refine .check fun id => .check fun i => .get_bind fun e => ?_
    split
    · exact .pure rfl
    · exact .fail trivial

end Builtin

/-! ## Calls -/

/-- The error is a wrong number or type of arguments, or one of the command itself. -/
inductive RuntimeCause.IsDeclining : RuntimeCause → Prop where
  | argumentCount (command : String) (expected supplied : Nat) :
      IsDeclining (.argumentCount command expected supplied)
  | argumentType (command parameter : String) (expected : ParameterType) (found : DataType) :
      IsDeclining (.argumentType command parameter expected found)
  | inCommand (name : String) (cause : CommandCause) : IsDeclining (.inCommand name cause)

theorem checkArguments_isDeclining {signature : Signature} {arguments : List Value}
    {cause : RuntimeCause} (h : checkArguments signature arguments = .error cause) :
    cause.IsDeclining := by
  unfold checkArguments at h
  split at h
  · cases h
  · split at h
    · cases h
      constructor
    · split at h
      · cases h
        constructor
      · cases h

namespace Builtin

/-- A call of a built-in command that fails declines. -/
theorem call_declines (callee : Callee) (line : Nat) (builtin : Builtin) (arguments : List Value) :
    (builtin.command.call callee line arguments).Declines (fun _ => True)
      RuntimeCause.IsDeclining := by
  refine .ofExcept_bind (fun _ => checkArguments_isDeclining) fun _ => ?_
  have hperform := perform_declines callee line arguments builtin
  refine (hperform.mapError fun cause _ => .inCommand _ cause).bind fun reply hreply => ?_
  rw [show checkReply builtin.command.signature reply = .ok reply.value from hreply]
  exact .pure trivial

/-- A call of a built-in command that fails has left the context, with its variables, its pending
jump, its result and its halt flag, and the machine, with its globals, console, cache, exception and
arrays, as they were; and it has not failed because of the type of the answer. -/
theorem call_declined (callee : Callee) (line : Nat) (builtin : Builtin) (arguments : List Value)
    (e e' : Execution) (cause : RuntimeCause)
    (h : builtin.command.call callee line arguments e = .failed cause e') :
    e' = e ∧ ∀ command found declared, cause ≠ .resultType command found declared := by
  have hcall := call_declines callee line builtin arguments e
  rw [h] at hcall
  refine ⟨hcall.2, fun command found declared hcause => ?_⟩
  rw [hcause] at hcall
  cases hcall.1

/-- A context with a variable that holds an array, on a machine whose array has an element. -/
def holding : Execution where
  machine := { Machine.start .standard .empty with arrays := ⟨#[[.text "kept"]]⟩ }
  context := Context.create 1 (.fresh 1 none) [.array ⟨0⟩]

/-- A return whose second argument is no number requests no jump and leaves no result. -/
theorem call_declined_returning :
    returnValue.command.call (Machine.callee 1) 7 [.text "bye", .invalid] holding =
        .failed (.inCommand "Return" (.argumentNotNumeric 1)) holding ∧
      ∀ command found declared, RuntimeCause.inCommand "Return" (.argumentNotNumeric 1) ≠
        .resultType command found declared := by
  have hcall : returnValue.command.call (Machine.callee 1) 7 [.text "bye", .invalid] holding =
      .failed (.inCommand "Return" (.argumentNotNumeric 1)) holding := rfl
  exact ⟨hcall, (call_declined (Machine.callee 1) 7 returnValue _ _ _ _ hcall).2⟩

end Builtin
end ScriptMachine
