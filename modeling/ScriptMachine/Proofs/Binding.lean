import ScriptMachine.Proofs.Resolving
import ScriptMachine.Proofs.Stacking

/-!
# Names at run time

Compiled code refers to variables by slot, to globals by key and to commands by name.  As long
as a machine has the command table and the names of globals that it had when a program was
compiled, every one of these references leads somewhere: no evaluation of a node of the program
fails because a slot, a global or a command is missing, or because a command takes another
number of arguments.  It may well fail for another reason, and a failed script that it calls
does not make it fail.

Main results:

- {lit}`Expr.eval_binds`: the evaluation of an expression in which everything exists.
- {lit}`Execution.Met.evaluate_bound`: no evaluation of a node of a valid program fails because
  of a name.
- {lit}`Machine.runProgram_bound`: no run of a valid program does.
-/

namespace ScriptMachine

variable {α β : Type}

/-! ## Causes that lie in a name -/

/-- Something that an expression refers to is missing, or a command takes another number of
arguments. -/
def RuntimeCause.IsUnbound : RuntimeCause → Prop
  | .unboundSlot _ | .lostGlobal _ | .lostCommand _ | .argumentCount _ _ _ => True
  | _ => False

/-- An error at a line of a script that lies in a name. -/
def MachineError.IsUnbound : MachineError → Prop
  | .runtime _ e => e.cause.IsUnbound
  | _ => False

/-- The command table and the names of the globals are those of a scope. -/
structure Machine.Offers (scope : Scope) (m : Machine) : Prop where
  commands : m.commands = scope.commands
  globals : ∀ key, m.globals.contains key = scope.globals.contains key

/-! ## Results without a state -/

/-- A result does not fail because of a name. -/
def SparesNames (result : Except RuntimeCause α) : Prop :=
  ∀ cause, result = .error cause → ¬cause.IsUnbound

namespace SparesNames

theorem ok (x : α) : SparesNames (.ok x) := by
  intro cause h
  cases h

theorem error {cause : RuntimeCause} (h : ¬cause.IsUnbound) :
    SparesNames (.error cause : Except RuntimeCause α) := by
  intro other hother
  cases hother
  exact h

theorem bind {result : Except RuntimeCause α} {next : α → Except RuntimeCause β}
    (h : SparesNames result) (hnext : ∀ x, SparesNames (next x)) :
    SparesNames (result >>= next) := by
  cases result with
  | ok x => exact hnext x
  | error cause => exact .error (h cause rfl)

end SparesNames

section Operators

open SparesNames

theorem Value.numeric_spares (symbol : String) (v : Value) : SparesNames (v.numeric symbol) := by
  unfold Value.numeric
  split
  · exact .ok _
  · exact .error id

theorem Value.condition_spares (v : Value) : SparesNames v.condition := by
  unfold Value.condition
  split
  · exact .ok _
  · exact .error id

theorem Value.position_spares (v : Value) : SparesNames v.position := by
  refine .bind (v.numeric_spares _) fun x => ?_
  split
  · exact .ok _
  · exact .error id

theorem Value.indexable_spares (v : Value) : SparesNames v.indexable := by
  unfold Value.indexable
  split
  · exact .ok _
  · exact .error id

theorem Value.elementAt_spares (arrays : Arrays) (id : ArrayId) (i : Nat) :
    SparesNames (Value.elementAt arrays id i) := by
  unfold Value.elementAt
  split
  · exact .ok _
  · exact .error fun h => h

theorem Value.add_spares (arrays : Arrays) (l r : Value) : SparesNames (l.add arrays r) := by
  unfold Value.add
  split
  · exact .ok _
  · split
    · exact .ok _
    · split
      · exact .ok _
      · exact .error id

theorem Value.ordered_spares (symbol : String) (texts : String → String → Bool)
    (numbers : Float → Float → Bool) (l r : Value) :
    SparesNames (l.ordered symbol texts numbers r) := by
  unfold Value.ordered
  split
  · exact .ok _
  · exact .bind (Value.numeric_spares _ _) fun _ =>
      .bind (Value.numeric_spares _ _) fun _ => .ok _

theorem Value.arithmetic_spares (symbol : String)
    {compute : Float → Float → Except RuntimeCause Float}
    (h : ∀ x y, SparesNames (compute x y)) (l r : Value) :
    SparesNames (l.arithmetic symbol compute r) :=
  .bind (Value.numeric_spares _ _) fun _ => .bind (Value.numeric_spares _ _) fun _ =>
    .bind (h _ _) fun _ => .ok _

theorem dividing_spares (compute : Float → Float → Float) (x y : Float) :
    SparesNames (dividing compute x y) := by
  unfold dividing
  split
  · exact .error id
  · exact .ok _

/-- No operator on two values fails because of a name. -/
theorem BinaryOp.apply_spares (arrays : Arrays) (op : BinaryOp) (l r : Value) :
    SparesNames (op.apply arrays l r) := by
  cases op with
  | equal | notEqual => exact .ok _
  | or =>
    refine .bind (Value.condition_spares l) fun b => ?_
    split
    · exact .ok _
    · exact .bind (Value.condition_spares r) fun _ => .ok _
  | and =>
    refine .bind (Value.condition_spares l) fun b => ?_
    split
    · exact .bind (Value.condition_spares r) fun _ => .ok _
    · exact .ok _
  | add => exact Value.add_spares arrays l r
  | less | lessEqual | greater | greaterEqual => exact Value.ordered_spares _ _ _ l r
  | subtract | multiply => exact Value.arithmetic_spares _ (fun _ _ => .ok _) l r
  | divide | remainder => exact Value.arithmetic_spares _ (dividing_spares _) l r

/-- No operator on one value fails because of a name. -/
theorem UnaryOp.apply_spares (op : UnaryOp) (v : Value) : SparesNames (op.apply v) := by
  cases op with
  | negate => exact .bind (v.numeric_spares _) fun _ => .ok _
  | not => exact .bind v.condition_spares fun _ => .ok _

end Operators

/-! ## Evaluations -/

/-- A context has one local per variable of a scope. -/
def Execution.Sized (scope : Scope) (e : Execution) : Prop :=
  e.context.locals.length = scope.locals.length

/-- How an evaluation of names that exist ends: there is still one local per variable, and a
failure lies in no name, provided that the machine still offers the names. -/
def Outcome.Binds (scope : Scope) : Outcome Execution RuntimeCause α → Prop
  | .done _ e => e.Sized scope
  | .failed cause e => e.machine.Offers scope → ¬cause.IsUnbound
  | .exhausted => True

/-- Whatever an evaluation refers to exists. -/
def Evaluation.Binds (scope : Scope) (evaluation : Evaluation α) : Prop :=
  ∀ e : Execution, e.Sized scope → (evaluation e).Binds scope

namespace Evaluation

variable {scope : Scope}

namespace Binds

theorem pure (x : α) : Evaluation.Binds scope (pure x : Evaluation α) :=
  fun _ hsized => hsized

theorem ofExcept {result : Except RuntimeCause α} (h : SparesNames result) :
    Evaluation.Binds scope (Action.ofExcept result) := by
  intro e hsized
  cases result with
  | ok x => exact hsized
  | error cause => exact fun _ => h cause rfl

theorem bind {evaluation : Evaluation α} {next : α → Evaluation β}
    (h : Evaluation.Binds scope evaluation) (hnext : ∀ x, Evaluation.Binds scope (next x)) :
    Evaluation.Binds scope (evaluation >>= next) := by
  intro e hsized
  have hend := h e hsized
  rw [Action.bind_run]
  cases hrun : evaluation e with
  | done x t =>
    rw [hrun] at hend
    exact hnext x t hend
  | failed cause t =>
    rw [hrun] at hend
    exact hend
  | exhausted => trivial

/-- An evaluation that keeps the number of locals, when its failures are known. -/
theorem of_evolves {evaluation : Evaluation α} (hkeeps : evaluation.Keeps Execution.Evolves)
    (h : ∀ e cause t, e.Sized scope → evaluation e = .failed cause t → t.machine.Offers scope →
      ¬cause.IsUnbound) : Evaluation.Binds scope evaluation := by
  intro e hsized
  have hend := hkeeps e
  cases hrun : evaluation e with
  | done x t =>
    rw [hrun] at hend
    exact hend.context.locals.trans hsized
  | failed cause t => exact h e cause t hsized hrun
  | exhausted => trivial

/-- A quiet evaluation, when its failures are known. -/
theorem of_quiet {evaluation : Evaluation α} (hkeeps : evaluation.Keeps Execution.Quiet)
    (h : ∀ e cause t, e.Sized scope → evaluation e = .failed cause t → t.machine.Offers scope →
      ¬cause.IsUnbound) : Evaluation.Binds scope evaluation :=
  of_evolves (hkeeps.mono fun _ _ hquiet => hquiet.toEvolves) h

end Binds

/-! ### Places -/

theorem readSlot_binds {slot : Nat} (hslot : slot < scope.locals.length) :
    (readSlot slot).Binds scope := by
  refine .of_quiet (readSlot_plain slot).quiet fun e cause t hsized hrun _ => ?_
  have hlt : slot < e.context.locals.length := by
    rw [hsized]
    exact hslot
  unfold readSlot at hrun
  rw [Action.bind_run, Action.get_run] at hrun
  simp only [List.getElem?_eq_getElem hlt] at hrun
  cases hrun

theorem writeSlot_binds {slot : Nat} (hslot : slot < scope.locals.length) (v : Value) :
    (writeSlot slot v).Binds scope := by
  refine .of_quiet (writeSlot_plain slot v).quiet fun e cause t hsized hrun _ => ?_
  have hlt : slot < e.context.locals.length := by
    rw [hsized]
    exact hslot
  unfold writeSlot at hrun
  rw [Action.bind_run, Action.get_run] at hrun
  simp only [if_pos hlt] at hrun
  cases hrun

theorem readGlobal_binds {key : String} (hkey : scope.globals.contains key = true) :
    (readGlobal key).Binds scope := by
  refine .of_quiet (readGlobal_plain key).quiet fun e cause t _ hrun hoffers => ?_
  unfold readGlobal at hrun
  rw [Action.bind_run, Action.get_run] at hrun
  cases hget : e.machine.globals.get? key with
  | some v =>
    simp only [hget] at hrun
    cases hrun
  | none =>
    simp only [hget] at hrun
    cases hrun
    -- A global without a value is not declared.
    have hgone : e.machine.globals.contains key = false := by
      unfold Globals.contains
      rw [Option.map_eq_none_iff.1 hget]
      rfl
    rw [hoffers.globals, hkey] at hgone
    cases hgone

theorem writeGlobal_binds {key : String} (hkey : scope.globals.contains key = true) (v : Value) :
    (writeGlobal key v).Binds scope := by
  refine .of_quiet (writeGlobal_plain key v).quiet fun e cause t _ hrun hoffers => ?_
  unfold writeGlobal at hrun
  rw [Action.bind_run, Action.get_run] at hrun
  by_cases hcontains : e.machine.globals.contains key = true
  · simp only [if_pos hcontains] at hrun
    cases hrun
  · simp only [if_neg hcontains] at hrun
    cases hrun
    rw [hoffers.globals, hkey] at hcontains
    exact absurd rfl hcontains

theorem writeElement_binds (id : ArrayId) (position : Nat) (v : Value) :
    (writeElement id position v).Binds scope := by
  refine .of_quiet (writeElement_plain id position v).quiet fun e cause t _ hrun _ => ?_
  unfold writeElement at hrun
  rw [Action.bind_run, Action.get_run] at hrun
  cases hset : e.machine.arrays.set? id position v with
  | some arrays =>
    simp only [hset] at hrun
    cases hrun
  | none =>
    simp only [hset] at hrun
    cases hrun
    exact fun h => h

theorem withArrays_binds {f : Arrays → Except RuntimeCause α} (h : ∀ arrays, SparesNames (f arrays)) :
    (withArrays f).Binds scope :=
  fun e hsized => Binds.ofExcept (h e.machine.arrays) e hsized

theorem combined_binds (op : AssignOp) {old : Evaluation Value} (hold : old.Binds scope)
    (new : Value) : (combined op old new).Binds scope := by
  unfold combined
  split
  · exact .pure _
  · exact .bind hold fun _ => withArrays_binds fun arrays => BinaryOp.apply_spares arrays _ _ _

end Evaluation

/-! ## Expressions -/

namespace Expr

open Evaluation

/-- There is one value per expression of a list. -/
theorem length_evalList (invoke : Invoker) (es : List Expr) {e t : Execution} {values : List Value}
    (h : evalList invoke es e = .done values t) : values.length = es.length := by
  induction es generalizing e values with
  | nil =>
    unfold evalList at h
    cases h
    rfl
  | cons first rest ih =>
    unfold evalList at h
    rw [Action.bind_run] at h
    cases hfirst : first.eval invoke e with
    | done v u =>
      rw [hfirst] at h
      simp only at h
      rw [Action.bind_run] at h
      cases hrest : evalList invoke rest u with
      | done others w =>
        rw [hrest] at h
        cases h
        rw [List.length_cons, List.length_cons, ih hrest]
      | failed cause w =>
        rw [hrest] at h
        cases h
      | exhausted =>
        rw [hrest] at h
        cases h
    | failed cause u =>
      rw [hfirst] at h
      cases h
    | exhausted =>
      rw [hfirst] at h
      cases h

variable {scope : Scope} {invoke : Invoker}
  (hinvoke : ∀ name values, scope.commands.Admits name values.length →
    (invoke name values).Binds scope)

include hinvoke

set_option linter.unusedSectionVars false in
mutual

/-- The evaluation of an expression in which everything exists. -/
theorem eval_binds : (e : Expr) → e.Bound scope → (e.eval invoke).Binds scope
  | .number x, _ | .text x, _ | .reference x, _ => by
    unfold eval
    exact .pure _
  | .slot i, h => by
    unfold Bound at h
    unfold eval
    exact readSlot_binds h
  | .global key, h => by
    unfold Bound at h
    unfold eval
    exact readGlobal_binds h
  | .index target position, h => by
    unfold Bound at h
    unfold eval
    refine .bind (eval_binds target h.1) fun target =>
      .bind (eval_binds position h.2) fun position => withArrays_binds fun arrays => ?_
    exact .bind target.indexable_spares fun _ => .bind position.position_spares fun _ =>
      Value.elementAt_spares _ _ _
  | .unary op operand, h => by
    unfold Bound at h
    unfold eval
    exact .bind (eval_binds operand h) fun _ => .ofExcept (op.apply_spares _)
  | .binary op left right, h => by
    unfold Bound at h
    have hleft := eval_binds left h.1
    have hright := eval_binds right h.2
    cases op with
    | and =>
      unfold eval
      refine .bind hleft fun l => .bind (.ofExcept l.condition_spares) fun b => ?_
      split
      · exact .bind hright fun r => .bind (.ofExcept r.condition_spares) fun _ => .pure _
      · exact .pure _
    | or =>
      unfold eval
      refine .bind hleft fun l => .bind (.ofExcept l.condition_spares) fun b => ?_
      split
      · exact .pure _
      · exact .bind hright fun r => .bind (.ofExcept r.condition_spares) fun _ => .pure _
    | _ =>
      unfold eval
      exact .bind hleft fun _ => .bind hright fun _ =>
        withArrays_binds fun arrays => BinaryOp.apply_spares arrays _ _ _
  | .assignSlot i op value, h => by
    unfold Bound at h
    unfold eval
    exact .bind (eval_binds value h.2) fun new =>
      .bind (combined_binds op (readSlot_binds h.1) new) fun stored =>
        .bind (writeSlot_binds h.1 stored) fun _ => .pure _
  | .assignGlobal key op value, h => by
    unfold Bound at h
    unfold eval
    exact .bind (eval_binds value h.2) fun new =>
      .bind (combined_binds op (readGlobal_binds h.1) new) fun stored =>
        .bind (writeGlobal_binds h.1 stored) fun _ => .pure _
  | .assignElement base position op value, h => by
    unfold Bound at h
    unfold eval
    refine .bind (eval_binds value h.2.2) fun new => .bind (eval_binds base h.1) fun target =>
      .bind (.ofExcept target.indexable_spares) fun id =>
        .bind (eval_binds position h.2.1) fun index =>
          .bind (.ofExcept index.position_spares) fun i => ?_
    exact .bind (combined_binds op (withArrays_binds fun arrays =>
        Value.elementAt_spares arrays id i) new) fun stored =>
      .bind (writeElement_binds id i stored) fun _ => .pure _
  | .call command arguments, h => by
    unfold Bound at h
    unfold eval
    intro e hsized
    have hvalues := evalList_binds arguments h.2 e hsized
    rw [Action.bind_run]
    cases hrun : evalList invoke arguments e with
    | done values t =>
      rw [hrun] at hvalues
      have hlength := length_evalList invoke arguments hrun
      exact hinvoke command values (hlength ▸ h.1) t hvalues
    | failed cause t =>
      rw [hrun] at hvalues
      exact hvalues
    | exhausted => trivial

/-- The evaluation of a list of expressions in which everything exists. -/
theorem evalList_binds : (es : List Expr) → AllBound scope es → (evalList invoke es).Binds scope
  | [], _ => by
    unfold evalList
    exact .pure _
  | e :: rest, h => by
    unfold AllBound at h
    unfold evalList
    exact .bind (eval_binds e h.1) fun _ => .bind (evalList_binds rest h.2) fun _ => .pure _

end

end Expr

/-! ## Calls -/

/-- A wrong number of arguments is the only mistake in the arguments that lies in a name. -/
theorem checkArguments_spares {signature : Signature} {arguments : List Value}
    (h : ∀ expected, signature.arity? = some expected → arguments.length = expected) :
    SparesNames (checkArguments signature arguments) := by
  unfold checkArguments
  split
  · exact .ok _
  · next expected harity =>
    rw [if_neg (not_not_intro (h expected harity))]
    split
    · exact .error id
    · exact .ok _

/-- A call that fails because of a name has not passed the check of its arguments. -/
theorem Command.call_failed {callee : Callee} {line : Nat} {command : Command}
    {arguments : List Value} {e t : Execution} {cause : RuntimeCause}
    (hrun : command.call callee line arguments e = .failed cause t) :
    (checkArguments command.signature arguments = .error cause ∧ t = e) ∨ ¬cause.IsUnbound := by
  unfold Command.call at hrun
  rw [Action.bind_run] at hrun
  cases hcheck : checkArguments command.signature arguments with
  | error found =>
    rw [hcheck] at hrun
    cases hrun
    exact .inl ⟨rfl, rfl⟩
  | ok checked =>
    right
    rw [hcheck] at hrun
    simp only [Action.ofExcept_ok_run, Action.bind_run, Action.mapError_run] at hrun
    cases hperform : command.perform callee line arguments e with
    | failed found u =>
      rw [hperform] at hrun
      cases hrun
      exact fun h => h
    | exhausted =>
      rw [hperform] at hrun
      cases hrun
    | done reply u =>
      rw [hperform] at hrun
      simp only at hrun
      unfold checkReply at hrun
      split at hrun
      · cases hrun
        exact fun h => h
      · cases hrun

section Calls

variable {callee : Callee} (hcallee : callee.Keeps) {scope : Scope}
include hcallee

/-- A call by a registered name with the right number of arguments. -/
theorem invoke_binds (line : Nat) {name : String} {arguments : List Value}
    (hadmits : scope.commands.Admits name arguments.length) :
    (invoke callee line name arguments).Binds scope := by
  refine .of_evolves (invoke_evolves hcallee line name arguments) fun e cause t _ hrun hoffers => ?_
  rcases hadmits with ⟨command, hlookup, -, hcount⟩
  unfold invoke at hrun
  rw [Action.bind_run, Action.get_run] at hrun
  simp only at hrun
  cases hfound : e.machine.commands.lookup? name with
  | none =>
    rw [hfound] at hrun
    cases hrun
    rw [hoffers.commands, hlookup] at hfound
    cases hfound
  | some other =>
    rw [hfound] at hrun
    rcases Command.call_failed hrun with ⟨hcheck, rfl⟩ | hspared
    · -- The check fails in front of the call, where the table is still that of the scope.
      rw [hoffers.commands, hlookup] at hfound
      cases hfound
      exact checkArguments_spares hcount cause hcheck
    · exact hspared

end Calls

/-! ## Nodes and steps -/

namespace Action

variable {σ : Type} {scope : Scope} {machine : σ → Machine} {s : σ}

/-- If an action fails in a state whose machine still offers the names of a scope, the error lies
in no name. -/
def Spares (scope : Scope) (machine : σ → Machine) (s : σ) (action : Action σ MachineError α) :
    Prop :=
  ∀ error t, action s = .failed error t → (machine t).Offers scope → ¬error.IsUnbound

namespace Spares

theorem pure (x : α) : Spares scope machine s (pure x : Action σ MachineError α) := by
  intro error t hrun
  cases hrun

theorem fail {error : MachineError} (h : ¬error.IsUnbound) :
    Spares scope machine s (fail error : Action σ MachineError α) := by
  intro other t hrun
  cases hrun
  exact fun _ => h

theorem ofExcept {result : Except MachineError α}
    (h : ∀ error, result = .error error → ¬error.IsUnbound) :
    Spares scope machine s (ofExcept result) := by
  cases result with
  | ok x => exact pure x
  | error error => exact fail (h error rfl)

/-- A sequence fails like one of its parts. -/
theorem bind {action : Action σ MachineError α} {next : α → Action σ MachineError β}
    (h : Spares scope machine s action)
    (hnext : ∀ x t, action s = .done x t → Spares scope machine t (next x)) :
    Spares scope machine s (action >>= next) := by
  intro error u hrun
  rw [bind_run] at hrun
  cases haction : action s with
  | done x t =>
    rw [haction] at hrun
    exact hnext x t haction error u hrun
  | failed other t =>
    rw [haction] at hrun
    cases hrun
    exact h _ _ haction
  | exhausted =>
    rw [haction] at hrun
    cases hrun

/-- What comes behind the state may depend on the state. -/
theorem get_bind {next : σ → Action σ MachineError β} (h : Spares scope machine s (next s)) :
    Spares scope machine s (Action.get >>= next) :=
  fun error t hrun => h error t hrun

end Spares
end Action

namespace Execution

section Steps

variable {callee : Callee} (hcallee : callee.Keeps) {scope : Scope} {tree : Tree} {e : Execution}

/-- A node that is missing lies in no name. -/
theorem nodeOf_spares (tree : Tree) (id : Nat) (error : MachineError)
    (h : nodeOf tree id = .error error) : ¬error.IsUnbound := by
  rw [error_of_nodeOf h]
  exact fun h => h

/-- Starting a child fails because of no name. -/
theorem startChild_spares (tree : Tree) (node : Node) (next : Nat) (more last : List Frame)
    (error : MachineError) (h : startChild tree node next more last = .error error) :
    ¬error.IsUnbound := by
  rcases error_of_startChild h with ⟨id, rfl⟩
  exact fun h => h

/-- A jump fails because of no name. -/
theorem unwind_spares (tree : Tree) (context : Context) (jump : Jump) (error : MachineError)
    (h : context.unwind tree jump = .error error) : ¬error.IsUnbound := by
  rcases error_of_unwind h with ⟨line, cause, rfl, rfl | rfl⟩ <;> exact fun h => h

include hcallee

/-- The evaluation of a node in whose code everything exists. -/
theorem evaluate_spares {node : Node} (hcode : ∀ code, node.code = some code → code.Bound scope)
    (hsized : e.Sized scope) : (evaluate callee node).Spares scope machine e := by
  unfold evaluate
  cases hsome : node.code with
  | none => exact .fail id
  | some code =>
    have hend := Expr.eval_binds (fun name values h => invoke_binds hcallee node.line h) code
      (hcode code hsome) e hsized
    intro error t hrun
    simp only [Action.mapError_run] at hrun
    cases heval : code.eval (invoke callee node.line) e with
    | done v u =>
      rw [heval] at hrun
      cases hrun
    | exhausted =>
      rw [heval] at hrun
      cases hrun
    | failed cause u =>
      rw [heval] at hrun hend
      cases hrun
      exact hend

/-- A condition in whose code everything exists. -/
theorem evaluateCondition_spares {node : Node}
    (hcode : ∀ code, node.code = some code → code.Bound scope) (hsized : e.Sized scope) :
    (evaluateCondition callee node).Spares scope machine e := by
  refine .bind (evaluate_spares hcallee hcode hsized) fun v t _ => ?_
  split
  · exact .pure _
  · exact .get_bind (.fail id)

/-- The collection of a loop in whose code everything exists. -/
theorem evaluateCollection_spares {node : Node}
    (hcode : ∀ code, node.code = some code → code.Bound scope) (hsized : e.Sized scope) :
    (evaluateCollection callee node).Spares scope machine e := by
  refine .bind (evaluate_spares hcallee hcode hsized) fun v t _ => ?_
  split
  · exact .pure _
  · exact .get_bind (.fail fun h => h)

variable (hbound : CodeBound scope tree.nodes) (hsized : e.Sized scope)

omit hcallee in
include hbound in
/-- Behind a node that is looked up, everything in its code exists. -/
theorem nodeOf_bind_spares {next : Node → Stepping α} (id : Nat)
    (hnext : ∀ node, tree.node? id = some node →
      (∀ code, node.code = some code → code.Bound scope) → (next node).Spares scope machine e) :
    (Action.ofExcept (nodeOf tree id) >>= next).Spares scope machine e := by
  refine .bind (.ofExcept (nodeOf_spares tree id)) fun node t hrun => ?_
  cases hfound : tree.node? id with
  | none =>
    unfold nodeOf at hrun
    rw [hfound] at hrun
    cases hrun
  | some found =>
    unfold nodeOf at hrun
    rw [hfound] at hrun
    cases hrun
    exact hnext node hfound fun code => hbound id node code hfound

include hbound hsized

/-- Testing a branch fails because of no name. -/
theorem stepBranch_spares (id tested : Nat) (elseIfs : List Nat) (elseBranch : Option Nat)
    (rest : List Frame) :
    (stepBranch callee tree id tested elseIfs elseBranch rest).Spares scope machine e := by
  unfold stepBranch
  split
  · exact .pure _
  · refine nodeOf_bind_spares hbound _ fun node _ hcode => ?_
    refine .bind (evaluateCondition_spares hcallee hcode hsized) fun b t _ => ?_
    split
    · exact .pure _
    · exact .pure _

omit hcallee hbound hsized in
/-- Binding the next element fails because of no name. -/
theorem stepBind_spares (id slot : Nat) (collection : ArrayId) (position : Nat)
    (rest : List Frame) :
    (stepBind id slot collection position rest).Spares scope machine e := by
  refine .get_bind ?_
  split
  · exact .pure _
  · refine .bind (.get_bind ?_) fun _ _ _ => .pure _
    split
    · intro error t hrun
      cases hrun
    · exact .fail fun h => h

/-- The work of a frame fails because of no name. -/
theorem stepFrame_spares {node : Node} (hcode : ∀ code, node.code = some code → code.Bound scope)
    (frame : Frame) (rest : List Frame) :
    (stepFrame callee tree node frame rest).Spares scope machine e := by
  have hstart : ∀ next more last,
      (Action.ofExcept (startChild tree node next more last)).Spares scope machine e :=
    fun next more last => .ofExcept (startChild_spares tree node next more last)
  unfold stepFrame
  simp only
  split
  · exact hstart _ _ _
  · exact hstart _ _ _
  · exact hstart _ _ _
  · exact hstart _ _ _
  · exact .bind (evaluate_spares hcallee hcode hsized) fun _ _ _ => .pure _
  · exact stepBranch_spares hcallee hbound hsized _ _ _ _ _
  · refine .bind (evaluateCondition_spares hcallee hcode hsized) fun b t _ => ?_
    split
    · exact .pure _
    · exact .pure _
  · exact hstart _ _ _
  · exact .bind (evaluateCollection_spares hcallee hcode hsized) fun _ _ _ => .pure _
  · exact stepBind_spares _ _ _ _ _
  · exact hstart _ _ _
  · exact .fail id

/-- A step fails because of no name. -/
theorem step_spares (htree : e.context.program.tree = some tree) :
    (step callee).Spares scope machine e := by
  refine .get_bind ?_
  simp only [htree]
  split
  · exact .fail id
  · split
    · refine .get_bind (.bind (.ofExcept (unwind_spares tree _ _)) fun _ _ _ => ?_)
      intro error t hrun
      cases hrun
    · refine .get_bind ?_
      split
      · exact .pure _
      · refine nodeOf_bind_spares hbound _ fun node _ hcode => ?_
        refine .bind (stepFrame_spares hcallee hbound hsized hcode _ _) fun _ _ _ => ?_
        intro error t hrun
        cases hrun

/-- A run fails because of no name. -/
theorem run_spares (budget fuel taken : Nat) (htree : e.context.program.tree = some tree) :
    (run callee budget fuel taken).Spares scope machine e := by
  induction fuel generalizing taken e with
  | zero =>
    intro error t hrun
    cases hrun
  | succ fuel ih =>
    intro error t hrun
    unfold run at hrun
    have hcontinues := step_continues hcallee e
    cases hstep : step callee e with
    | exhausted =>
      rw [hstep] at hrun
      cases hrun
    | failed found u =>
      rw [hstep] at hrun
      cases hrun
      exact step_spares hcallee hbound hsized htree error u hstep
    | done status u =>
      rw [hstep] at hrun hcontinues
      cases status with
      | finished => cases hrun
      | running =>
        simp only at hrun
        split at hrun
        · cases hrun
        · have hsized' : u.Sized scope := hcontinues.context.locals.trans hsized
          have htree' : u.context.program.tree = some tree := by
            rw [hcontinues.context.program]
            exact htree
          exact ih hsized' (taken + 1) htree' error t hrun

end Steps
end Execution

/-! ## Creating contexts and running programs -/

namespace Machine

open Execution

section Programs

variable {callee : Callee} (hcallee : callee.Keeps) {scope : Scope} {tree : Tree}
  {program : Program}

/-- What ends an operation does not change the names that a machine offers. -/
theorem Offers.of_eq {m m' : Machine} (h : m'.Offers scope) (hcommands : m'.commands = m.commands)
    (hglobals : m'.globals = m.globals) : m.Offers scope :=
  ⟨hcommands ▸ h.commands, hglobals ▸ h.globals⟩

include hcallee

/-- Initializers fail because of no name. -/
theorem prepareAll_spares (hbound : CodeBound scope tree.nodes) {e : Execution}
    (hsized : e.Sized scope) (ids : List Nat) :
    (prepareAll callee tree ids).Spares scope machine e := by
  induction ids generalizing e with
  | nil => exact .pure _
  | cons id rest ih =>
    refine .bind ?_ fun _ t hrun => ih ?_
    · refine nodeOf_bind_spares hbound id fun node _ hcode => ?_
      refine .bind (evaluate_spares hcallee hcode hsized) fun _ _ _ => .get_bind ?_
      split
      · exact .fail fun h => h
      · exact .pure _
    · have hevolves := (prepareOne_evolves hcallee tree id).of_done hrun
      exact hevolves.context.locals.trans hsized

/-- The creation of a context fails because of no name. -/
theorem createContext_spares (htree : program.tree = some tree)
    (hbound : CodeBound scope tree.nodes) (hslots : program.declarations.length = scope.locals.length)
    (arguments : List Value) (m : Machine) :
    (createContext callee program arguments).Spares scope id m := by
  intro error m' hrun hoffers
  cases Creates.of_createContext hrun with
  | unbound hbind => rcases error_of_bindChecked hbind with rfl | rfl | ⟨fault, rfl⟩ <;> exact fun h => h
  | @failed locals _ e hbind hprepare =>
    have hsized : Execution.Sized scope
        ⟨m.preparing program, .create (m.contextCount + 1) program locals⟩ :=
      (length_of_bindChecked hbind).trans hslots
    unfold prepare at hprepare
    rw [htree] at hprepare
    exact prepareAll_spares hcallee hbound hsized tree.initializers _ e hprepare (hoffers.of_eq rfl rfl)

/-- A run of a program in a new context fails because of no name. -/
theorem runFresh_spares (htree : program.tree = some tree) (hbound : CodeBound scope tree.nodes)
    (hslots : program.declarations.length = scope.locals.length) (fuel : Nat)
    (arguments : List Value) (m : Machine) :
    (runFresh callee fuel program arguments).Spares scope id m := by
  intro error m' hrun hoffers
  cases RunsFresh.of_runFresh hrun with
  | uncreated hcreate =>
    exact createContext_spares hcallee htree hbound hslots arguments m _ _ hcreate hoffers
  | @failed context n _ e hcreate hlast =>
    rcases createContext_locals hcallee hcreate with ⟨hprogram, -, hlength⟩
    have hfound : context.program.tree = some tree := by rw [hprogram, htree]
    have hsized : Execution.Sized scope ⟨n, context.beginRun tree.root⟩ := hlength.trans hslots
    unfold runToEnd at hlast
    simp only [hfound] at hlast
    exact run_spares hcallee hbound hsized 0 fuel 0 hfound _ e hlast (hoffers.of_eq rfl rfl)

end Programs

end Machine

/-! ## Contexts of a valid program -/

/-- A context of a program in which something may be evaluated: one whose initializers are being
evaluated, or what became of a created one. -/
inductive Execution.Met (program : Program) : Execution → Prop
  | fresh {machine : Machine} {arguments locals : List Value} (number : Nat)
      (hbind : Context.bindArguments program arguments = .ok locals) :
      Met program ⟨machine, Context.create number program locals⟩
  | prepared {e e' : Execution} {callee : Callee} {node : Node} {v : Value} (h : Met program e)
      (hcallee : callee.Keeps) (hevaluate : evaluate callee node e = .done v e') : Met program e'
  | reached {e : Execution} (h : Reached program e) : Met program e

section Valid

variable {globals : Globals} {commands : CommandTable} {id : Nat} {path : Option String}
  {source : List Char} {program : Program}

/-- A context of a valid program belongs to it and has one local per variable. -/
theorem Execution.Met.locals
    (hcompile : Program.compile globals commands id path source = .ok program)
    (hvalid : program.state = .valid) {e : Execution} (h : Met program e) :
    e.context.program = program ∧ e.context.locals.length = program.declarations.length := by
  induction h with
  | fresh number hbind => exact ⟨rfl, Context.length_bindArguments program _ _ hbind⟩
  | prepared h hcallee hevaluate ih =>
    have hevolves := (evaluate_evolves hcallee _).of_done hevaluate
    exact ⟨hevolves.context.program.trans ih.1, hevolves.context.locals.trans ih.2⟩
  | reached h =>
    have hfinished := Program.finished_of_compile hcompile
    rcases hfinished.compiled hvalid with ⟨tree, htree, hcompiled⟩
    have hwell := h.wellFormed_of_sound htree (hfinished.sound tree htree) hcompiled
    exact ⟨hwell.belongs, hwell.locals⟩

/-- Everything in the code of a valid program exists: slots lie below the number of its
variables, keys are those of globals, and calls name registered commands by their registered
names, with as many arguments as they take.  No evaluation of a node of the program, in any
context of it, fails because of a name, as long as the machine has the command table and the
names of globals from the time of compilation. -/
theorem Execution.Met.evaluate_bound (hassembled : commands.Assembled)
    (hcompile : Program.compile globals commands id path source = .ok program)
    (hvalid : program.state = .valid) :
    ∃ tree, program.tree = some tree ∧ CodeBound (program.scope globals commands) tree.nodes ∧
      ∀ (e : Execution) (callee : Callee) (number : Nat) (node : Node),
        Met program e → callee.Keeps → tree.node? number = some node →
          (evaluate callee node).Spares (program.scope globals commands) machine e := by
  rcases (Program.finished_of_compile hcompile).compiled hvalid with ⟨tree, htree, -⟩
  have hbound := Program.bound_of_compile hassembled.distinct hcompile htree
  refine ⟨tree, htree, hbound, fun e callee number node hmet hcallee hnode => ?_⟩
  have hsized : e.Sized (program.scope globals commands) := by
    refine (hmet.locals hcompile hvalid).2.trans ?_
    simp [Program.scope]
  exact evaluate_spares hcallee (fun code => hbound number node code hnode) hsized

/-- A script that calls a command by its alias and takes an element of a number. -/
def indexing : List Char :=
  "scriptname Indexing\nvariable item\nbegin\nprintc(item)\nitem[item]\nend".toList

/-- Whether the script is valid, with an element of a number behind the call. -/
def indexes : Bool :=
  match Program.compile .empty .standard 1 none indexing with
  | .ok program =>
    decide (program.state = .valid) && decide (program.declarations.length = 1) &&
      match program.tree.bind fun tree => (tree.node? 2).bind Node.code with
      | some (.index (.slot 0) (.slot 0)) => true
      | _ => false
  | .error _ => false

/-- Taking an element of a number fails, with all names in place. -/
theorem Execution.Met.evaluate_bound_indexing : ∃ program tree node error,
    Program.compile .empty .standard 1 none indexing = .ok program ∧ program.state = .valid ∧
      program.tree = some tree ∧ CodeBound (program.scope .empty .standard) tree.nodes ∧
      tree.node? 2 = some node ∧
      (let e : Execution := ⟨.start .standard .empty, .create 1 program [.number 0.0]⟩
      Met program e ∧ evaluate (Machine.callee 0) node e = .failed error e ∧
        e.machine.Offers (program.scope .empty .standard) ∧ ¬error.IsUnbound) := by
  rcases Program.exists_compile .empty .standard 1 none indexing with ⟨program, hcompile, -⟩
  have hindexes : indexes = true := by decide +kernel
  unfold indexes at hindexes
  rw [hcompile] at hindexes
  simp only [Bool.and_eq_true, decide_eq_true_eq] at hindexes
  rcases hindexes with ⟨⟨hvalid, hcount⟩, hcode⟩
  rcases evaluate_bound .standard hcompile hvalid with ⟨tree, htree, hbound, hspares⟩
  rw [htree] at hcode
  simp only [Option.bind_some] at hcode
  cases hnode : tree.node? 2 with
  | none => simp [hnode] at hcode
  | some node =>
    have hindex : node.code = some (.index (.slot 0) (.slot 0)) := by
      simp only [hnode, Option.bind_some] at hcode
      split at hcode
      · assumption
      · cases hcode
    let e : Execution := ⟨.start .standard .empty, .create 1 program [.number 0.0]⟩
    have hbind : Context.bindArguments program [] = .ok [.number 0.0] := by
      unfold Context.bindArguments
      rw [hcount]
      cases program.parameters <;> rfl
    have hmet : Met program e := .fresh 1 hbind
    have hfails : evaluate (Machine.callee 0) node e =
        .failed (e.context.errorAt node.line (.notIndexable .numeric)) e := by
      unfold evaluate
      rw [hindex]
      rfl
    have hoffers : e.machine.Offers (program.scope .empty .standard) := ⟨rfl, fun _ => rfl⟩
    exact ⟨program, tree, node, _, hcompile, hvalid, htree, hbound, hnode, hmet, hfails, hoffers,
      hspares e (Machine.callee 0) 2 node hmet (Machine.callee_keeps 0) hnode _ e hfails hoffers⟩

/-- No run of a valid program, however deep, fails because of a name, as long as the machine has
the command table and the names of globals from the time of compilation. -/
theorem Machine.runProgram_bound (hassembled : commands.Assembled)
    (hcompile : Program.compile globals commands id path source = .ok program)
    (hvalid : program.state = .valid) (calls fuel : Nat) (arguments : List Value) (m : Machine) :
    (runProgram (callee calls) fuel program arguments).Spares (program.scope globals commands)
      (fun machine => machine) m := by
  rcases (Program.finished_of_compile hcompile).compiled hvalid with ⟨tree, htree, -⟩
  have hbound := Program.bound_of_compile hassembled.distinct hcompile htree
  intro error m' hrun hoffers
  unfold runProgram at hrun
  split at hrun
  · cases hrun
    exact fun h => h
  · unfold nested at hrun
    cases hfresh : runFresh (callee calls) fuel program arguments m.enter with
    | exhausted => simp [hfresh] at hrun
    | done result n => simp [hfresh] at hrun
    | failed found n =>
      simp only [hfresh, Outcome.failed.injEq] at hrun
      rcases hrun with ⟨rfl, rfl⟩
      exact runFresh_spares (callee_keeps calls) htree hbound (by simp [Program.scope]) fuel arguments
        m.enter _ n hfresh (hoffers.of_eq rfl rfl)

end Valid

end ScriptMachine
