import ScriptMachine.Proofs.Alarm

/-!
# Jumps that expressions request

The commands for return, break and continue leave a request in the context, and a step makes
the jump that is requested when it starts.  The requests of an expression are listed here in
the order in which they are made.  The jump is that of the last one, whatever else was
requested, while the result is that of the last return.

Main results:

- {lit}`Expr.requests`: the requests of an expression, in order.
- {lit}`Expr.eval_requests`: evaluating an expression makes its requests.
- {lit}`Execution.step_requests`: a step makes the requests of the expression that it evaluates.
-/

namespace ScriptMachine

variable {σ ε δ ρ α β : Type}

/-! ## Requests -/

/-- What a command may request of the run. -/
inductive JumpRequest where
  | breakLoop
  | continueLoop
  /-- The end of the run, with a result, and whether it is to be the last run. -/
  | returnValue (result : Option Value) (halt : Bool)

namespace JumpRequest

/-- The jump that is requested. -/
def jump : JumpRequest → Jump
  | .breakLoop => .breakLoop
  | .continueLoop => .continueLoop
  | .returnValue _ _ => .returnValue

/-- The result that a return gives. -/
def result? : JumpRequest → Option (Option Value)
  | .returnValue result _ => some result
  | .breakLoop | .continueLoop => none

/-- Whether a return asks for its run to be the last one. -/
def halts : JumpRequest → Bool
  | .returnValue _ halt => halt
  | .breakLoop | .continueLoop => false

end JumpRequest

/-- The result that the last return among some requests gives, if there is a return. -/
def lastResult? (requests : List JumpRequest) : Option (Option Value) :=
  (requests.filterMap JumpRequest.result?).getLast?

/-- The last result of two lists is that of the second, if it has one. -/
theorem lastResult?_append (requests more : List JumpRequest) :
    lastResult? (requests ++ more) = (lastResult? more).or (lastResult? requests) := by
  simp [lastResult?, List.getLast?_append]

/-- How a context differs from an earlier one in which some requests were made: the last one is
pending, and the result is that of the last return. -/
structure Context.Obeys (requests : List JumpRequest) (c c' : Context) : Prop where
  pending : c'.pending = (requests.getLast?.map JumpRequest.jump).or c.pending
  result : c'.result = (lastResult? requests).getD c.result
  halt : c'.halt = (c.halt || requests.any JumpRequest.halts)

/-- Nothing is requested. -/
theorem Context.Obeys.of_eq {c c' : Context} (hpending : c'.pending = c.pending)
    (hresult : c'.result = c.result) (hhalt : c'.halt = c.halt) : c.Obeys [] c' :=
  ⟨hpending, hresult, by simpa using hhalt⟩

/-- Requests behind requests. -/
theorem Context.Obeys.append {requests more : List JumpRequest} {c c' c'' : Context}
    (h : c.Obeys requests c') (h' : c'.Obeys more c'') : c.Obeys (requests ++ more) c'' where
  pending := by
    rw [h'.pending, h.pending, List.getLast?_append]
    cases more.getLast? <;> rfl
  result := by
    rw [h'.result, h.result, lastResult?_append]
    cases lastResult? more <;> rfl
  halt := by
    rw [h'.halt, h.halt, List.any_append, Bool.or_assoc]

/-! ## Requests of actions -/

/-- What is listed for an action, and then for what comes behind it. -/
def Action.followed (first : σ → List ρ) (action : Action σ ε α) (next : α → σ → List ρ) (s : σ) :
    List ρ :=
  first s ++
    match action s with
    | .done x t => next x t
    | .failed _ _ | .exhausted => []

/-- What is listed behind a check. -/
def Action.checked (result : Except ε α) (next : α → σ → List ρ) (s : σ) : List ρ :=
  match result with
  | .ok x => next x s
  | .error _ => []

/-- Whenever an action answers, it has made the requests that are listed for it. -/
def Action.Requests (action : Action Execution ε α) (requests : Execution → List JumpRequest) : Prop :=
  ∀ s x t, action s = .done x t → s.context.Obeys (requests s) t.context

namespace Action.Requests

/-- A quiet action requests nothing. -/
theorem of_quiet {action : Action Execution ε α} (h : action.Keeps Execution.Quiet) :
    action.Requests fun _ => [] := by
  intro s x t hrun
  have hquiet := h.of_done hrun
  exact .of_eq hquiet.pending hquiet.result hquiet.halt

/-- A sequence makes the requests of its parts in order. -/
theorem bind {action : Action Execution ε α} {next : α → Action Execution ε β}
    {first : Execution → List JumpRequest} {behind : α → Execution → List JumpRequest}
    (h : action.Requests first) (hnext : ∀ x, (next x).Requests (behind x)) :
    (action >>= next).Requests (Action.followed first action behind) := by
  intro s y u hrun
  rw [Action.bind_run] at hrun
  unfold Action.followed
  cases haction : action s with
  | done x t =>
    rw [haction] at hrun
    exact (h s x t haction).append (hnext x t y u hrun)
  | failed e t =>
    rw [haction] at hrun
    cases hrun
  | exhausted =>
    rw [haction] at hrun
    cases hrun

/-- A quiet action behind another one requests nothing more. -/
theorem bind_quiet {action : Action Execution ε α} {next : α → Action Execution ε β}
    {requests : Execution → List JumpRequest} (h : action.Requests requests)
    (hnext : ∀ x, (next x).Keeps Execution.Quiet) : (action >>= next).Requests requests := by
  intro s y u hrun
  have hbehind := bind h (fun x => of_quiet (hnext x)) s y u hrun
  have hsame : Action.followed requests action (fun _ _ => []) s = requests s := by
    unfold Action.followed
    cases action s <;> simp
  rw [hsame] at hbehind
  exact hbehind

/-- Behind a check come the requests for its result. -/
theorem ofExcept_bind {result : Except ε α} {next : α → Action Execution ε β}
    {behind : α → Execution → List JumpRequest} (hnext : ∀ x, (next x).Requests (behind x)) :
    (Action.ofExcept result >>= next).Requests (Action.checked result behind) := by
  intro s y u hrun
  cases result with
  | ok x => exact hnext x s y u hrun
  | error e => cases hrun

/-- The error of an action does not matter for its requests. -/
theorem mapError {action : Action Execution ε α} {requests : Execution → List JumpRequest}
    (f : ε → δ) (h : action.Requests requests) : (action.mapError f).Requests requests := by
  intro s x t hrun
  rw [Action.mapError_run] at hrun
  cases haction : action s with
  | done y u =>
    rw [haction] at hrun
    cases hrun
    exact h s _ _ haction
  | failed e u =>
    rw [haction] at hrun
    cases hrun
  | exhausted =>
    rw [haction] at hrun
    cases hrun

end Action.Requests

/-! ## Requests of commands -/

/-- The requests of a built-in command. -/
def Builtin.requests (arguments : List Value) : Builtin → List JumpRequest
  | .returnValue =>
    match haltArgument arguments with
    | .ok halt => [.returnValue arguments.head? (!(halt == 0.0))]
    | .error _ => []
  | .breakLoop => [.breakLoop]
  | .continueLoop => [.continueLoop]
  | _ => []

/-- The requests of a command; an action of the host makes none. -/
def Command.requests (arguments : List Value) (command : Command) : List JumpRequest :=
  match command.action with
  | .builtin builtin => builtin.requests arguments
  | .host _ => []

/-- The requests of the command that answers to a name. -/
def invokeRequests (name : String) (arguments : List Value) (e : Execution) : List JumpRequest :=
  match e.machine.commands.lookup? name with
  | some command => command.requests arguments
  | none => []

section Calls

open Execution CommandStep

variable {callee : Callee} (hcallee : callee.Keeps) (line : Nat)
include hcallee

/-- A built-in command makes its requests. -/
theorem Builtin.perform_requests (arguments : List Value) (builtin : Builtin) :
    (builtin.perform callee line arguments).Requests fun _ => builtin.requests arguments := by
  by_cases hjump : builtin.isJump = true
  · cases builtin with
    | returnValue =>
      intro s reply t hrun
      show s.context.Obeys (Builtin.requests arguments .returnValue) t.context
      simp only [perform, doReturn] at hrun
      split at hrun
      · cases hrun
      · simp only [requests]
        cases hhalt : haltArgument arguments with
        | error cause =>
          rw [hhalt] at hrun
          cases hrun
        | ok halt =>
          rw [hhalt] at hrun
          cases hrun
          exact ⟨rfl, rfl, by simp [Execution.onContext, Context.requestReturn, JumpRequest.halts]⟩
    | breakLoop =>
      intro s reply t hrun
      cases hrun
      exact ⟨rfl, rfl, by simp [Execution.onContext, Context.request, requests, JumpRequest.halts]⟩
    | continueLoop =>
      intro s reply t hrun
      cases hrun
      exact ⟨rfl, rfl, by simp [Execution.onContext, Context.request, requests, JumpRequest.halts]⟩
    | _ => cases hjump
  · have hquiet := perform_quiet hcallee line arguments builtin (by simpa using hjump)
    have hnone : builtin.requests arguments = [] := by
      cases builtin <;> first | rfl | exact absurd rfl hjump
    rw [hnone]
    exact .of_quiet hquiet

/-- A command makes its requests. -/
theorem Command.call_requests (command : Command) (arguments : List Value) :
    (command.call callee line arguments).Requests fun _ => command.requests arguments := by
  have hperform : (command.perform callee line arguments).Requests
      fun _ => command.requests arguments := by
    unfold Command.perform Command.requests
    cases command.action with
    | builtin builtin => exact Builtin.perform_requests hcallee line arguments builtin
    | host action => exact .of_quiet (HostAction.perform_quiet hcallee arguments action)
  have hcall := Action.Requests.bind_quiet
    (.mapError (RuntimeCause.inCommand command.signature.name) hperform)
    fun reply => .ofExcept (checkReply command.signature reply)
  unfold Command.call
  intro s v t hrun
  cases hcheck : checkArguments command.signature arguments with
  | error cause =>
    rw [hcheck] at hrun
    cases hrun
  | ok checked =>
    rw [hcheck] at hrun
    exact hcall s v t hrun

/-- The call of a command by name makes the requests of the command. -/
theorem invoke_requests (name : String) (arguments : List Value) :
    (invoke callee line name arguments).Requests (invokeRequests name arguments) := by
  intro s v t hrun
  unfold invoke at hrun
  rw [Action.bind_run, Action.get_run] at hrun
  simp only at hrun
  unfold invokeRequests
  cases hlookup : s.machine.commands.lookup? name with
  | none =>
    rw [hlookup] at hrun
    cases hrun
  | some command =>
    rw [hlookup] at hrun
    exact Command.call_requests hcallee line command arguments s v t hrun

end Calls

/-! ## Requests of expressions -/

namespace Expr

open Execution Evaluation

section Listed

variable (invoke : Invoker) (made : String → List Value → Execution → List JumpRequest)

mutual

/-- The requests that the evaluation of an expression makes, in order. -/
def requests : Expr → Execution → List JumpRequest
  | .number _ | .text _ | .reference _ | .slot _ | .global _ => fun _ => []
  | .index target position =>
    Action.followed target.requests (target.eval invoke) fun _ => position.requests
  | .unary _ operand => operand.requests
  | .binary .and left right =>
    Action.followed left.requests (left.eval invoke) fun l =>
      Action.checked l.condition fun b => if b then right.requests else fun _ => []
  | .binary .or left right =>
    Action.followed left.requests (left.eval invoke) fun l =>
      Action.checked l.condition fun b => if b then fun _ => [] else right.requests
  | .binary _ left right =>
    Action.followed left.requests (left.eval invoke) fun _ => right.requests
  | .assignSlot _ _ value => value.requests
  | .assignGlobal _ _ value => value.requests
  | .assignElement base position _ value =>
    Action.followed value.requests (value.eval invoke) fun _ =>
      Action.followed base.requests (base.eval invoke) fun target =>
        Action.checked target.indexable fun _ => position.requests
  | .call command arguments =>
    Action.followed (requestsList arguments) (evalList invoke arguments) (made command)

/-- The requests that the evaluation of a list of expressions makes, in order. -/
def requestsList : List Expr → Execution → List JumpRequest
  | [] => fun _ => []
  | e :: rest => Action.followed e.requests (e.eval invoke) fun _ => requestsList rest

end

end Listed

variable {invoke : Invoker} {made : String → List Value → Execution → List JumpRequest}
  (hmade : ∀ name values, (invoke name values).Requests (made name values))

include hmade

set_option linter.unusedSectionVars false in
mutual

/-- An expression makes the requests that are listed for it. -/
theorem eval_requests : (e : Expr) → (e.eval invoke).Requests (e.requests invoke made)
  | .number x | .text x | .reference x => by
    unfold eval requests
    exact .of_quiet (.pure _)
  | .slot i => by
    unfold eval requests
    exact .of_quiet (readSlot_plain i).quiet
  | .global key => by
    unfold eval requests
    exact .of_quiet (readGlobal_plain key).quiet
  | .index target position => by
    unfold eval requests
    exact .bind (eval_requests target) fun _ =>
      .bind_quiet (eval_requests position) fun _ => (withArrays_plain _).quiet
  | .unary op operand => by
    unfold eval requests
    exact .bind_quiet (eval_requests operand) fun _ => .ofExcept _
  | .binary op left right => by
    have hleft := eval_requests left
    have hright := eval_requests right
    have hcondition : (do
        let r ← right.eval invoke
        return .ofBool (← Action.ofExcept r.condition) : Evaluation Value).Requests
          (right.requests invoke made) :=
      hright.bind_quiet fun _ => .bind (.ofExcept _) fun _ => .pure _
    have hnone : (pure (.ofBool false) : Evaluation Value).Requests fun _ => [] :=
      .of_quiet (.pure _)
    have hnone' : (pure (.ofBool true) : Evaluation Value).Requests fun _ => [] :=
      .of_quiet (.pure _)
    cases op with
    | and =>
      unfold eval requests
      refine .bind hleft fun l => .ofExcept_bind fun b => ?_
      cases b with
      | true => exact hcondition
      | false => exact hnone
    | or =>
      unfold eval requests
      refine .bind hleft fun l => .ofExcept_bind fun b => ?_
      cases b with
      | true => exact hnone'
      | false => exact hcondition
    | _ =>
      unfold eval requests
      exact .bind hleft fun _ => hright.bind_quiet fun _ => (withArrays_plain _).quiet
  | .assignSlot i op value => by
    unfold eval requests
    exact .bind_quiet (eval_requests value) fun new => (storeSlot_plain op i new).quiet
  | .assignGlobal key op value => by
    unfold eval requests
    exact .bind_quiet (eval_requests value) fun new => (storeGlobal_plain op key new).quiet
  | .assignElement base position op value => by
    unfold eval requests
    exact .bind (eval_requests value) fun new => .bind (eval_requests base) fun target =>
      .ofExcept_bind fun id => .bind_quiet (eval_requests position) fun index =>
        (storeElement_plain op id new index).quiet
  | .call command arguments => by
    unfold eval requests
    exact .bind (evalList_requests arguments) fun values => hmade command values

/-- A list of expressions makes the requests that are listed for it. -/
theorem evalList_requests : (es : List Expr) →
    (evalList invoke es).Requests (requestsList invoke made es)
  | [] => by
    unfold evalList requestsList
    exact .of_quiet (.pure _)
  | e :: rest => by
    unfold evalList requestsList
    exact .bind (eval_requests e) fun _ => .bind_quiet (evalList_requests rest) fun _ => .pure _

end

end Expr

/-! ## Requests of steps -/

namespace Execution

/-- The requests that the expression of a node makes. -/
def nodeRequests (callee : Callee) (node : Node) (e : Execution) : List JumpRequest :=
  match node.code with
  | some code => code.requests (invoke callee node.line) invokeRequests e
  | none => []

/-- The requests that the next step makes. -/
def requests (callee : Callee) (e : Execution) : List JumpRequest :=
  match e.evaluated? with
  | some node => e.nodeRequests callee node
  | none => []

/-- The node whose expression a frame evaluates next. -/
def evaluatedBy? (tree : Tree) (frame : Frame) (top : Node) : Option Node :=
  match frame.phase, top.kind with
  | .expression, .expression => some top
  | .branch tested, .conditional elseIfs _ => (frame.node :: elseIfs)[tested]?.bind tree.node?
  | .loopTest, .whileLoop => some top
  | .forEachStart, .forEach _ _ => some top
  | _, _ => none

/-- The innermost frame says what the next step evaluates. -/
theorem evaluated?_of_frame {e : Execution} {tree : Tree} {frame : Frame} {rest : List Frame}
    {top : Node} (hcalm : e.machine.raised = false) (hidle : e.context.pending = none)
    (htree : e.context.program.tree = some tree) (hframes : e.context.frames = frame :: rest)
    (htop : tree.node? frame.node = some top) : e.evaluated? = evaluatedBy? tree frame top := by
  simp only [evaluated?, hcalm, hidle, htree, hframes, htop, Option.isSome_none, Bool.or_self,
    Bool.false_eq_true, if_false, List.head?_cons, Option.bind_eq_bind, Option.bind_some]
  rfl

/-- Nothing is evaluated while a jump is pending. -/
theorem evaluated?_of_pending {e : Execution} {jump : Jump} (h : e.context.pending = some jump) :
    e.evaluated? = none := by
  simp [evaluated?, h]

section Steps

variable {callee : Callee} (hcallee : callee.Keeps)
include hcallee

/-- The expression of a node makes its requests. -/
theorem evaluate_requests (node : Node) :
    (evaluate callee node).Requests (nodeRequests callee node) := by
  unfold evaluate nodeRequests
  cases node.code with
  | none => exact .of_quiet (.fail _)
  | some code =>
    have heval := Expr.eval_requests (invoke_requests hcallee node.line) code
    exact fun s v t hrun =>
      Action.Requests.mapError (s.context.errorAt node.line) heval s v t hrun

/-- The condition of a node makes the requests of its expression. -/
theorem evaluateCondition_requests (node : Node) :
    (evaluateCondition callee node).Requests (nodeRequests callee node) := by
  refine .bind_quiet (evaluate_requests hcallee node) fun v => ?_
  split
  · exact .pure _
  · exact .bind .get fun _ => .fail _

/-- The collection of a loop makes the requests of its expression. -/
theorem evaluateCollection_requests (node : Node) :
    (evaluateCollection callee node).Requests (nodeRequests callee node) := by
  refine .bind_quiet (evaluate_requests hcallee node) fun v => ?_
  split
  · exact .pure _
  · exact .bind .get fun _ => .fail _

omit hcallee in
/-- The work of a frame that evaluates nothing is quiet. -/
theorem stepFrame_quiet {tree : Tree} {top : Node} {frame : Frame} (rest : List Frame)
    (h : evaluatedBy? tree frame top = none) :
    (stepFrame callee tree top frame rest).Keeps Quiet := by
  unfold evaluatedBy? at h
  unfold stepFrame
  simp only
  split
  · exact .ofExcept _
  · exact .ofExcept _
  · exact .ofExcept _
  · exact .ofExcept _
  · next hphase hkind => simp [hphase, hkind] at h
  · next tested elseIfs elseBranch hphase hkind =>
    simp only [hphase, hkind] at h
    unfold stepBranch
    split
    · exact .pure _
    · next branch hbranch =>
      rw [hbranch, Option.bind_some] at h
      simp only [nodeOf, h]
      exact fun e => Lasting.refl e
  · next hphase hkind => simp [hphase, hkind] at h
  · exact .ofExcept _
  · next hphase hkind => simp [hphase, hkind] at h
  · refine .bind .get fun e => ?_
    split
    · exact .pure _
    · exact .bind (bindElement_plain _ _).quiet fun _ => .pure _
  · exact .ofExcept _
  · exact .fail _

/-- The work of a frame makes the requests of the expression that it evaluates. -/
theorem stepFrame_requests {tree : Tree} {top node : Node} {frame : Frame} (rest : List Frame)
    (h : evaluatedBy? tree frame top = some node) :
    (stepFrame callee tree top frame rest).Requests (nodeRequests callee node) := by
  unfold evaluatedBy? at h
  unfold stepFrame
  simp only
  split at h
  · next hphase hkind =>
    cases h
    rw [hphase, hkind]
    exact .bind_quiet (evaluate_requests hcallee top) fun _ => .pure _
  · next tested elseIfs elseBranch hphase hkind =>
    rcases Option.bind_eq_some_iff.1 h with ⟨branch, hbranch, hfound⟩
    rw [hphase, hkind]
    unfold stepBranch
    have hcondition : (do
        if (← evaluateCondition callee node) then pure (⟨branch, .block 0⟩ :: rest)
        else pure (⟨frame.node, .branch (tested + 1)⟩ :: rest) :
          Stepping (List Frame)).Requests (nodeRequests callee node) :=
      .bind_quiet (evaluateCondition_requests hcallee node) fun b => by cases b <;> exact .pure _
    simp only [hbranch, nodeOf, hfound]
    exact hcondition
  · next hphase hkind =>
    cases h
    rw [hphase, hkind]
    refine .bind_quiet (evaluateCondition_requests hcallee top) fun b => ?_
    cases b <;> exact .pure _
  · next hphase hkind =>
    cases h
    rw [hphase, hkind]
    exact .bind_quiet (evaluateCollection_requests hcallee top) fun _ => .pure _
  · cases h

/-- A step without a pending jump makes the requests of the expression that it evaluates. -/
theorem step_requests {e e' : Execution} {status : Status} (hidle : e.context.pending = none)
    (hstep : step callee e = .done status e') : e.context.Obeys (e.requests callee) e'.context := by
  unfold step at hstep
  rw [Action.bind_run, Action.get_run] at hstep
  simp only [hidle] at hstep
  by_cases hraised : e.machine.raised = true
  · rw [if_pos hraised] at hstep
    cases hstep
  · rw [if_neg hraised] at hstep
    have hcalm : e.machine.raised = false := by simpa using hraised
    cases htree : e.context.program.tree with
    | none =>
      rw [htree] at hstep
      cases hstep
    | some tree =>
      rw [htree] at hstep
      simp only [stepStatement, Action.bind_run, Action.get_run] at hstep
      cases hframes : e.context.frames with
      | nil =>
        rw [hframes] at hstep
        cases hstep
        have hnone : e.evaluated? = none := by simp [evaluated?, htree, hframes]
        unfold requests
        rw [hnone]
        exact .of_eq rfl rfl rfl
      | cons frame rest =>
        rw [hframes] at hstep
        simp only [Action.bind_run] at hstep
        cases htop : tree.node? frame.node with
        | none =>
          simp only [nodeOf, htop] at hstep
          cases hstep
        | some top =>
          simp only [nodeOf, htop, Action.ofExcept_ok_run] at hstep
          unfold requests
          rw [evaluated?_of_frame hcalm hidle htree hframes htop]
          cases hrun : stepFrame callee tree top frame rest e with
          | failed error t =>
            rw [hrun] at hstep
            cases hstep
          | exhausted =>
            rw [hrun] at hstep
            cases hstep
          | done frames t =>
            rw [hrun] at hstep
            cases hstep
            have hobeys : e.context.Obeys (match evaluatedBy? tree frame top with
                | some node => e.nodeRequests callee node
                | none => []) t.context := by
              cases hevaluated : evaluatedBy? tree frame top with
              | none => exact Action.Requests.of_quiet (stepFrame_quiet rest hevaluated) e frames t hrun
              | some node => exact stepFrame_requests hcallee rest hevaluated e frames t hrun
            exact ⟨hobeys.pending, hobeys.result, hobeys.halt⟩

end Steps
end Execution
end ScriptMachine
