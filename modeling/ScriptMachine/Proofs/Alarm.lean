import ScriptMachine.Proofs.Account

/-!
# Where the error command is executed

The error command may be called anywhere in an expression, and in any script that a script
calls.  Here it is said when the evaluation of an expression, a step or a whole run comes to
such a call, without any mention of the global exception.  Wherever that happens, the global
exception is raised when the outermost expression has been evaluated.

Main results:

- {lit}`Expr.eval_alarmed`: an expression that comes to the error command ends alarmed.
- {lit}`Machine.errorReach_alarms`: so does every script that comes to it.
- {lit}`Execution.step_alarmed`: so does a step, and the step after it fails.
-/

namespace ScriptMachine

variable {σ ε α β : Type}

/-! ## Alarmed executions -/

namespace Action

/-- A sequence ends well if its second part does. -/
theorem ends_bind_of_done {P : σ → Prop} {action : Action σ ε α} {next : α → Action σ ε β}
    {s t : σ} {x : α} (hrun : action s = .done x t) (h : (next x t).Ends P) :
    ((action >>= next) s).Ends P := by
  rw [bind_run, hrun]
  exact h

/-- Something happens during an action, or behind it. -/
def Meets (first : σ → Prop) (action : Action σ ε α) (next : α → σ → Prop) (s : σ) : Prop :=
  first s ∨ ∃ x t, action s = .done x t ∧ next x t

/-- What follows from something that happens in one of two actions in a row. -/
theorem Meets.ends_bind {P : σ → Prop} {first : σ → Prop} {action : Action σ ε α}
    {next : α → σ → Prop} {rest : α → Action σ ε β} {s : σ} (h : Meets first action next s)
    (hfirst : first s → (action s).Ends P) (hkeep : ∀ x t, P t → (rest x t).Ends P)
    (hnext : ∀ x t, action s = .done x t → next x t → (rest x t).Ends P) :
    ((action >>= rest) s).Ends P := by
  rcases h with h | ⟨x, t, hrun, h⟩
  · exact Action.ends_bind (hfirst h) hkeep
  · exact ends_bind_of_done hrun (hnext x t hrun h)

end Action

namespace Machine

/-- Inside of a call, the global exception is raised. -/
def Alarmed (m : Machine) : Prop :=
  0 < m.depth ∧ m.raised = true

/-- An alarm lasts for as long as the call does. -/
theorem Alarmed.of_grows {m m' : Machine} (h : m.Alarmed) (hgrows : m.Grows m') : m'.Alarmed := by
  refine ⟨?_, hgrows.raised h.1 h.2⟩
  rw [hgrows.depth]
  exact h.1

/-- Only the end of the outermost call ends an alarm. -/
theorem Alarmed.leave {m : Machine} (h : m.Alarmed) (hdeep : 1 < m.depth) : m.leave.Alarmed := by
  refine ⟨Nat.sub_pos_of_lt hdeep, ?_⟩
  show (if m.depth - 1 = 0 then false else m.raised) = true
  rw [if_neg (by omega)]
  exact h.2

end Machine

namespace Execution

/-- Inside of a call, the global exception is raised. -/
def Alarmed (e : Execution) : Prop :=
  e.machine.Alarmed

/-- What lets the machine grow does not end an alarm. -/
theorem Alarmed.ends {R : Execution → Execution → Prop} {action : Action Execution ε α}
    (hkeeps : action.Keeps R) (hR : ∀ e e', R e e' → e.machine.Grows e'.machine) {e : Execution}
    (h : e.Alarmed) : (action e).Ends Alarmed := by
  have hend := hkeeps e
  cases hrun : action e with
  | done x t =>
    rw [hrun] at hend
    exact Machine.Alarmed.of_grows h (hR e t hend)
  | failed error t =>
    rw [hrun] at hend
    exact Machine.Alarmed.of_grows h (hR e t hend)
  | exhausted => trivial

/-- No evaluation ends an alarm. -/
theorem Alarmed.keep {action : Action Execution ε α} (hkeeps : action.Keeps Evolves)
    {e : Execution} (h : e.Alarmed) : (action e).Ends Alarmed :=
  h.ends hkeeps fun _ _ hevolves => hevolves.machine

end Execution

/-! ## Expressions -/

namespace Expr

open ScriptMachine.Action Execution Evaluation

/-- Which calls of a command by name come to the error command. -/
abbrev CallReach : Type := String → List Value → Execution → Prop

mutual

/-- The evaluation of an expression comes to the error command. -/
def ReachesError (invoke : Invoker) (reach : CallReach) : Expr → Execution → Prop
  | .number _ | .text _ | .reference _ | .slot _ | .global _ => fun _ => False
  | .index target position =>
    Meets (target.ReachesError invoke reach) (target.eval invoke)
      fun _ => position.ReachesError invoke reach
  | .unary _ operand => operand.ReachesError invoke reach
  | .binary .and left right =>
    Meets (left.ReachesError invoke reach) (left.eval invoke)
      fun l t => l.condition = .ok true ∧ right.ReachesError invoke reach t
  | .binary .or left right =>
    Meets (left.ReachesError invoke reach) (left.eval invoke)
      fun l t => l.condition = .ok false ∧ right.ReachesError invoke reach t
  | .binary _ left right =>
    Meets (left.ReachesError invoke reach) (left.eval invoke)
      fun _ => right.ReachesError invoke reach
  | .assignSlot _ _ value => value.ReachesError invoke reach
  | .assignGlobal _ _ value => value.ReachesError invoke reach
  | .assignElement base position _ value =>
    Meets (value.ReachesError invoke reach) (value.eval invoke) fun _ =>
      Meets (base.ReachesError invoke reach) (base.eval invoke) fun target t =>
        (∃ id, target.indexable = .ok id) ∧ position.ReachesError invoke reach t
  | .call command arguments =>
    Meets (ListReachesError invoke reach arguments) (evalList invoke arguments) (reach command)

/-- The evaluation of a list of expressions comes to the error command. -/
def ListReachesError (invoke : Invoker) (reach : CallReach) : List Expr → Execution → Prop
  | [] => fun _ => False
  | e :: rest =>
    Meets (e.ReachesError invoke reach) (e.eval invoke)
      fun _ => ListReachesError invoke reach rest

end

variable {invoke : Invoker} {reach : CallReach}
  (hinvoke : ∀ name values, (invoke name values).Keeps Evolves)
  (hreach : ∀ name values e, 0 < e.machine.depth → reach name values e →
    (invoke name values e).Ends Alarmed)

include hinvoke in
/-- What an expression can change when its calls evolve the execution. -/
theorem eval_evolves_of (e : Expr) : (e.eval invoke).Keeps Evolves :=
  eval_keeps (fun _ _ h => h.quiet.toEvolves) e fun name _ values => hinvoke name values

include hinvoke in
/-- What a list of expressions can change when its calls evolve the execution. -/
theorem evalList_evolves_of (es : List Expr) : (evalList invoke es).Keeps Evolves :=
  evalList_keeps (fun _ _ h => h.quiet.toEvolves) es fun name _ values => hinvoke name values

include hinvoke in
/-- An evaluation leaves the call depth as it was. -/
theorem eval_depth {e : Expr} {s t : Execution} {v : Value} (hdepth : 0 < s.machine.depth)
    (hrun : e.eval invoke s = .done v t) : 0 < t.machine.depth := by
  have hevolves := (eval_evolves_of hinvoke e).of_done hrun
  rw [hevolves.machine.depth]
  exact hdepth

/-- A result that depends on the elements of arrays. -/
theorem withArrays_evolves (f : Arrays → Except RuntimeCause α) : (withArrays f).Keeps Evolves :=
  (withArrays_plain f).quiet.mono fun _ _ h => h.toEvolves

/-- An assignment to an element of an array, behind its operands. -/
theorem storeElement_evolves (op : AssignOp) (id : ArrayId) (new index : Value) :
    (do
      let i ← Action.ofExcept index.position
      let stored ← combined op (withArrays fun arrays => Value.elementAt arrays id i) new
      writeElement id i stored
      return stored : Evaluation Value).Keeps Evolves :=
  (storeElement_plain op id new index).quiet.mono fun _ _ h => h.toEvolves

include hinvoke hreach

set_option linter.unusedSectionVars false in
mutual

/-- An expression that comes to the error command ends alarmed. -/
theorem eval_alarmed : (e : Expr) → (s : Execution) → 0 < s.machine.depth →
    e.ReachesError invoke reach s → (e.eval invoke s).Ends Alarmed
  | .number x, s, _, h => False.elim h
  | .text string, s, _, h => False.elim h
  | .reference handle, s, _, h => False.elim h
  | .slot i, s, _, h => False.elim h
  | .global key, s, _, h => False.elim h
  | .index target position, s, hdepth, h => by
    unfold eval
    unfold ReachesError at h
    refine h.ends_bind (eval_alarmed target s hdepth) (fun v t ht => ht.keep ?_)
      fun v t hrun hnext => ?_
    · exact .bind (eval_evolves_of hinvoke position) fun _ => withArrays_evolves _
    · have hposition := eval_alarmed position t (eval_depth hinvoke hdepth hrun) hnext
      exact ends_bind hposition fun _ _ ht => ht.keep (withArrays_evolves _)
  | .unary op operand, s, hdepth, h => by
    unfold eval
    unfold ReachesError at h
    exact ends_bind (eval_alarmed operand s hdepth h) fun _ _ ht => ht.keep (.ofExcept _)
  | .binary op left right, s, hdepth, h => by
    have hleft := eval_alarmed left s hdepth
    have hright := eval_alarmed right
    have hkeep := eval_evolves_of hinvoke right
    cases op with
    | and =>
      unfold eval
      unfold ReachesError at h
      refine h.ends_bind hleft (fun l t ht => ht.keep ?_) fun l t hrun ⟨htrue, hnext⟩ => ?_
      · refine .bind (.ofExcept _) fun b => ?_
        split
        · exact .bind hkeep fun _ => .bind (.ofExcept _) fun _ => .pure _
        · exact .pure _
      · rw [htrue]
        refine ends_bind_of_done (ofExcept_ok_run true t) ?_
        rw [if_pos rfl]
        have hlast := hright t (eval_depth hinvoke hdepth hrun) hnext
        exact ends_bind hlast fun _ _ ht => ht.keep (.bind (.ofExcept _) fun _ => .pure _)
    | or =>
      unfold eval
      unfold ReachesError at h
      refine h.ends_bind hleft (fun l t ht => ht.keep ?_) fun l t hrun ⟨hfalse, hnext⟩ => ?_
      · refine .bind (.ofExcept _) fun b => ?_
        split
        · exact .pure _
        · exact .bind hkeep fun _ => .bind (.ofExcept _) fun _ => .pure _
      · rw [hfalse]
        refine ends_bind_of_done (ofExcept_ok_run false t) ?_
        rw [if_neg Bool.false_ne_true]
        have hlast := hright t (eval_depth hinvoke hdepth hrun) hnext
        exact ends_bind hlast fun _ _ ht => ht.keep (.bind (.ofExcept _) fun _ => .pure _)
    | _ =>
      unfold eval
      unfold ReachesError at h
      refine h.ends_bind hleft (fun l t ht => ht.keep ?_) fun l t hrun hnext => ?_
      · exact .bind hkeep fun _ => withArrays_evolves _
      · have hlast := hright t (eval_depth hinvoke hdepth hrun) hnext
        exact ends_bind hlast fun _ _ ht => ht.keep (withArrays_evolves _)
  | .assignSlot i op value, s, hdepth, h => by
    unfold eval
    unfold ReachesError at h
    exact ends_bind (eval_alarmed value s hdepth h) fun new t ht =>
      ht.keep ((storeSlot_plain op i new).quiet.mono fun _ _ h => h.toEvolves)
  | .assignGlobal key op value, s, hdepth, h => by
    unfold eval
    unfold ReachesError at h
    exact ends_bind (eval_alarmed value s hdepth h) fun new t ht =>
      ht.keep ((storeGlobal_plain op key new).quiet.mono fun _ _ h => h.toEvolves)
  | .assignElement base position op value, s, hdepth, h => by
    have hkeep := eval_evolves_of hinvoke position
    unfold eval
    unfold ReachesError at h
    refine h.ends_bind (eval_alarmed value s hdepth) (fun new t ht => ht.keep ?_)
      fun new t hrun hbase => ?_
    · exact .bind (eval_evolves_of hinvoke base) fun target => .bind (.ofExcept _) fun id =>
        .bind hkeep fun index => storeElement_evolves op id new index
    · have hdepth' := eval_depth hinvoke hdepth hrun
      refine hbase.ends_bind (eval_alarmed base t hdepth') (fun target u hu => hu.keep ?_)
        fun target u hrun' ⟨⟨id, hid⟩, hposition⟩ => ?_
      · exact .bind (.ofExcept _) fun id => .bind hkeep fun index =>
          storeElement_evolves op id new index
      · rw [hid]
        refine ends_bind_of_done (ofExcept_ok_run id u) ?_
        have hlast := eval_alarmed position u (eval_depth hinvoke hdepth' hrun') hposition
        exact ends_bind hlast fun index _ ht => ht.keep (storeElement_evolves op id new index)
  | .call command arguments, s, hdepth, h => by
    unfold eval
    unfold ReachesError at h
    refine h.ends_bind (evalList_alarmed arguments s hdepth)
      (fun values t ht => ht.keep (hinvoke command values)) fun values t hrun hcall => ?_
    have hevolves := (evalList_evolves_of hinvoke arguments).of_done hrun
    refine hreach command values t ?_ hcall
    rw [hevolves.machine.depth]
    exact hdepth

/-- A list of expressions that comes to the error command ends alarmed. -/
theorem evalList_alarmed : (es : List Expr) → (s : Execution) → 0 < s.machine.depth →
    ListReachesError invoke reach es s → (evalList invoke es s).Ends Alarmed
  | [], s, _, h => False.elim h
  | e :: rest, s, hdepth, h => by
    unfold evalList
    unfold ListReachesError at h
    refine h.ends_bind (eval_alarmed e s hdepth) (fun v t ht => ht.keep ?_)
      fun v t hrun hnext => ?_
    · exact .bind (evalList_evolves_of hinvoke rest) fun _ => .pure _
    · have hrest := evalList_alarmed rest t (eval_depth hinvoke hdepth hrun) hnext
      exact ends_bind hrest fun _ _ ht => ht.keep (.pure _)

end

end Expr

/-! ## Calls -/

/-- Which runs of other scripts, and which creations of contexts, come to the error command. -/
structure ErrorReach where
  run : Program → List Value → Machine → Prop
  create : Program → List Value → Machine → Prop

/-- Whatever comes to the error command inside of a call is alarmed at its end. -/
structure ErrorReach.Alarms (reach : ErrorReach) (callee : Callee) : Prop where
  run : ∀ program arguments m, 0 < m.depth → reach.run program arguments m →
    (callee.run program arguments m).Ends Machine.Alarmed
  create : ∀ program arguments m, 0 < m.depth → reach.create program arguments m →
    (callee.create program arguments m).Ends Machine.Alarmed

/-- The call of a command comes to the error command: it is the error command itself, or it
runs a script that comes to it. -/
def Command.ReachesError (reach : ErrorReach) (command : Command) (arguments : List Value)
    (e : Execution) : Prop :=
  checkArguments command.signature arguments = .ok () ∧
    match command.action with
    | .builtin .raiseError => ∃ message, Arguments.text arguments 0 = .ok message
    | .builtin .callScript => ∃ name program t,
      Arguments.text arguments 0 = .ok name ∧ (arguments.drop 1).length ≤ maxParameters ∧
        Builtin.target name e = .done (.ok program) t ∧
        reach.run program (arguments.drop 1) t.machine
    | .host .backgroundSelf => reach.create e.context.program arguments e.machine
    | _ => False

/-- The call of a command by name comes to the error command. -/
def invokeReaches (reach : ErrorReach) : Expr.CallReach := fun name arguments e =>
  ∃ command, e.machine.commands.lookup? name = some command ∧
    command.ReachesError reach arguments e

section Calls

open ScriptMachine.Action Execution CommandStep

variable {callee : Callee} {reach : ErrorReach} (halarms : reach.Alarms callee) (line : Nat)

/-- The error command raises the global exception. -/
theorem Builtin.doRaise_alarmed {arguments : List Value} {message : String} {e : Execution}
    (hdepth : 0 < e.machine.depth) (h : Arguments.text arguments 0 = .ok message) :
    (Builtin.doRaise line arguments e).Ends Alarmed := by
  unfold Builtin.doRaise
  rw [h]
  exact ⟨hdepth, rfl⟩

include halarms

/-- The call of a script that comes to the error command. -/
theorem Builtin.doCall_alarmed {arguments : List Value} {e t : Execution} {name : String}
    {program : Program} (hdepth : 0 < e.machine.depth)
    (hname : Arguments.text arguments 0 = .ok name)
    (hcount : (arguments.drop 1).length ≤ maxParameters)
    (htarget : Builtin.target name e = .done (.ok program) t)
    (hrun : reach.run program (arguments.drop 1) t.machine) :
    (Builtin.doCall callee arguments e).Ends Alarmed := by
  have hdepth' : 0 < t.machine.depth := by
    rw [((Builtin.target_quiet name).of_done htarget).machine.depth]
    exact hdepth
  have hend := halarms.run program (arguments.drop 1) t.machine hdepth' hrun
  unfold Builtin.doCall
  rw [hname]
  refine ends_bind_of_done (ofExcept_ok_run name e) ?_
  rw [if_neg (by omega)]
  refine ends_bind_of_done htarget ?_
  simp only
  refine ends_bind (P := Alarmed) ?_ fun result u hu => ?_
  · unfold CommandStep.operate
    rw [attempt_run]
    unfold onPart
    cases hrun : callee.run program (arguments.drop 1) t.machine with
    | done x m =>
      rw [hrun] at hend
      exact hend
    | failed error m =>
      rw [hrun] at hend
      exact hend
    | exhausted => trivial
  · split <;> exact hu

/-- Creating a context of the running program that comes to the error command. -/
theorem HostAction.backgroundRunning_alarmed {arguments : List Value} {e : Execution}
    (hdepth : 0 < e.machine.depth) (h : reach.create e.context.program arguments e.machine) :
    (HostAction.backgroundRunning callee arguments e).Ends Alarmed := by
  have hend := halarms.create e.context.program arguments e.machine hdepth h
  unfold HostAction.backgroundRunning
  refine ends_bind_of_done (get_run e) (ends_bind (P := Alarmed) ?_ fun result u hu => ?_)
  · unfold CommandStep.operate
    rw [attempt_run]
    unfold onPart
    cases hrun : callee.create e.context.program arguments e.machine with
    | done x m =>
      rw [hrun] at hend
      exact hend
    | failed error m =>
      rw [hrun] at hend
      exact hend
    | exhausted => trivial
  · split <;> exact hu

/-- A call that comes to the error command ends alarmed. -/
theorem invoke_alarmed (name : String) (arguments : List Value) (e : Execution)
    (hdepth : 0 < e.machine.depth) (h : invokeReaches reach name arguments e) :
    (invoke callee line name arguments e).Ends Alarmed := by
  rcases h with ⟨command, hlookup, hcheck, hreach⟩
  have hperform : (command.perform callee line arguments e).Ends Alarmed := by
    unfold Command.perform
    cases haction : command.action with
    | builtin builtin =>
      rw [haction] at hreach
      cases builtin with
      | raiseError =>
        rcases hreach with ⟨message, hmessage⟩
        exact Builtin.doRaise_alarmed line hdepth hmessage
      | callScript =>
        rcases hreach with ⟨name, program, t, hname, hcount, htarget, hrun⟩
        exact Builtin.doCall_alarmed halarms hdepth hname hcount htarget hrun
      | _ => exact False.elim hreach
    | host action =>
      rw [haction] at hreach
      cases action with
      | backgroundSelf => exact HostAction.backgroundRunning_alarmed halarms hdepth hreach
      | _ => exact False.elim hreach
  unfold invoke
  refine ends_bind_of_done (get_run e) ?_
  rw [hlookup]
  show (command.call callee line arguments e).Ends Alarmed
  unfold Command.call
  rw [hcheck]
  refine ends_bind_of_done (ofExcept_ok_run () e) (ends_bind (ends_mapError hperform) ?_)
  exact fun reply t ht => ht.keep (.ofExcept _)

end Calls

/-! ## Steps -/

namespace Execution

/-- The node whose expression the next step evaluates. -/
def evaluated? (e : Execution) : Option Node :=
  if e.machine.raised || e.context.pending.isSome then none
  else do
    let tree ← e.context.program.tree
    let frame ← e.context.frames.head?
    let node ← tree.node? frame.node
    match frame.phase, node.kind with
    | .expression, .expression => some node
    | .branch tested, .conditional elseIfs _ => (frame.node :: elseIfs)[tested]?.bind tree.node?
    | .loopTest, .whileLoop => some node
    | .forEachStart, .forEach _ _ => some node
    | _, _ => none

/-- The expression of a node comes to the error command. -/
def NodeReachesError (callee : Callee) (reach : ErrorReach) (node : Node) (e : Execution) : Prop :=
  ∃ code, node.code = some code ∧
    code.ReachesError (invoke callee node.line) (invokeReaches reach) e

/-- The next step comes to the error command. -/
def StepReachesError (callee : Callee) (reach : ErrorReach) (e : Execution) : Prop :=
  ∃ node, e.evaluated? = some node ∧ NodeReachesError callee reach node e

/-- A step that evaluates something is the work of a frame, whatever runs other scripts. -/
theorem exists_frame_of_evaluated {e : Execution} {node : Node} (h : e.evaluated? = some node) :
    ∃ tree frame rest top, e.context.frames = frame :: rest ∧ tree.node? frame.node = some top ∧
      (match frame.phase, top.kind with
        | .expression, .expression => some top
        | .branch tested, .conditional elseIfs _ => (frame.node :: elseIfs)[tested]?.bind tree.node?
        | .loopTest, .whileLoop => some top
        | .forEachStart, .forEach _ _ => some top
        | _, _ => none) = some node ∧
      ∀ callee, step callee e = (do
        let frames ← stepFrame callee tree top frame rest
        Action.change (onContext fun context => { context with frames := frames })
        return .running : Stepping Status) e := by
  unfold evaluated? at h
  by_cases hstop : (e.machine.raised || e.context.pending.isSome) = true
  · rw [if_pos hstop] at h
    cases h
  · rw [if_neg hstop] at h
    rw [Bool.or_eq_true, not_or] at hstop
    rcases hstop with ⟨hraised, hpending⟩
    simp only [Bool.not_eq_true] at hraised
    have hnone : e.context.pending = none := by simpa using hpending
    cases htree : e.context.program.tree with
    | none => simp [htree] at h
    | some tree =>
      cases hframes : e.context.frames with
      | nil => simp [htree, hframes] at h
      | cons frame rest =>
        cases hnode : tree.node? frame.node with
        | none => simp [htree, hframes, hnode] at h
        | some top =>
          simp only [htree, hframes, hnode, List.head?_cons, Option.bind_eq_bind,
            Option.bind_some] at h
          refine ⟨tree, frame, rest, top, rfl, hnode, h, fun callee => ?_⟩
          have hof : nodeOf tree frame.node = .ok top := by
            unfold nodeOf
            rw [hnode]
          simp [step, stepStatement, Action.bind_run, hraised, htree, hnone, hframes, hof]

/-- A step that evaluates something is the work of a frame. -/
theorem step_of_evaluated (callee : Callee) {e : Execution} {node : Node}
    (h : e.evaluated? = some node) :
    ∃ tree frame rest top, e.context.frames = frame :: rest ∧ tree.node? frame.node = some top ∧
      (match frame.phase, top.kind with
        | .expression, .expression => some top
        | .branch tested, .conditional elseIfs _ => (frame.node :: elseIfs)[tested]?.bind tree.node?
        | .loopTest, .whileLoop => some top
        | .forEachStart, .forEach _ _ => some top
        | _, _ => none) = some node ∧
      step callee e = (do
        let frames ← stepFrame callee tree top frame rest
        Action.change (onContext fun context => { context with frames := frames })
        return .running : Stepping Status) e := by
  rcases exists_frame_of_evaluated h with ⟨tree, frame, rest, top, hframes, hnode, heval, hwork⟩
  exact ⟨tree, frame, rest, top, hframes, hnode, heval, hwork callee⟩

/-- One more step. -/
theorem Steps.concat {callee : Callee} {n : Nat} {e e' e'' : Execution}
    (h : Steps callee n e e') (hstep : Execution.step callee e' = .done .running e'') :
    Steps callee (n + 1) e e'' :=
  h.append (.step hstep (.refl e''))

/-- A step that evaluates something goes on or fails. -/
theorem step_running {callee : Callee} {e e' : Execution} {node : Node} {status : Status}
    (h : e.evaluated? = some node) (hstep : step callee e = .done status e') :
    status = .running := by
  rcases step_of_evaluated callee h with ⟨tree, frame, rest, top, _, _, _, hwork⟩
  rw [hwork, Action.bind_run] at hstep
  cases hframe : stepFrame callee tree top frame rest e with
  | done frames t =>
    rw [hframe] at hstep
    cases hstep
    rfl
  | failed error t =>
    rw [hframe] at hstep
    cases hstep
  | exhausted =>
    rw [hframe] at hstep
    cases hstep

section Steps

open ScriptMachine.Action

variable {callee : Callee} (hcallee : callee.Keeps) {reach : ErrorReach}
  (halarms : reach.Alarms callee)
include hcallee halarms

/-- The expression of a node that comes to the error command ends alarmed. -/
theorem evaluate_alarmed {node : Node} {e : Execution} (hdepth : 0 < e.machine.depth)
    (h : NodeReachesError callee reach node e) : (evaluate callee node e).Ends Alarmed := by
  rcases h with ⟨code, hcode, hreach⟩
  unfold evaluate
  rw [hcode]
  exact ends_mapError (Expr.eval_alarmed (invoke_evolves hcallee node.line)
    (fun name values t => invoke_alarmed halarms node.line name values t) code e hdepth hreach)

/-- The condition of a node that comes to the error command ends alarmed. -/
theorem evaluateCondition_alarmed {node : Node} {e : Execution} (hdepth : 0 < e.machine.depth)
    (h : NodeReachesError callee reach node e) :
    (evaluateCondition callee node e).Ends Alarmed := by
  refine ends_bind (evaluate_alarmed hcallee halarms hdepth h) fun v t ht => ht.keep ?_
  split
  · exact .pure _
  · exact .bind .get fun _ => .fail _

/-- The work of a frame that comes to the error command ends alarmed. -/
theorem stepFrame_alarmed {tree : Tree} {frame : Frame} {rest : List Frame} {top node : Node}
    {e : Execution} (hdepth : 0 < e.machine.depth)
    (hnode : (match frame.phase, top.kind with
      | .expression, .expression => some top
      | .branch tested, .conditional elseIfs _ => (frame.node :: elseIfs)[tested]?.bind tree.node?
      | .loopTest, .whileLoop => some top
      | .forEachStart, .forEach _ _ => some top
      | _, _ => none) = some node)
    (h : NodeReachesError callee reach node e) :
    (stepFrame callee tree top frame rest e).Ends Alarmed := by
  unfold stepFrame
  simp only
  split at hnode
  · next hphase hkind =>
    cases hnode
    rw [hphase, hkind]
    exact ends_bind (evaluate_alarmed hcallee halarms hdepth h) fun _ _ ht => ht
  · next tested elseIfs elseBranch hphase hkind =>
    rcases Option.bind_eq_some_iff.1 hnode with ⟨branch, hbranch, hfound⟩
    have hof : nodeOf tree branch = .ok node := by
      unfold nodeOf
      rw [hfound]
    unfold stepBranch
    rw [hphase, hkind]
    simp only [hbranch]
    refine ends_bind_of_done (x := node) (t := e) (by rw [hof]; rfl) ?_
    refine ends_bind (evaluateCondition_alarmed hcallee halarms hdepth h) fun b t ht => ?_
    split <;> exact ht
  · next hphase hkind =>
    cases hnode
    rw [hphase, hkind]
    refine ends_bind (evaluateCondition_alarmed hcallee halarms hdepth h) fun b t ht => ?_
    split <;> exact ht
  · next hphase hkind =>
    cases hnode
    rw [hphase, hkind]
    refine ends_bind (P := Alarmed) ?_ fun _ _ ht => ht
    refine ends_bind (evaluate_alarmed hcallee halarms hdepth h) fun v t ht => ht.keep ?_
    split
    · exact .pure _
    · exact .bind .get fun _ => .fail _
  · cases hnode

/-- A step that comes to the error command ends alarmed. -/
theorem step_alarmed {e : Execution} (hdepth : 0 < e.machine.depth)
    (h : e.StepReachesError callee reach) : (step callee e).Ends Alarmed := by
  rcases h with ⟨node, hevaluated, hreach⟩
  rcases step_of_evaluated callee hevaluated with ⟨tree, frame, rest, top, _, _, hnode, hwork⟩
  rw [hwork]
  exact ends_bind (stepFrame_alarmed hcallee halarms hdepth hnode hreach) fun _ _ ht => ht

/-- A run that comes to the error command fails in the same step or in the next one, unless
the budget ends in between. -/
theorem run_of_reachesError {budget fuel k : Nat} {first e : Execution}
    {outcome : Outcome Execution MachineError RunState} (hdepth : 0 < first.machine.depth)
    (hsteps : Steps callee k first e) (hreach : e.StepReachesError callee reach)
    (hroom : budget = 0 ∨ k < budget) (hrun : run callee budget fuel 0 first = outcome)
    (hdone : outcome ≠ .exhausted) :
    (∃ error t, t.Alarmed ∧ step callee e = .failed error t ∧
      outcome = .failed error (t.onContext Context.endRun)) ∨
    ∃ t, t.Alarmed ∧ step callee e = .done .running t ∧
      (budget = k + 1 ∧ outcome = .done .parked t ∨
        budget ≠ k + 1 ∧ outcome = .failed (.globalException t.context.program.name)
          (t.onContext Context.endRun)) := by
  have hdepth' : 0 < e.machine.depth := by
    rw [(hsteps.continues hcallee).machine.depth]
    exact hdepth
  have halarmed := step_alarmed hcallee halarms hdepth' hreach
  rcases hreach with ⟨node, hevaluated, _⟩
  rcases run_ends hrun hdone with ⟨n, last, hsteps', hend⟩
  rcases Nat.lt_trichotomy n k with hlt | heq | hgt
  · rcases hsteps'.next hsteps hlt with ⟨t, hnext⟩
    cases hend with
    | failed _ hstep =>
      rw [hstep] at hnext
      cases hnext
    | finished _ hstep =>
      rw [hstep] at hnext
      cases hnext
    | parked _ => omega
  · subst heq
    have hsame := hsteps'.unique hsteps
    subst hsame
    cases hend with
    | failed _ hstep =>
      rw [hstep] at halarmed
      exact .inl ⟨_, _, halarmed, hstep, rfl⟩
    | finished _ hstep => cases step_running hevaluated hstep
    | parked _ => omega
  · rcases hsteps.next hsteps' hgt with ⟨t, hnext⟩
    rw [hnext] at halarmed
    have hfails := step_of_raised callee t halarmed.2
    have hlast : n = k + 1 := by
      rcases Nat.lt_or_ge (k + 1) n with hmore | hle
      · rcases (hsteps.concat hnext).next hsteps' hmore with ⟨u, hagain⟩
        rw [hfails] at hagain
        cases hagain
      · omega
    subst hlast
    have hsame := hsteps'.unique (hsteps.concat hnext)
    subst hsame
    refine .inr ⟨_, halarmed, hnext, ?_⟩
    cases hend with
    | failed hroom' hstep =>
      rw [hfails] at hstep
      cases hstep
      exact .inr ⟨by omega, rfl⟩
    | finished _ hstep =>
      rw [hfails] at hstep
      cases hstep
    | parked _ => exact .inl ⟨rfl, rfl⟩

/-- A run that comes to the error command does not finish. -/
theorem not_finished_of_reachesError {budget fuel k : Nat} {first e last : Execution}
    (hdepth : 0 < first.machine.depth) (hsteps : Steps callee k first e)
    (hreach : e.StepReachesError callee reach) (hroom : budget = 0 ∨ k < budget)
    (hrun : run callee budget fuel 0 first = .done .finished last) : False := by
  rcases run_of_reachesError hcallee halarms hdepth hsteps hreach hroom hrun (by simp) with
    ⟨error, t, _, _, hend⟩ | ⟨t, _, _, ⟨_, hend⟩ | ⟨_, hend⟩⟩
  · cases hend
  · cases hend
  · cases hend

end Steps
end Execution

/-! ## Running other scripts -/

namespace Machine

open ScriptMachine.Action Execution

section Reach

variable (callee : Callee) (reach : ErrorReach)

/-- The initializers of a program come to the error command. -/
def PrepareReachesError (tree : Tree) : List Nat → Execution → Prop
  | [] => fun _ => False
  | id :: rest =>
    Meets (fun e => ∃ node, tree.node? id = some node ∧ NodeReachesError callee reach node e)
      (prepareOne callee tree id) fun _ => PrepareReachesError tree rest

/-- The creation of a context comes to the error command. -/
def CreateReachesError (program : Program) (arguments : List Value) (m : Machine) : Prop :=
  let counted := { m with contextCount := m.contextCount + 1 }
  ∃ locals tree, counted.bindChecked program arguments = .ok locals ∧ program.tree = some tree ∧
    PrepareReachesError callee reach tree tree.initializers
      ⟨(counted.beginExecution program.id).enter,
        Context.create counted.contextCount program locals⟩

/-- A run of a program comes to the error command: the creation of its context does, or one of
its steps. -/
def RunReachesError (program : Program) (arguments : List Value) (m : Machine) : Prop :=
  m.depth < m.settings.maxCallDepth ∧
    Meets (CreateReachesError callee reach program arguments)
      (createContext callee program arguments)
      (fun context n => ∃ tree k e, context.program.tree = some tree ∧
        Steps callee k ⟨n, context.beginRun tree.root⟩ e ∧ e.StepReachesError callee reach)
      m.enter

end Reach

/-- Which runs of other scripts come to the error command: every call takes one unit of fuel,
as it does when they run. -/
def errorReach : Nat → ErrorReach
  | 0 => ⟨fun _ _ _ => False, fun _ _ _ => False⟩
  | fuel + 1 => {
      run := RunReachesError (callee fuel) (errorReach fuel)
      create := CreateReachesError (callee fuel) (errorReach fuel) }

/-- A run to the end keeps an alarm. -/
theorem runToEnd_alarmed_of_alarmed {callee : Callee} (hcallee : callee.Keeps) {fuel : Nat}
    {context : Context} {m : Machine} (h : m.Alarmed) :
    (runToEnd callee fuel ⟨m, context⟩).Ends Execution.Alarmed := by
  unfold runToEnd
  simp only
  cases context.program.tree with
  | none => exact h
  | some tree =>
    have hstart : Execution.Alarmed ⟨m, context.beginRun tree.root⟩ := h
    exact hstart.ends (run_continues hcallee 0 fuel 0) fun _ _ hcontinues => hcontinues.machine

section Alarms

variable {callee : Callee} (hcallee : callee.Keeps) {reach : ErrorReach}
  (halarms : reach.Alarms callee)
include hcallee halarms

/-- Initializers that come to the error command end alarmed. -/
theorem prepareAll_alarmed {tree : Tree} {ids : List Nat} {e : Execution}
    (hdepth : 0 < e.machine.depth) (h : PrepareReachesError callee reach tree ids e) :
    (prepareAll callee tree ids e).Ends Execution.Alarmed := by
  induction ids generalizing e with
  | nil => exact False.elim h
  | cons id rest ih =>
    refine Meets.ends_bind h ?_ (fun _ t ht => ht.keep (prepareAll_evolves hcallee tree rest)) ?_
    · intro ⟨node, hnode, hreach⟩
      refine ends_bind_of_done (x := node) (t := e) ?_ ?_
      · unfold nodeOf
        rw [hnode]
        rfl
      · refine ends_bind (evaluate_alarmed hcallee halarms hdepth hreach) fun v t ht => ht.keep ?_
        refine .bind .get fun n => ?_
        split
        · exact .fail _
        · exact .pure _
    · intro _ t hrun hrest
      have hevolves := (prepareOne_evolves hcallee tree id).of_done hrun
      refine ih ?_ hrest
      rw [hevolves.machine.depth]
      exact hdepth

/-- The creation of a context that comes to the error command ends alarmed. -/
theorem createContext_alarmed {program : Program} {arguments : List Value} {m : Machine}
    (hdepth : 0 < m.depth) (h : CreateReachesError callee reach program arguments m) :
    (createContext callee program arguments m).Ends Machine.Alarmed := by
  rcases h with ⟨locals, tree, hbind, htree, hprepare⟩
  unfold createContext
  simp only at hbind hprepare
  simp only [hbind]
  generalize hstart : Execution.mk _ _ = start at hprepare
  have hdeep : 1 < start.machine.depth := by
    rw [← hstart]
    exact Nat.succ_lt_succ hdepth
  have hend := prepareAll_alarmed hcallee halarms (by omega) hprepare
  have hkeeps := prepareAll_evolves hcallee tree tree.initializers start
  unfold prepare
  rw [htree]
  simp only
  cases hrun : prepareAll callee tree tree.initializers start with
  | exhausted => trivial
  | failed error e =>
    rw [hrun] at hend hkeeps
    refine Machine.Alarmed.leave hend ?_
    rw [hkeeps.machine.depth]
    exact hdeep
  | done answer e =>
    rw [hrun] at hend hkeeps
    refine Machine.Alarmed.leave hend ?_
    rw [hkeeps.machine.depth]
    exact hdeep

/-- A run to the end of a context that comes to the error command ends alarmed. -/
theorem runToEnd_alarmed {fuel k : Nat} {tree : Tree} {context : Context} {m : Machine}
    {e : Execution} (hdepth : 0 < m.depth) (htree : context.program.tree = some tree)
    (hsteps : Steps callee k ⟨m, context.beginRun tree.root⟩ e)
    (hreach : e.StepReachesError callee reach) :
    (runToEnd callee fuel ⟨m, context⟩).Ends Execution.Alarmed := by
  unfold runToEnd
  simp only [htree]
  show (Execution.run callee 0 fuel 0 ⟨m, context.beginRun tree.root⟩).Ends Execution.Alarmed
  by_cases hdone : Execution.run callee 0 fuel 0 ⟨m, context.beginRun tree.root⟩ = .exhausted
  · rw [hdone]
    trivial
  · rcases run_of_reachesError hcallee halarms hdepth hsteps hreach (.inl rfl) rfl hdone with
      ⟨error, t, ht, _, hend⟩ | ⟨t, ht, _, ⟨hzero, _⟩ | ⟨_, hend⟩⟩
    · rw [hend]
      exact ht
    · cases hzero
    · rw [hend]
      exact ht

/-- A program in a new context that comes to the error command ends alarmed. -/
theorem runFresh_alarmed {fuel : Nat} {program : Program} {arguments : List Value} {m : Machine}
    (hdepth : 0 < m.depth)
    (h : Meets (CreateReachesError callee reach program arguments)
      (createContext callee program arguments)
      (fun context n => ∃ tree k e, context.program.tree = some tree ∧
        Steps callee k ⟨n, context.beginRun tree.root⟩ e ∧ e.StepReachesError callee reach) m) :
    (runFresh callee fuel program arguments m).Ends Machine.Alarmed := by
  have hgone : ∀ {error : MachineError} {n : Machine},
      createContext callee program arguments m = .failed error n → n.Alarmed := by
    intro error n hfailed
    rcases h with hreach | ⟨context, k, hcreate, -⟩
    · have hend := createContext_alarmed hcallee halarms hdepth hreach
      rw [hfailed] at hend
      exact hend
    · cases hfailed.symm.trans hcreate
  have hrest : ∀ {context : Context} {n : Machine},
      createContext callee program arguments m = .done context n →
        (runToEnd callee fuel ⟨n, context⟩).Ends Execution.Alarmed := by
    intro context n hcreated
    rcases h with hreach | ⟨other, k, hcreate, tree, steps, e, htree, hsteps, hreach⟩
    · have hend := createContext_alarmed hcallee halarms hdepth hreach
      rw [hcreated] at hend
      exact runToEnd_alarmed_of_alarmed hcallee hend
    · cases hcreated.symm.trans hcreate
      have hgrows := (createContext_keeps hcallee program arguments).of_done hcreated
      refine runToEnd_alarmed hcallee halarms ?_ htree hsteps hreach
      rw [hgrows.depth]
      exact hdepth
  cases hrun : runFresh callee fuel program arguments m with
  | exhausted => trivial
  | failed error n =>
    cases RunsFresh.of_runFresh hrun with
    | uncreated hfailed => exact hgone hfailed
    | failed hcreated hlast =>
      have hend := hrest hcreated
      rw [hlast] at hend
      exact hend
  | done result n =>
    cases RunsFresh.of_runFresh hrun with
    | done hcreated hlast =>
      have hend := hrest hcreated
      rw [hlast] at hend
      exact hend

/-- A run of a program that comes to the error command ends alarmed. -/
theorem runProgram_alarmed {fuel : Nat} {program : Program} {arguments : List Value} {m : Machine}
    (hdepth : 0 < m.depth) (h : RunReachesError callee reach program arguments m) :
    (runProgram callee fuel program arguments m).Ends Machine.Alarmed := by
  rcases h with ⟨hlimit, hreach⟩
  have hentered : 0 < m.enter.depth := Nat.succ_pos _
  have hfresh : (runFresh callee fuel program arguments m.enter).Ends Machine.Alarmed :=
    runFresh_alarmed hcallee halarms hentered hreach
  have hkeeps := runFresh_keeps hcallee fuel program arguments m.enter
  unfold runProgram
  rw [if_neg (by omega)]
  unfold nested
  have hdeep : ∀ {n : Machine}, m.enter.Grows n → 1 < n.depth := by
    intro n hgrows
    rw [hgrows.depth]
    exact Nat.succ_lt_succ hdepth
  cases hrun : runFresh callee fuel program arguments m.enter with
  | exhausted => trivial
  | failed error n =>
    rw [hrun] at hfresh hkeeps
    exact Machine.Alarmed.leave hfresh (hdeep hkeeps)
  | done result n =>
    rw [hrun] at hfresh hkeeps
    exact Machine.Alarmed.leave hfresh (hdeep hkeeps)

end Alarms

/-- Whatever comes to the error command inside of a call is alarmed at its end, whatever the
fuel. -/
theorem errorReach_alarms (fuel : Nat) : (errorReach fuel).Alarms (callee fuel) := by
  induction fuel with
  | zero => exact ⟨fun _ _ _ _ h => False.elim h, fun _ _ _ _ h => False.elim h⟩
  | succ fuel ih =>
    exact ⟨fun _ _ _ hdepth h => runProgram_alarmed (callee_keeps fuel) ih hdepth h,
      fun _ _ _ hdepth h => createContext_alarmed (callee_keeps fuel) ih hdepth h⟩

end Machine
end ScriptMachine
