import ScriptMachine.Proofs.Evolution

/-!
# What steps and runs keep

A step evolves the execution and then replaces the frames, so a whole run keeps everything
of its context but frames, variables, the pending jump, the result and the halt flag.  From
this, by induction on the fuel, running another script lets the machine grow.

Main results:

- {lit}`Execution.step_keeps` and {lit}`Execution.run_keeps`: a run does what its expressions do,
  and changes the frames, the jump and the variables of its context.
- {lit}`Execution.evaluate_evolves`: what the expression of a node can change.
- {lit}`Execution.step_continues` and {lit}`Execution.run_continues`: what a step and a run
  can change.
- {lit}`Context.Unwinds`: what comes of a pending jump.
- {lit}`Machine.Creates`, {lit}`Machine.RunsFresh` and {lit}`Machine.RunsProgram`: what comes of the
  creation of a context and of the run of a program.
- {lit}`Machine.callee_keeps`: running other scripts lets the machine grow.
-/

namespace ScriptMachine

variable {α : Type}

/-! ## Pending jumps -/

/-- Why a jump is refused where there is no loop. -/
def Jump.outsideLoop? : Jump → Option RuntimeCause
  | .returnValue => none
  | .breakLoop => some .breakOutsideLoop
  | .continueLoop => some .continueOutsideLoop

namespace Context

/-- What comes of a pending jump. -/
inductive Unwinds (tree : Tree) (context : Context) :
    Jump → Except MachineError (Context × Status) → Prop
  | left : Unwinds tree context .returnValue (.ok ({ context with frames := [] }, .finished))
  | broken {loop : Frame} {rest : List Frame} (h : context.fromLoop = loop :: rest) :
      Unwinds tree context .breakLoop
        (.ok ({ context with frames := rest, pending := none }, .running))
  | continued {loop : Frame} {rest : List Frame} (h : context.fromLoop = loop :: rest) :
      Unwinds tree context .continueLoop
        (.ok ({ context with
          frames := { loop with phase := loop.phase.nextPass } :: rest
          pending := none }, .running))
  | refused {jump : Jump} {cause : RuntimeCause} (h : context.fromLoop = [])
      (hcause : jump.outsideLoop? = some cause) :
      Unwinds tree context jump (.error (context.errorAt (context.currentLine tree) cause))

/-- A pending jump is made, or refused where there is no loop. -/
theorem Unwinds.of_unwind {tree : Tree} {context : Context} {jump : Jump}
    {result : Except MachineError (Context × Status)} (h : context.unwind tree jump = result) :
    Unwinds tree context jump result := by
  subst h
  unfold unwind
  cases jump with
  | returnValue => exact .left
  | breakLoop =>
    cases hloop : context.fromLoop with
    | nil => exact .refused hloop rfl
    | cons loop rest => exact .broken hloop
  | continueLoop =>
    cases hloop : context.fromLoop with
    | nil => exact .refused hloop rfl
    | cons loop rest => exact .continued hloop

end Context

namespace Execution

/-! ## Expressions of nodes -/

/-- The expression of a node does what expressions do. -/
theorem evaluate_keeps {R : Execution → Execution → Prop} [Lasting R] {callee : Callee}
    (heval : ∀ (line : Nat) (code : Expr), (code.eval (invoke callee line)).Keeps R) (node : Node) :
    (evaluate callee node).Keeps R := by
  unfold evaluate
  split
  · exact .fail _
  · intro e
    exact (Action.Keeps.mapError _ (heval node.line _)) e

section Evaluate

variable {callee : Callee} (hcallee : callee.Keeps)
include hcallee

/-- What the expression of a node can change. -/
theorem evaluate_evolves (node : Node) : (evaluate callee node).Keeps Evolves :=
  evaluate_keeps (Expr.eval_evolves hcallee) node

/-- The expression of a node that calls no jump requests none. -/
theorem evaluate_quiet (node : Node) (e : Execution)
    (hfree : ∀ code, node.code = some code → e.machine.commands.JumpFree code.calls) :
    (evaluate callee node e).Ends e.Quiet := by
  unfold evaluate
  cases hcode : node.code with
  | none => exact Lasting.refl e
  | some code =>
    have heval := (Action.Keeps.mapError (e.context.errorAt node.line)
      (Expr.eval_quietUnder hcallee node.line code)) e
    exact heval.mono fun t ht => ht (hfree code hcode)

/-- What stands behind an expression that calls no jump does not request one either, as long
as it is quiet itself. -/
theorem evaluate_bind_quiet {α : Type} {next : Value → Stepping α}
    (hnext : ∀ v, (next v).Keeps Quiet) (node : Node) (e : Execution)
    (hfree : ∀ code, node.code = some code → e.machine.commands.JumpFree code.calls) :
    ((evaluate callee node >>= next) e).Ends e.Quiet :=
  Action.ends_bind_keeps (evaluate_quiet hcallee node e hfree) hnext

/-- A condition that calls no jump requests none. -/
theorem evaluateCondition_quiet (node : Node) (e : Execution)
    (hfree : ∀ code, node.code = some code → e.machine.commands.JumpFree code.calls) :
    (evaluateCondition callee node e).Ends e.Quiet := by
  refine evaluate_bind_quiet hcallee (fun v => ?_) node e hfree
  split
  · exact .pure _
  · exact .bind .get fun _ => .fail _

/-- The collection of a loop that calls no jump requests none. -/
theorem evaluateCollection_quiet (node : Node) (e : Execution)
    (hfree : ∀ code, node.code = some code → e.machine.commands.JumpFree code.calls) :
    (evaluateCollection callee node e).Ends e.Quiet := by
  refine evaluate_bind_quiet hcallee (fun v => ?_) node e hfree
  split
  · exact .pure _
  · exact .bind .get fun _ => .fail _

end Evaluate

/-- Binding an element changes the value of a variable. -/
theorem bindElement_plain (slot : Nat) (element : Value) :
    (bindElement slot element).Keeps Plain := by
  apply Action.Keeps.get_bind
  intro e
  by_cases hslot : slot < e.context.locals.length
  · simp only [if_pos hslot]
    exact Plain.setLocal e slot element
  · simp only [if_neg hslot]
    exact Lasting.refl e

/-! ## Errors of frames and jumps -/

/-- The only reason for a node not to be found. -/
theorem error_of_nodeOf {tree : Tree} {id : Nat} {error : MachineError}
    (h : nodeOf tree id = .error error) : error = .fault (.missingNode id) := by
  unfold nodeOf at h
  split at h
  · cases h
  · cases h
    rfl

/-- A child does not start if it is not found. -/
theorem error_of_startChild {tree : Tree} {node : Node} {next : Nat} {more last : List Frame}
    {error : MachineError} (h : startChild tree node next more last = .error error) :
    ∃ id, error = .fault (.missingNode id) := by
  unfold startChild startNode at h
  split at h
  · next child _ =>
    cases hnode : nodeOf tree child with
    | ok node =>
      rw [hnode] at h
      cases h
    | error found =>
      rw [hnode] at h
      cases h
      exact ⟨child, error_of_nodeOf hnode⟩
  · cases h

/-- A jump is not made where there is no loop. -/
theorem error_of_unwind {tree : Tree} {context : Context} {jump : Jump} {error : MachineError}
    (h : context.unwind tree jump = .error error) :
    ∃ line cause, error = context.errorAt line cause ∧
      (cause = .breakOutsideLoop ∨ cause = .continueOutsideLoop) := by
  cases Context.Unwinds.of_unwind h with
  | @refused _ cause _ hcause =>
    refine ⟨_, cause, rfl, ?_⟩
    cases jump <;> cases hcause
    · exact .inl rfl
    · exact .inr rfl

/-! ## Steps -/

/-- How an execution may differ after some steps of a run. -/
structure Continues (e e' : Execution) : Prop where
  machine : e.machine.Grows e'.machine
  context : e.context.Continues e'.context

instance : Lasting Continues where
  refl _ := ⟨Lasting.refl _, Lasting.refl _⟩
  trans h h' := ⟨Lasting.trans h.machine h'.machine, Lasting.trans h.context h'.context⟩

theorem Evolves.continues {e e' : Execution} (h : e.Evolves e') : e.Continues e' :=
  ⟨h.machine, h.context.toContinues⟩

theorem Quiet.continues {e e' : Execution} (h : e.Quiet e') : e.Continues e' :=
  h.toEvolves.continues

/-! ### What steps do -/

section Kept

variable {R : Execution → Execution → Prop} [Lasting R] {callee : Callee}
  (hevaluate : ∀ node, (evaluate callee node).Keeps R)
include hevaluate

/-- A condition does what the expression of its node does. -/
theorem evaluateCondition_keeps (node : Node) : (evaluateCondition callee node).Keeps R := by
  refine .bind (hevaluate node) fun v => ?_
  split
  · exact .pure _
  · exact .bind .get fun _ => .fail _

/-- The collection of a loop does what the expression of its node does. -/
theorem evaluateCollection_keeps (node : Node) : (evaluateCollection callee node).Keeps R := by
  refine .bind (hevaluate node) fun v => ?_
  split
  · exact .pure _
  · exact .bind .get fun _ => .fail _

/-- Testing a branch of a conditional. -/
theorem stepBranch_keeps (tree : Tree) (id tested : Nat) (elseIfs : List Nat)
    (elseBranch : Option Nat) (rest : List Frame) :
    (stepBranch callee tree id tested elseIfs elseBranch rest).Keeps R := by
  unfold stepBranch
  split
  · exact .pure _
  · refine .bind (.ofExcept _) fun node => .bind (evaluateCondition_keeps hevaluate node) fun b => ?_
    split
    · exact .pure _
    · exact .pure _

/-- The work of the innermost frame evaluates an expression or binds an element. -/
theorem stepFrame_keeps (hplain : ∀ e e', e.Plain e' → R e e') (tree : Tree) (node : Node)
    (frame : Frame) (rest : List Frame) : (stepFrame callee tree node frame rest).Keeps R := by
  unfold stepFrame
  simp only
  split
  · exact .ofExcept _
  · exact .ofExcept _
  · exact .ofExcept _
  · exact .ofExcept _
  · exact .bind (hevaluate node) fun _ => .pure _
  · exact stepBranch_keeps hevaluate _ _ _ _ _ _
  · refine .bind (evaluateCondition_keeps hevaluate node) fun b => ?_
    split
    · exact .pure _
    · exact .pure _
  · exact .ofExcept _
  · exact .bind (evaluateCollection_keeps hevaluate node) fun _ => .pure _
  · refine .bind .get fun e => ?_
    split
    · exact .pure _
    · exact .bind ((bindElement_plain _ _).mono hplain) fun _ => .pure _
  · exact .ofExcept _
  · exact .fail _

end Kept

/-- A jump keeps everything of a context but its frames and its request. -/
theorem unwind_continues {tree : Tree} {context context' : Context} {jump : Jump} {status : Status}
    (h : context.unwind tree jump = .ok (context', status)) : context.Continues context' := by
  cases Context.Unwinds.of_unwind h <;> exact ⟨rfl, rfl, rfl, rfl, rfl, rfl, rfl⟩

section Kept

variable {R : Execution → Execution → Prop} [Lasting R] {callee : Callee}
  (hplain : ∀ e e', e.Plain e' → R e e')
  (hcontext : ∀ (e : Execution) (context : Context), e.context.Continues context →
    R e { e with context := context })
  (hevaluate : ∀ node, (evaluate callee node).Keeps R)
include hplain hcontext hevaluate

/-- A step without a pending jump. -/
theorem stepStatement_keeps (tree : Tree) : (stepStatement callee tree).Keeps R := by
  refine .bind .get fun e => ?_
  split
  · exact .pure _
  · refine .bind (.ofExcept _) fun node => .bind (stepFrame_keeps hevaluate hplain tree node _ _)
      fun frames => .bind (.change fun e => ?_) fun _ => .pure _
    exact hcontext e { e.context with frames := frames } ⟨rfl, rfl, rfl, rfl, rfl, rfl, rfl⟩

omit hplain hevaluate in
/-- Making a pending jump. -/
theorem stepJump_keeps (tree : Tree) (jump : Jump) : (stepJump tree jump).Keeps R := by
  apply Action.Keeps.get_bind
  intro e
  rw [Action.bind_run]
  cases hunwind : e.context.unwind tree jump with
  | error error => exact Lasting.refl e
  | ok pair => exact hcontext e pair.1 (unwind_continues hunwind)

/-- A step does what the expression of a node does, and changes frames and variables. -/
theorem step_keeps : (step callee).Keeps R := by
  refine .bind .get fun e => ?_
  simp only
  split
  · exact .fail _
  · split
    · exact .fail _
    · split
      · exact stepJump_keeps hcontext _ _
      · exact stepStatement_keeps hplain hcontext hevaluate _

/-- A run does what its steps do. -/
theorem run_keeps (budget fuel taken : Nat) : (run callee budget fuel taken).Keeps R := by
  have hend : ∀ e, R e (e.onContext Context.endRun) :=
    fun e => hcontext e e.context.endRun ⟨rfl, rfl, rfl, rfl, rfl, rfl, rfl⟩
  induction fuel generalizing taken with
  | zero => exact fun _ => trivial
  | succ fuel ih =>
    intro e
    have hstep := step_keeps hplain hcontext hevaluate e
    unfold run
    cases hrun : step callee e with
    | exhausted => trivial
    | failed error t =>
      rw [hrun] at hstep
      exact Lasting.trans hstep (hend t)
    | done status t =>
      rw [hrun] at hstep
      cases status with
      | finished => exact Lasting.trans hstep (hend t)
      | running =>
        simp only
        split
        · exact hstep
        · have hrest := ih (taken + 1) t
          cases hlast : run callee budget fuel (taken + 1) t with
          | exhausted => trivial
          | failed error u =>
            rw [hlast] at hrest
            exact Lasting.trans hstep hrest
          | done state u =>
            rw [hlast] at hrest
            exact Lasting.trans hstep hrest

end Kept

section Step

variable {callee : Callee} (hcallee : callee.Keeps)
include hcallee

/-- The work of the innermost frame leaves the frames as they are. -/
theorem stepFrame_evolves (tree : Tree) (node : Node) (frame : Frame) (rest : List Frame) :
    (stepFrame callee tree node frame rest).Keeps Evolves :=
  stepFrame_keeps (evaluate_evolves hcallee) (fun _ _ h => h.quiet.toEvolves) tree node frame rest

/-- What a step can change. -/
theorem step_continues : (step callee).Keeps Continues :=
  step_keeps (fun _ _ h => h.quiet.continues) (fun e _ h => ⟨Lasting.refl e.machine, h⟩)
    fun node => (evaluate_evolves hcallee node).mono fun _ _ h => h.continues

/-- What a run can change. -/
theorem run_continues (budget fuel taken : Nat) :
    (run callee budget fuel taken).Keeps Continues :=
  run_keeps (fun _ _ h => h.quiet.continues) (fun e _ h => ⟨Lasting.refl e.machine, h⟩)
    (fun node => (evaluate_evolves hcallee node).mono fun _ _ h => h.continues) budget fuel taken

end Step

end Execution

/-! ## Running other scripts -/

namespace Machine

open Execution

/-- The machine in which the initializers of a new context are evaluated. -/
def preparing (m : Machine) (program : Program) : Machine :=
  (beginExecution { m with contextCount := m.contextCount + 1 } program.id).enter

/-- Why a program cannot be executed with some arguments. -/
theorem error_of_bindChecked {m : Machine} {program : Program} {arguments : List Value}
    {error : MachineError} (h : m.bindChecked program arguments = .error error) :
    error = .invalidProgram program.name ∨
      error = .parameterMismatch program.name program.parameters.length arguments.length ∨
        ∃ fault, error = .fault fault := by
  unfold bindChecked at h
  split at h
  · cases h
    exact .inl rfl
  · split at h
    · cases h
      exact .inr (.inl rfl)
    · split at h
      · cases h
      · cases h
        exact .inr (.inr ⟨_, rfl⟩)

section Ends

variable (callee : Callee) (fuel : Nat) (program : Program) (arguments : List Value) (m : Machine)

/-- What comes of the creation of a context. -/
inductive Creates : Outcome Machine MachineError Context → Prop
  | unbound {error : MachineError} (hbind : m.bindChecked program arguments = .error error) :
      Creates (.failed error { m with contextCount := m.contextCount + 1 })
  | done {locals : List Value} {e : Execution}
      (hbind : m.bindChecked program arguments = .ok locals)
      (hprepare : prepare callee program
        ⟨m.preparing program, .create (m.contextCount + 1) program locals⟩ = .done () e) :
      Creates (.done e.context e.machine.leave)
  | failed {locals : List Value} {error : MachineError} {e : Execution}
      (hbind : m.bindChecked program arguments = .ok locals)
      (hprepare : prepare callee program
        ⟨m.preparing program, .create (m.contextCount + 1) program locals⟩ = .failed error e) :
      Creates (.failed error (e.machine.leave.endExecution program.id))
  | exhausted {locals : List Value} (hbind : m.bindChecked program arguments = .ok locals)
      (hprepare : prepare callee program
        ⟨m.preparing program, .create (m.contextCount + 1) program locals⟩ = .exhausted) :
      Creates .exhausted

/-- What comes of a program in a new context. -/
inductive RunsFresh : Outcome Machine MachineError (Option Value) → Prop
  | uncreated {error : MachineError} {n : Machine}
      (hcreate : createContext callee program arguments m = .failed error n) :
      RunsFresh (.failed error n)
  | done {context : Context} {n : Machine} {state : RunState} {e : Execution}
      (hcreate : createContext callee program arguments m = .done context n)
      (hrun : runToEnd callee fuel ⟨n, context⟩ = .done state e) :
      RunsFresh (.done e.context.result (e.machine.endExecution program.id))
  | failed {context : Context} {n : Machine} {error : MachineError} {e : Execution}
      (hcreate : createContext callee program arguments m = .done context n)
      (hrun : runToEnd callee fuel ⟨n, context⟩ = .failed error e) :
      RunsFresh (.failed error (e.machine.endExecution program.id))
  | starved (hcreate : createContext callee program arguments m = .exhausted) : RunsFresh .exhausted
  | exhausted {context : Context} {n : Machine}
      (hcreate : createContext callee program arguments m = .done context n)
      (hrun : runToEnd callee fuel ⟨n, context⟩ = .exhausted) : RunsFresh .exhausted

/-- What comes of the run of a program. -/
inductive RunsProgram : Outcome Machine MachineError (Option Value) → Prop
  | refused (hlimit : m.settings.maxCallDepth ≤ m.depth) :
      RunsProgram (.failed (.callDepthExceeded m.settings.maxCallDepth) m)
  | done {result : Option Value} {n : Machine} (hlimit : m.depth < m.settings.maxCallDepth)
      (hfresh : runFresh callee fuel program arguments m.enter = .done result n) :
      RunsProgram (.done result n.leave)
  | failed {error : MachineError} {n : Machine} (hlimit : m.depth < m.settings.maxCallDepth)
      (hfresh : runFresh callee fuel program arguments m.enter = .failed error n) :
      RunsProgram (.failed error n.leave)
  | exhausted (hlimit : m.depth < m.settings.maxCallDepth)
      (hfresh : runFresh callee fuel program arguments m.enter = .exhausted) :
      RunsProgram .exhausted

end Ends

section Ends

variable {callee : Callee} {fuel : Nat} {program : Program} {arguments : List Value} {m : Machine}

/-- The arguments are bound, and the initializers are evaluated one call deeper. -/
theorem Creates.of_createContext {outcome : Outcome Machine MachineError Context}
    (h : createContext callee program arguments m = outcome) :
    Creates callee program arguments m outcome := by
  subst h
  unfold createContext
  simp only
  split
  · next error hbind => exact .unbound hbind
  · next locals hbind =>
    have hbound : m.bindChecked program arguments = .ok locals := hbind
    split
    · next e hprepare => exact .done hbound hprepare
    · next error e hprepare => exact .failed hbound hprepare
    · next hprepare => exact .exhausted hbound hprepare

/-- A context is created, and is run to its end. -/
theorem RunsFresh.of_runFresh {outcome : Outcome Machine MachineError (Option Value)}
    (h : runFresh callee fuel program arguments m = outcome) :
    RunsFresh callee fuel program arguments m outcome := by
  subst h
  unfold runFresh
  cases hcreate : createContext callee program arguments m with
  | exhausted => exact .starved hcreate
  | failed error n => exact .uncreated hcreate
  | done context n =>
    simp only
    cases hrun : runToEnd callee fuel ⟨n, context⟩ with
    | exhausted => exact .exhausted hcreate hrun
    | failed error e => exact .failed hcreate hrun
    | done state e => exact .done hcreate hrun

/-- Within the limit, a program is run one call deeper. -/
theorem RunsProgram.of_runProgram {outcome : Outcome Machine MachineError (Option Value)}
    (h : runProgram callee fuel program arguments m = outcome) :
    RunsProgram callee fuel program arguments m outcome := by
  subst h
  unfold runProgram
  split
  · next hlimit => exact .refused hlimit
  · next hlimit =>
    have hbelow : m.depth < m.settings.maxCallDepth := Nat.lt_of_not_le hlimit
    unfold nested
    cases hfresh : runFresh callee fuel program arguments m.enter with
    | exhausted => exact .exhausted hbelow hfresh
    | failed error n => exact .failed hbelow hfresh
    | done result n => exact .done hbelow hfresh

end Ends

section Kept

variable {R : Machine → Machine → Prop} [Lasting R] {callee : Callee} {fuel : Nat} {program : Program}
  {arguments : List Value}

/-- A program in a new context does what the creation of the context and its run do. -/
theorem runFresh_keeps_of (hcreate : (createContext callee program arguments).Keeps R)
    (hrun : ∀ {m n : Machine} {context : Context},
      createContext callee program arguments m = .done context n →
        (runToEnd callee fuel ⟨n, context⟩).Ends fun e => R n (e.machine.endExecution program.id)) :
    (runFresh callee fuel program arguments).Keeps R := by
  intro m
  cases hfresh : runFresh callee fuel program arguments m with
  | exhausted => trivial
  | failed error n =>
    cases RunsFresh.of_runFresh hfresh with
    | uncreated hfailed => exact hcreate.of_failed hfailed
    | failed hcreated hlast =>
      have hend := hrun hcreated
      rw [hlast] at hend
      exact Lasting.trans (hcreate.of_done hcreated) hend
  | done result n =>
    cases RunsFresh.of_runFresh hfresh with
    | done hcreated hlast =>
      have hend := hrun hcreated
      rw [hlast] at hend
      exact Lasting.trans (hcreate.of_done hcreated) hend

/-- The run of a program does what happens one call deeper. -/
theorem runProgram_keeps_of (hnested : ∀ {m n : Machine}, R m.enter n → R m n.leave)
    (hfresh : (runFresh callee fuel program arguments).Keeps R) :
    (runProgram callee fuel program arguments).Keeps R := by
  intro m
  cases hrun : runProgram callee fuel program arguments m with
  | exhausted => trivial
  | failed error n =>
    cases RunsProgram.of_runProgram hrun with
    | refused => exact Lasting.refl m
    | failed _ hfailed => exact hnested (hfresh.of_failed hfailed)
  | done result n =>
    cases RunsProgram.of_runProgram hrun with
    | done _ hdone => exact hnested (hfresh.of_done hdone)

end Kept

/-- What happens one call deeper. -/
theorem Grows.nested {m m' : Machine} (h : m.enter.Grows m') : m.Grows m'.leave := by
  have hdepth : m'.depth = m.depth + 1 := h.depth
  refine ⟨h.settings, ?_, ?_, h.commands, h.background⟩
  · show m'.depth - 1 = m.depth
    omega
  · intro hpos hraised
    have hkept : m'.raised = true := h.raised (Nat.succ_pos _) hraised
    show (if m'.depth - 1 = 0 then false else m'.raised) = true
    rw [if_neg (by omega)]
    exact hkept

section Kept

variable {R : Execution → Execution → Prop} [Lasting R] {callee : Callee}
  (hevaluate : ∀ node, (evaluate callee node).Keeps R)
include hevaluate

/-- An initializer does what its expression does. -/
theorem prepareOne_keeps (tree : Tree) (id : Nat) : (prepareOne callee tree id).Keeps R := by
  refine .bind (.ofExcept _) fun node => .bind (hevaluate node) fun _ => .bind .get fun e => ?_
  split
  · exact .fail _
  · exact .pure _

/-- Initializers do what their expressions do. -/
theorem prepareAll_keeps (tree : Tree) (ids : List Nat) : (prepareAll callee tree ids).Keeps R := by
  induction ids with
  | nil => exact .pure _
  | cons id rest ih => exact .bind (prepareOne_keeps hevaluate tree id) fun _ => ih

/-- The initializers of a program do what their expressions do. -/
theorem prepare_keeps (program : Program) : (prepare callee program).Keeps R := by
  unfold prepare
  split
  · exact .fail _
  · exact prepareAll_keeps hevaluate _ _

end Kept

section Callee

variable {callee : Callee} (hcallee : callee.Keeps)
include hcallee

/-- What an initializer can change. -/
theorem prepareOne_evolves (tree : Tree) (id : Nat) : (prepareOne callee tree id).Keeps Evolves :=
  prepareOne_keeps (evaluate_evolves hcallee) tree id

/-- What initializers can change. -/
theorem prepareAll_evolves (tree : Tree) (ids : List Nat) :
    (prepareAll callee tree ids).Keeps Evolves :=
  prepareAll_keeps (evaluate_evolves hcallee) tree ids

/-- What the initializers of a program can change. -/
theorem prepare_evolves (program : Program) : (prepare callee program).Keeps Evolves :=
  prepare_keeps (evaluate_evolves hcallee) program

/-- Creating a context lets the machine grow. -/
theorem createContext_keeps (program : Program) (arguments : List Value) :
    (createContext callee program arguments).Keeps Grows := by
  intro m
  have hcount : m.Grows { m with contextCount := m.contextCount + 1 } :=
    ⟨rfl, rfl, fun _ h => h, fun _ h => h, Nat.le_succ _, [], by simp, by simp, by simp⟩
  have hbegin : m.Grows (beginExecution { m with contextCount := m.contextCount + 1 } program.id) :=
    ⟨hcount.settings, hcount.depth, hcount.raised, hcount.commands, hcount.background⟩
  cases hrun : createContext callee program arguments m with
  | exhausted => trivial
  | failed error n =>
    cases Creates.of_createContext hrun with
    | unbound => exact hcount
    | failed _ hprepare =>
      have hnested := Grows.nested ((prepare_evolves hcallee program).of_failed hprepare).machine
      have hgrows := Lasting.trans hbegin hnested
      exact ⟨hgrows.settings, hgrows.depth, hgrows.raised, hgrows.commands, hgrows.background⟩
  | done context n =>
    cases Creates.of_createContext hrun with
    | done _ hprepare =>
      exact Lasting.trans hbegin
        (Grows.nested ((prepare_evolves hcallee program).of_done hprepare).machine)

/-- A context belongs to the program for which it was created. -/
theorem program_of_created {program : Program} {arguments : List Value} {m m' : Machine}
    {context : Context} (h : createContext callee program arguments m = .done context m') :
    context.program = program := by
  cases Creates.of_createContext h with
  | done _ hprepare => exact ((prepare_evolves hcallee program).of_done hprepare).context.program

/-- A created context is new, and whatever its initializers added came after it. -/
theorem createContext_created {program : Program} {arguments : List Value} {m m' : Machine}
    {context : Context} (h : createContext callee program arguments m = .done context m') :
    m.Created context m' := by
  cases Creates.of_createContext h with
  | @done locals e _ hprepare =>
    have hevolves := (prepare_evolves hcallee program).of_done hprepare
    have hid : e.context.id = m.contextCount + 1 := hevolves.context.id
    have hprogram : e.context.program = program := hevolves.context.program
    have htree : program.tree.isSome = true := by
      cases hnone : program.tree with
      | none => simp [prepare, hnone] at hprepare
      | some tree => rfl
    refine ⟨⟨hevolves.context.runs, hevolves.context.frames, hevolves.context.elapsed,
      by rw [hprogram]; exact htree⟩, by omega, ?_⟩
    rw [hid]
    exact hevolves.machine.background

/-- A run to the end lets the machine grow. -/
theorem runToEnd_grows (fuel : Nat) (n : Machine) (context : Context) (program : Nat) :
    (runToEnd callee fuel ⟨n, context⟩).Ends fun e => n.Grows (e.machine.endExecution program) := by
  unfold runToEnd
  simp only
  split
  · exact .of_eq rfl rfl id (fun _ h => h) rfl rfl
  · next tree _ =>
    refine (run_continues hcallee 0 fuel 0 ⟨n, context.beginRun tree.root⟩).mono fun e hrun => ?_
    have hgrows := hrun.machine
    exact ⟨hgrows.settings, hgrows.depth, hgrows.raised, hgrows.commands, hgrows.background⟩

/-- Running a program in a new context lets the machine grow. -/
theorem runFresh_keeps (fuel : Nat) (program : Program) (arguments : List Value) :
    (runFresh callee fuel program arguments).Keeps Grows :=
  runFresh_keeps_of (createContext_keeps hcallee program arguments) fun _ =>
    runToEnd_grows hcallee fuel _ _ program.id

/-- Running a program lets the machine grow. -/
theorem runProgram_keeps (fuel : Nat) (program : Program) (arguments : List Value) :
    (runProgram callee fuel program arguments).Keeps Grows :=
  runProgram_keeps_of Grows.nested (runFresh_keeps hcallee fuel program arguments)

end Callee

/-- Running other scripts lets the machine grow, whatever the fuel. -/
theorem callee_keeps (fuel : Nat) : (callee fuel).Keeps := by
  induction fuel with
  | zero =>
    exact ⟨fun _ _ _ => trivial, fun _ _ _ => trivial, fun _ _ _ _ _ h => by cases h⟩
  | succ fuel ih =>
    exact ⟨fun program arguments => runProgram_keeps ih fuel program arguments,
      fun program arguments => createContext_keeps ih program arguments,
      fun program arguments m context m' h => createContext_created ih h⟩

end Machine
end ScriptMachine
