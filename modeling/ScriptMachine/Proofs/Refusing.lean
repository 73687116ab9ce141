import ScriptMachine.Proofs.Compiling
import ScriptMachine.Proofs.Depth

/-!
# Which runs are refused

A run is refused because calls nest too deeply when the call depth has come to the limit, and
in no other way: what fails inside of a run fails with another error.  The depth counts every
activation that is under way, and the evaluation of initializers is one of them.  So a call from
an initializer is refused one level earlier than the same call from a body.

Main results:

- {lit}`Machine.runFresh_throws`: nothing inside of a run fails because of the limit.
- {lit}`Machine.runProgram_refuses_iff`: a run is refused exactly at the limit.
- {lit}`Task.refuses_iff`: which of the runs that are requested during a task are refused.
-/

namespace ScriptMachine

variable {σ ε δ α β : Type}

/-! ## Errors of actions -/

/-- Every error of an action has a property. -/
def Action.Throws (P : ε → Prop) (action : Action σ ε α) : Prop :=
  ∀ s error t, action s = .failed error t → P error

namespace Action.Throws

variable {P : ε → Prop}

theorem pure (x : α) : Throws P (pure x : Action σ ε α) :=
  fun _ _ _ h => by cases h

theorem fail {error : ε} (h : P error) : Throws P (fail error : Action σ ε α) :=
  fun _ _ _ hrun => by cases hrun; exact h

theorem change (f : σ → σ) : Throws P (change f : Action σ ε Unit) :=
  fun _ _ _ h => by cases h

theorem put (s : σ) : Throws P (put s : Action σ ε Unit) :=
  fun _ _ _ h => by cases h

theorem ofExcept {result : Except ε α} (h : ∀ error, result = .error error → P error) :
    Throws P (ofExcept result : Action σ ε α) := by
  intro s error t hrun
  cases result with
  | ok x => cases hrun
  | error e =>
    cases hrun
    exact h _ rfl

/-- What comes behind the state may depend on the state. -/
theorem get_bind {next : σ → Action σ ε β} (h : ∀ s, Throws P (next s)) :
    Throws P (Action.get >>= next) :=
  fun s => h s s

/-- The errors of a sequence are those of its parts. -/
theorem bind {action : Action σ ε α} {next : α → Action σ ε β} (h : action.Throws P)
    (hnext : ∀ x, (next x).Throws P) : (action >>= next).Throws P := by
  intro s error t hrun
  rw [bind_run] at hrun
  cases haction : action s with
  | done x u =>
    rw [haction] at hrun
    exact hnext x u error t hrun
  | failed e u =>
    rw [haction] at hrun
    cases hrun
    exact h s _ _ haction
  | exhausted =>
    rw [haction] at hrun
    cases hrun

/-- A wrapped error has the property of its wrapping. -/
theorem mapError {action : Action σ δ α} {f : δ → ε} (h : ∀ error, P (f error)) :
    (mapError f action).Throws P := by
  intro s error t hrun
  rw [mapError_run] at hrun
  cases haction : action s with
  | done x u =>
    rw [haction] at hrun
    cases hrun
  | failed e u =>
    rw [haction] at hrun
    cases hrun
    exact h _
  | exhausted =>
    rw [haction] at hrun
    cases hrun

end Action.Throws

/-- The error is not that calls nest too deeply. -/
def MachineError.IsInside : MachineError → Prop
  | .callDepthExceeded _ => False
  | _ => True

/-! ## Steps -/

namespace Execution

open MachineError

theorem nodeOf_isInside {tree : Tree} {id : Nat} {error : MachineError}
    (h : nodeOf tree id = .error error) : error.IsInside := by
  rw [error_of_nodeOf h]
  trivial

theorem startChild_isInside {tree : Tree} {node : Node} {next : Nat} {more last : List Frame}
    {error : MachineError} (h : startChild tree node next more last = .error error) :
    error.IsInside := by
  rcases error_of_startChild h with ⟨id, rfl⟩
  trivial

theorem unwind_isInside {tree : Tree} {context : Context} {jump : Jump} {error : MachineError}
    (h : context.unwind tree jump = .error error) : error.IsInside := by
  rcases error_of_unwind h with ⟨line, cause, rfl, -⟩
  trivial

variable (callee : Callee) (tree : Tree)

/-- The expression of a node. -/
theorem evaluate_throws (node : Node) : (evaluate callee node).Throws IsInside := by
  unfold evaluate
  cases node.code with
  | none => exact .fail trivial
  | some code => exact fun e error t hrun => Action.Throws.mapError (fun _ => trivial) e error t hrun

/-- The condition of a node. -/
theorem evaluateCondition_throws (node : Node) :
    (evaluateCondition callee node).Throws IsInside := by
  refine .bind (evaluate_throws callee node) fun v => ?_
  split
  · exact .pure _
  · exact .get_bind fun _ => .fail trivial

/-- The array of a loop. -/
theorem evaluateCollection_throws (node : Node) :
    (evaluateCollection callee node).Throws IsInside := by
  refine .bind (evaluate_throws callee node) fun v => ?_
  split
  · exact .pure _
  · exact .get_bind fun _ => .fail trivial

/-- The work of a frame. -/
theorem stepFrame_throws (node : Node) (frame : Frame) (rest : List Frame) :
    (stepFrame callee tree node frame rest).Throws IsInside := by
  have hchild (next : Nat) (more last : List Frame) :
      (Action.ofExcept (startChild tree node next more last) : Stepping _).Throws IsInside :=
    .ofExcept fun _ => startChild_isInside
  unfold stepFrame
  simp only
  split
  · exact hchild _ _ _
  · exact hchild _ _ _
  · exact hchild _ _ _
  · exact hchild _ _ _
  · exact .bind (evaluate_throws callee node) fun _ => .pure _
  · unfold stepBranch
    split
    · exact .pure _
    · refine .bind (.ofExcept fun _ => nodeOf_isInside) fun branch =>
        .bind (evaluateCondition_throws callee branch) fun b => ?_
      split <;> exact .pure _
  · refine .bind (evaluateCondition_throws callee node) fun b => ?_
    split <;> exact .pure _
  · exact hchild _ _ _
  · exact .bind (evaluateCollection_throws callee node) fun _ => .pure _
  · refine .get_bind fun e => ?_
    split
    · exact .pure _
    · refine .bind (.get_bind fun e => ?_) fun _ => .pure _
      split
      · exact .put _
      · exact .fail trivial
  · exact hchild _ _ _
  · exact .fail trivial

/-- A step. -/
theorem step_throws : (step callee).Throws IsInside := by
  refine .get_bind fun e => ?_
  simp only
  split
  · exact .fail trivial
  · split
    · exact .fail trivial
    · next tree _ =>
      split
      · refine .get_bind fun e => .bind (.ofExcept fun _ => unwind_isInside) fun _ => ?_
        exact .bind (.put _) fun _ => .pure _
      · refine .get_bind fun e => ?_
        split
        · exact .pure _
        · refine .bind (.ofExcept fun _ => nodeOf_isInside) fun node => ?_
          exact .bind (stepFrame_throws callee tree node _ _) fun _ =>
            .bind (.change _) fun _ => .pure _

/-- A run. -/
theorem run_throws (budget fuel taken : Nat) : (run callee budget fuel taken).Throws IsInside := by
  induction fuel generalizing taken with
  | zero => exact fun _ _ _ h => by cases h
  | succ fuel ih =>
    intro e error t hrun
    unfold run at hrun
    cases hstep : step callee e with
    | exhausted =>
      rw [hstep] at hrun
      cases hrun
    | failed error' u =>
      rw [hstep] at hrun
      cases hrun
      exact step_throws callee e _ u hstep
    | done status u =>
      rw [hstep] at hrun
      cases status with
      | finished => cases hrun
      | running =>
        simp only at hrun
        split at hrun
        · cases hrun
        · exact ih (taken + 1) u error t hrun

end Execution

/-! ## Runs of programs -/

namespace Machine

open MachineError Execution

/-- Initializers. -/
theorem prepareAll_throws (callee : Callee) (tree : Tree) (ids : List Nat) :
    (prepareAll callee tree ids).Throws IsInside := by
  induction ids with
  | nil => exact .pure _
  | cons id rest ih =>
    refine .bind (.bind (.ofExcept fun _ => nodeOf_isInside) fun node =>
      .bind (evaluate_throws callee node) fun _ => .get_bind fun e => ?_) fun _ => ih
    split
    · exact .fail trivial
    · exact .pure _

/-- The creation of a context. -/
theorem createContext_throws (callee : Callee) (program : Program) (arguments : List Value) :
    (createContext callee program arguments).Throws IsInside := by
  have hprepare : (prepare callee program).Throws IsInside := by
    unfold prepare
    split
    · exact .fail trivial
    · exact prepareAll_throws callee _ _
  intro m error n hrun
  cases Creates.of_createContext hrun with
  | unbound hbind => rcases error_of_bindChecked hbind with rfl | rfl | ⟨fault, rfl⟩ <;> trivial
  | failed _ hfailed => exact hprepare _ _ _ hfailed

/-- Nothing inside of a run fails because of the limit, in this run or in those that it calls. -/
theorem runFresh_throws (callee : Callee) (fuel : Nat) (program : Program) (arguments : List Value) :
    (runFresh callee fuel program arguments).Throws IsInside := by
  intro m error n hrun
  cases RunsFresh.of_runFresh hrun with
  | uncreated hcreate => exact createContext_throws callee program arguments m _ _ hcreate
  | failed _ hend =>
    unfold runToEnd at hend
    simp only at hend
    split at hend
    · cases hend
      trivial
    · exact run_throws callee 0 fuel 0 _ _ _ hend

/-- The run of a program is refused because calls nest too deeply. -/
def Refuses (callee : Callee) (fuel : Nat) (program : Program) (arguments : List Value)
    (m : Machine) : Prop :=
  ∃ limit n, runProgram callee fuel program arguments m = .failed (.callDepthExceeded limit) n

/-- A run is refused exactly when the depth has come to the limit. -/
theorem runProgram_refuses_iff (callee : Callee) (fuel : Nat) (program : Program)
    (arguments : List Value) (m : Machine) :
    m.Refuses callee fuel program arguments ↔ m.settings.maxCallDepth ≤ m.depth := by
  constructor
  · rintro ⟨limit, n, hrun⟩
    cases RunsProgram.of_runProgram hrun with
    | refused hlimit => exact hlimit
    | failed _ hfresh => exact (runFresh_throws callee fuel program arguments m.enter _ _ hfresh).elim
  · intro hlimit
    exact ⟨_, m, runProgram_of_limit callee fuel program arguments m hlimit⟩

end Machine

/-! ## Runs that are requested -/

/-- Every activation is a run, a turn or the creation of a context. -/
theorem Activation.length_eq_count (underway : List Activation) :
    underway.length = underway.count .run + underway.count .turn + underway.count .creation := by
  induction underway with
  | nil => rfl
  | cons activation rest ih =>
    cases activation <;> simp [ih] <;> omega

/-- Which runs are refused at a moment of a task, at any depth and whatever the fuel: those for which
as many runs, turns and creations of contexts are under way as the limit allows.  While no context
is created, in other words outside of all initializers, the runs and turns alone decide. -/
theorem Task.refuses_iff {calls : Nat} {task : Task} {m : Machine} (hdepth : m.depth = 0)
    {x : Moment} (hmem : x ∈ task.moments calls m) (callee : Callee) (fuel : Nat)
    (program : Program) (arguments : List Value) :
    (x.machine.Refuses callee fuel program arguments ↔
      m.settings.maxCallDepth ≤
        x.underway.count .run + x.underway.count .turn + x.underway.count .creation) ∧
    (x.underway.count .creation = 0 →
      (x.machine.Refuses callee fuel program arguments ↔
        m.settings.maxCallDepth ≤ x.underway.count .run + x.underway.count .turn)) := by
  have hlength := Activation.length_eq_count x.underway
  rw [Machine.runProgram_refuses_iff, (follows_of_mem hmem hdepth).settings,
    depth_of_mem hmem hdepth]
  refine ⟨by rw [hlength], fun hnone => ?_⟩
  rw [hlength, hnone, Nat.add_zero]

/-- A script that calls itself from an initializer. -/
def preparing : List Char :=
  "scriptname Preparing\nvariable x = Call(\"SELF\")\nbegin\nend".toList

/-- A machine on which two runs may be nested. -/
def shallow : Machine :=
  .start { Settings.standard with maxCallDepth := 2 } .empty

/-- Whether the script requests a run while it is the only one under way and its initializer is
evaluated. -/
def requests : Bool :=
  match Program.compile .empty .standard 1 none preparing with
  | .ok program =>
    ((Task.run program []).moments 6 shallow).any fun x =>
      match x.event with
      | .request _ _ => decide (x.underway = [.creation, .run])
      | _ => false
  | .error _ => false

/-- The second run is refused although two are allowed. -/
theorem Task.refuses_iff_preparing : ∃ program x requested arguments,
    Program.compile .empty .standard 1 none preparing = .ok program ∧
      x ∈ (Task.run program []).moments 6 shallow ∧ x.event = .request requested arguments ∧
      x.underway.count .run = 1 ∧ shallow.settings.maxCallDepth = 2 ∧
      x.machine.Refuses (Machine.callee 5) 5 requested arguments := by
  have hrequests : requests = true := by decide +kernel
  rcases Program.exists_compile .empty .standard 1 none preparing with ⟨program, hprogram, -⟩
  unfold requests at hrequests
  rw [hprogram] at hrequests
  rcases List.any_eq_true.1 hrequests with ⟨x, hmem, hfound⟩
  split at hfound
  · next requested arguments hevent =>
    have hunderway : x.underway = [.creation, .run] := by simpa using hfound
    have hlimit : 2 ≤ x.underway.count .run + x.underway.count .turn + x.underway.count .creation := by
      rw [hunderway]
      decide
    refine ⟨program, x, requested, arguments, hprogram, hmem, hevent, ?_, rfl, ?_⟩
    · rw [hunderway]
      rfl
    · exact (refuses_iff rfl hmem (Machine.callee 5) 5 requested arguments).1.2 hlimit
  · cases hfound

end ScriptMachine
