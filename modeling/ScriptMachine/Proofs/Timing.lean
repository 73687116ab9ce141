import ScriptMachine.Machine.Run
import ScriptMachine.Proofs.Unseen

/-!
# Runs see neither the budget nor the clock

The step budget of the machine and the clock of a context belong to the ticks.  A step does
the same whatever they are, and so do a run, the creation of a context and a call of another
script, which has a context of its own.

Main results:

- {lit}`Execution.step_ignores`: a step ignores the budget and the clock.
- {lit}`Machine.callee_ignores`: other scripts run as they would under another budget.
-/

namespace ScriptMachine

/-- Another budget and another time. -/
def Disguise.ofTime (budget : Nat → Nat) (elapsed : Float → Float) : Disguise where
  budget := budget
  frames := id
  elapsed := elapsed

variable {budget : Nat → Nat} {elapsed : Float → Float} {callee : Callee}

/-! ## Steps -/

namespace Execution

/-- A branch of a conditional ignores the budget and the clock. -/
theorem stepBranch_ignores (hcallee : callee.Ignores (.ofTime budget elapsed)) (tree : Tree)
    (id tested : Nat) (elseIfs : List Nat) (elseBranch : Option Nat) (rest : List Frame) :
    (stepBranch callee tree id tested elseIfs elseBranch rest).Ignores
      (Disguise.ofTime budget elapsed).execution := by
  unfold stepBranch
  cases (id :: elseIfs)[tested]? with
  | none => exact .pure _
  | some branch =>
    refine .bind (.ofExcept _) fun node =>
      .bind (evaluateCondition_ignores_disguise hcallee node) fun b => ?_
    cases b <;> exact .pure _

/-- The next pass of a loop over an array ignores the budget and the clock. -/
theorem stepBind_ignores (id slot : Nat) (collection : ArrayId) (position : Nat)
    (rest : List Frame) :
    (stepBind id slot collection position rest).Ignores
      (Disguise.ofTime budget elapsed).execution := by
  refine .get_bind_of_same (fun _ => rfl) fun e => ?_
  cases e.machine.arrays.at? collection position with
  | none => exact .pure _
  | some element => exact .bind (bindElement_ignores_disguise slot element) fun _ => .pure _

/-- The work of a frame ignores the budget and the clock. -/
theorem stepFrame_ignores (hcallee : callee.Ignores (.ofTime budget elapsed)) (tree : Tree)
    (node : Node) (frame : Frame) (rest : List Frame) :
    (stepFrame callee tree node frame rest).Ignores
      (Disguise.ofTime budget elapsed).execution := by
  unfold stepFrame
  simp only
  split
  · exact .ofExcept _
  · exact .ofExcept _
  · exact .ofExcept _
  · exact .ofExcept _
  · exact .bind (evaluate_ignores_disguise hcallee node) fun _ => .pure _
  · exact stepBranch_ignores hcallee tree frame.node _ _ _ rest
  · refine .bind (evaluateCondition_ignores_disguise hcallee node) fun b => ?_
    cases b <;> exact .pure _
  · exact .ofExcept _
  · exact .bind (evaluateCollection_ignores_disguise hcallee node) fun _ => .pure _
  · exact stepBind_ignores frame.node _ _ _ rest
  · exact .ofExcept _
  · exact .fail _

/-- A step without a pending jump ignores the budget and the clock. -/
theorem stepStatement_ignores (hcallee : callee.Ignores (.ofTime budget elapsed)) (tree : Tree) :
    (stepStatement callee tree).Ignores (Disguise.ofTime budget elapsed).execution := by
  refine .get_bind_of_same (fun _ => rfl) fun e => ?_
  cases e.context.frames with
  | nil => exact .pure _
  | cons frame rest =>
    exact .bind (.ofExcept _) fun node => .bind (stepFrame_ignores hcallee tree node frame rest)
      fun frames => .bind (.change fun _ => rfl) fun _ => .pure _

/-- Making a pending jump ignores the budget and the clock. -/
theorem stepJump_ignores (tree : Tree) (jump : Jump) :
    (stepJump tree jump).Ignores (Disguise.ofTime budget elapsed).execution := by
  apply Action.Ignores.get_bind
  intro e
  have hloop : ((Disguise.ofTime budget elapsed).execution e).context.fromLoop =
      e.context.fromLoop := rfl
  cases jump with
  | returnValue => rfl
  | breakLoop =>
    simp only [Context.unwind, hloop]
    cases e.context.fromLoop with
    | nil => rfl
    | cons loop rest => rfl
  | continueLoop =>
    simp only [Context.unwind, hloop]
    cases e.context.fromLoop with
    | nil => rfl
    | cons loop rest => rfl

/-- A step ignores the budget and the clock. -/
theorem step_ignores (hcallee : callee.Ignores (.ofTime budget elapsed)) :
    (step callee).Ignores (Disguise.ofTime budget elapsed).execution := by
  refine .get_bind_of_same (fun _ => rfl) fun e => ?_
  simp only
  by_cases hraised : e.machine.raised = true
  · rw [if_pos hraised]
    exact .fail _
  · rw [if_neg hraised]
    cases e.context.program.tree with
    | none => exact .fail _
    | some tree =>
      cases e.context.pending with
      | none => exact stepStatement_ignores hcallee tree
      | some jump => exact stepJump_ignores tree jump

/-- A run within a given budget ignores that of the machine, and the clock. -/
theorem run_ignores (hcallee : callee.Ignores (.ofTime budget elapsed)) (bound fuel taken : Nat) :
    (run callee bound fuel taken).Ignores (Disguise.ofTime budget elapsed).execution := by
  induction fuel generalizing taken with
  | zero => exact fun _ => rfl
  | succ fuel ih =>
    intro e
    unfold run
    rw [step_ignores hcallee]
    cases step callee e with
    | exhausted => rfl
    | failed error e' => rfl
    | done status e' =>
      cases status with
      | finished => rfl
      | running =>
        simp only [Outcome.after]
        by_cases hused : usedUp bound (taken + 1) = true
        · rw [if_pos hused, if_pos hused]
        · rw [if_neg hused, if_neg hused]
          exact ih (taken + 1) e'

end Execution

/-! ## Contexts and programs -/

namespace Machine

/-- Evaluating an initializer ignores the budget and the clock. -/
theorem prepareOne_ignores (hcallee : callee.Ignores (.ofTime budget elapsed)) (tree : Tree)
    (id : Nat) :
    (prepareOne callee tree id).Ignores (Disguise.ofTime budget elapsed).execution := by
  refine .bind (.ofExcept _) fun node =>
    .bind (Execution.evaluate_ignores_disguise hcallee node) fun _ =>
      .get_bind_of_same (fun _ => rfl) fun e => ?_
  by_cases hraised : e.machine.raised = true
  · rw [if_pos hraised]
    exact .fail _
  · rw [if_neg hraised]
    exact .pure _

/-- Evaluating initializers ignores the budget and the clock. -/
theorem prepareAll_ignores (hcallee : callee.Ignores (.ofTime budget elapsed)) (tree : Tree)
    (ids : List Nat) :
    (prepareAll callee tree ids).Ignores (Disguise.ofTime budget elapsed).execution := by
  induction ids with
  | nil => exact .pure _
  | cons id rest ih => exact .bind (prepareOne_ignores hcallee tree id) fun _ => ih

/-- The initializers of a program ignore the budget and the clock. -/
theorem prepare_ignores (hcallee : callee.Ignores (.ofTime budget elapsed)) (program : Program) :
    (prepare callee program).Ignores (Disguise.ofTime budget elapsed).execution := by
  unfold prepare
  cases program.tree with
  | none => exact .fail _
  | some tree => exact prepareAll_ignores hcallee tree _

/-- What is left of a context when its initializers have been evaluated. -/
def afterPreparing (program : Program) :
    Outcome Execution MachineError Unit → Outcome Machine MachineError Context
  | .done () e => .done e.context e.machine.leave
  | .failed error e => .failed error (e.machine.leave.endExecution program.id)
  | .exhausted => .exhausted

/-- The creation of a context that cannot be executed. -/
theorem createContext_of_error {m : Machine} {program : Program} {arguments : List Value}
    {error : MachineError} (h : m.bindChecked program arguments = .error error) :
    createContext callee program arguments m =
      .failed error { m with contextCount := m.contextCount + 1 } := by
  have hcounted : Machine.bindChecked { m with contextCount := m.contextCount + 1 } program
      arguments = .error error := h
  unfold createContext
  simp only [hcounted]

/-- The creation of a context evaluates the initializers. -/
theorem createContext_of_ok {m : Machine} {program : Program} {arguments locals : List Value}
    (h : m.bindChecked program arguments = .ok locals) :
    createContext callee program arguments m = afterPreparing program (prepare callee program
      ⟨(Machine.beginExecution { m with contextCount := m.contextCount + 1 } program.id).enter,
        Context.create (m.contextCount + 1) program locals⟩) := by
  have hcounted : Machine.bindChecked { m with contextCount := m.contextCount + 1 } program
      arguments = .ok locals := h
  unfold createContext
  simp only [hcounted]
  rfl

/-- Creating a context ignores the budget. -/
theorem createContext_ignores (hcallee : callee.Ignores (.ofTime budget id)) (program : Program)
    (arguments : List Value) :
    (createContext callee program arguments).Ignores (Disguise.ofTime budget id).machine := by
  intro m
  let d := Disguise.ofTime budget id
  cases hlocals : m.bindChecked program arguments with
  | error e =>
    rw [createContext_of_error hlocals]
    exact createContext_of_error (m := d.machine m) hlocals
  | ok locals =>
    let start : Execution :=
      ⟨(Machine.beginExecution { m with contextCount := m.contextCount + 1 } program.id).enter,
        Context.create (m.contextCount + 1) program locals⟩
    calc createContext callee program arguments (d.machine m)
      _ = afterPreparing program (prepare callee program (d.execution start)) :=
        createContext_of_ok (m := d.machine m) hlocals
      _ = afterPreparing program ((prepare callee program start).after d.execution) := by
        rw [prepare_ignores hcallee program start]
      _ = (afterPreparing program (prepare callee program start)).after d.machine := by
        cases prepare callee program start <;> rfl
      _ = (createContext callee program arguments m).after d.machine := by
        rw [createContext_of_ok hlocals]

/-- Running a context to its end ignores the budget. -/
theorem runToEnd_ignores (hcallee : callee.Ignores (.ofTime budget id)) (fuel : Nat) :
    (runToEnd callee fuel).Ignores (Disguise.ofTime budget id).execution := by
  intro e
  have htree : ((Disguise.ofTime budget id).execution e).context.program.tree =
      e.context.program.tree := rfl
  unfold runToEnd
  rw [htree]
  cases e.context.program.tree with
  | none => rfl
  | some tree =>
    exact Execution.run_ignores hcallee 0 fuel 0
      (e.onContext fun context => context.beginRun tree.root)

/-- Running a program in a new context ignores the budget. -/
theorem runFresh_ignores (hcallee : callee.Ignores (.ofTime budget id)) (fuel : Nat)
    (program : Program) (arguments : List Value) :
    (runFresh callee fuel program arguments).Ignores (Disguise.ofTime budget id).machine := by
  intro m
  unfold runFresh
  rw [createContext_ignores hcallee program arguments m]
  cases createContext callee program arguments m with
  | exhausted => rfl
  | failed e n => rfl
  | done context n =>
    have hrun : runToEnd callee fuel ⟨(Disguise.ofTime budget id).machine n, context⟩ =
        (runToEnd callee fuel ⟨n, context⟩).after (Disguise.ofTime budget id).execution :=
      runToEnd_ignores hcallee fuel ⟨n, context⟩
    simp only [Outcome.after]
    rw [hrun]
    cases runToEnd callee fuel ⟨n, context⟩ with
    | exhausted => rfl
    | failed e t => rfl
    | done x t => rfl

/-- Running an operation one call deeper ignores the budget if the operation does. -/
theorem nested_ignores {α : Type} {operation : Operation α}
    (h : operation.Ignores (Disguise.ofTime budget id).machine) :
    (nested operation).Ignores (Disguise.ofTime budget id).machine := by
  intro m
  have henter : operation ((Disguise.ofTime budget id).machine m).enter =
      (operation m.enter).after (Disguise.ofTime budget id).machine := h m.enter
  unfold nested
  rw [henter]
  cases operation m.enter with
  | exhausted => rfl
  | failed e n => rfl
  | done x n => rfl

/-- Running a program ignores the budget. -/
theorem runProgram_ignores (hcallee : callee.Ignores (.ofTime budget id)) (fuel : Nat)
    (program : Program) (arguments : List Value) :
    (runProgram callee fuel program arguments).Ignores (Disguise.ofTime budget id).machine := by
  intro m
  have hlimit : ((Disguise.ofTime budget id).machine m).settings.maxCallDepth =
      m.settings.maxCallDepth := rfl
  have hdepth : ((Disguise.ofTime budget id).machine m).depth = m.depth := rfl
  unfold runProgram
  rw [hlimit, hdepth]
  by_cases h : m.settings.maxCallDepth ≤ m.depth
  · rw [if_pos h, if_pos h]
    rfl
  · rw [if_neg h, if_neg h]
    exact nested_ignores (runFresh_ignores hcallee fuel program arguments) m

/-- Other scripts run as they would under another budget. -/
theorem callee_ignores (budget : Nat → Nat) (fuel : Nat) :
    (Machine.callee fuel).Ignores (.ofTime budget id) := by
  induction fuel with
  | zero => exact ⟨fun _ _ _ => rfl, fun _ _ _ => rfl⟩
  | succ fuel ih =>
    exact ⟨fun program arguments => runProgram_ignores ih fuel program arguments,
      fun program arguments => createContext_ignores ih program arguments⟩

end Machine
end ScriptMachine
