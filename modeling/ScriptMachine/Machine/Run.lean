import ScriptMachine.Machine.Step

/-!
# Runs

A run repeats steps until it is finished, fails or has used up its budget.  A program is
run in a context of its own, whose initializers are evaluated first; a script that calls
another one runs it in the same way, one call deeper.

Fuel bounds both the number of steps and the depth of calls.  It never shows in an answer:
a run that needs more fuel than it was given has no answer.

Main results:

- {lit}`Execution.run`: steps within a budget.
- {lit}`Machine.createContext`: a context with evaluated initializers.
- {lit}`Machine.runProgram`: a program from its start to its end.
- {lit}`Machine.callee`: how scripts run other scripts.
- {lit}`Machine.runProgram_of_limit`: no run starts beyond the greatest call depth.
-/

namespace ScriptMachine

/-- How a sequence of steps ends. -/
inductive RunState where
  | finished
  /-- The budget is used up; the run goes on where it stopped. -/
  | parked
deriving Repr, DecidableEq

/-! ## Steps within a budget -/

namespace Execution

/-- Whether a budget is used up; a budget of zero never is. -/
def usedUp (budget taken : Nat) : Bool :=
  0 < budget && budget ≤ taken

/-- Runs until the run is finished, fails or has taken as many steps as its budget allows. -/
def run (callee : Callee) (budget : Nat) : Nat → Nat → Stepping RunState
  | 0, _ => Action.starve
  | fuel + 1, taken => fun execution =>
    match step callee execution with
    | .exhausted => .exhausted
    | .failed e execution => .failed e (execution.onContext Context.endRun)
    | .done .finished execution => .done .finished (execution.onContext Context.endRun)
    | .done .running execution =>
      if usedUp budget (taken + 1) then .done .parked execution
      else run callee budget fuel (taken + 1) execution

/-- A budget of zero never parks. -/
theorem usedUp_zero (taken : Nat) : usedUp 0 taken = false := rfl

end Execution

namespace Machine

/-! ## Contexts -/

/-- Evaluates an initializer; a raised global exception ends the creation of the context. -/
def prepareOne (callee : Callee) (tree : Tree) (id : Nat) : Stepping Unit := do
  let node ← Action.ofExcept (Execution.nodeOf tree id)
  let _ ← Execution.evaluate callee node
  let execution ← Action.get
  if execution.machine.raised then
    Action.fail (.globalException execution.context.program.name)

/-- Evaluates a list of initializers. -/
def prepareAll (callee : Callee) (tree : Tree) : List Nat → Stepping Unit
  | [] => return ()
  | id :: rest => do
    prepareOne callee tree id
    prepareAll callee tree rest

/-- Evaluates the initializers of a program in order of declaration. -/
def prepare (callee : Callee) (program : Program) : Stepping Unit :=
  match program.tree with
  | none => Action.fail (.fault .noTree)
  | some tree => prepareAll callee tree tree.initializers

/-- The variables of a program with its arguments bound, if it can be executed with them. -/
def bindChecked (machine : Machine) (program : Program) (arguments : List Value) :
    Except MachineError (List Value) :=
  if !machine.isValid program then .error (.invalidProgram program.name)
  else if arguments.length ≠ program.parameters.length then
    .error (.parameterMismatch program.name program.parameters.length arguments.length)
  else
    match Context.bindArguments program arguments with
    | .ok locals => .ok locals
    | .error e => .error (.fault e)

/-- Creates a context: binds the arguments, then evaluates the initializers one call deeper.
A context that fails on the way is gone. -/
def createContext (callee : Callee) (program : Program) (arguments : List Value) :
    Operation Context := fun machine =>
  let machine := { machine with contextCount := machine.contextCount + 1 }
  match machine.bindChecked program arguments with
  | .error e => .failed e machine
  | .ok locals =>
    let context := Context.create machine.contextCount program locals
    match prepare callee program ⟨(machine.beginExecution program.id).enter, context⟩ with
    | .done () execution => .done execution.context execution.machine.leave
    | .failed e execution => .failed e (execution.machine.leave.endExecution program.id)
    | .exhausted => .exhausted

/-! ## Programs -/

/-- Runs a context from its entry block to the end. -/
def runToEnd (callee : Callee) (fuel : Nat) : Stepping RunState := fun execution =>
  match execution.context.program.tree with
  | none => .failed (.fault .noTree) execution
  | some tree =>
    Execution.run callee 0 fuel 0 (execution.onContext fun context => context.beginRun tree.root)

/-- Runs a program in a new context, which is gone afterwards. -/
def runFresh (callee : Callee) (fuel : Nat) (program : Program) (arguments : List Value) :
    Operation (Option Value) := fun machine =>
  match createContext callee program arguments machine with
  | .exhausted => .exhausted
  | .failed e machine => .failed e machine
  | .done context machine =>
    match runToEnd callee fuel ⟨machine, context⟩ with
    | .exhausted => .exhausted
    | .failed e execution => .failed e (execution.machine.endExecution program.id)
    | .done _ execution =>
      .done execution.context.result (execution.machine.endExecution program.id)

/-- Runs an operation one call deeper. -/
def nested {α : Type} (operation : Operation α) : Operation α := fun machine =>
  match operation machine.enter with
  | .exhausted => .exhausted
  | .failed e machine => .failed e machine.leave
  | .done x machine => .done x machine.leave

/-- Runs a program to its end and answers with its result, unless calls nest too deeply. -/
def runProgram (callee : Callee) (fuel : Nat) (program : Program) (arguments : List Value) :
    Operation (Option Value) := fun machine =>
  if machine.settings.maxCallDepth ≤ machine.depth then
    .failed (.callDepthExceeded machine.settings.maxCallDepth) machine
  else nested (runFresh callee fuel program arguments) machine

/-- How scripts run other scripts: every call takes one unit of fuel. -/
def callee : Nat → Callee
  | 0 => ⟨fun _ _ => Action.starve, fun _ _ => Action.starve⟩
  | fuel + 1 => {
      run := fun program arguments machine =>
        runProgram (callee fuel) fuel program arguments machine
      create := fun program arguments machine =>
        createContext (callee fuel) program arguments machine }

/-- No run starts beyond the greatest call depth. -/
theorem runProgram_of_limit (callee : Callee) (fuel : Nat) (program : Program)
    (arguments : List Value) (machine : Machine) (h : machine.settings.maxCallDepth ≤ machine.depth) :
    runProgram callee fuel program arguments machine =
      .failed (.callDepthExceeded machine.settings.maxCallDepth) machine := by
  simp [runProgram, h]

/-! ## Operations of the host -/

/-- Runs a program. -/
def run (fuel : Nat) (program : Program) (arguments : List Value) : Operation (Option Value) :=
  (callee fuel).run program arguments

/-- Creates a context of a program. -/
def create (fuel : Nat) (program : Program) (arguments : List Value) : Operation Context :=
  (callee fuel).create program arguments

/-- Puts a new context of a program into the background. -/
def sendToBackground (fuel : Nat) (program : Program) (arguments : List Value) : Operation Nat := do
  let context ← create fuel program arguments
  Action.change fun machine => machine.addBackground context
  return context.id

end Machine
end ScriptMachine
