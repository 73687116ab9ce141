import ScriptMachine.Proofs.Requesting
import ScriptMachine.Machine.Tick

/-!
# What happens during an operation

The chronicle of an operation lists the moments that matter while it is under way: an
activation begins, the expression of a node is about to be evaluated, a program is to be run,
the global exception is about to be raised.  Every moment comes with the machine as it is then
and with everything that is under way, down to the operation of the host.  The chronicle
follows the operation itself, with the same fuel.  Only the last step that the fuel of a run
allows is left out when the run does not end with it.

Main results:

- {lit}`Moment`: what happens, on which machine, and inside of what.
- {lit}`Machine.observer`: the chronicle of runs and of creations of contexts.
- {lit}`Task.moments`: the chronicle of what a host can ask for.
-/

namespace ScriptMachine

variable {ρ : Type}

/-! ## Moments -/

/-- Something that is under way. -/
inductive Activation where
  /-- A program runs to its end. -/
  | run
  /-- The initializers of a new context are evaluated. -/
  | creation
  /-- A context in the background has its turn. -/
  | turn
deriving Repr, DecidableEq

/-- Something that happens. -/
inductive Event where
  /-- An activation has begun. -/
  | entered
  /-- The expression of a node is about to be evaluated in the context of a number. -/
  | evaluation (context : Nat) (node : Node)
  /-- A program is to be run with some arguments. -/
  | request (program : Program) (arguments : List Value)
  /-- The global exception is about to be raised. -/
  | alarm

/-- Something that happens, on a machine, while activations are under way, innermost first. -/
structure Moment where
  underway : List Activation
  machine : Machine
  event : Event

namespace Moment

/-- The global exception is about to be raised. -/
def IsAlarm (moment : Moment) : Prop :=
  moment.event = .alarm

/-- Something is about to be evaluated in a context. -/
def Evaluates (moment : Moment) (context : Nat) : Prop :=
  ∃ node, moment.event = .evaluation context node

end Moment

/-! ## Expressions -/

namespace Expr

section Listed

variable (invoke : Invoker) (made : String → List Value → Execution → List ρ)

mutual

/-- What is listed for the calls of an expression, in the order in which they are made. -/
def listed : Expr → Execution → List ρ
  | .number _ | .text _ | .reference _ | .slot _ | .global _ => fun _ => []
  | .index target position =>
    Action.followed target.listed (target.eval invoke) fun _ => position.listed
  | .unary _ operand => operand.listed
  | .binary .and left right =>
    Action.followed left.listed (left.eval invoke) fun l =>
      Action.checked l.condition fun b => if b then right.listed else fun _ => []
  | .binary .or left right =>
    Action.followed left.listed (left.eval invoke) fun l =>
      Action.checked l.condition fun b => if b then fun _ => [] else right.listed
  | .binary _ left right =>
    Action.followed left.listed (left.eval invoke) fun _ => right.listed
  | .assignSlot _ _ value => value.listed
  | .assignGlobal _ _ value => value.listed
  | .assignElement base position _ value =>
    Action.followed value.listed (value.eval invoke) fun _ =>
      Action.followed base.listed (base.eval invoke) fun target =>
        Action.checked target.indexable fun _ => position.listed
  | .call command arguments =>
    Action.followed (listedAll arguments) (evalList invoke arguments) (made command)

/-- What is listed for the calls of a list of expressions. -/
def listedAll : List Expr → Execution → List ρ
  | [] => fun _ => []
  | e :: rest => Action.followed e.listed (e.eval invoke) fun _ => listedAll rest

end

end Listed
end Expr

/-! ## Commands -/

/-- The chronicle of runs of other scripts and of creations of contexts, inside of what is
under way. -/
structure Observer where
  run : Program → List Value → List Activation → Machine → List Moment
  create : Program → List Value → List Activation → Machine → List Moment

section Commands

variable (observer : Observer) (underway : List Activation)

/-- The global exception is about to be raised. -/
def alarmMoments (e : Execution) : List Moment :=
  [⟨underway, e.machine, .alarm⟩]

/-- The chronicle of a built-in command: of the one that raises the exception and of the one that
runs another script. -/
def Builtin.moments (arguments : List Value) : Builtin → Execution → List Moment
  | .raiseError => Action.checked (Arguments.text arguments 0) fun _ => alarmMoments underway
  | .callScript =>
    Action.checked (Arguments.text arguments 0) fun name =>
      if maxParameters < (arguments.drop 1).length then fun _ => []
      else
        Action.followed (fun _ => []) (target name) fun found e =>
          match found with
          | .ok program => observer.run program (arguments.drop 1) underway e.machine
          | .error _ => []
  | _ => fun _ => []

/-- The chronicle of an action of the host. -/
def HostAction.moments (arguments : List Value) : HostAction → Execution → List Moment
  | .raise => alarmMoments underway
  | .backgroundSelf => fun e => observer.create e.context.program arguments underway e.machine
  | _ => fun _ => []

/-- The chronicle of a command. -/
def Command.moments (arguments : List Value) (command : Command) : Execution → List Moment :=
  match command.action with
  | .builtin builtin => builtin.moments observer underway arguments
  | .host action => action.moments observer underway arguments

/-- The chronicle of the call of a command by name. -/
def invokeMoments (name : String) (arguments : List Value) (e : Execution) : List Moment :=
  match e.machine.commands.lookup? name with
  | none => []
  | some command =>
    Action.checked (checkArguments command.signature arguments)
      (fun _ => command.moments observer underway arguments) e

end Commands

/-! ## Steps and runs -/

section Runs

variable (callee : Callee) (observer : Observer) (underway : List Activation)

namespace Execution

/-- The chronicle of the evaluation of a node. -/
def nodeMoments (node : Node) (e : Execution) : List Moment :=
  match node.code with
  | none => []
  | some code => ⟨underway, e.machine, .evaluation e.context.id node⟩ ::
      code.listed (invoke callee node.line) (invokeMoments observer underway) e

/-- The chronicle of a step. -/
def stepMoments (e : Execution) : List Moment :=
  match e.evaluated? with
  | some node => nodeMoments callee observer underway node e
  | none => []

/-- The chronicle of a run within a budget.  A step behind which there is no fuel is listed if the
run ends with it. -/
def runMoments (budget : Nat) : Nat → Nat → Execution → List Moment
  | 0, _ => fun _ => []
  | 1, taken => fun e =>
    match run callee budget 1 taken e with
    | .done _ _ | .failed _ _ => stepMoments callee observer underway e
    | .exhausted => []
  | fuel + 2, taken =>
    Action.followed (stepMoments callee observer underway) (step callee) fun status =>
      match status with
      | .finished => fun _ => []
      | .running =>
        if usedUp budget (taken + 1) then fun _ => [] else runMoments budget (fuel + 1) (taken + 1)

end Execution

namespace Machine

open Execution

/-- The chronicle of an initializer. -/
def prepareOneMoments (tree : Tree) (id : Nat) : Execution → List Moment :=
  match tree.node? id with
  | some node => nodeMoments callee observer underway node
  | none => fun _ => []

/-- The chronicle of a list of initializers. -/
def prepareMoments (tree : Tree) : List Nat → Execution → List Moment
  | [] => fun _ => []
  | id :: rest =>
    Action.followed (prepareOneMoments callee observer underway tree id)
      (prepareOne callee tree id) fun _ => prepareMoments tree rest

/-- The chronicle of the creation of a context. -/
def createMoments (program : Program) (arguments : List Value) (m : Machine) : List Moment :=
  let counted := { m with contextCount := m.contextCount + 1 }
  match counted.bindChecked program arguments with
  | .error _ => []
  | .ok locals =>
    let inside := (counted.beginExecution program.id).enter
    ⟨.creation :: underway, inside, .entered⟩ ::
      match program.tree with
      | none => []
      | some tree =>
        prepareMoments callee observer (.creation :: underway) tree tree.initializers
          ⟨inside, Context.create counted.contextCount program locals⟩

/-- The chronicle of a run to the end. -/
def runToEndMoments (fuel : Nat) (context : Context) (m : Machine) : List Moment :=
  match context.program.tree with
  | none => []
  | some tree =>
    Execution.runMoments callee observer underway 0 fuel 0 ⟨m, context.beginRun tree.root⟩

/-- The chronicle of a program in a new context. -/
def freshMoments (fuel : Nat) (program : Program) (arguments : List Value) :
    Machine → List Moment :=
  Action.followed (createMoments callee observer underway program arguments)
    (createContext callee program arguments) (runToEndMoments callee observer underway fuel)

/-- The chronicle of a run of a program. -/
def programMoments (fuel : Nat) (program : Program) (arguments : List Value) (m : Machine) :
    List Moment :=
  ⟨underway, m, .request program arguments⟩ ::
    if m.settings.maxCallDepth ≤ m.depth then []
    else ⟨.run :: underway, m.enter, .entered⟩ ::
      freshMoments callee observer (.run :: underway) fuel program arguments m.enter

end Machine
end Runs

/-! ## Operations of the host -/

namespace Machine

open Execution

/-- The chronicle of runs and of creations of contexts, with the fuel that they have. -/
def observer : Nat → Observer
  | 0 => ⟨fun _ _ _ _ => [], fun _ _ _ _ => []⟩
  | fuel + 1 => {
      run := fun program arguments underway =>
        programMoments (callee fuel) (observer fuel) underway fuel program arguments
      create := fun program arguments underway =>
        createMoments (callee fuel) (observer fuel) underway program arguments }

/-- The chronicle of the turn of a context whose run is under way or due. -/
def runTurnMoments (fuel : Nat) (context : Context) (m : Machine) : List Moment :=
  ⟨[.turn], m.enter, .entered⟩ ::
    Execution.runMoments (callee fuel) (observer fuel) [.turn] m.settings.stepBudget fuel 0
      ⟨m.enter, context⟩

/-- The chronicle of a turn. -/
def takeTurnMoments (fuel : Nat) (seconds : Float) (context : Context) (m : Machine) :
    List Moment :=
  let context := context.wait seconds
  if !context.isRunning && !context.isDue then []
  else if !m.isValid context.program then []
  else
    match context.resume with
    | .error _ => []
    | .ok context => runTurnMoments fuel context m

/-- The chronicle of the turns of a list of contexts. -/
def takeTurnsMoments (fuel : Nat) (seconds : Float) : List Context → Machine → List Moment
  | [] => fun _ => []
  | context :: rest =>
    Action.followed (takeTurnMoments fuel seconds context) (takeTurn fuel seconds context)
      fun _ => takeTurnsMoments fuel seconds rest

end Machine

/-- What a host can ask of a machine that executes scripts. -/
inductive Task where
  | create (program : Program) (arguments : List Value)
  | run (program : Program) (arguments : List Value)
  | background (program : Program) (arguments : List Value)
  | tick (seconds : Float)
  | load (name : String)

namespace Task

/-- Performs a task; the answer does not matter here. -/
def perform (fuel : Nat) : Task → Operation Unit
  | .create program arguments => do
    let _ ← Machine.create fuel program arguments
  | .run program arguments => do
    let _ ← Machine.run fuel program arguments
  | .background program arguments => do
    let _ ← Machine.sendToBackground fuel program arguments
  | .tick seconds => do
    let _ ← Machine.tick fuel seconds
  | .load name => do
    let _ ← Machine.load name

/-- The chronicle of a task. -/
def moments (fuel : Nat) : Task → Machine → List Moment
  | .create program arguments => (Machine.observer fuel).create program arguments []
  | .run program arguments => (Machine.observer fuel).run program arguments []
  | .background program arguments => (Machine.observer fuel).create program arguments []
  | .tick seconds => fun m =>
    Machine.takeTurnsMoments fuel seconds m.background { m with background := [] }
  | .load _ => fun _ => []

end Task
end ScriptMachine
