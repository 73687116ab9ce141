import ScriptMachine.CommandLine.Argument
import ScriptMachine.CommandLine.TreeText
import ScriptMachine.CommandLine.Words
import ScriptMachine.Machine.Tick
import ScriptMachine.Settings.Load

/-!
# Performing tasks

A task works on a machine of its own and leaves a transcript: what it printed, what it said
about scripts that do not compile, and, when it failed, why.

Main results:

- {lit}`CommandLine.plan`: the task of a command line with its settings.
- {lit}`CommandLine.perform`: the transcript of a task.
- {lit}`CommandLine.plan_nil`: without words there is nothing to do.
-/

namespace ScriptMachine
namespace CommandLine

/-! ## Transcripts -/

/-- What a task leaves behind. -/
structure Transcript where
  /-- The lines that were printed, without the last line end of each. -/
  output : Array String
  /-- What was said about scripts that do not compile. -/
  complaints : Array String

/-- Nothing was said. -/
def Transcript.empty : Transcript := ⟨#[], #[]⟩

/-- A line of a text with its end. -/
def Transcript.lines (items : Array String) : String :=
  items.foldl (fun text line => text ++ line ++ "\n") ""

/-- A task at work: its machine, and the transcript so far. -/
structure Desk where
  machine : Machine
  transcript : Transcript

/-- A step of a task; a failure is told from the outside in. -/
abbrev Work (α : Type) : Type := Action Desk (List String) α

namespace Work

/-- Prints a line. -/
def print (line : String) : Work Unit :=
  Action.change fun desk =>
    { desk with transcript := { desk.transcript with output := desk.transcript.output.push line } }

/-- Complains in a line. -/
def complain (line : String) : Work Unit :=
  Action.change fun desk =>
    { desk with
      transcript := { desk.transcript with complaints := desk.transcript.complaints.push line } }

/-- Prints what has been written on the console, which is empty afterwards. -/
def printConsole : Work Unit :=
  Action.change fun desk =>
    { machine := { desk.machine with console := #[] }
      transcript :=
        { desk.transcript with output := desk.transcript.output ++ desk.machine.console } }

end Work

/-- What a machine error says, from the outside in. -/
def chain : MachineError → List String
  | .runtime program e => [(MachineError.runtime program e).message, e.message]
  | .unreadable path e => [(MachineError.unreadable path e).message, e.message]
  | e => [e.message]

namespace Work

/-- Performs an operation of the machine; whatever it changed and printed stays when it fails. -/
def operate {α : Type} (operation : Operation α) : Work (Except MachineError α) := fun desk =>
  match operation desk.machine with
  | .done x machine => .done (.ok x) { desk with machine }
  | .failed e machine => .done (.error e) { desk with machine }
  | .exhausted => .exhausted

/-- The answer of an operation; a failure is told behind an introduction. -/
def expect {α : Type} (introduction : List String) : Except MachineError α → Work α
  | .ok x => return x
  | .error e => Action.fail (introduction ++ chain e)

/-! ## Scripts -/

/-- Compiles a script. -/
def compile (file : String) : Work Program := do
  expect ["Failed to compile " ++ file] (← operate (Machine.compileFile file))

/-- The diagnostics of a script, one in a line. -/
def diagnosticLines (file : String) (program : Program) : List String :=
  program.diagnostics.map fun diagnostic => file ++ ": " ++ diagnostic.text

/-- Compiles a script that must be valid. -/
def compileValid (file : String) : Work Program := do
  let program ← compile file
  if (← Action.get).machine.isValid program then return program
  else
    (diagnosticLines file program).forM complain
    Action.fail [file ++ " failed to compile"]

/-! ## Tasks -/

/-- Compiles a script and says what is wrong with it. -/
def check (file : String) (withTree : Bool) : Work Unit := do
  let program ← compile file
  (diagnosticLines file program).forM print
  if withTree then
    match program.tree with
    | some tree => print (tree.document.render 0)
    | none => return ()
  let machine := (← Action.get).machine
  if machine.isValid program then print (program.name ++ ": OK")
  else
    Action.fail [program.name ++ " is not valid (" ++ (machine.stateOf program).name ++ ")"]

/-- A result, or zero when there is none. -/
def resultOf (v : Option Value) : Value :=
  v.getD (.number 0.0)

/-- Runs a script to its end and prints its result. -/
def run (fuel : Nat) (file : String) (arguments : List String) : Work Unit := do
  let program ← compileValid file
  let result ← operate (Machine.run fuel program (arguments.map argument))
  printConsole
  let v ← expect [program.name ++ " failed"] result
  print ((← Action.get).machine.arrays.snapshot (resultOf v)).toJson

/-- Prints what happened in a tick. -/
def printReport (tick : Nat) (report : TickReport) : Work Unit := do
  let start (id : Nat) : String := "[tick " ++ toString tick ++ "] context " ++ toString id
  let arrays := (← Action.get).machine.arrays
  report.completed.forM fun (id, v) =>
    print (start id ++ " finished: " ++ (arrays.snapshot (resultOf v)).toText)
  report.retired.forM fun (id, reason) => print (start id ++ " retired: " ++ reason.text)

/-- Lets ticks go by until the background is empty. -/
def tickOn (fuel : Nat) (seconds : Float) : Nat → Nat → Work Unit
  | _, 0 => return ()
  | tick, ticks + 1 => do
    let report ← expect [] (← operate (Machine.tick fuel seconds))
    printConsole
    printReport tick report
    if (← Action.get).machine.background.isEmpty then return ()
    else tickOn fuel seconds (tick + 1) ticks

/-- Runs a script in the background. -/
def background (fuel : Nat) (file : String) (arguments : List String)
    (ticks tickMilliseconds : Nat) : Work Unit := do
  let program ← compileValid file
  let id ← expect [] (← operate (Machine.sendToBackground fuel program (arguments.map argument)))
  print ("Backgrounded " ++ program.name ++ " as context " ++ toString id)
  tickOn fuel (Machine.secondsOf (tickMilliseconds * 1000000)) 1 ticks

/-- The lines about a command. -/
def commandLines (command : Command) : List String :=
  let signature := command.signature
  let short := (signature.shortName.map fun short => " (alias " ++ short ++ ")").getD ""
  (signature.text ++ short) ::
    (if signature.description.isEmpty then [] else ["    " ++ signature.description])

/-- Lists the commands. -/
def listCommands : Work Unit := do
  ((← Action.get).machine.commands.commands.flatMap commandLines).forM print

/-- Prints the settings. -/
def showSettings : Work Unit := do
  match (← Action.get).machine.settings.tomlLines? with
  | some lines => lines.forM print
  | none => Action.fail Settings.writeFailure

/-- Performs a task. -/
def task (fuel : Nat) : Task → Work Unit
  | .check file withTree => check file withTree
  | .run file arguments => run fuel file arguments
  | .background file arguments ticks tickMilliseconds =>
    background fuel file arguments ticks tickMilliseconds
  | .listCommands => listCommands
  | .showSettings => showSettings

end Work

/-! ## Whole command lines -/

/-- Why a command line is not performed. -/
inductive Rejection where
  | usage (e : UsageError)
  | settings (e : SettingsError)

/-- What became of a task. -/
structure Performance where
  transcript : Transcript
  /-- Why the task failed, from the outside in. -/
  failure : Option (List String)

/-- What the words of a command line ask for, with the settings that hold for it. -/
def plan (words : List String) (environment : List (String × String)) (files : FileSystem) :
    Except Rejection (Settings × Task) :=
  match read words with
  | .error e => .error (.usage e)
  | .ok invocation =>
    match Settings.load ⟨invocation.settingsFile, invocation.scriptRoot⟩ environment files with
    | .error e => .error (.settings e)
    | .ok settings => .ok (settings, invocation.task)

/-- Performs a task with some settings and a seed for random numbers, unless the fuel runs
out. -/
def perform (fuel : Nat) (seed : UInt64) (settings : Settings) (files : FileSystem) (task : Task) :
    Option Performance :=
  let machine := { Machine.start settings files with random := seed }
  match Work.task fuel task ⟨machine, .empty⟩ with
  | .done () desk => some ⟨desk.transcript, none⟩
  | .failed failure desk => some ⟨desk.transcript, some failure⟩
  | .exhausted => none

/-- Without words there is nothing to do. -/
theorem plan_nil (environment : List (String × String)) (files : FileSystem) :
    plan [] environment files = .error (.usage .nothing) := by
  simp [plan, read_nil]

end CommandLine
end ScriptMachine
