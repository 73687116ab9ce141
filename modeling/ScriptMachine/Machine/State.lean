import ScriptMachine.Machine.Action
import ScriptMachine.Machine.Context
import ScriptMachine.Script.Compile
import ScriptMachine.Settings
import ScriptMachine.Value.Snapshot

/-!
# The state of a machine

A machine owns everything that its scripts share: files, commands, globals, arrays, the
programs loaded by name, the contexts in the background, the call depth and the console.
Programs are values; that the compiled form of one has become stale is noted here.

Main results:

- {lit}`Machine.invalidateDependents`: what a vanished command or global does to programs.
- {lit}`Machine.load`: the program of a named script, compiled again only when it has to be.
- {lit}`Machine.isValid_invalidate`: an invalidated program is not valid, and no other
  program is touched.
-/

namespace ScriptMachine

/-- A program loaded by name, under the path from which it was read. -/
structure CacheEntry where
  path : List Char
  program : Program

/-- Everything that scripts share. -/
structure Machine where
  settings : Settings
  files : FileSystem
  commands : CommandTable
  globals : Globals
  arrays : Arrays
  cache : List CacheEntry
  /-- The contexts that ticks resume, in the order in which they were added. -/
  background : List Context
  /-- Whether the global exception is raised. -/
  raised : Bool
  /-- The number of calls under way. -/
  depth : Nat
  /-- The number of contexts ever created. -/
  contextCount : Nat
  /-- The number of programs ever created. -/
  programCount : Nat
  /-- The program of every live context. -/
  executing : List Nat
  /-- The programs whose compiled form is stale. -/
  stale : List Nat
  console : Array String
  random : UInt64

/-- An operation of the machine. -/
abbrev Operation (α : Type) : Type := Action Machine MachineError α

/-- A machine with the context that it executes. -/
structure Execution where
  machine : Machine
  context : Context

namespace Execution

/-- Replaces the machine. -/
def withMachine (machine : Machine) (execution : Execution) : Execution :=
  { execution with machine := machine }

/-- Changes the machine. -/
def onMachine (f : Machine → Machine) (execution : Execution) : Execution :=
  { execution with machine := f execution.machine }

/-- Changes the context. -/
def onContext (f : Context → Context) (execution : Execution) : Execution :=
  { execution with context := f execution.context }

end Execution

namespace Machine

/-- A machine on which nothing has happened yet. -/
def start (settings : Settings) (files : FileSystem) : Machine where
  settings := settings
  files := files
  commands := .standard
  globals := .empty
  arrays := .empty
  cache := []
  background := []
  raised := false
  depth := 0
  contextCount := 0
  programCount := 0
  executing := []
  stale := []
  console := #[]
  random := 0x9E3779B97F4A7C15

/-! ## Validity of programs -/

/-- Whether a program can be executed. -/
def isValid (machine : Machine) (program : Program) : Bool :=
  program.state == .valid && !machine.stale.contains program.id

/-- The state of a program, staleness included. -/
def stateOf (machine : Machine) (program : Program) : ProgramState :=
  if program.state = .valid ∧ program.id ∈ machine.stale then .invalidBytecode else program.state

/-- Marks the compiled form of a valid program as stale. -/
def invalidate (machine : Machine) (program : Program) : Machine :=
  if machine.isValid program then { machine with stale := program.id :: machine.stale }
  else machine

/-- Marks a program as stale if it refers to a command or global of the given name. -/
def invalidateIfDependent (symbol : String) (machine : Machine) (program : Program) : Machine :=
  if program.references.any fun references => references.dependsOn symbol then
    machine.invalidate program
  else machine

/-- The programs that the machine can reach: the cached ones, then those in the background. -/
def knownPrograms (machine : Machine) : List Program :=
  machine.cache.map CacheEntry.program ++ machine.background.map Context.program

/-- Marks every known program as stale that refers to a command or global of the given name. -/
def invalidateDependents (machine : Machine) (symbol : String) : Machine :=
  machine.knownPrograms.foldl (invalidateIfDependent symbol) machine

/-- An invalidated program is not valid any more. -/
theorem isValid_invalidate (machine : Machine) (program : Program) :
    (machine.invalidate program).isValid program = false := by
  unfold invalidate
  split
  · simp [isValid]
  · next h => simpa using h

/-- A program of another number keeps its validity. -/
theorem isValid_invalidate_ne (machine : Machine) (program other : Program)
    (h : other.id ≠ program.id) :
    (machine.invalidate program).isValid other = machine.isValid other := by
  unfold invalidate
  split <;> simp [isValid, h]

/-! ## Globals and commands -/

/-- Declares a global or replaces its value. -/
def setGlobal (machine : Machine) (name : String) (value : Value) : Machine :=
  { machine with globals := machine.globals.set name value }

/-- Removes a global; what refers to it becomes stale. -/
def removeGlobal (machine : Machine) (name : String) : Machine :=
  if machine.globals.contains name then
    { machine with globals := machine.globals.remove name }.invalidateDependents name
  else machine

/-- Adds a command. -/
def register (machine : Machine) (command : Command) : Except CommandError Machine :=
  match machine.commands.register command with
  | .error e => .error e
  | .ok commands => .ok { machine with commands := commands }

/-- Removes a command; what refers to it under its name or its alias becomes stale. -/
def unregister (machine : Machine) (name : String) : Except CommandError (Command × Machine) :=
  match machine.commands.unregister name with
  | .error e => .error e
  | .ok (command, commands) =>
    let symbols := command.signature.name :: command.signature.shortName.toList
    .ok (command, symbols.foldl invalidateDependents { machine with commands := commands })

/-! ## Calls -/

/-- Enters a call. -/
def enter (machine : Machine) : Machine :=
  { machine with depth := machine.depth + 1 }

/-- Leaves a call; leaving the outermost one clears the global exception. -/
def leave (machine : Machine) : Machine :=
  { machine with
    depth := machine.depth - 1
    raised := if machine.depth - 1 = 0 then false else machine.raised }

/-- Raises the global exception. -/
def raise (machine : Machine) : Machine :=
  { machine with raised := true }

/-! ## Live contexts -/

/-- Notes that a context of a program comes to life. -/
def beginExecution (machine : Machine) (program : Nat) : Machine :=
  { machine with executing := program :: machine.executing }

/-- Notes that a context of a program is gone. -/
def endExecution (machine : Machine) (program : Nat) : Machine :=
  { machine with executing := machine.executing.erase program }

/-- The number of live contexts of a program. -/
def executionCount (machine : Machine) (program : Nat) : Nat :=
  machine.executing.count program

/-! ## Console -/

/-- Writes a line to the console. -/
def log (machine : Machine) (line : String) : Machine :=
  { machine with console := machine.console.push line }

/-! ## Programs -/

/-- The path of a named script. -/
def resolve (machine : Machine) (name : String) : List Char :=
  Path.resolve machine.settings.scriptRoot.toList machine.settings.scriptExtension.toList name.toList

/-- The program cached for a path. -/
def cached? (machine : Machine) (path : List Char) : Option Program :=
  (machine.cache.find? fun entry => Path.same entry.path path).map CacheEntry.program

/-- Caches a program for a path in place of an older one. -/
def store (machine : Machine) (path : List Char) (program : Program) : Machine :=
  { machine with
    cache := ⟨path, program⟩ :: machine.cache.filter fun entry => !Path.same entry.path path }

/-- Numbers a new program. -/
def countProgram (machine : Machine) : Machine :=
  { machine with programCount := machine.programCount + 1 }

/-- Compiles a source text into a new program. -/
def compile (path : Option String) (source : String) : Operation Program := fun machine =>
  let machine := machine.countProgram
  match Program.compile machine.globals machine.commands machine.programCount path source.toList with
  | .ok program => .done program machine
  | .error e => .failed (.fault e) machine

/-- Compiles a file; one that cannot be read makes a program with a diagnostic. -/
def compileFile (path : String) : Operation Program := fun machine =>
  match machine.files.read path.toList with
  | .ok source => compile (some path) source machine
  | .error e =>
    let machine := machine.countProgram
    .done (Program.unreadable machine.programCount path e) machine

/-- Reads, compiles and caches the script at a path. -/
def loadFresh (path : List Char) : Operation Program := do
  let machine ← Action.get
  match machine.files.read path with
  | .error e => Action.fail (.unreadable (String.ofList path) e)
  | .ok source => do
    let program ← compile (some (String.ofList path)) source
    let machine ← Action.get
    if machine.isValid program then
      Action.put (machine.store path program)
      return program
    else Action.fail (.notCompiled program.name program.diagnostics)

/-- The program of a named script: the cached one while it is valid, otherwise a new one. -/
def load (name : String) : Operation Program := do
  let machine ← Action.get
  let path := machine.resolve name
  match machine.cached? path with
  | some program => if machine.isValid program then return program else loadFresh path
  | none => loadFresh path

/-- Lets go of the cached program, unless a context is executing it. -/
def release (program : Program) : Operation Unit := do
  let machine ← Action.get
  if 0 < machine.executionCount program.id then Action.fail (.programExecuting program.name)
  else
    Action.put { machine with
      cache := machine.cache.filter fun entry => entry.program.id != program.id }

end Machine
end ScriptMachine
