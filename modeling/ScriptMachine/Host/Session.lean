import ScriptMachine.Host.Names
import ScriptMachine.Machine.Tick

/-!
# Host sessions

A host drives one machine.  It holds programs, contexts and values under names, and every
request that it makes is answered or refused.  A program stays registered for as long as a
name, the cache or a context holds it.

Main results:

- {lit}`Session.perform`: the answer to a request.
- {lit}`Session.registered`: the programs that something still holds.
-/

namespace ScriptMachine

/-! ## Requests, answers and refusals -/

/-- What a host asks for. -/
inductive Request where
  /-- Compiles a source text and keeps the program. -/
  | compile (source name : String)
  /-- Compiles a file and keeps the program. -/
  | compileFile (path name : String)
  /-- Loads a named script and keeps the program. -/
  | load (script name : String)
  /-- Marks a program as stale. -/
  | invalidate (program : String)
  /-- Makes the cache let go of a program. -/
  | release (program : String)
  /-- Forgets a program. -/
  | dropProgram (program : String)
  /-- Runs a program and perhaps keeps its result. -/
  | run (program : String) (arguments : List Value) (name : Option String)
  /-- Creates a context and keeps it. -/
  | createContext (program : String) (arguments : List Value) (name : String)
  /-- Forgets a context. -/
  | dropContext (context : String)
  /-- Evaluates an expression in a context. -/
  | evaluate (context source : String) (line : Nat)
  /-- Calls a command in a context. -/
  | invoke (context command : String) (arguments : List Value) (line : Nat)
  /-- Puts a new context of a program into the background. -/
  | background (program : String) (arguments : List Value)
  /-- Lets time pass for the background. -/
  | tick (nanoseconds : Nat)
  /-- Takes a context out of the background. -/
  | stop (id : Nat)
  | setGlobal (name : String) (value : Value)
  | removeGlobal (name : String)
  /-- Keeps the value of a global. -/
  | saveGlobal (global name : String)
  /-- Marks as stale what refers to a command or global. -/
  | invalidateDependents (symbol : String)
  | register (command : Command)
  | unregister (name : String)
  | write (path : String) (entry : FileEntry)
  | delete (path : String)
  /-- Raises the global exception. -/
  | raise
  | log (line : String)
  /-- Takes the lines of the console. -/
  | takeConsole

/-- What a host is told. -/
inductive Answer where
  | nothing
  | flag (b : Bool)
  | program (program : Program)
  | context (context : Context)
  | contextId (id : Nat)
  | value (v : Option Value)
  | report (report : TickReport)
  | command (command : Command)
  | lines (console : Array String)

/-- Why a request is refused. -/
inductive Refusal where
  | noProgram
  | noContext
  | machine (e : MachineError)
  | expression (e : ExprError)
  | runtime (e : RuntimeError)
  | command (e : CommandError)

/-- The text of a refusal. -/
def Refusal.message : Refusal → String
  | .noProgram => "no such program"
  | .noContext => "no such context"
  | .machine e => e.message
  | .expression e => e.message
  | .runtime e => e.message
  | .command e => e.message

/-! ## Sessions -/

/-- A machine and what its host holds. -/
structure Session where
  machine : Machine
  programs : Names Program
  contexts : Names Context
  values : Names Value

/-- A step of a host. -/
abbrev HostStep (α : Type) : Type := Action Session Refusal α

namespace Session

/-- A session in which nothing is held. -/
def start (machine : Machine) : Session := ⟨machine, .empty, .empty, .empty⟩

/-- The programs of everything that is held by a name, the cache or a context. -/
def heldPrograms (session : Session) : List Program :=
  session.programs.held ++ session.machine.knownPrograms ++
    session.contexts.held.map Context.program

/-- The numbers of the programs that something still holds. -/
def registered (session : Session) : List Nat :=
  (session.heldPrograms.map Program.id).eraseDups

/-! ## Steps -/

/-- Changes the machine. -/
def onMachine (f : Machine → Machine) : HostStep Unit :=
  Action.change fun session => { session with machine := f session.machine }

/-- Runs an operation of the machine. -/
def operate {α : Type} (operation : Operation α) : HostStep α :=
  Action.mapError Refusal.machine
    (Action.onPart Session.machine (fun machine session => { session with machine := machine })
      operation)

/-- The program under a name. -/
def program (name : String) : HostStep Program := do
  match (← Action.get).programs.get? name with
  | some program => return program
  | none => Action.fail .noProgram

/-- The context under a name. -/
def context (name : String) : HostStep Context := do
  match (← Action.get).contexts.get? name with
  | some context => return context
  | none => Action.fail .noContext

/-- Keeps a program. -/
def keepProgram (name : String) (program : Program) : HostStep Answer := do
  Action.change fun session => { session with programs := session.programs.set name program }
  return .program program

/-- Keeps a value. -/
def keepValue (name : String) (v : Value) : HostStep Unit :=
  Action.change fun session => { session with values := session.values.set name v }

/-- Ends the context under a name, if there is one. -/
def endContext (session : Session) (name : String) : Session :=
  match session.contexts.get? name with
  | none => session
  | some context => { session with
      machine := session.machine.endExecution context.program.id
      contexts := session.contexts.drop name }

/-- Keeps a context in place of an older one. -/
def keepContext (name : String) (context : Context) : HostStep Unit :=
  Action.change fun session =>
    let session := session.endContext name
    { session with contexts := session.contexts.set name context }

/-- Evaluates something inside the context under a name. -/
def inside (name : String) (line : Nat) (evaluation : Evaluation Value) : HostStep Answer := fun session =>
  match context name session with
  | .exhausted => .exhausted
  | .failed e session => .failed e session
  | .done context session =>
    let restore (execution : Execution) : Session :=
      { session with
        machine := execution.machine
        contexts := session.contexts.set name execution.context }
    match evaluation ⟨session.machine, context⟩ with
    | .exhausted => .exhausted
    | .failed cause execution => .failed (.runtime ⟨line, cause⟩) (restore execution)
    | .done v execution => .done (.value (some v)) (restore execution)

/-- Compiles an expression with the names that the program of a context may use. -/
def compileInside (name source : String) : HostStep Expr := do
  let context ← context name
  let machine := (← Action.get).machine
  match (Expr.compile (context.program.scope machine.globals machine.commands) source.toList).run .empty with
  | .ok e _ => return e
  | .error e _ => Action.fail (.expression e)

/-! ## Answers -/

/-- The answer to a request. -/
def perform (fuel : Nat) : Request → HostStep Answer
  | .compile source name => do keepProgram name (← operate (Machine.compile none source))
  | .compileFile path name => do keepProgram name (← operate (Machine.compileFile path))
  | .load script name => do keepProgram name (← operate (Machine.load script))
  | .invalidate name => do
    let program ← program name
    onMachine fun machine => machine.invalidate program
    return .program program
  | .release name => do
    operate (Machine.release (← program name))
    return .nothing
  | .dropProgram name => do
    let held := ((← Action.get).programs.get? name).isSome
    Action.change fun session => { session with programs := session.programs.drop name }
    return .flag held
  | .run name arguments keep => do
    let result ← operate (Machine.run fuel (← program name) arguments)
    match keep, result with
    | some kept, some v => keepValue kept v
    | _, _ => pure ()
    return .value result
  | .createContext name arguments keep => do
    let context ← operate (Machine.create fuel (← program name) arguments)
    keepContext keep context
    return .context context
  | .dropContext name => do
    let held := ((← Action.get).contexts.get? name).isSome
    Action.change fun session => session.endContext name
    return .flag held
  | .evaluate name source line => do
    let code ← compileInside name source
    inside name line (code.eval (ScriptMachine.invoke (Machine.callee fuel) line))
  | .invoke name command arguments line =>
    inside name line (ScriptMachine.invoke (Machine.callee fuel) line command arguments)
  | .background name arguments => do
    return .contextId (← operate (Machine.sendToBackground fuel (← program name) arguments))
  | .tick nanoseconds => do
    return .report (← operate (Machine.tick fuel (Machine.secondsOf nanoseconds)))
  | .stop id => do return .flag (← operate (Machine.stop id))
  | .setGlobal name value => do
    let old := (← Action.get).machine.globals.get? name
    onMachine fun machine => machine.setGlobal name value
    return .value old
  | .removeGlobal name => do
    let old := (← Action.get).machine.globals.get? name
    onMachine fun machine => machine.removeGlobal name
    return .value old
  | .saveGlobal global name => do
    keepValue name (((← Action.get).machine.globals.get? global).getD .invalid)
    return .nothing
  | .invalidateDependents symbol => do
    onMachine fun machine => machine.invalidateDependents symbol
    return .nothing
  | .register command => do
    match (← Action.get).machine.register command with
    | .error e => Action.fail (.command e)
    | .ok machine =>
      onMachine fun _ => machine
      return .command command
  | .unregister name => do
    match (← Action.get).machine.unregister name with
    | .error e => Action.fail (.command e)
    | .ok (command, machine) =>
      onMachine fun _ => machine
      return .command command
  | .write path entry => do
    onMachine fun machine => { machine with files := machine.files.put path.toList entry }
    return .nothing
  | .delete path => do
    match (← Action.get).machine.files.delete? path.toList with
    | none => return .flag false
    | some files =>
      onMachine fun machine => { machine with files := files }
      return .flag true
  | .raise => do
    onMachine Machine.raise
    return .nothing
  | .log line => do
    onMachine fun machine => machine.log line
    return .nothing
  | .takeConsole => do
    let lines := (← Action.get).machine.console
    onMachine fun machine => { machine with console := #[] }
    return .lines lines

end Session
end ScriptMachine
