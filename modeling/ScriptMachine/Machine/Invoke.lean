import ScriptMachine.Machine.Evaluate

/-!
# Calling commands

A command is called under a contract: a fixed number of arguments of fixed types goes in
unless the command is variadic, and what comes out has the declared type unless the
command vouches for it.  In between, built-in commands and actions of the host change the
context or the machine.

Main results:

- {lit}`Callee`: what commands need of the machine in order to run other scripts.
- {lit}`invoke`: the call of a command by name.
- {lit}`checkArguments_variadic`: a variadic command is given any arguments.
-/

namespace ScriptMachine

/-! ## Parts of a call -/

/-- How other scripts are run and put into the background. -/
structure Callee where
  /-- Runs a program to its end. -/
  run : Program → List Value → Operation (Option Value)
  /-- Creates a context of a program. -/
  create : Program → List Value → Operation Context

/-- What a command does during a call. -/
abbrev CommandStep (α : Type) : Type := Action Execution CommandCause α

/-- The answer of a command, and whether its type is to be checked. -/
structure Reply where
  value : Value
  checked : Bool

namespace Reply

/-- The value that a command answers when it sets none. -/
def preset : Value := .number 0.0

/-- An answer whose type is checked. -/
def ofValue (v : Value) : Reply := ⟨v, true⟩

/-- A number as an answer. -/
def ofNumber (x : Float) : Reply := ofValue (.number x)

/-- The answer of a command that sets none. -/
def nothing : Reply := ofValue preset

end Reply

/-! ## Arguments -/

namespace Arguments

/-- The argument at a position. -/
def value (arguments : List Value) (i : Nat) : Except CommandCause Value :=
  match arguments[i]? with
  | some v => .ok v
  | none => .error (.missingArgument i)

/-- An argument as a number. -/
def number (arguments : List Value) (i : Nat) : Except CommandCause Float := do
  match (← value arguments i).number? with
  | some x => .ok x
  | none => .error (.argumentNotNumeric i)

/-- An argument as a string. -/
def text (arguments : List Value) (i : Nat) : Except CommandCause String := do
  match (← value arguments i).text? with
  | some s => .ok s
  | none => .error (.argumentNotString i)

/-- An argument as an array. -/
def array (arguments : List Value) (i : Nat) : Except CommandCause ArrayId := do
  match (← value arguments i).array? with
  | some id => .ok id
  | none => .error (.argumentNotArray i)

/-- An argument as a position in an array. -/
def index (arguments : List Value) (i : Nat) : Except CommandCause Nat := do
  let x ← number arguments i
  match Number.toIndex? x with
  | some position => .ok position
  | none => .error (.invalidIndex x)

/-- An optional last argument as a position. -/
def indexIfGiven (arguments : List Value) (i : Nat) : Except CommandCause (Option Nat) :=
  if i < arguments.length then do return some (← index arguments i) else .ok none

end Arguments

/-! ## Effects -/

namespace CommandStep

/-- Changes the machine. -/
def onMachine (f : Machine → Machine) : CommandStep Unit :=
  Action.change (Execution.onMachine f)

/-- Changes the context. -/
def onContext (f : Context → Context) : CommandStep Unit :=
  Action.change (Execution.onContext f)

/-- Creates an array. -/
def createArray (elements : List Value) : CommandStep ArrayId := fun execution =>
  let (id, arrays) := execution.machine.arrays.create elements
  .done id (execution.onMachine fun machine => { machine with arrays := arrays })

/-- Changes the elements of an array, unless the position is out of range. -/
def updateArray (id : ArrayId) (position : Nat) (update : Arrays → Option Arrays) :
    CommandStep Unit := do
  let execution ← Action.get
  match update execution.machine.arrays with
  | some arrays => onMachine fun machine => { machine with arrays := arrays }
  | none => Action.fail (.indexOutOfRange position (execution.machine.arrays.size id))

/-- Runs an operation of the machine on behalf of the context. -/
def operate {α : Type} (operation : Operation α) : CommandStep (Except MachineError α) :=
  Action.attempt (Action.onPart Execution.machine Execution.withMachine operation)

end CommandStep

/-! ## Random numbers -/

namespace Machine

/-- Draws a number from zero up to, but not including, one. -/
def draw (machine : Machine) : Float × Machine :=
  let next := machine.random * 6364136223846793005 + 1442695040888963407
  (Number.scaled false (next >>> 11).toNat (-53), { machine with random := next })

end Machine

/-- A number between two finite bounds, the greater one excluded unless they are equal. -/
def between (a b t : Float) : Float :=
  let (low, high) := if a <= b then (a, b) else (b, a)
  let x := low * (1.0 - t) + high * t
  if x < high then (if x < low then low else x) else low

/-! ## Built-in commands -/

namespace Builtin

open CommandStep

/-- The name with which a program calls itself. -/
def selfName : String := "SELF"

/-- The second argument of a return as a number; zero when it is not given. -/
def haltArgument (arguments : List Value) : Except CommandCause Float :=
  if arguments.length = 2 then Arguments.number arguments 1 else .ok 0.0

/-- Ends the run with an optional result and an optional request to be the last run. -/
def doReturn (arguments : List Value) : CommandStep Reply := do
  if 2 < arguments.length then Action.fail .tooManyResults
  else
    let halt ← Action.ofExcept (haltArgument arguments)
    onContext fun context => context.requestReturn arguments.head? (!(halt == 0.0))
    return ⟨Reply.preset, false⟩

/-- The program that a call means: the calling one or a named one. -/
def target (name : String) : CommandStep (Except MachineError Program) := do
  let execution ← Action.get
  if Text.sameName name selfName then return .ok execution.context.program
  else operate (Machine.load name)

/-- Runs another script; a failure to load or to run it leaves the preset result. -/
def doCall (callee : Callee) (arguments : List Value) : CommandStep Reply := do
  let name ← Action.ofExcept (Arguments.text arguments 0)
  let forwarded := arguments.drop 1
  if maxParameters < forwarded.length then Action.fail (.tooManyForwarded forwarded.length)
  else
    match ← target name with
    | .error _ => return .nothing
    | .ok program =>
      match ← operate (callee.run program forwarded) with
      | .ok (some v) => return .ofValue v
      | .ok none | .error _ => return .nothing

/-- Formats a number. -/
def doFormat (arguments : List Value) : CommandStep Reply := do
  let format ← Action.ofExcept (Arguments.text arguments 0)
  let x ← Action.ofExcept (Arguments.number arguments 1)
  let unsigned ← Action.ofExcept (Arguments.number arguments 2)
  match Printf.format format x (!(unsigned == 0.0)) with
  | .ok text => return .ofValue (.text text)
  | .error fault => Action.fail (.badFormat fault)

/-- Writes a value to the console. -/
def doPrint (arguments : List Value) : CommandStep Reply := do
  let v ← Action.ofExcept (Arguments.value arguments 0)
  onMachine fun machine => machine.log (machine.arrays.snapshot v).toText
  return .nothing

/-- Draws a random number between two bounds in either order. -/
def doRandom (arguments : List Value) : CommandStep Reply := do
  let a ← Action.ofExcept (Arguments.number arguments 0)
  let b ← Action.ofExcept (Arguments.number arguments 1)
  if Number.isFinite a && Number.isFinite b then
    let execution ← Action.get
    let (t, machine) := execution.machine.draw
    Action.put (execution.withMachine machine)
    return .ofNumber (between a b t)
  else Action.fail .boundsNotFinite

/-- Reports an error on the console and raises the global exception. -/
def doRaise (line : Nat) (arguments : List Value) : CommandStep Reply := do
  let message ← Action.ofExcept (Arguments.text arguments 0)
  let execution ← Action.get
  let report :=
    "Script Error [" ++ execution.context.program.name ++ ":" ++ toString line ++ "] " ++ message
  onMachine fun machine => (machine.log report).raise
  return .nothing

/-- Inserts an element before a position, or appends it. -/
def doInsert (arguments : List Value) : CommandStep Reply := do
  if arguments.length < 2 || 3 < arguments.length then Action.fail .insertArity
  else
    let id ← Action.ofExcept (Arguments.array arguments 0)
    let v ← Action.ofExcept (Arguments.value arguments 1)
    match ← Action.ofExcept (Arguments.indexIfGiven arguments 2) with
    | none =>
      onMachine fun machine => { machine with arrays := machine.arrays.push id v }
      return .nothing
    | some i =>
      updateArray id i fun arrays => arrays.insert? id v i
      return .nothing

/-- Removes an element. -/
def doErase (arguments : List Value) : CommandStep Reply := do
  let id ← Action.ofExcept (Arguments.array arguments 0)
  let i ← Action.ofExcept (Arguments.index arguments 1)
  updateArray id i fun arrays => arrays.erase? id i
  return .nothing

/-- Removes every element. -/
def doClear (arguments : List Value) : CommandStep Reply := do
  let id ← Action.ofExcept (Arguments.array arguments 0)
  onMachine fun machine => { machine with arrays := machine.arrays.clear id }
  return .nothing

/-- The number of elements. -/
def doSize (arguments : List Value) : CommandStep Reply := do
  let id ← Action.ofExcept (Arguments.array arguments 0)
  let execution ← Action.get
  return .ofNumber (Float.ofNat (execution.machine.arrays.size id))

/-- The element at a position, whatever its type. -/
def doAt (arguments : List Value) : CommandStep Reply := do
  let id ← Action.ofExcept (Arguments.array arguments 0)
  let i ← Action.ofExcept (Arguments.index arguments 1)
  let execution ← Action.get
  match execution.machine.arrays.at? id i with
  | some v => return ⟨v, false⟩
  | none => Action.fail (.indexOutOfRange i (execution.machine.arrays.size id))

/-- What a built-in command does. -/
def perform (callee : Callee) (line : Nat) (arguments : List Value) : Builtin → CommandStep Reply
  | .returnValue => doReturn arguments
  | .callScript => doCall callee arguments
  | .breakLoop => do
    onContext fun context => context.request .breakLoop
    return .nothing
  | .continueLoop => do
    onContext fun context => context.request .continueLoop
    return .nothing
  | .secondsPassed => do return .ofNumber (← Action.get).context.secondsPassed
  | .formatNumber => doFormat arguments
  | .printToConsole => doPrint arguments
  | .randomNumber => doRandom arguments
  | .raiseError => doRaise line arguments
  | .isBackgrounding => do return .ofValue (.ofBool (← Action.get).context.backgrounded)
  | .arrayCreate => do return .ofValue (.array (← createArray arguments))
  | .arrayInsert => doInsert arguments
  | .arrayErase => doErase arguments
  | .arrayClear => doClear arguments
  | .arraySize => doSize arguments
  | .arrayAt => doAt arguments

end Builtin

/-! ## Actions of the host -/

namespace Machine

/-- Puts a context into the background. -/
def addBackground (machine : Machine) (context : Context) : Machine :=
  { machine with background := machine.background ++ [{ context with backgrounded := true }] }

end Machine

namespace HostAction

open CommandStep

/-- Puts a new context of the running program into the background. -/
def backgroundRunning (callee : Callee) (arguments : List Value) : CommandStep Reply := do
  let execution ← Action.get
  match ← operate (callee.create execution.context.program arguments) with
  | .error e => Action.fail (.reported e.message)
  | .ok context =>
    onMachine fun machine => machine.addBackground context
    return .ofNumber (Float.ofNat context.id)

/-- What an action of the host does. -/
def perform (callee : Callee) (arguments : List Value) : HostAction → CommandStep Reply
  | .nothing => return .nothing
  | .echo i checked => do return ⟨← Action.ofExcept (Arguments.value arguments i), checked⟩
  | .constant v => return .ofValue v
  | .fail message => Action.fail (.reported message)
  | .countArguments => return .ofNumber (Float.ofNat arguments.length)
  | .numberOf i => do return .ofNumber (← Action.ofExcept (Arguments.number arguments i))
  | .stringOf i => do return .ofValue (.text (← Action.ofExcept (Arguments.text arguments i)))
  | .arrayOf i => do return .ofValue (.array (← Action.ofExcept (Arguments.array arguments i)))
  | .indexOf i => do
    return .ofNumber (Float.ofNat (← Action.ofExcept (Arguments.index arguments i)))
  | .raise => do
    onMachine Machine.raise
    return .nothing
  | .removeGlobal name => do
    onMachine fun machine => machine.removeGlobal name
    return .nothing
  | .unregister name => do
    onMachine fun machine =>
      match machine.unregister name with
      | .ok (_, machine) => machine
      | .error _ => machine
    return .nothing
  | .backgroundSelf => backgroundRunning callee arguments

end HostAction

/-! ## The contract of a call -/

/-- What a command does. -/
def Command.perform (callee : Callee) (line : Nat) (arguments : List Value) (command : Command) :
    CommandStep Reply :=
  match command.action with
  | .builtin builtin => builtin.perform callee line arguments
  | .host action => action.perform callee arguments

/-- Checks the number of arguments and their types, unless the command is variadic. -/
def checkArguments (signature : Signature) (arguments : List Value) : Except RuntimeCause Unit :=
  match signature.arity? with
  | none => .ok ()
  | some expected =>
    if arguments.length ≠ expected then
      .error (.argumentCount signature.name expected arguments.length)
    else
      match (signature.parameters.zip arguments).find? fun (parameter, v) => !parameter.type.accepts v with
      | some (parameter, v) =>
        .error (.argumentType signature.name parameter.name parameter.type v.dataType)
      | none => .ok ()

/-- Checks the type of an answer, unless the command vouches for it. -/
def checkReply (signature : Signature) (reply : Reply) : Except RuntimeCause Value :=
  if reply.checked && !signature.result.accepts reply.value then
    .error (.resultType signature.name reply.value.dataType signature.result)
  else .ok reply.value

/-- Calls a command under its contract. -/
def Command.call (callee : Callee) (line : Nat) (command : Command) (arguments : List Value) :
    Evaluation Value := do
  Action.ofExcept (checkArguments command.signature arguments)
  let reply ← Action.mapError (RuntimeCause.inCommand command.signature.name)
    (command.perform callee line arguments)
  Action.ofExcept (checkReply command.signature reply)

/-- Calls the command that answers to a name. -/
def invoke (callee : Callee) (line : Nat) : Invoker := fun name arguments => do
  let execution ← Action.get
  match execution.machine.commands.lookup? name with
  | none => Action.fail (.lostCommand name)
  | some command => command.call callee line arguments

/-- A variadic command is given any arguments. -/
theorem checkArguments_variadic (signature : Signature) (arguments : List Value)
    (h : signature.variadic = true) : checkArguments signature arguments = .ok () := by
  simp [checkArguments, Signature.arity?, h]

end ScriptMachine
