import ScriptMachine.Expr.Syntax
import ScriptMachine.Number.Layout
import ScriptMachine.Printf
import ScriptMachine.Script.Program

/-!
# Errors of a running machine

An error says what went wrong inside a command, inside an expression, at a line of a script
or in an operation of the machine; each level wraps the one before it.

Main results:

- {lit}`CommandCause.message`, {lit}`RuntimeCause.message`, {lit}`RuntimeError.message` and
  {lit}`MachineError.message`: the texts.
-/

namespace ScriptMachine

/-! ## Inside a command -/

/-- Why a command fails. -/
inductive CommandCause where
  | missingArgument (position : Nat)
  | argumentNotNumeric (position : Nat)
  | argumentNotString (position : Nat)
  | argumentNotArray (position : Nat)
  | invalidIndex (x : Float)
  | indexOutOfRange (index size : Nat)
  | tooManyResults
  | tooManyForwarded (count : Nat)
  | insertArity
  | boundsNotFinite
  | badFormat (fault : Printf.Fault)
  /-- A host command reports a failure of its own. -/
  | reported (message : String)

/-- The text of a command failure; positions of arguments count from one. -/
def CommandCause.message : CommandCause → String
  | .missingArgument position => "missing argument " ++ toString (position + 1)
  | .argumentNotNumeric position => "argument " ++ toString (position + 1) ++ " must be numeric"
  | .argumentNotString position => "argument " ++ toString (position + 1) ++ " must be a string"
  | .argumentNotArray position => "argument " ++ toString (position + 1) ++ " must be an array"
  | .invalidIndex x => "invalid index " ++ Number.Layout.plain.render x
  | .indexOutOfRange index size =>
    "index " ++ toString index ++ " out of range (size " ++ toString size ++ ")"
  | .tooManyResults => "expects at most 2 arguments"
  | .tooManyForwarded count =>
    "too many arguments (" ++ toString count ++ ", max " ++ toString maxParameters ++ ")"
  | .insertArity => "expects 2 or 3 arguments"
  | .boundsNotFinite => "bounds must be finite numbers"
  | .badFormat fault => fault.message
  | .reported message => message

/-! ## Inside an expression -/

/-- Why an expression fails. -/
inductive RuntimeCause where
  | unboundSlot (slot : Nat)
  | lostGlobal (key : String)
  | lostCommand (name : String)
  | notIndexable (found : DataType)
  | invalidIndex (x : Float)
  | indexOutOfRange (index size : Nat)
  | operandNotNumeric (symbol : String) (found : DataType)
  | notCondition (found : DataType)
  | divisionByZero
  | cannotCombine (left right : DataType)
  | argumentCount (command : String) (expected supplied : Nat)
  | argumentType (command parameter : String) (expected : ParameterType) (found : DataType)
  | inCommand (name : String) (cause : CommandCause)
  | resultType (command : String) (found : DataType) (declared : ParameterType)
  | conditionNotNumeric (found : DataType)
  | notIterable (found : DataType)
  | breakOutsideLoop
  | continueOutsideLoop

/-- The text of an expression failure. -/
def RuntimeCause.message : RuntimeCause → String
  | .unboundSlot slot => "variable slot " ++ toString slot ++ " is unbound"
  | .lostGlobal key => "global '" ++ key ++ "' no longer exists"
  | .lostCommand name => "command '" ++ name ++ "' is no longer registered"
  | .notIndexable found => "cannot index a " ++ found.name ++ " value"
  | .invalidIndex x => "invalid array index " ++ Number.Layout.plain.render x
  | .indexOutOfRange index size =>
    "array index " ++ toString index ++ " out of range (size " ++ toString size ++ ")"
  | .operandNotNumeric symbol found =>
    "operator '" ++ symbol ++ "' expects a number, found " ++ found.name
  | .notCondition found => "expected a condition, found " ++ found.name
  | .divisionByZero => "division by zero"
  | .cannotCombine left right =>
    "operator '+' cannot combine " ++ left.name ++ " and " ++ right.name
  | .argumentCount command expected supplied =>
    command ++ " expects " ++ toString expected ++ " argument(s), " ++ toString supplied ++ " supplied"
  | .argumentType command parameter expected found =>
    command ++ ": parameter '" ++ parameter ++ "' expects " ++ String.singleton expected.code ++
      ", found " ++ found.name
  | .inCommand name cause => name ++ ": " ++ cause.message
  | .resultType command found declared =>
    command ++ " returned " ++ found.name ++ " where " ++ String.singleton declared.code ++
      " was declared"
  | .conditionNotNumeric found => "condition must be numeric, found " ++ found.name
  | .notIterable found => "ForEach expects an array, found " ++ found.name
  | .breakOutsideLoop => "Break called outside a loop"
  | .continueOutsideLoop => "Continue called outside a loop"

/-! ## At a line of a script -/

/-- A script error at the line of the statement that raised it. -/
structure RuntimeError where
  line : Nat
  cause : RuntimeCause

/-- The text of a script error. -/
def RuntimeError.message (e : RuntimeError) : String :=
  "line " ++ toString e.line ++ ": " ++ e.cause.message

/-! ## In an operation of the machine -/

/-- Why an operation of the machine fails. -/
inductive MachineError where
  | unreadable (path : String) (e : ReadError)
  | notCompiled (name : String) (diagnostics : List Diagnostic)
  | invalidProgram (name : String)
  | parameterMismatch (name : String) (expected supplied : Nat)
  | callDepthExceeded (limit : Nat)
  | programExecuting (name : String)
  | runtime (program : String) (e : RuntimeError)
  | globalException (program : String)
  | fault (e : Fault)

/-- The text of a machine error. -/
def MachineError.message : MachineError → String
  | .unreadable path e => "couldn't read script at " ++ path ++ ": " ++ e.message
  | .notCompiled name diagnostics =>
    "script '" ++ name ++ "' failed to compile with " ++ toString diagnostics.length ++ " error(s)"
  | .invalidProgram name => "program '" ++ name ++ "' is not valid and cannot be executed"
  | .parameterMismatch name expected supplied =>
    "program '" ++ name ++ "' expects " ++ toString expected ++ " parameter(s), " ++
      toString supplied ++ " supplied"
  | .callDepthExceeded limit => "maximum call depth of " ++ toString limit ++ " exceeded"
  | .programExecuting name => "program '" ++ name ++ "' is currently executing"
  | .runtime program e => "runtime error in '" ++ program ++ "' at " ++ e.message
  | .globalException program => "global exception raised while running '" ++ program ++ "'"
  | .fault e => e.message

end ScriptMachine
