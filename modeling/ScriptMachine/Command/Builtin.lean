import ScriptMachine.Command.Signature

/-!
# The built-in commands

Every machine starts with the same commands: flow control, script calls, the console,
numbers and arrays.  This module publishes their signatures; what they do is part of the
machine.

Main results:

- {lit}`Builtin.signature`: what each command publishes.
- {lit}`Builtin.all`: the commands in the order in which they are registered.
-/

namespace ScriptMachine

/-- A built-in command. -/
inductive Builtin where
  | returnValue
  | callScript
  | breakLoop
  | continueLoop
  | secondsPassed
  | formatNumber
  | printToConsole
  | randomNumber
  | raiseError
  | isBackgrounding
  | arrayCreate
  | arrayInsert
  | arrayErase
  | arrayClear
  | arraySize
  | arrayAt
deriving Repr, DecidableEq

namespace Builtin

/-- Every built-in command, in the order of registration. -/
def all : List Builtin :=
  [.returnValue, .callScript, .breakLoop, .continueLoop, .secondsPassed, .formatNumber,
   .printToConsole, .randomNumber, .raiseError, .isBackgrounding, .arrayCreate, .arrayInsert,
   .arrayErase, .arrayClear, .arraySize, .arrayAt]

/-- What a command publishes. -/
def signature : Builtin → Signature
  | .returnValue => {
      name := "Return", shortName := none
      description := "Stops the current script, optionally with a result"
      documentation := "Return([value[, halt]]). A non-zero halt also ends background execution."
      parameters := [⟨"value", .multi⟩, ⟨"halt", .numeric⟩], result := .multi, variadic := true }
  | .callScript => {
      name := "Call", shortName := none
      description := "Runs another script synchronously and returns its result"
      documentation := "Call(script[, args...]). `SELF` calls the current script. " ++
        "Evaluates to 0 when the callee fails or returns nothing."
      parameters := [⟨"script", .string⟩], result := .multi, variadic := true }
  | .breakLoop => {
      name := "Break", shortName := none
      description := "Exits the innermost loop"
      documentation := ""
      parameters := [], result := .numeric, variadic := false }
  | .continueLoop => {
      name := "Continue", shortName := none
      description := "Skips to the next iteration of the innermost loop"
      documentation := ""
      parameters := [], result := .numeric, variadic := false }
  | .secondsPassed => {
      name := "GetSecondsPassed", shortName := none
      description := "Seconds since the current context last ran"
      documentation := ""
      parameters := [], result := .numeric, variadic := false }
  | .formatNumber => {
      name := "FormatNumber", shortName := none
      description := "Formats a number with a printf-style format string"
      documentation := "FormatNumber(format, number, unsigned). A non-zero `unsigned` reads the " ++
        "number as a 32-bit unsigned integer first."
      parameters := [⟨"format", .string⟩, ⟨"number", .numeric⟩, ⟨"unsigned", .numeric⟩]
      result := .string, variadic := false }
  | .printToConsole => {
      name := "PrintToConsole", shortName := some "printc"
      description := "Writes a value to the console"
      documentation := ""
      parameters := [⟨"message", .multi⟩], result := .numeric, variadic := false }
  | .randomNumber => {
      name := "RandomNumber", shortName := some "rand"
      description := "Uniform random number in [min, max)"
      documentation := "Bounds may be given in either order."
      parameters := [⟨"min", .numeric⟩, ⟨"max", .numeric⟩], result := .numeric, variadic := false }
  | .raiseError => {
      name := "Error", shortName := none
      description := "Reports a script error and raises the global exception"
      documentation := "Aborts the running context and every caller up to the outermost run."
      parameters := [⟨"message", .string⟩], result := .numeric, variadic := false }
  | .isBackgrounding => {
      name := "IsBackgrounding", shortName := none
      description := "1 when the current context runs under the background scheduler"
      documentation := ""
      parameters := [], result := .numeric, variadic := false }
  | .arrayCreate => {
      name := "ArrayCreate", shortName := none
      description := "Creates an array from its arguments"
      documentation := "ArrayCreate([values...])"
      parameters := [], result := .array, variadic := true }
  | .arrayInsert => {
      name := "ArrayInsert", shortName := none
      description := "Inserts a value, appending when no index is given"
      documentation := "ArrayInsert(array, value[, index])"
      parameters := [⟨"array", .array⟩, ⟨"value", .multi⟩, ⟨"index", .numeric⟩]
      result := .numeric, variadic := true }
  | .arrayErase => {
      name := "ArrayErase", shortName := none
      description := "Removes the element at an index"
      documentation := ""
      parameters := [⟨"array", .array⟩, ⟨"index", .numeric⟩], result := .numeric, variadic := false }
  | .arrayClear => {
      name := "ArrayClear", shortName := none
      description := "Removes every element"
      documentation := ""
      parameters := [⟨"array", .array⟩], result := .numeric, variadic := false }
  | .arraySize => {
      name := "ArraySize", shortName := none
      description := "Number of elements"
      documentation := ""
      parameters := [⟨"array", .array⟩], result := .numeric, variadic := false }
  | .arrayAt => {
      name := "ArrayAt", shortName := none
      description := "Element at an index"
      documentation := ""
      parameters := [⟨"array", .array⟩, ⟨"index", .numeric⟩], result := .multi, variadic := false }

end Builtin
end ScriptMachine
