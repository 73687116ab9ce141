import ScriptMachine.Command.Table
import ScriptMachine.Expr.Grammar
import ScriptMachine.Globals

/-!
# Resolving names

A term is compiled by resolving its names in a scope: variables to their slot, globals to
their key and calls to a registered command with the right number of arguments.  The
globals and commands met on the way are collected, also when a later part fails.

Main results:

- {lit}`Expr.resolve`: the compiled expression of a term.
- {lit}`Expr.compile`: the compiled expression of a source text.
- {lit}`References.mem_insertName`: a collected name is present.
-/

namespace ScriptMachine

open Text

/-! ## References -/

/-- The folded names of the commands and globals that a program refers to, ascending. -/
structure References where
  commands : List String
  globals : List String
deriving Repr, DecidableEq

namespace References

/-- No references. -/
def empty : References := ⟨[], []⟩

/-- Adds a name to an ascending list of names without repetition. -/
def insertName (name : String) : List String → List String
  | [] => [name]
  | other :: rest =>
    if name = other then other :: rest
    else if name < other then name :: other :: rest
    else other :: insertName name rest

/-- A name is present after it is added, and so are the names from before. -/
theorem mem_insertName (name other : String) (names : List String) :
    other ∈ insertName name names ↔ other = name ∨ other ∈ names := by
  induction names with
  | nil => simp [insertName]
  | cons first rest ih =>
    simp only [insertName]
    split
    · next h => simp [h]
    · split
      · simp
      · simp [ih, or_left_comm]

/-- Notes a command. -/
def addCommand (references : References) (name : String) : References :=
  { references with commands := insertName (fold name) references.commands }

/-- Notes a global. -/
def addGlobal (references : References) (key : String) : References :=
  { references with globals := insertName key references.globals }

/-- Whether a symbol names a command or a global that is referred to. -/
def dependsOn (references : References) (symbol : String) : Bool :=
  references.commands.contains (fold symbol) || references.globals.contains (fold symbol)

end References

/-! ## Scopes and errors -/

/-- What names mean while a program is compiled. -/
structure Scope where
  /-- The folded names of the variables; the position of a name is its slot. -/
  locals : List String
  globals : Globals
  commands : CommandTable

/-- The slot of a variable. -/
def Scope.slot? (scope : Scope) (name : String) : Option Nat :=
  scope.locals.findIdx? fun declared => sameName declared name

/-- Why an expression does not compile. -/
inductive ExprError where
  | syntaxError (e : SyntaxError)
  | invalidNumber (digits : List Char)
  | invalidReference (digits : List Char)
  | unknownIdentifier (name : String)
  | unknownCommand (name : String)
  | argumentCount (command : String) (expected found : Nat)
deriving Repr, DecidableEq

/-- The text of a compile error. -/
def ExprError.message : ExprError → String
  | .syntaxError e => e.message
  | .invalidNumber digits => "invalid number '" ++ String.ofList digits ++ "'"
  | .invalidReference digits => "invalid reference '#" ++ String.ofList digits ++ "'"
  | .unknownIdentifier name => "unknown identifier '" ++ name ++ "'"
  | .unknownCommand name => "unknown command '" ++ name ++ "'"
  | .argumentCount command expected found =>
    "'" ++ command ++ "' expects " ++ toString expected ++ " argument(s), found " ++ toString found

/-! ## Resolving -/

/-- A compilation step: it may fail, and the references collected so far outlive a failure. -/
abbrev Resolve (α : Type) : Type := EStateM ExprError References α

namespace Expr

/-- A number literal. -/
def resolveNumber (digits : List Char) : Resolve Expr :=
  match Number.parse? digits with
  | some x => return .number x
  | none => throw (.invalidNumber digits)

/-- A reference literal, whose digits must fit a handle. -/
def resolveReference (digits : List Char) : Resolve Expr :=
  match Literal.handleOfDigits? digits with
  | some handle => return .reference handle
  | none => throw (.invalidReference digits)

/-- What a name stands for: a variable of the program or a global. -/
inductive Target where
  | slot (index : Nat)
  | global (key : String)

/-- Reading a target. -/
def ofTarget : Target → Expr
  | .slot i => .slot i
  | .global key => .global key

/-- Finds what a name stands for; variables come before globals. -/
def resolveName (scope : Scope) (name : String) : Resolve Target := do
  match scope.slot? name with
  | some i => return .slot i
  | none =>
    if scope.globals.contains name then
      modify fun references => references.addGlobal (fold name)
      return .global (fold name)
    else throw (.unknownIdentifier name)

/-- Applies a unary operator; the minus of a number literal becomes part of the number. -/
def applyUnary : UnaryOp → Expr → Expr
  | .negate, .number x => .number (-x)
  | op, operand => .unary op operand

/-- The assignment to a target under indices: all but the last one read, the last one is
written. -/
def assignTo (target : Target) (positions : List Expr) (op : AssignOp) (value : Expr) : Expr :=
  match positions.getLast? with
  | none =>
    match target with
    | .slot i => .assignSlot i op value
    | .global key => .assignGlobal key op value
  | some last => .assignElement (positions.dropLast.foldl .index (ofTarget target)) last op value

/-- The call of a command with compiled arguments; fixed arities are checked here. -/
def resolveCall (scope : Scope) (name : String) (arguments : List Expr) : Resolve Expr := do
  match scope.commands.lookup? name with
  | none => throw (.unknownCommand name)
  | some command =>
    match command.signature.arity? with
    | some expected =>
      if arguments.length ≠ expected then
        throw (.argumentCount command.signature.name expected arguments.length)
    | none => pure ()
    modify fun references => references.addCommand command.signature.name
    return .call command.signature.name arguments

mutual

/-- The compiled expression of a term.  Operands are resolved from left to right, the right
side of an assignment before its target and arguments before the command. -/
def resolve (scope : Scope) : Term → Resolve Expr
  | .number digits => resolveNumber digits
  | .text s => return .text s
  | .reference digits => resolveReference digits
  | .name identifier => return ofTarget (← resolveName scope identifier)
  | .index target position => do
    let target ← resolve scope target
    let position ← resolve scope position
    return .index target position
  | .unary op operand => return applyUnary op (← resolve scope operand)
  | .binary op left right => do
    let left ← resolve scope left
    let right ← resolve scope right
    return .binary op left right
  | .assign identifier positions op value => do
    let value ← resolve scope value
    let target ← resolveName scope identifier
    let positions ← resolveList scope positions
    return assignTo target positions op value
  | .call identifier arguments => do
    let arguments ← resolveList scope arguments
    resolveCall scope identifier arguments

/-- The compiled expressions of a list of terms. -/
def resolveList (scope : Scope) : List Term → Resolve (List Expr)
  | [] => return []
  | term :: rest => do
    let first ← resolve scope term
    let others ← resolveList scope rest
    return first :: others

end

/-- The compiled expression of a source text. -/
def compile (scope : Scope) (source : List Char) : Resolve Expr :=
  match Term.parse source with
  | .error e => throw (.syntaxError e)
  | .ok term => resolve scope term

end Expr
end ScriptMachine
