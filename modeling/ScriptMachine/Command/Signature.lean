import ScriptMachine.Text.Name
import ScriptMachine.Value.Basic

/-!
# Command signatures

A command publishes its name, perhaps an alias, its typed parameters and its result type.
A variadic command checks its arguments itself; any other takes exactly its parameters.

Main results:

- {lit}`ParameterType.accepts`: which values a type admits.
- {lit}`Signature.answersTo_iff`: a command answers to its name and to its alias, in any
  letter case.
-/

namespace ScriptMachine

open Text

/-! ## Parameter types -/

/-- The type of a parameter or result. -/
inductive ParameterType where
  | numeric
  | reference
  | string
  | array
  /-- Any value at all. -/
  | multi
deriving Repr, DecidableEq

namespace ParameterType

/-- The one-character code of a type. -/
def code : ParameterType → Char
  | .numeric => DataType.numeric.code
  | .reference => DataType.reference.code
  | .string => DataType.string.code
  | .array => DataType.array.code
  | .multi => '!'

/-- Every parameter type, in the order of the codes {lit}`nrsa!`. -/
def all : List ParameterType :=
  [.numeric, .reference, .string, .array, .multi]

/-- Whether a value satisfies a type.  Only the numeric type admits implicit casts. -/
def accepts : ParameterType → Value → Bool
  | .numeric, v => v.isNumber true
  | .reference, v => v.dataType == .reference
  | .string, v => v.dataType == .string
  | .array, v => v.dataType == .array
  | .multi, _ => true

end ParameterType

/-! ## Signatures -/

/-- A named and typed parameter. -/
structure Parameter where
  name : String
  type : ParameterType
deriving Repr, DecidableEq

/-- What a command publishes about itself. -/
structure Signature where
  name : String
  /-- Another name for the command. -/
  shortName : Option String
  description : String
  documentation : String
  parameters : List Parameter
  result : ParameterType
  variadic : Bool
deriving Repr, DecidableEq

namespace Signature

/-- The exact number of arguments, unless the command is variadic. -/
def arity? (signature : Signature) : Option Nat :=
  if signature.variadic then none else some signature.parameters.length

/-- The folded name and alias, under which the command is registered. -/
def keys (signature : Signature) : List String :=
  (signature.name :: signature.shortName.toList).map fold

/-- Whether a command answers to a name. -/
def answersTo (signature : Signature) (name : String) : Bool :=
  signature.keys.contains (fold name)

/-- A command answers to its name and to its alias, in any letter case. -/
theorem answersTo_iff (signature : Signature) (name : String) :
    signature.answersTo name = true ↔
      sameName signature.name name = true ∨
        ∃ short, signature.shortName = some short ∧ sameName short name = true := by
  cases hshort : signature.shortName with
  | none => simp [answersTo, keys, hshort, sameName_iff, eq_comm (a := fold name)]
  | some short => simp [answersTo, keys, hshort, sameName_iff, eq_comm (a := fold name)]

/-- The compact form of a signature, such as {lit}`FormatNumber(s, n, n) -> s`. -/
def text (signature : Signature) : String :=
  let codes := signature.parameters.map fun parameter => String.singleton parameter.type.code
  let codes := if signature.variadic then codes ++ ["..."] else codes
  signature.name ++ "(" ++ ", ".intercalate codes ++ ") -> " ++
    String.singleton signature.result.code

end Signature
end ScriptMachine
