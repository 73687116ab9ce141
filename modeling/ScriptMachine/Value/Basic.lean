import ScriptMachine.Number.Layout
import ScriptMachine.Number.Reading

/-!
# Script values

Every piece of data that a script touches is a value.  Numbers, references and strings are
copied; an array value is the identity of a shared list, so that every holder of the
identity sees the same elements.

Main results:

- {lit}`Value.number?`: the numeric reading, with the implicit casts of references and of
  strings that hold a number.
- {lit}`Value.equal`: equality, numeric as soon as one side is a number.
-/

namespace ScriptMachine

/-! ## Values and their types -/

/-- The identity of a shared array. -/
structure ArrayId where
  index : Nat
deriving Repr, DecidableEq

/-- A script value. -/
inductive Value where
  | invalid
  | number (x : Float)
  | reference (handle : UInt32)
  | text (s : String)
  | array (id : ArrayId)

instance : Inhabited Value := ⟨.invalid⟩

/-- The type of a value. -/
inductive DataType where
  | invalid
  | numeric
  | reference
  | string
  | array
deriving Repr, DecidableEq

namespace DataType

/-- The name of a type in messages. -/
def name : DataType → String
  | .invalid => "invalid"
  | .numeric => "numeric"
  | .reference => "reference"
  | .string => "string"
  | .array => "array"

/-- The one-character code of a type in signatures. -/
def code : DataType → Char
  | .invalid => '?'
  | .numeric => 'n'
  | .reference => 'r'
  | .string => 's'
  | .array => 'a'

/-- Every type, in the order of the codes {lit}`?nrsa`. -/
def all : List DataType :=
  [.invalid, .numeric, .reference, .string, .array]

end DataType

namespace Value

/-- The type of a value. -/
def dataType : Value → DataType
  | .invalid => .invalid
  | .number _ => .numeric
  | .reference _ => .reference
  | .text _ => .string
  | .array _ => .array

/-! ## Readings -/

/-- The number that an object reference casts to. -/
def handleNumber (handle : UInt32) : Float :=
  Float.ofNat handle.toNat

/-- The numeric reading: numbers as they are, references by their handle and strings that
hold a number. -/
def number? : Value → Option Float
  | .number x => some x
  | .reference handle => some (handleNumber handle)
  | .text s => Number.cast? s
  | .invalid | .array _ => none

/-- The object handle of a reference. -/
def handle? : Value → Option UInt32
  | .reference handle => some handle
  | _ => none

/-- The text of a string. -/
def text? : Value → Option String
  | .text s => some s
  | _ => none

/-- The identity of an array. -/
def array? : Value → Option ArrayId
  | .array id => some id
  | _ => none

/-- The reading as a condition: a number other than zero is true, and so is NaN. -/
def truth? (v : Value) : Option Bool :=
  v.number?.map fun x => !(x == 0.0)

/-- Whether the value can be read as the type without having it.  Only numbers have such
readings. -/
def casts (v : Value) (target : DataType) : Bool :=
  match target with
  | .numeric => v.number?.isSome
  | _ => false

/-- Whether the value is a number, or one after an implicit cast if that is allowed. -/
def isNumber (v : Value) (allowCast : Bool) : Bool :=
  match v with
  | .number _ => true
  | _ => allowCast && v.casts .numeric

/-- The number one for true and zero for false. -/
def ofBool (b : Bool) : Value :=
  .number (if b then 1.0 else 0.0)

/-! ## Equality -/

/-- Equality of values: within one type by content, arrays by identity, and a number against
any value by the numeric reading of that value. -/
def equal : Value → Value → Bool
  | .invalid, .invalid => true
  | .number x, .number y => x == y
  | .reference a, .reference b => a == b
  | .text s, .text t => s == t
  | .array a, .array b => a == b
  | .number x, v => v.number?.any fun y => x == y
  | v, .number y => v.number?.any fun x => x == y
  | _, _ => false

end Value
end ScriptMachine
