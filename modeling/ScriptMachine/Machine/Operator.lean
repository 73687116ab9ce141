import ScriptMachine.Machine.Error
import ScriptMachine.Number.Integral
import ScriptMachine.Value.Snapshot

/-!
# Operators on values

Arithmetic and ordering read both operands as numbers; two strings are ordered as texts.
The plus sign adds whatever has a numeric reading, joins two strings, and otherwise joins
the texts of its operands if one of them is a string.

Main results:

- {lit}`BinaryOp.apply`: the result of an operator on two values.
- {lit}`Value.element?`: the element of an array that a value names.
-/

namespace ScriptMachine

/-! ## Readings of operands -/

namespace Value

/-- The operand of an operator as a number. -/
def numeric (symbol : String) (v : Value) : Except RuntimeCause Float :=
  match v.number? with
  | some x => .ok x
  | none => .error (.operandNotNumeric symbol v.dataType)

/-- The operand of a logical operator as a condition. -/
def condition (v : Value) : Except RuntimeCause Bool :=
  match v.truth? with
  | some b => .ok b
  | none => .error (.notCondition v.dataType)

/-- The position that a value names in an array. -/
def position (v : Value) : Except RuntimeCause Nat := do
  let x ← v.numeric "[]"
  match Number.toIndex? x with
  | some i => .ok i
  | none => .error (.invalidIndex x)

/-- The array that an operand is. -/
def indexable (v : Value) : Except RuntimeCause ArrayId :=
  match v.array? with
  | some id => .ok id
  | none => .error (.notIndexable v.dataType)

/-- The element at a position. -/
def elementAt (arrays : Arrays) (id : ArrayId) (i : Nat) : Except RuntimeCause Value :=
  match arrays.at? id i with
  | some v => .ok v
  | none => .error (.indexOutOfRange i (arrays.size id))

/-- The element of an array that an index names. -/
def element (arrays : Arrays) (target index : Value) : Except RuntimeCause Value := do
  let id ← target.indexable
  let i ← index.position
  elementAt arrays id i

end Value

/-! ## Binary operators -/

/-- Adds two values. -/
def Value.add (arrays : Arrays) (l r : Value) : Except RuntimeCause Value :=
  match l, r with
  | .text a, .text b => .ok (.text (a ++ b))
  | _, _ =>
    match l.number?, r.number? with
    | some x, some y => .ok (.number (x + y))
    | _, _ =>
      if l.dataType = .string ∨ r.dataType = .string then
        .ok (.text ((arrays.snapshot l).toText ++ (arrays.snapshot r).toText))
      else .error (.cannotCombine l.dataType r.dataType)

/-- Orders two values: strings as texts, anything else as numbers. -/
def Value.ordered (symbol : String) (texts : String → String → Bool)
    (numbers : Float → Float → Bool) (l r : Value) : Except RuntimeCause Value :=
  match l, r with
  | .text a, .text b => .ok (.ofBool (texts a b))
  | _, _ => do
    let x ← l.numeric symbol
    let y ← r.numeric symbol
    .ok (.ofBool (numbers x y))

/-- Computes with two values as numbers. -/
def Value.arithmetic (symbol : String) (compute : Float → Float → Except RuntimeCause Float)
    (l r : Value) : Except RuntimeCause Value := do
  let x ← l.numeric symbol
  let y ← r.numeric symbol
  return .number (← compute x y)

/-- A division that refuses a zero divisor. -/
def dividing (compute : Float → Float → Float) (x y : Float) : Except RuntimeCause Float :=
  if y == 0.0 then .error .divisionByZero else .ok (compute x y)

/-- The result of an operator on two values. -/
def BinaryOp.apply (arrays : Arrays) (op : BinaryOp) (l r : Value) : Except RuntimeCause Value :=
  match op with
  | .equal => .ok (.ofBool (l.equal r))
  | .notEqual => .ok (.ofBool (!l.equal r))
  | .or => do if (← l.condition) then .ok (.ofBool true) else return .ofBool (← r.condition)
  | .and => do if (← l.condition) then return .ofBool (← r.condition) else .ok (.ofBool false)
  | .add => l.add arrays r
  | .less => l.ordered op.symbol (fun a b => a < b) (fun x y => x < y) r
  | .lessEqual => l.ordered op.symbol (fun a b => !(b < a)) (fun x y => x <= y) r
  | .greater => l.ordered op.symbol (fun a b => b < a) (fun x y => y < x) r
  | .greaterEqual => l.ordered op.symbol (fun a b => !(a < b)) (fun x y => y <= x) r
  | .subtract => l.arithmetic op.symbol (fun x y => .ok (x - y)) r
  | .multiply => l.arithmetic op.symbol (fun x y => .ok (x * y)) r
  | .divide => l.arithmetic op.symbol (dividing fun x y => x / y) r
  | .remainder => l.arithmetic op.symbol (dividing Number.remainder) r

/-- The result of a unary operator. -/
def UnaryOp.apply (op : UnaryOp) (v : Value) : Except RuntimeCause Value :=
  match op with
  | .negate => do return .number (-(← v.numeric op.symbol))
  | .not => do return .ofBool (!(← v.condition))

end ScriptMachine
