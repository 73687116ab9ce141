import ScriptMachine.Machine.Operator
import ScriptMachine.Machine.State

/-!
# Evaluating expressions

A compiled expression is evaluated from left to right in a context; the right side of an
assignment comes before its target.  What a command does is a parameter here, because a
command may run other scripts.

Main results:

- {lit}`Expr.eval`: the value of an expression.
- {lit}`Expr.eval_and_of_false` and {lit}`Expr.eval_or_of_true`: a left operand that decides
  is the only one to be evaluated.
-/

namespace ScriptMachine

/-- An evaluation inside a context. -/
abbrev Evaluation (α : Type) : Type := Action Execution RuntimeCause α

/-- What the call of a command by name does. -/
abbrev Invoker : Type := String → List Value → Evaluation Value

namespace Evaluation

/-! ## Places -/

/-- The value of a variable. -/
def readSlot (slot : Nat) : Evaluation Value := do
  let execution ← Action.get
  match execution.context.locals[slot]? with
  | some v => return v
  | none => Action.fail (.unboundSlot slot)

/-- Assigns to a variable. -/
def writeSlot (slot : Nat) (v : Value) : Evaluation Unit := do
  let execution ← Action.get
  if slot < execution.context.locals.length then
    Action.put (execution.onContext fun context =>
      { context with locals := context.locals.set slot v })
  else Action.fail (.unboundSlot slot)

/-- The value of a global. -/
def readGlobal (key : String) : Evaluation Value := do
  let execution ← Action.get
  match execution.machine.globals.get? key with
  | some v => return v
  | none => Action.fail (.lostGlobal key)

/-- Assigns to a global that exists. -/
def writeGlobal (key : String) (v : Value) : Evaluation Unit := do
  let execution ← Action.get
  if execution.machine.globals.contains key then
    Action.put (execution.onMachine fun machine =>
      { machine with globals := machine.globals.assign key v })
  else Action.fail (.lostGlobal key)

/-- Assigns to an element that exists. -/
def writeElement (id : ArrayId) (position : Nat) (v : Value) : Evaluation Unit := do
  let execution ← Action.get
  match execution.machine.arrays.set? id position v with
  | some arrays =>
    Action.put (execution.onMachine fun machine => { machine with arrays := arrays })
  | none => Action.fail (.indexOutOfRange position (execution.machine.arrays.size id))

/-- A result that depends on the elements of arrays. -/
def withArrays {α : Type} (f : Arrays → Except RuntimeCause α) : Evaluation α := do
  let execution ← Action.get
  Action.ofExcept (f execution.machine.arrays)

/-- The value that an assignment stores: the new one, or the new one combined with the old. -/
def combined (op : AssignOp) (old : Evaluation Value) (new : Value) : Evaluation Value :=
  match op.combine? with
  | none => return new
  | some combine => do
    let current ← old
    withArrays fun arrays => combine.apply arrays current new

end Evaluation

/-! ## Expressions -/

namespace Expr

open Evaluation

mutual

/-- The value of an expression. -/
def eval (invoke : Invoker) : Expr → Evaluation Value
  | .number x => return .number x
  | .text s => return .text s
  | .reference handle => return .reference handle
  | .slot i => readSlot i
  | .global key => readGlobal key
  | .index target position => do
    let target ← eval invoke target
    let position ← eval invoke position
    withArrays fun arrays => target.element arrays position
  | .unary op operand => do
    let v ← eval invoke operand
    Action.ofExcept (op.apply v)
  | .binary .and left right => do
    let l ← eval invoke left
    if (← Action.ofExcept l.condition) then
      let r ← eval invoke right
      return .ofBool (← Action.ofExcept r.condition)
    else return .ofBool false
  | .binary .or left right => do
    let l ← eval invoke left
    if (← Action.ofExcept l.condition) then return .ofBool true
    else
      let r ← eval invoke right
      return .ofBool (← Action.ofExcept r.condition)
  | .binary op left right => do
    let l ← eval invoke left
    let r ← eval invoke right
    withArrays fun arrays => op.apply arrays l r
  | .assignSlot i op value => do
    let new ← eval invoke value
    let stored ← combined op (readSlot i) new
    writeSlot i stored
    return stored
  | .assignGlobal key op value => do
    let new ← eval invoke value
    let stored ← combined op (readGlobal key) new
    writeGlobal key stored
    return stored
  | .assignElement base position op value => do
    let new ← eval invoke value
    let target ← eval invoke base
    let id ← Action.ofExcept target.indexable
    let index ← eval invoke position
    let i ← Action.ofExcept index.position
    let stored ← combined op (withArrays fun arrays => Value.elementAt arrays id i) new
    writeElement id i stored
    return stored
  | .call command arguments => do
    let values ← evalList invoke arguments
    invoke command values

/-- The values of a list of expressions, from left to right. -/
def evalList (invoke : Invoker) : List Expr → Evaluation (List Value)
  | [] => return []
  | e :: rest => do
    let first ← eval invoke e
    let others ← evalList invoke rest
    return first :: others

end

/-! ## Short-circuit evaluation -/

/-- A false left operand decides a conjunction. -/
theorem eval_and_of_false (invoke : Invoker) (left right : Expr) (s t : Execution) (v : Value)
    (h : left.eval invoke s = .done v t) (hv : v.truth? = some false) :
    (Expr.binary .and left right).eval invoke s = .done (.ofBool false) t := by
  simp [eval, Action.bind_run, h, Value.condition, hv]

/-- A true left operand decides a disjunction. -/
theorem eval_or_of_true (invoke : Invoker) (left right : Expr) (s t : Execution) (v : Value)
    (h : left.eval invoke s = .done v t) (hv : v.truth? = some true) :
    (Expr.binary .or left right).eval invoke s = .done (.ofBool true) t := by
  simp [eval, Action.bind_run, h, Value.condition, hv]

end Expr
end ScriptMachine
