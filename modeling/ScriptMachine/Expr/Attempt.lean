/-!
# Attempts of the expression grammar

A syntax error names the rules that could have gone on at the furthest position that the
parser tried.  A rule that fails reports itself there, in place of the rules tried inside
it at the same position, unless exactly one of those was reported: then that more specific
one stands.

Main results:

- {lit}`Attempts.record`: what a failing rule does to the attempts.
- {lit}`SyntaxError.message`: the text of an error.
- {lit}`Attempts.furthest_record`: the furthest position never moves back.
-/

namespace ScriptMachine

/-! ## Rules -/

/-- The named rules of the grammar, in the order in which messages list them. -/
inductive Rule where
  | endOfInput
  | statement
  | expression
  | assignment
  | place
  | assignOp
  | disjunction
  | conjunction
  | equality
  | comparison
  | sum
  | product
  | unary
  | postfixed
  | index
  | call
  | orOp
  | andOp
  | eqOp
  | cmpOp
  | addOp
  | mulOp
  | unaryOp
  | identifier
  | number
  | reference
  | string
deriving Repr, DecidableEq

namespace Rule

/-- Every rule, in message order. -/
def all : List Rule :=
  [.endOfInput, .statement, .expression, .assignment, .place, .assignOp, .disjunction,
   .conjunction, .equality, .comparison, .sum, .product, .unary, .postfixed, .index, .call,
   .orOp, .andOp, .eqOp, .cmpOp, .addOp, .mulOp, .unaryOp, .identifier, .number, .reference,
   .string]

/-- The name of a rule in messages. -/
def name : Rule → String
  | .endOfInput => "EOI"
  | .statement => "statement"
  | .expression => "expression"
  | .assignment => "assignment"
  | .place => "place"
  | .assignOp => "assign_op"
  | .disjunction => "disjunction"
  | .conjunction => "conjunction"
  | .equality => "equality"
  | .comparison => "comparison"
  | .sum => "sum"
  | .product => "product"
  | .unary => "unary"
  | .postfixed => "postfix"
  | .index => "index"
  | .call => "call"
  | .orOp => "or_op"
  | .andOp => "and_op"
  | .eqOp => "eq_op"
  | .cmpOp => "cmp_op"
  | .addOp => "add_op"
  | .mulOp => "mul_op"
  | .unaryOp => "unary_op"
  | .identifier => "identifier"
  | .number => "number"
  | .reference => "reference"
  | .string => "string"

end Rule

/-! ## Attempts -/

/-- The furthest position at which a rule failed, and the rules that are reported there. -/
structure Attempts where
  furthest : Nat
  rules : List Rule
deriving Repr, DecidableEq

namespace Attempts

/-- Nothing has been tried yet. -/
def start : Attempts := ⟨0, []⟩

/-- The number of rules reported at a position. -/
def count (attempts : Attempts) (position : Nat) : Nat :=
  if attempts.furthest = position then attempts.rules.length else 0

/-- The attempts after a rule failed that was entered at a position with earlier attempts. -/
def record (now : Attempts) (rule : Rule) (position : Nat) (entered : Attempts) : Attempts :=
  if now.count position - entered.count position = 1 then now
  else if position < now.furthest then now
  else if position = now.furthest then
    ⟨position, now.rules.take (entered.count position) ++ [rule]⟩
  else ⟨position, [rule]⟩

/-- The furthest position never moves back. -/
theorem furthest_record (now : Attempts) (rule : Rule) (position : Nat) (entered : Attempts) :
    now.furthest ≤ (now.record rule position entered).furthest := by
  unfold record
  split
  · exact Nat.le_refl _
  · split
    · exact Nat.le_refl _
    · split
      · next h => exact Nat.le_of_eq h.symm
      · next h _ => exact Nat.le_of_not_lt h

end Attempts

/-! ## Syntax errors -/

/-- The column of an error and the rules that were expected there. -/
structure SyntaxError where
  column : Nat
  expected : List Rule
deriving Repr, DecidableEq

namespace SyntaxError

/-- The error that the attempts on a source amount to.  Columns count characters from the last
line feed in front of the furthest position. -/
def ofAttempts (source : List Char) (attempts : Attempts) : SyntaxError where
  column := ((source.take attempts.furthest).reverse.takeWhile (· != '\n')).length + 1
  expected := Rule.all.filter attempts.rules.contains

/-- Alternatives joined in words. -/
def alternatives : List String → String
  | [] => ""
  | [a] => a
  | [a, b] => a ++ " or " ++ b
  | names => ", ".intercalate names.dropLast ++ ", or " ++ names.getLastD ""

/-- The text of an error. -/
def message (e : SyntaxError) : String :=
  "syntax error at column " ++ toString e.column ++ ": expected " ++
    alternatives (e.expected.map Rule.name)

end SyntaxError
end ScriptMachine
