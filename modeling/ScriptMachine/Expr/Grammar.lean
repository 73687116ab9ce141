import ScriptMachine.Expr.Literal
import ScriptMachine.Expr.Parser
import ScriptMachine.Expr.Syntax

/-!
# The expression grammar

Binding grows from assignment, which nests to the right, over {lit}`||`, {lit}`&&`, equality,
comparison, sums and products, which nest to the left, to unary operators and indexing.
Brackets, parentheses, arguments and the right side of an assignment hold whole
expressions again; the grammar takes the parser for those as a parameter, and each use of
it stands behind at least one character.

Main results:

- {lit}`Grammar.expression`: the parser of expressions nested to a given depth.
- {lit}`Term.parse`: the term of a source text, or its syntax error.
-/

namespace ScriptMachine
namespace Grammar

open ScriptMachine.Parser

/-! ## Operators -/

/-- The operator of a disjunction. -/
def orOp : Parser BinaryOp :=
  named .orOp (oneOf [("||", .or)])

/-- The operator of a conjunction. -/
def andOp : Parser BinaryOp :=
  named .andOp (oneOf [("&&", .and)])

/-- An equality operator. -/
def eqOp : Parser BinaryOp :=
  named .eqOp (oneOf [("==", .equal), ("!=", .notEqual)])

/-- A comparison operator. -/
def cmpOp : Parser BinaryOp :=
  named .cmpOp (oneOf [("<=", .lessEqual), (">=", .greaterEqual), ("<", .less), (">", .greater)])

/-- An additive operator. -/
def addOp : Parser BinaryOp :=
  named .addOp (oneOf [("+", .add), ("-", .subtract)])

/-- A multiplicative operator. -/
def mulOp : Parser BinaryOp :=
  named .mulOp (oneOf [("*", .multiply), ("/", .divide), ("%", .remainder)])

/-- A unary operator. -/
def unaryOp : Parser UnaryOp :=
  named .unaryOp (oneOf [("-", .negate), ("!", .not)])

/-- A single equals sign that no other one follows. -/
def takeSet : List Char → Option (AssignOp × List Char)
  | '=' :: '=' :: _ => none
  | '=' :: rest => some (.set, rest)
  | _ => none

/-- An assignment operator. -/
def assignOp : Parser AssignOp :=
  named .assignOp
    (or (oneOf [("+=", .add), ("-=", .subtract), ("*=", .multiply), ("/=", .divide)]) (take takeSet))

/-! ## Names and literals -/

/-- An identifier. -/
def identifier : Parser String :=
  named .identifier (take Literal.takeIdentifier)

/-- A number literal. -/
def number : Parser Term :=
  named .number do return .number (← take Literal.takeNumber)

/-- A reference literal. -/
def reference : Parser Term :=
  named .reference do return .reference (← take Literal.takeReference)

/-- A string literal. -/
def string : Parser Term :=
  named .string do return .text (← take Literal.takeString)

/-! ## Operands -/

/-- An expression between brackets. -/
def index (inner : Parser Term) : Parser Term :=
  named .index do
    literal "["
    skip
    let position ← inner
    skip
    literal "]"
    return position

/-- One more argument behind a comma. -/
def furtherArgument (inner : Parser Term) : Parser Term := do
  literal ","
  skip
  inner

/-- One or more arguments, separated by commas. -/
def arguments (inner : Parser Term) : Parser (List Term) := do
  let first ← inner
  skip
  let others ← many (furtherArgument inner)
  return first :: others

/-- A command name with arguments in parentheses. -/
def call (inner : Parser Term) : Parser Term :=
  named .call do
    let name ← identifier
    skip
    literal "("
    skip
    let given ← optional (arguments inner)
    skip
    literal ")"
    return .call name (given.getD [])

/-- An expression in parentheses. -/
def group (inner : Parser Term) : Parser Term := do
  literal "("
  skip
  let term ← inner
  skip
  literal ")"
  return term

/-- A literal, a call, a name or a group. -/
def primary (inner : Parser Term) : Parser Term :=
  or number <| or string <| or reference <| or (call inner) <|
    or (do return .name (← identifier)) (group inner)

/-- An operand with any number of indices behind it. -/
def postfixed (inner : Parser Term) : Parser Term :=
  named .postfixed do
    let target ← primary inner
    skip
    let positions ← many (index inner)
    return positions.foldl Term.index target

/-- An operand with any number of unary operators in front of it. -/
def unary (inner : Parser Term) : Parser Term :=
  named .unary do
    let ops ← many unaryOp
    skip
    let operand ← postfixed inner
    return ops.foldr Term.unary operand

/-! ## Chains of binary operators -/

/-- An operator and the operand to its right. -/
def link (op : Parser BinaryOp) (operand : Parser Term) : Parser (BinaryOp × Term) := do
  let o ← op
  skip
  let right ← operand
  return (o, right)

/-- Operands joined by the operators of one level, grouped to the left. -/
def chain (rule : Rule) (op : Parser BinaryOp) (operand : Parser Term) : Parser Term :=
  named rule do
    let first ← operand
    skip
    let links ← many (link op operand)
    return links.foldl (fun left (o, right) => .binary o left right) first

/-- A chain of products. -/
def product (inner : Parser Term) : Parser Term :=
  chain .product mulOp (unary inner)

/-- A chain of sums. -/
def sum (inner : Parser Term) : Parser Term :=
  chain .sum addOp (product inner)

/-- A chain of comparisons. -/
def comparison (inner : Parser Term) : Parser Term :=
  chain .comparison cmpOp (sum inner)

/-- A chain of equalities. -/
def equality (inner : Parser Term) : Parser Term :=
  chain .equality eqOp (comparison inner)

/-- A chain of conjunctions. -/
def conjunction (inner : Parser Term) : Parser Term :=
  chain .conjunction andOp (equality inner)

/-- A chain of disjunctions. -/
def disjunction (inner : Parser Term) : Parser Term :=
  chain .disjunction orOp (conjunction inner)

/-! ## Assignments and expressions -/

/-- The target of an assignment: a name with any number of indices. -/
def place (inner : Parser Term) : Parser (String × List Term) :=
  named .place do
    let name ← identifier
    skip
    let positions ← many (index inner)
    return (name, positions)

/-- An assignment; its right side is an expression again. -/
def assignment (inner : Parser Term) : Parser Term :=
  named .assignment do
    let (name, positions) ← place inner
    skip
    let op ← assignOp
    skip
    let value ← inner
    return .assign name positions op value

/-- An expression whose nested expressions are read by the given parser. -/
def expressionWith (inner : Parser Term) : Parser Term :=
  named .expression (or (assignment inner) (disjunction inner))

/-- The parser of expressions that nest at most to the given depth. -/
def expression : Nat → Parser Term
  | 0 => fail
  | depth + 1 => fun cursor attempts => expressionWith (expression depth) cursor attempts

/-- A whole statement: an expression between optional blanks. -/
def statement (depth : Nat) : Parser Term :=
  named .statement do
    skip
    let term ← expression depth
    skip
    named .endOfInput endOfInput
    return term

end Grammar

/-- The term of a source text.  Every nested expression stands behind a character of its own,
so the length of the source bounds the nesting. -/
def Term.parse (source : List Char) : Except SyntaxError Term :=
  match Grammar.statement (source.length + 1) ⟨0, source⟩ .start with
  | (some (term, _), _) => .ok term
  | (none, attempts) => .error (.ofAttempts source attempts)

end ScriptMachine
