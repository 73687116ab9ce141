/-!
# Expressions

An expression has two forms.  A term is what the grammar reads, with names and literals as
written.  A compiled expression refers to variables by slot, to globals by key and to
commands by their registered name.

Main results:

- {lit}`BinaryOp.ofSymbol?_symbol`: every operator is recognised by its symbol.
-/

namespace ScriptMachine

/-! ## Operators -/

/-- A binary operator. -/
inductive BinaryOp where
  | or
  | and
  | equal
  | notEqual
  | less
  | lessEqual
  | greater
  | greaterEqual
  | add
  | subtract
  | multiply
  | divide
  | remainder
deriving Repr, DecidableEq

namespace BinaryOp

/-- Every binary operator. -/
def all : List BinaryOp :=
  [.or, .and, .equal, .notEqual, .less, .lessEqual, .greater, .greaterEqual, .add, .subtract,
   .multiply, .divide, .remainder]

/-- The symbol of an operator. -/
def symbol : BinaryOp → String
  | .or => "||"
  | .and => "&&"
  | .equal => "=="
  | .notEqual => "!="
  | .less => "<"
  | .lessEqual => "<="
  | .greater => ">"
  | .greaterEqual => ">="
  | .add => "+"
  | .subtract => "-"
  | .multiply => "*"
  | .divide => "/"
  | .remainder => "%"

/-- The operator with the given symbol. -/
def ofSymbol? (symbol : String) : Option BinaryOp :=
  all.find? fun op => op.symbol == symbol

/-- Every operator is recognised by its symbol. -/
theorem ofSymbol?_symbol (op : BinaryOp) : ofSymbol? op.symbol = some op := by
  cases op <;> decide +kernel

end BinaryOp

/-- A unary operator. -/
inductive UnaryOp where
  | negate
  | not
deriving Repr, DecidableEq

/-- The symbol of a unary operator. -/
def UnaryOp.symbol : UnaryOp → String
  | .negate => "-"
  | .not => "!"

/-- An assignment operator. -/
inductive AssignOp where
  | set
  | add
  | subtract
  | multiply
  | divide
deriving Repr, DecidableEq

namespace AssignOp

/-- The symbol of an assignment operator. -/
def symbol : AssignOp → String
  | .set => "="
  | .add => "+="
  | .subtract => "-="
  | .multiply => "*="
  | .divide => "/="

/-- The operator that a compound assignment applies to the old and the new value. -/
def combine? : AssignOp → Option BinaryOp
  | .set => none
  | .add => some .add
  | .subtract => some .subtract
  | .multiply => some .multiply
  | .divide => some .divide

end AssignOp

/-! ## Terms -/

/-- An expression as written.  Number and reference literals keep their digits, a string
literal is already freed of its escapes. -/
inductive Term where
  | number (digits : List Char)
  | text (s : String)
  | reference (digits : List Char)
  | name (identifier : String)
  | index (target position : Term)
  | unary (op : UnaryOp) (operand : Term)
  | binary (op : BinaryOp) (left right : Term)
  | assign (identifier : String) (positions : List Term) (op : AssignOp) (value : Term)
  | call (identifier : String) (arguments : List Term)

/-! ## Compiled expressions -/

/-- A compiled expression. -/
inductive Expr where
  | number (x : Float)
  | text (s : String)
  | reference (handle : UInt32)
  | slot (index : Nat)
  | global (key : String)
  | index (target position : Expr)
  | unary (op : UnaryOp) (operand : Expr)
  | binary (op : BinaryOp) (left right : Expr)
  | assignSlot (index : Nat) (op : AssignOp) (value : Expr)
  | assignGlobal (key : String) (op : AssignOp) (value : Expr)
  | assignElement (base position : Expr) (op : AssignOp) (value : Expr)
  | call (command : String) (arguments : List Expr)

instance : Inhabited Expr := ⟨.slot 0⟩

end ScriptMachine
