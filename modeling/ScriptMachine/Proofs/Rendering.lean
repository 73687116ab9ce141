import ScriptMachine.Expr.Syntax
import ScriptMachine.Expr.Literal

/-!
# Written expressions

A term can be written in many ways: with any blanks between its tokens, with more parentheses than
precedence asks for, and with its strings escaped where they need not be.  The levels of precedence
run from expressions, which may be assignments, to operands that need no parentheses anywhere.  What
stands to the left of a binary operator is written at the level of the operator, what stands to its
right at the next one, and the value of an assignment at that of expressions again.

Main results:

- {lit}`Level`: the levels of precedence.
- {lit}`Written`: the texts of a term at a level.
- {lit}`Written.exists_cons`: the characters with which such a text begins.
-/

namespace ScriptMachine

open Text

/-! ## Literals and blanks -/

/-- Spaces and tabs. -/
def Blanks (s : List Char) : Prop :=
  ∀ c ∈ s, c = ' ' ∨ c = '\t'

/-- Decimal digits only. -/
def Digits (s : List Char) : Prop :=
  ∀ c ∈ s, c.isDigit = true

/-- The digits of a number literal: before a point, behind it or on both sides. -/
inductive Mantissa : List Char → Prop where
  | whole {digits : List Char} (h : Digits digits) (hne : digits ≠ []) : Mantissa digits
  | point {whole fraction : List Char} (hwhole : Digits whole) (hfraction : Digits fraction)
      (hne : whole ≠ [] ∨ fraction ≠ []) : Mantissa (whole ++ '.' :: fraction)

/-- What may follow the digits of a number literal. -/
inductive Exponent : List Char → Prop where
  | none : Exponent []
  | marked {mark : Char} {sign digits : List Char} (hmark : mark = 'e' ∨ mark = 'E')
      (hsign : sign = [] ∨ sign = ['+'] ∨ sign = ['-']) (h : Digits digits) (hne : digits ≠ []) :
      Exponent (mark :: (sign ++ digits))

/-- The text of a number literal. -/
def NumberText (s : List Char) : Prop :=
  ∃ mantissa exponent, Mantissa mantissa ∧ Exponent exponent ∧ s = mantissa ++ exponent

/-- The ways to write a string between quotes.  A quote and a backslash are always escaped; line
feeds and tabs have escapes of their own, and any other character may be escaped too. -/
inductive Spelled : List Char → List Char → Prop where
  | nil : Spelled [] []
  | plain {c : Char} {s w : List Char} (hquote : c ≠ '"') (hslash : c ≠ '\\') (h : Spelled s w) :
      Spelled (c :: s) (c :: w)
  | quote {s w : List Char} (h : Spelled s w) : Spelled ('"' :: s) ('\\' :: '"' :: w)
  | backslash {s w : List Char} (h : Spelled s w) : Spelled ('\\' :: s) ('\\' :: '\\' :: w)
  | newline {s w : List Char} (h : Spelled s w) : Spelled ('\n' :: s) ('\\' :: 'n' :: w)
  | tab {s w : List Char} (h : Spelled s w) : Spelled ('\t' :: s) ('\\' :: 't' :: w)
  | needless {c : Char} {s w : List Char} (hfeed : c ≠ 'n') (htab : c ≠ 't') (h : Spelled s w) :
      Spelled (c :: s) ('\\' :: c :: w)

/-! ## Levels of precedence -/

/-- The levels of precedence, from the loosest to the tightest. -/
inductive Level where
  | expression
  | disjunction
  | conjunction
  | equality
  | comparison
  | sum
  | product
  | unary
  | postfixed
  | primary
deriving DecidableEq

namespace Level

/-- The next tighter level. -/
def next : Level → Level
  | .expression => .disjunction
  | .disjunction => .conjunction
  | .conjunction => .equality
  | .equality => .comparison
  | .comparison => .sum
  | .sum => .product
  | .product => .unary
  | .unary => .postfixed
  | .postfixed => .primary
  | .primary => .primary

end Level

/-- The level of a binary operator. -/
def BinaryOp.level : BinaryOp → Level
  | .or => .disjunction
  | .and => .conjunction
  | .equal | .notEqual => .equality
  | .less | .lessEqual | .greater | .greaterEqual => .comparison
  | .add | .subtract => .sum
  | .multiply | .divide | .remainder => .product

/-! ## Texts of terms -/

/-- A term and its text between blanks. -/
structure Padded where
  before : List Char
  term : Term
  text : List Char
  after : List Char

namespace Padded

/-- The text with its blanks. -/
def written (p : Padded) : List Char :=
  p.before ++ p.text ++ p.after

/-- There are blanks only around the text. -/
structure Spaced (p : Padded) : Prop where
  before : Blanks p.before
  after : Blanks p.after

/-- The text between brackets. -/
def bracketed (p : Padded) : List Char :=
  '[' :: (p.written ++ [']'])

/-- The text between parentheses. -/
def grouped (p : Padded) : List Char :=
  '(' :: (p.written ++ [')'])

end Padded

/-- An index: some blanks, then a term in brackets. -/
structure Position where
  gap : List Char
  inside : Padded

namespace Position

/-- The text of an index. -/
def written (p : Position) : List Char :=
  p.gap ++ p.inside.bracketed

/-- There are blanks only around the brackets and inside of them. -/
structure Spaced (p : Position) : Prop where
  gap : Blanks p.gap
  inside : p.inside.Spaced

end Position

/-- The texts of a term at a level. -/
inductive Written : Level → Term → List Char → Prop where
  | number {digits : List Char} (h : NumberText digits) : Written .primary (.number digits) digits
  | text {s w : List Char} (h : Spelled s w) :
      Written .primary (.text (String.ofList s)) ('"' :: (w ++ ['"']))
  | reference {digits : List Char} (h : ∀ c ∈ digits, Literal.isHexDigit c = true)
      (hne : digits ≠ []) : Written .primary (.reference digits) ('#' :: digits)
  | name {identifier : String} (h : isIdentifier identifier.toList = true) :
      Written .primary (.name identifier) identifier.toList
  | callNone {identifier : String} {gap inside : List Char}
      (h : isIdentifier identifier.toList = true) (hgap : Blanks gap) (hinside : Blanks inside) :
      Written .primary (.call identifier []) (identifier.toList ++ gap ++ '(' :: (inside ++ [')']))
  | call {identifier : String} {gap : List Char} {first : Padded} {others : List Padded}
      (h : isIdentifier identifier.toList = true) (hgap : Blanks gap)
      (hspaced : ∀ argument ∈ first :: others, argument.Spaced)
      (harguments : ∀ argument ∈ first :: others,
        Written .expression argument.term argument.text) :
      Written .primary (.call identifier ((first :: others).map Padded.term))
        (identifier.toList ++ gap ++ '(' ::
          (first.written ++ others.flatMap (fun argument => ',' :: argument.written) ++ [')']))
  | group {inside : Padded} (hspaced : inside.Spaced)
      (h : Written .expression inside.term inside.text) :
      Written .primary inside.term inside.grouped
  | index {target : Term} {w : List Char} {position : Position} (h : Written .postfixed target w)
      (hspaced : position.Spaced)
      (hposition : Written .expression position.inside.term position.inside.text) :
      Written .postfixed (.index target position.inside.term) (w ++ position.written)
  | unary (op : UnaryOp) {operand : Term} {gap w : List Char} (hgap : Blanks gap)
      (h : Written .unary operand w) :
      Written .unary (.unary op operand) (op.symbol.toList ++ gap ++ w)
  | binary (op : BinaryOp) {left right : Term} {w gap gap' v : List Char}
      (hleft : Written op.level left w) (hgap : Blanks gap) (hgap' : Blanks gap')
      (hright : Written op.level.next right v) :
      Written op.level (.binary op left right) (w ++ gap ++ op.symbol.toList ++ gap' ++ v)
  | assign (op : AssignOp) {identifier : String} {positions : List Position} {value : Term}
      {gap gap' v : List Char} (h : isIdentifier identifier.toList = true)
      (hspaced : ∀ position ∈ positions, position.Spaced)
      (hpositions : ∀ position ∈ positions,
        Written .expression position.inside.term position.inside.text)
      (hgap : Blanks gap) (hgap' : Blanks gap') (hvalue : Written .expression value v) :
      Written .expression (.assign identifier (positions.map fun position => position.inside.term) op
        value) (identifier.toList ++ positions.flatMap Position.written ++ gap ++ op.symbol.toList ++
          gap' ++ v)
  | tighter {level : Level} {term : Term} {w : List Char} (h : Written level.next term w) :
      Written level term w

/-! ## How texts begin -/

/-- A character that may begin an operand without unary operators. -/
def beginsOperand (c : Char) : Bool :=
  isNameStart c || c.isDigit || ['.', '"', '#', '('].contains c

/-- A character that may begin an expression. -/
def beginsTerm (c : Char) : Bool :=
  beginsOperand c || ['-', '!'].contains c

/-- Digits before or behind a point begin a number literal. -/
theorem NumberText.exists_cons {s : List Char} (h : NumberText s) :
    ∃ c rest, s = c :: rest ∧ (c.isDigit = true ∨ c = '.') := by
  rcases h with ⟨mantissa, exponent, hmantissa, -, rfl⟩
  cases hmantissa with
  | whole h hne =>
    cases mantissa with
    | nil => exact absurd rfl hne
    | cons c rest => exact ⟨c, rest ++ exponent, rfl, .inl (h c (by simp))⟩
  | @point whole fraction hwhole =>
    cases whole with
    | nil => exact ⟨'.', fraction ++ exponent, rfl, .inr rfl⟩
    | cons c rest => exact ⟨c, _, rfl, .inl (hwhole c (by simp))⟩

/-- An identifier begins like a name. -/
theorem exists_cons_of_isIdentifier {s : List Char} (h : isIdentifier s = true) :
    ∃ c rest, s = c :: rest ∧ isNameStart c = true ∧ ∀ d ∈ rest, isNameChar d = true := by
  cases s with
  | nil => cases h
  | cons c rest =>
    simp only [isIdentifier, Bool.and_eq_true, List.all_eq_true] at h
    exact ⟨c, rest, rfl, h.1, h.2⟩

/-- No level but the last two has texts with less than a whole operand in front. -/
def Level.begins : Level → Char → Bool
  | .postfixed | .primary => beginsOperand
  | _ => beginsTerm

/-- What begins a term at a tighter level begins one at a looser level. -/
theorem Level.begins_of_next {level : Level} {c : Char} (h : level.next.begins c = true) :
    level.begins c = true := by
  cases level <;> first | exact h | simp_all [next, begins, beginsTerm]

/-- The text of a term is not empty and begins in one of few ways. -/
theorem Written.exists_cons {level : Level} {term : Term} {w : List Char} (h : Written level term w) :
    ∃ c rest, w = c :: rest ∧ level.begins c = true := by
  have hname : ∀ {identifier : String}, isIdentifier identifier.toList = true → ∀ behind,
      ∃ c rest, identifier.toList ++ behind = c :: rest ∧ beginsOperand c = true := by
    intro identifier h behind
    rcases exists_cons_of_isIdentifier h with ⟨c, rest, hcons, hstart, -⟩
    refine ⟨c, rest ++ behind, by rw [hcons]; rfl, ?_⟩
    simp [beginsOperand, hstart]
  induction h with
  | number h =>
    rcases h.exists_cons with ⟨c, rest, rfl, hc⟩
    refine ⟨c, rest, rfl, ?_⟩
    rcases hc with hc | rfl
    · simp [Level.begins, beginsOperand, hc]
    · rfl
  | text h => exact ⟨_, _, rfl, rfl⟩
  | reference h hne => exact ⟨_, _, rfl, rfl⟩
  | name h => simpa [Level.begins] using hname h []
  | callNone h hgap hinside => simpa [Level.begins] using hname h _
  | call h hgap hspaced harguments => simpa [Level.begins] using hname h _
  | group hspaced h => exact ⟨_, _, rfl, rfl⟩
  | index h hspaced hposition ih =>
    rcases ih with ⟨c, rest, rfl, hc⟩
    exact ⟨c, _, rfl, hc⟩
  | unary op hgap h => cases op <;> exact ⟨_, _, rfl, rfl⟩
  | binary op hleft hgap hgap' hright ih =>
    rcases ih with ⟨c, rest, rfl, hc⟩
    exact ⟨c, _, rfl, hc⟩
  | assign op h hspaced hpositions hgap hgap' hvalue =>
    rcases hname h _ with ⟨c, rest, hcons, hc⟩
    refine ⟨c, rest, by simpa only [List.append_assoc] using hcons, ?_⟩
    simp [Level.begins, beginsTerm, hc]
  | tighter h ih =>
    rcases ih with ⟨c, rest, rfl, hc⟩
    exact ⟨c, rest, rfl, Level.begins_of_next hc⟩

end ScriptMachine
