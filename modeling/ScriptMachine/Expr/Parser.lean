import ScriptMachine.Expr.Attempt

/-!
# Parsers with attempts

A parser reads from a cursor and either answers with a cursor further on or fails.
Choices are ordered and final, repetition takes as much as it can, and failed branches
give back their input but not the attempts they recorded.

Main results:

- {lit}`Parser.many`: repetition with blanks between the items.
- {lit}`Parser.named`: a rule that reports its failure.
-/

namespace ScriptMachine

/-- A position in a source and what follows it. -/
structure Cursor where
  position : Nat
  rest : List Char
deriving Repr, DecidableEq

/-- A parser: from a cursor and the attempts so far, an answer and the attempts after it. -/
def Parser (α : Type) : Type :=
  Cursor → Attempts → Option (α × Cursor) × Attempts

namespace Parser

variable {α β : Type}

/-! ## Sequence and choice -/

/-- Answers without reading. -/
protected def pure (x : α) : Parser α :=
  fun cursor attempts => (some (x, cursor), attempts)

/-- Reads one thing, then another that may depend on it. -/
protected def bind (p : Parser α) (f : α → Parser β) : Parser β :=
  fun cursor attempts =>
    match p cursor attempts with
    | (none, attempts) => (none, attempts)
    | (some (x, cursor), attempts) => f x cursor attempts

instance : Monad Parser where
  pure := Parser.pure
  bind := Parser.bind

/-- Fails without an attempt. -/
def fail : Parser α :=
  fun _ attempts => (none, attempts)

/-- The second parser, from the same cursor, when the first fails. -/
def or (p q : Parser α) : Parser α :=
  fun cursor attempts =>
    match p cursor attempts with
    | (none, attempts) => q cursor attempts
    | answer => answer

/-- An answer if there is one; never fails. -/
def optional (p : Parser α) : Parser (Option α) :=
  fun cursor attempts =>
    match p cursor attempts with
    | (none, attempts) => (some (none, cursor), attempts)
    | (some (x, cursor), attempts) => (some (some x, cursor), attempts)

/-- A rule that reports its failure at the position where it was entered. -/
def named (rule : Rule) (p : Parser α) : Parser α :=
  fun cursor attempts =>
    match p cursor attempts with
    | (none, after) => (none, after.record rule cursor.position attempts)
    | answer => answer

/-! ## Characters -/

/-- Reads what a function takes off the rest of the source. -/
def take (f : List Char → Option (α × List Char)) : Parser α :=
  fun cursor attempts =>
    match f cursor.rest with
    | none => (none, attempts)
    | some (x, rest) => (some (x, ⟨cursor.position + (cursor.rest.length - rest.length), rest⟩), attempts)

/-- The text behind a given beginning, if it begins so. -/
def behind? : List Char → List Char → Option (List Char)
  | [], s => some s
  | _ :: _, [] => none
  | c :: start, d :: s => if c = d then behind? start s else none

/-- Reads the given characters. -/
def literal (text : String) : Parser Unit :=
  take fun s => (behind? text.toList s).map fun rest => ((), rest)

/-- Reads the first symbol of a list that fits and answers with what belongs to it. -/
def oneOf : List (String × α) → Parser α
  | [] => fail
  | (symbol, x) :: others => or ((literal symbol).bind fun _ => Parser.pure x) (oneOf others)

/-- Skips spaces and tabs; never fails. -/
def skip : Parser Unit :=
  take fun s => some ((), s.dropWhile fun c => c == ' ' || c == '\t')

/-- Succeeds at the end of the source only. -/
def endOfInput : Parser Unit :=
  take fun s => if s.isEmpty then some ((), s) else none

/-! ## Repetition -/

/-- Further items, each behind optional blanks, at most as many as given.  Blanks in front of
something else are given back. -/
def manyMore (item : Parser α) : Nat → Parser (List α)
  | 0 => Parser.pure []
  | bound + 1 => fun cursor attempts =>
    match (skip.bind fun _ => item) cursor attempts with
    | (none, attempts) => (some ([], cursor), attempts)
    | (some (x, next), attempts) =>
      match manyMore item bound next attempts with
      | (none, attempts) => (none, attempts)
      | (some (others, last), attempts) => (some (x :: others, last), attempts)

/-- As many items as there are, with optional blanks between them; never fails.  Items take
at least one character, so the rest of the source bounds their number; one more round sees
the failure that ends the repetition. -/
def many (item : Parser α) : Parser (List α) :=
  fun cursor attempts =>
    match item cursor attempts with
    | (none, attempts) => (some ([], cursor), attempts)
    | (some (x, next), attempts) =>
      match manyMore item (next.rest.length + 1) next attempts with
      | (none, attempts) => (none, attempts)
      | (some (others, last), attempts) => (some (x :: others, last), attempts)

end Parser
end ScriptMachine
