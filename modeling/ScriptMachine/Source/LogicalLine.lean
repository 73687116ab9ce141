import ScriptMachine.Source.Clean
import ScriptMachine.Source.Shorthand

/-!
# Logical lines

A script is read as logical lines.  Physical lines lose their comments, and those that are
then empty are dropped.  A line that ends in a backslash goes on in the next one, whose
leading blanks are dropped; the whole keeps the number of its first line.  Call
shorthands are expanded last.

Main results:

- {lit}`foldContinuations`: joins continued lines.
- {lit}`logicalLines`: the logical lines of a source text, in order.
-/

namespace ScriptMachine
namespace Source

open Text

/-- A line of text under its physical line number, counted from one. -/
structure Line where
  number : Nat
  text : List Char
deriving Repr, DecidableEq

/-! ## Physical lines -/

/-- The cleaned physical lines of a source that are not empty. -/
def physicalLines (source : List Char) : List Line :=
  (((lines source).map (clean .commentsOnly)).zipIdx 1).filterMap fun (text, number) =>
    if text.isEmpty then none else some ⟨number, text⟩

/-! ## Continuations -/

/-- Whether a line goes on in the next one. -/
def isContinued (text : List Char) : Bool :=
  text.getLast? == some '\\'

/-- A line without its continuation marker. -/
def withoutMarker (text : List Char) : List Char :=
  if isContinued text then text.dropLast else text

/-- A line joined to an unfinished one. -/
def joinLine : Option Line → Line → Line
  | none, line => { line with text := withoutMarker line.text }
  | some first, line => { first with text := first.text ++ trimStart (withoutMarker line.text) }

/-- Joins each continued line with the lines that follow it; the last one may stay
unfinished. -/
def foldContinuations (unfinished : Option Line) : List Line → List Line
  | [] => unfinished.toList
  | line :: rest =>
    let joined := joinLine unfinished line
    if isContinued line.text then foldContinuations (some joined) rest
    else joined :: foldContinuations none rest

/-! ## Logical lines -/

/-- The logical lines of a source text, in order. -/
def logicalLines (source : List Char) : List Line :=
  (foldContinuations none (physicalLines source)).filterMap fun line =>
    if (trim line.text).isEmpty then none
    else some { line with text := expandShorthands line.text }

end Source
end ScriptMachine
