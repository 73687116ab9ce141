import ScriptMachine.Source.Quoting
import ScriptMachine.Text.Blank

/-!
# Cleaning a source line

A line loses its comment, gets blanks for tabs and loses leading blanks when asked to, and
always loses trailing blanks.  A comment starts at the first semicolon outside of string
literals.

Main results:

- {lit}`beforeComment_append`: text in front of a semicolon that stands outside of literals
  is what remains.
-/

namespace ScriptMachine
namespace Source

/-! ## Comments -/

/-- The part of a line in front of its comment, scanned from the given quoting. -/
def beforeComment (quoting : Quoting) : List Char → List Char
  | [] => []
  | c :: rest =>
    if quoting = .outside ∧ c = ';' then []
    else c :: beforeComment (quoting.next c) rest

/-- Whether a line has a comment, scanned from the given quoting. -/
def hasComment (quoting : Quoting) : List Char → Bool
  | [] => false
  | c :: rest => (quoting = .outside ∧ c = ';') || hasComment (quoting.next c) rest

/-- Text without comment, then a semicolon outside of literals: the text remains. -/
theorem beforeComment_append (quoting : Quoting) (s comment : List Char)
    (hplain : hasComment quoting s = false) (hquoting : quoting.after s = .outside) :
    beforeComment quoting (s ++ ';' :: comment) = s := by
  induction s generalizing quoting with
  | nil =>
    simp only [Quoting.after, List.foldl_nil] at hquoting
    simp [beforeComment, hquoting]
  | cons c rest ih =>
    simp only [hasComment, Bool.or_eq_false_iff, decide_eq_false_iff_not] at hplain
    simp only [List.cons_append, beforeComment, if_neg hplain.1]
    rw [ih (quoting.next c) hplain.2 (by simpa [Quoting.after] using hquoting)]

/-! ## Cleaning -/

/-- Which parts of a line are cleaned away. -/
structure Cleaning where
  comments : Bool
  leading : Bool
  tabs : Bool
deriving Repr, DecidableEq

namespace Cleaning

/-- Only comments are stripped. -/
def commentsOnly : Cleaning := ⟨true, false, false⟩

/-- Comments, leading blanks and tabs are cleaned away. -/
def everything : Cleaning := ⟨true, true, true⟩

end Cleaning

/-- The cleaned line; trailing blanks are always dropped. -/
def clean (cleaning : Cleaning) (line : List Char) : List Char :=
  let text := if cleaning.comments then beforeComment .outside line else line
  let text := if cleaning.tabs then text.map fun c => if c = '\t' then ' ' else c else text
  let text := if cleaning.leading then Text.trimStart text else text
  Text.trimEnd text

end Source
end ScriptMachine
