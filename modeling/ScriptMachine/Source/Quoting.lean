/-!
# String literals in a line

A double quote opens a string literal and the next one closes it, unless a backslash inside
the literal escapes it.  Comments and parentheses count only outside of literals, so their
scanners follow this one automaton.

Main results:

- {lit}`Quoting.next`: where the scanner stands after a character.
- {lit}`Quoting.after_append`: scanning a concatenation continues from the first part.
-/

namespace ScriptMachine
namespace Source

/-- Where a scanner stands: outside of literals, inside one, or behind a backslash in one. -/
inductive Quoting where
  | outside
  | inside
  | escape
deriving Repr, DecidableEq

namespace Quoting

/-- Where the scanner stands after a character. -/
def next (quoting : Quoting) (c : Char) : Quoting :=
  match quoting with
  | .outside => if c = '"' then .inside else .outside
  | .inside => if c = '"' then .outside else if c = '\\' then .escape else .inside
  | .escape => .inside

/-- Where the scanner stands after a text. -/
def after (quoting : Quoting) (s : List Char) : Quoting :=
  s.foldl next quoting

/-- Scanning a concatenation continues from the first part. -/
theorem after_append (quoting : Quoting) (s t : List Char) :
    quoting.after (s ++ t) = (quoting.after s).after t := by
  simp [after, List.foldl_append]

end Quoting
end Source
end ScriptMachine
