import ScriptMachine.Text.Blank

/-!
# Call shorthands

A script call may be written {lit}`@path.to.script(arguments)`.  It stands for
{lit}`call("path/to/script", arguments)`: the head up to the parenthesis becomes a string
with slashes for points and without blanks.  A line with a shorthand that never opens its
parenthesis, or has no closing one behind it, stays as it is.

Main results:

- {lit}`expand?_of_not_mem`: a line without shorthands is left unchanged.
-/

namespace ScriptMachine
namespace Source

/-- What a shorthand starts with. -/
def callStart : List Char := "call(\"".toList

/-- What stands for the opening parenthesis: the end of the script name, and a comma when
arguments follow. -/
def callOpening : List Char → List Char
  | ')' :: _ => ['"']
  | _ => ['"', ',', ' ']

/-- The line with its shorthands expanded, scanned inside or outside of a shorthand head;
nothing when a head has no parenthesis or no parenthesis closes behind it. -/
def expand? (inHead : Bool) : List Char → Option (List Char)
  | [] => if inHead then none else some []
  | c :: rest =>
    if inHead then
      if c = '(' then
        if rest.contains ')' then (expand? false rest).map (callOpening rest ++ ·) else none
      else if c = '.' then (expand? true rest).map ('/' :: ·)
      else if Text.isBlank c then expand? true rest
      else (expand? true rest).map (c :: ·)
    else if c = '@' then (expand? true rest).map (callStart ++ ·)
    else (expand? false rest).map (c :: ·)

/-- The line with its shorthands expanded, or the line itself when one of them is malformed. -/
def expandShorthands (line : List Char) : List Char :=
  (expand? false line).getD line

/-- A line without shorthands is left unchanged. -/
theorem expand?_of_not_mem (line : List Char) (h : '@' ∉ line) : expand? false line = some line := by
  induction line with
  | nil => simp [expand?]
  | cons c rest ih =>
    simp only [List.mem_cons, not_or] at h
    simp [expand?, Ne.symm h.1, ih h.2]

end Source
end ScriptMachine
