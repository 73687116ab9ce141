import ScriptMachine.Expr.Literal
import ScriptMachine.Number.Binary
import ScriptMachine.Value.Basic

/-!
# Arguments given as words

A script is run with words from the command line.  A number sign and hexadecimal digits make
a reference, a finite number is a number, and any other word is a string.

Main results:

- {lit}`CommandLine.argument`: the value of a word.
- {lit}`CommandLine.argument_text`: a word that is neither a reference nor a number stays as
  it is.
-/

namespace ScriptMachine
namespace CommandLine

/-- The handle of a word that is a reference; a plus sign may stand before the digits. -/
def reference? : List Char → Option UInt32
  | '#' :: rest =>
    let digits := if rest.head? == some '+' then rest.drop 1 else rest
    if digits.isEmpty || !digits.all Literal.isHexDigit then none
    else Literal.handleOfDigits? digits
  | _ => none

/-- The value of a word. -/
def argument (word : String) : Value :=
  match reference? word.toList with
  | some handle => .reference handle
  | none =>
    match (Number.parse? word.toList).filter Number.isFinite with
    | some x => .number x
    | none => .text word

/-- A word that is neither a reference nor a number stays as it is. -/
theorem argument_text (word : String) (href : reference? word.toList = none)
    (hnum : (Number.parse? word.toList).filter Number.isFinite = none) :
    argument word = .text word := by
  simp [argument, href, hnum]

end CommandLine
end ScriptMachine
