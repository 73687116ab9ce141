/-!
# Strings in TOML

A string is written between double quotes if it needs no escape there, then between single
quotes, and over several lines only if neither will do.  When every way needs escapes,
double quotes are used.

Main results:

- {lit}`Toml.stringText`: the written form of a string.
- {lit}`Toml.formOf_plain`: an ordinary string stands between double quotes.
-/

namespace ScriptMachine
namespace Toml

/-! ## Forms -/

/-- How a string is written. -/
inductive StringForm where
  /-- Between double quotes, with escapes. -/
  | basic
  /-- Between single quotes, as it is. -/
  | literal
  /-- Between three double quotes, with escapes. -/
  | multiBasic
  /-- Between three single quotes, as it is. -/
  | multiLiteral
deriving Repr, DecidableEq

/-- The quotes on each side. -/
def StringForm.quotes : StringForm → List Char
  | .basic => ['"']
  | .literal => ['\'']
  | .multiBasic => ['"', '"', '"']
  | .multiLiteral => ['\'', '\'', '\'']

/-- Whether a string may go over several lines. -/
def StringForm.isMulti : StringForm → Bool
  | .multiBasic | .multiLiteral => true
  | .basic | .literal => false

/-- Whether characters are escaped. -/
def StringForm.escapes : StringForm → Bool
  | .basic | .multiBasic => true
  | .literal | .multiLiteral => false

/-- The longest run of a character, continued from a run in front. -/
def longestRun (quote : Char) : Nat → List Char → Nat
  | run, [] => run
  | run, c :: rest =>
    if c == quote then longestRun quote (run + 1) rest else max run (longestRun quote 0 rest)

/-- Whether a character can only be written as an escape. -/
def needsEscape (c : Char) : Bool :=
  c != '\t' && c != '\n' && (c.toNat < 0x20 || c.toNat == 0x7F)

/-- The form in which a string is written. -/
def formOf (s : List Char) : StringForm :=
  let escape := s.contains '\\'
  let broken := s.contains '\n'
  let single := longestRun '\'' 0 s
  let double := longestRun '"' 0 s
  if s.any needsEscape then (if broken then .multiBasic else .basic)
  else if !escape && double = 0 && !broken then .basic
  else if single = 0 && !broken then .literal
  else if !escape && double ≤ 2 then .multiBasic
  else if single ≤ 2 then .multiLiteral
  else if broken then .multiBasic
  else .basic

/-- An ordinary string stands between double quotes. -/
theorem formOf_plain : formOf "scripts/lib".toList = .basic := by
  decide

/-! ## Escapes -/

/-- A character that is no quote in an escaped string. -/
def escapeString (form : StringForm) (c : Char) : List Char :=
  if c == '\x08' then ['\\', 'b']
  else if c == '\t' then ['\\', 't']
  else if c == '\n' then (if form.isMulti then ['\n'] else ['\\', 'n'])
  else if c == '\x0c' then ['\\', 'f']
  else if c == '\r' then ['\\', 'r']
  else if c == '\\' then ['\\', '\\']
  else if needsEscape c then
    let digits := (Nat.toDigits 16 c.toNat).map Char.toUpper
    ['\\', 'u'] ++ List.replicate (4 - digits.length) '0' ++ digits
  else [c]

/-- How many quotes may stand in a row. -/
def StringForm.allowedQuotes (form : StringForm) : Nat :=
  if form.isMulti then 2 else 0

/-- An escaped string behind so many quotes in a row. -/
def escaped (form : StringForm) : Nat → List Char → List Char
  | _, [] => []
  | run, c :: rest =>
    if c == '"' then
      if run < form.allowedQuotes then '"' :: escaped form (run + 1) rest
      else '\\' :: '"' :: escaped form 0 rest
    else escapeString form c ++ escaped form 0 rest

/-- The written form of a string. -/
def stringText (s : List Char) : List Char :=
  let form := formOf s
  let start := if form.isMulti && s.contains '\n' then ['\n'] else []
  form.quotes ++ start ++ (if form.escapes then escaped form 0 s else s) ++ form.quotes

end Toml
end ScriptMachine
