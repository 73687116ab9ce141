import ScriptMachine.Number.Reading
import ScriptMachine.Text.Name

/-!
# Literals of the expression grammar

Numbers, references, identifiers and string literals are read character by character,
without blanks inside.

Main results:

- {lit}`takeQuoted_quoted`: a string written with escapes is read back.
-/

namespace ScriptMachine
namespace Literal

open Text

/-! ## Identifiers, numbers and references -/

/-- Takes an identifier off a text. -/
def takeIdentifier : List Char → Option (String × List Char)
  | [] => none
  | c :: rest =>
    if isNameStart c then some (String.ofList (c :: rest.takeWhile isNameChar), rest.dropWhile isNameChar)
    else none

/-- Takes an exponent off a text, if a complete one starts there. -/
def takeExponent (s : List Char) : List Char × List Char :=
  match s with
  | [] => ([], [])
  | mark :: body =>
    if mark == 'e' || mark == 'E' then
      let sign := body.take (if body.head?.any (fun c => c == '+' || c == '-') then 1 else 0)
      let (digits, rest) := Number.spanDigits (body.drop sign.length)
      if digits.isEmpty then ([], s) else (mark :: sign ++ digits, rest)
    else ([], s)

/-- Takes a number literal off a text: digits with an optional fraction, or a fraction alone,
then an optional exponent. -/
def takeNumber (s : List Char) : Option (List Char × List Char) :=
  let (whole, afterWhole) := Number.spanDigits s
  match afterWhole with
  | '.' :: tail =>
    let (fraction, afterFraction) := Number.spanDigits tail
    if whole.isEmpty && fraction.isEmpty then none
    else
      let (exponent, rest) := takeExponent afterFraction
      some (whole ++ '.' :: fraction ++ exponent, rest)
  | _ =>
    if whole.isEmpty then none
    else
      let (exponent, rest) := takeExponent afterWhole
      some (whole ++ exponent, rest)

/-- A hexadecimal digit in either case. -/
def isHexDigit (c : Char) : Bool :=
  c.isDigit || ('a' ≤ c && c ≤ 'f') || ('A' ≤ c && c ≤ 'F')

/-- The value of a hexadecimal digit. -/
def hexValue (c : Char) : Nat :=
  if c.isDigit then c.toNat - '0'.toNat else c.toLower.toNat - 'a'.toNat + 10

/-- Takes the digits of a reference literal off a text. -/
def takeReference : List Char → Option (List Char × List Char)
  | '#' :: rest =>
    let digits := rest.takeWhile isHexDigit
    if digits.isEmpty then none else some (digits, rest.dropWhile isHexDigit)
  | _ => none

/-- The object handle that hexadecimal digits name, if it fits 32 bits. -/
def handleOfDigits? (digits : List Char) : Option UInt32 :=
  let value := digits.foldl (fun value c => 16 * value + hexValue c) 0
  if value < UInt32.size then some (UInt32.ofNat value) else none

/-! ## String literals -/

/-- The character that an escaped character stands for. -/
def unescape (c : Char) : Char :=
  if c = 'n' then '\n' else if c = 't' then '\t' else c

/-- Takes the rest of a string literal off a text: its characters up to the closing quote. -/
def takeQuoted : List Char → Option (List Char × List Char)
  | [] => none
  | '"' :: rest => some ([], rest)
  | ['\\'] => none
  | '\\' :: c :: rest => (takeQuoted rest).map fun (s, after) => (unescape c :: s, after)
  | c :: rest => (takeQuoted rest).map fun (s, after) => (c :: s, after)

/-- Takes a string literal off a text. -/
def takeString : List Char → Option (String × List Char)
  | '"' :: rest => (takeQuoted rest).map fun (s, after) => (String.ofList s, after)
  | _ => none

/-- The written form of a character in a string literal. -/
def escape (c : Char) : List Char :=
  if c = '"' then ['\\', '"']
  else if c = '\\' then ['\\', '\\']
  else if c = '\n' then ['\\', 'n']
  else if c = '\t' then ['\\', 't']
  else [c]

/-- The written form of a string, without the opening quote. -/
def quotedTail (s : List Char) : List Char :=
  s.flatMap escape ++ ['"']

/-- A string written with escapes is read back, and what follows it is left. -/
theorem takeQuoted_quoted (s after : List Char) :
    takeQuoted (quotedTail s ++ after) = some (s, after) := by
  induction s with
  | nil => simp [quotedTail, takeQuoted]
  | cons c rest ih =>
    have ih : takeQuoted (rest.flatMap escape ++ ('"' :: after)) = some (rest, after) := by
      simpa [quotedTail] using ih
    by_cases hquote : c = '"'
    · subst hquote
      simp [quotedTail, escape, takeQuoted, ih, unescape]
    by_cases hback : c = '\\'
    · subst hback
      simp [quotedTail, escape, takeQuoted, ih, unescape]
    by_cases hfeed : c = '\n'
    · subst hfeed
      simp [quotedTail, escape, takeQuoted, ih, unescape]
    by_cases htab : c = '\t'
    · subst htab
      simp [quotedTail, escape, takeQuoted, ih, unescape]
    · simp only [quotedTail, List.flatMap_cons, escape, if_neg hquote, if_neg hback, if_neg hfeed,
        if_neg htab, List.cons_append, List.nil_append, List.append_assoc]
      rw [takeQuoted]
      · simp [ih]
      · exact fun h => hquote h
      · exact fun h _ => hback h
      · exact fun d r h => absurd h hback

end Literal
end ScriptMachine
