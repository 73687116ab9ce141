import ScriptMachine.Text.Blank
import ScriptMachine.Text.Name

/-!
# Reading numbers

The written form of a number is an optional sign, then {lit}`inf`, {lit}`infinity` or
{lit}`nan` in any letter case, or digits with at most one point and an optional exponent.
The value is the float nearest to the decimal, ties to even.

Main results:

- {lit}`Number.parse?`: reads a whole text as a number.
- {lit}`Number.cast?`: the stricter reading of strings used as numbers, after trimming and
  without words, and only when the value is finite.
-/

namespace ScriptMachine
namespace Number

/-! ## Digits -/

/-- The value of a decimal digit character. -/
def digitValue (c : Char) : Nat :=
  c.toNat - '0'.toNat

/-- The natural number written by decimal digits, continued from a value. -/
def digitsValue (start : Nat) (digits : List Char) : Nat :=
  digits.foldl (fun value c => 10 * value + digitValue c) start

/-- Splits a text into its leading decimal digits and the rest. -/
def spanDigits (s : List Char) : List Char × List Char :=
  (s.takeWhile Char.isDigit, s.dropWhile Char.isDigit)

/-! ## The value of a decimal -/

/-- The float nearest to the decimal with the given digits and exponent.  Counting the digits
from the first one that is not zero bounds the value: far beyond the range of floats it is
infinite or zero without further computation. -/
def ofDecimal (digits : List Char) (exponent : Int) : Float :=
  let significant := digits.dropWhile (· == '0')
  let leading := exponent + significant.length
  if significant.isEmpty then 0.0
  else if 400 < leading then 1.0 / 0.0
  else if leading < -400 then 0.0
  else Float.ofScientific (digitsValue 0 significant) (decide (exponent < 0)) exponent.natAbs

/-! ## Grammar -/

/-- An optional sign and what follows it; {lit}`true` for minus. -/
def spanSign : List Char → Bool × List Char
  | '-' :: rest => (true, rest)
  | '+' :: rest => (false, rest)
  | s => (false, s)

/-- The exponent part, which must take the whole text: nothing, or a mark, an optional sign
and at least one digit. -/
def parseExponent? : List Char → Option Int
  | [] => some 0
  | mark :: rest =>
    if mark == 'e' || mark == 'E' then
      let (negative, body) := spanSign rest
      let (digits, after) := spanDigits body
      if digits.isEmpty || !after.isEmpty then none
      else
        let value : Int := digitsValue 0 digits
        some (if negative then -value else value)
    else none

/-- The digits before and after the point, and what follows them; at least one digit is
needed on either side. -/
def spanMantissa (s : List Char) : Option (List Char × List Char × List Char) :=
  let (whole, rest) := spanDigits s
  match rest with
  | '.' :: tail =>
    let (fraction, after) := spanDigits tail
    if whole.isEmpty && fraction.isEmpty then none else some (whole, fraction, after)
  | _ => if whole.isEmpty then none else some (whole, [], rest)

/-- Reads an unsigned decimal. -/
def parseDecimal? (s : List Char) : Option Float := do
  let (whole, fraction, rest) ← spanMantissa s
  let exponent ← parseExponent? rest
  some (ofDecimal (whole ++ fraction) (exponent - fraction.length))

/-- Reads an unsigned number: one of the words for values that are not finite, or a decimal. -/
def parseMagnitude? (s : List Char) : Option Float :=
  let word := s.map Char.toLower
  if word = "inf".toList || word = "infinity".toList then some (1.0 / 0.0)
  else if word = "nan".toList then some (0.0 / 0.0)
  else parseDecimal? s

/-- Reads a whole text as a number. -/
def parse? (s : List Char) : Option Float :=
  let (negative, body) := spanSign s
  (parseMagnitude? body).map fun x => if negative then -x else x

/-! ## Strings used as numbers -/

/-- The number that a string stands for: its trimmed text, if that is a finite decimal and
holds no ASCII letter but the mark of an exponent. -/
def cast? (s : String) : Option Float :=
  let text := Text.trim s.toList
  if text.isEmpty || text.any (fun c => c.isAlpha && c != 'e' && c != 'E') then none
  else (parse? text).filter Float.isFinite

end Number
end ScriptMachine
