import ScriptMachine.Number.Integral
import ScriptMachine.Number.Shortest

/-!
# How a number is written

The digits of a number are laid out positionally or with an exponent.  A layout collects
the decisions; the machine writes numbers in two layouts, one for text that scripts and
users see and one for JSON.

Main results:

- {lit}`Layout.plain`: always positional, without a fraction when there is none.
- {lit}`Layout.json`: positional near one with a fraction of at least one digit.
- {lit}`Number.toText`: integers of moderate size without sign of zero, all else plain.
-/

namespace ScriptMachine
namespace Number

/-! ## Layouts -/

/-- The decisions that turn digits into text. -/
structure Layout where
  /-- Whether a number whose leading digit has this decimal exponent is written positionally. -/
  positional : Int → Bool
  /-- Whether an integral number gets the fraction {lit}`.0` when written positionally. -/
  pointZero : Bool
  /-- Which of two equally near shortest decimals is written. -/
  tie : Tie
  nan : String
  infinity : (negative : Bool) → String

/-- Decimal digits of a natural number. -/
def decimalDigits (n : Nat) : List Char :=
  Nat.toDigits 10 n

/-- Positional text: the point goes after, inside or in front of the digits. -/
def Layout.positionalText (layout : Layout) (digits : List Char) (exponent : Int) : List Char :=
  if 0 ≤ exponent then
    digits ++ List.replicate exponent.toNat '0' ++ (if layout.pointZero then ['.', '0'] else [])
  else
    let fraction := (-exponent).toNat
    if fraction < digits.length then
      digits.take (digits.length - fraction) ++ '.' :: digits.drop (digits.length - fraction)
    else
      '0' :: '.' :: List.replicate (fraction - digits.length) '0' ++ digits

/-- Text with an exponent: one digit, the rest behind a point, then the signed exponent. -/
def exponentText (digits : List Char) (leading : Int) : List Char :=
  let sign := if leading < 0 then '-' else '+'
  match digits with
  | [] => []
  | [d] => d :: 'e' :: sign :: decimalDigits leading.natAbs
  | d :: rest => d :: '.' :: rest ++ 'e' :: sign :: decimalDigits leading.natAbs

/-- The text of a decimal: which form is used depends on the exponent of its leading digit. -/
def Layout.decimalText (layout : Layout) (d : Decimal) : List Char :=
  let digits := decimalDigits d.digits
  let leading := d.exponent + (digits.length : Int) - 1
  if layout.positional leading then layout.positionalText digits d.exponent
  else exponentText digits leading

/-- The text of a number; zero keeps its sign. -/
def Layout.render (layout : Layout) (x : Float) : String :=
  match decode x with
  | .nan => layout.nan
  | .infinity negative => layout.infinity negative
  | .finite negative magnitude =>
    let text := layout.decimalText (magnitude.shortest layout.tie)
    String.ofList (if negative then '-' :: text else text)

/-! ## The two layouts of the machine -/

/-- Always positional, no fraction for integers; of two equally near decimals the larger. -/
def Layout.plain : Layout where
  positional := fun _ => true
  pointZero := false
  tie := .up
  nan := "NaN"
  infinity := fun negative => if negative then "-inf" else "inf"

/-- JSON numbers: positional for leading exponents from -5 to 15, always with a fraction there;
what is not finite has no number and becomes null. -/
def Layout.json : Layout where
  positional := fun e => decide (-5 ≤ e) && decide (e ≤ 15)
  pointZero := true
  tie := .toEven
  nan := "null"
  infinity := fun _ => "null"

/-! ## Numbers in script text -/

/-- Decimal text of an integer. -/
def integerText (i : Int) : String :=
  String.ofList (if i < 0 then '-' :: decimalDigits i.natAbs else decimalDigits i.natAbs)

/-- The exact integer value of a number without a fraction. -/
def Magnitude.toInt (negative : Bool) (magnitude : Magnitude) : Int :=
  if negative then -(magnitude.floor : Int) else magnitude.floor

/-- The text of a number inside script strings: integers below {lit}`10 ^ 15` are written as
integers, which forgets the sign of zero, and all other numbers plainly. -/
def toText (x : Float) : String :=
  match decode x with
  | .finite negative magnitude =>
    if magnitude.isIntegral && decide (magnitude.floor < 1000000000000000) then
      integerText (magnitude.toInt negative)
    else Layout.plain.render x
  | _ => Layout.plain.render x

end Number
end ScriptMachine
