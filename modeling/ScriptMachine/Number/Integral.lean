import ScriptMachine.Number.Binary

/-!
# Integer readings of a number

Indices, printf conversions and console text read a number as an integer.  Truncation
drops the fraction exactly; a word that is too small is saturated, and an unsigned
32-bit reading keeps the low bits.

Main results:

- {lit}`Number.toIndex?`: the position named by an integral, non-negative number.
- {lit}`Number.remainder`: the exact remainder with the sign of the dividend.
-/

namespace ScriptMachine
namespace Number

/-! ## Truncation -/

/-- The magnitude without its fraction. -/
def Magnitude.floor (x : Magnitude) : Nat :=
  if 0 ≤ x.exponent then x.mantissa * Nat.pow 2 x.exponent.toNat
  else x.mantissa / Nat.pow 2 (-x.exponent).toNat

/-- Whether the magnitude is an integer. -/
def Magnitude.isIntegral (x : Magnitude) : Bool :=
  0 ≤ x.exponent || x.mantissa % Nat.pow 2 (-x.exponent).toNat = 0

/-- Whether a number is finite and has no fraction. -/
def isIntegral (x : Float) : Bool :=
  match decode x with
  | .finite _ magnitude => magnitude.isIntegral
  | _ => false

/-- The greatest signed 64-bit integer. -/
def maxSigned64 : Int := 0x7FFFFFFFFFFFFFFF

/-- The least signed 64-bit integer. -/
def minSigned64 : Int := -0x8000000000000000

/-- An integer moved to the nearest signed 64-bit integer. -/
def saturate64 (i : Int) : Int :=
  max minSigned64 (min maxSigned64 i)

/-- The number without its fraction, saturated to 64 signed bits; NaN reads as zero. -/
def truncate64 (x : Float) : Int :=
  match decode x with
  | .nan => 0
  | .infinity negative => if negative then minSigned64 else maxSigned64
  | .finite negative magnitude =>
    saturate64 (if negative then -(magnitude.floor : Int) else magnitude.floor)

/-- The low 32 bits of an integer in two's complement. -/
def low32 (i : Int) : Nat :=
  (i % 0x100000000).toNat

/-- The low 64 bits of an integer in two's complement. -/
def low64 (i : Int) : Nat :=
  (i % 0x10000000000000000).toNat

/-! ## Positions -/

/-- The greatest position that can be named. -/
def maxIndex : Nat := 0xFFFFFFFFFFFFFFFF

/-- The position named by a number: present exactly for non-negative integers, and
saturated to 64 bits.  Negative zero names position zero. -/
def toIndex? (x : Float) : Option Nat :=
  match decode x with
  | .finite negative magnitude =>
    if magnitude.isIntegral && (!negative || magnitude.mantissa == 0) then
      some (min maxIndex magnitude.floor)
    else none
  | _ => none

/-! ## Remainder -/

/-- The exact remainder of two numbers: it has the sign of the dividend and is smaller than
the divisor.  An infinite dividend or a zero divisor has none, and an infinite divisor
leaves a finite dividend as it is. -/
def remainder (a b : Float) : Float :=
  match decode a, decode b with
  | .finite negative x, .finite _ y =>
    if y.mantissa = 0 then 0.0 / 0.0
    else
      let e := min x.exponent y.exponent
      let r := (x.mantissa * Nat.pow 2 (x.exponent - e).toNat) %
        (y.mantissa * Nat.pow 2 (y.exponent - e).toNat)
      scaled negative r e
  | .finite _ _, .infinity _ => a
  | _, _ => 0.0 / 0.0

end Number
end ScriptMachine
