import ScriptMachine.Number.Layout

/-!
# Numbers with a set count of digits

A magnitude is rounded from its exact value, a half going to the even neighbour, either at
a set place behind the point or at a set count of significant digits.

Main results:

- {lit}`roundHalfEven_near`: the rounded quotient is within half a unit of the exact one.
- {lit}`Magnitude.fixed` and {lit}`Magnitude.significant`: the two digit texts.
-/

namespace ScriptMachine
namespace Number

/-! ## Rounding a quotient -/

/-- The quotient rounded to an integer, a half going to the even neighbour. -/
def roundHalfEven (numerator denominator : Nat) : Nat :=
  let quotient := numerator / denominator
  let rest := numerator % denominator
  if 2 * rest < denominator then quotient
  else if denominator < 2 * rest then quotient + 1
  else if quotient % 2 = 0 then quotient
  else quotient + 1

/-- The rounded quotient is within half a unit of the exact one. -/
theorem roundHalfEven_near (numerator denominator : Nat) (h : 0 < denominator) :
    2 * (roundHalfEven numerator denominator * denominator) ≤ 2 * numerator + denominator ∧
      2 * numerator ≤ 2 * (roundHalfEven numerator denominator * denominator) + denominator := by
  have hdiv := Nat.div_add_mod numerator denominator
  have hmod := Nat.mod_lt numerator h
  have hsucc : (numerator / denominator + 1) * denominator =
      denominator * (numerator / denominator) + denominator := by
    rw [Nat.add_mul, Nat.mul_comm]
    simp
  have hcomm := Nat.mul_comm (numerator / denominator) denominator
  unfold roundHalfEven
  simp only
  split
  · omega
  · split
    · omega
    · split <;> omega

/-- The magnitude divided by {lit}`10 ^ g`, rounded to an integer. -/
def Magnitude.roundAt (x : Magnitude) (g : Int) : Nat :=
  roundHalfEven (x.mantissa * Nat.pow 2 x.exponent.toNat * Nat.pow 10 (-g).toNat)
    (Nat.pow 2 (-x.exponent).toNat * Nat.pow 10 g.toNat)

/-! ## A set number of places -/

/-- Digits padded with zeros on the left to a least count. -/
def padDigits (count : Nat) (digits : List Char) : List Char :=
  List.replicate (count - digits.length) '0' ++ digits

/-- The magnitude with exactly the given number of places behind the point, which is left out
when there are none. -/
def Magnitude.fixed (x : Magnitude) (places : Nat) : List Char :=
  let digits := padDigits (places + 1) (decimalDigits (x.roundAt (-(places : Int))))
  let whole := digits.take (digits.length - places)
  if places = 0 then whole else whole ++ '.' :: digits.drop (digits.length - places)

/-! ## A set number of significant digits -/

/-- The rounded digits, {lit}`places + 1` of them, and the decimal exponent of the first.
Rounding up to a power of ten moves the exponent along. -/
def Magnitude.significant (x : Magnitude) (places : Nat) : List Char × Int :=
  if x.mantissa = 0 then (List.replicate (places + 1) '0', 0)
  else
    let k := x.scale
    let rounded := x.roundAt (k - (places : Int) - 1)
    if rounded < Nat.pow 10 (places + 1) then (decimalDigits rounded, k - 1)
    else (decimalDigits (rounded / 10), k)

end Number
end ScriptMachine
