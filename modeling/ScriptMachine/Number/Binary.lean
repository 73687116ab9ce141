/-!
# Script numbers as exact binary fractions

A script number is a 64-bit binary float.  Everything that is printed, truncated or
compared digit by digit is computed exactly, from the bits: a finite number is
{lit}`± mantissa · 2 ^ exponent`.

Main results:

- {lit}`Number.decode`: the class of a float and, when finite, its exact value.
- {lit}`Number.scaled`: the float nearest to a small mantissa times a power of two, used
  only where that product is exactly representable.
-/

namespace ScriptMachine
namespace Number

/-! ## Decoding -/

/-- A finite magnitude {lit}`mantissa · 2 ^ exponent`. -/
structure Magnitude where
  mantissa : Nat
  exponent : Int
  /-- The gap to the next smaller float is half the gap to the next larger one. -/
  narrowBelow : Bool
deriving Repr, DecidableEq

/-- What a float stands for. -/
inductive Decoded where
  | nan
  | infinity (negative : Bool)
  | finite (negative : Bool) (magnitude : Magnitude)
deriving Repr, DecidableEq

/-- The bit of a float that holds its sign. -/
def signBit : Nat := 0x8000000000000000

/-- The leading bit of a mantissa, which a float does not store. -/
def hiddenBit : Nat := 0x10000000000000

/-- The class of a float and, when finite, its exact value. -/
def decode (x : Float) : Decoded :=
  let bits : Nat := x.toBits.toNat
  let negative := decide (signBit ≤ bits)
  let biased : Nat := bits / hiddenBit % 0x800
  let fraction : Nat := bits % hiddenBit
  if biased = 2047 then
    if fraction = 0 then .infinity negative else .nan
  else if biased = 0 then
    .finite negative ⟨fraction, -1074, false⟩
  else
    .finite negative ⟨hiddenBit + fraction, (biased : Int) - 1075, fraction = 0 && decide (1 < biased)⟩

/-- Whether the sign bit of a float is set. -/
def isNegative (x : Float) : Bool :=
  decide (signBit ≤ x.toBits.toNat)

/-- Whether a float is neither infinite nor NaN. -/
def isFinite (x : Float) : Bool :=
  match decode x with
  | .finite _ _ => true
  | _ => false

/-! ## Encoding -/

/-- The float {lit}`2 ^ exponent`, for exponents between -1074 and 1023. -/
def powerOfTwo (exponent : Int) : Float :=
  if exponent < -1022 then
    Float.ofBits (UInt64.ofNat (Nat.pow 2 (exponent + 1074).toNat))
  else
    Float.ofBits (UInt64.ofNat ((exponent + 1023).toNat * hiddenBit))

/-- The float {lit}`± mantissa · 2 ^ exponent`; exact when the mantissa has at most 53 bits
and the product is a float. -/
def scaled (negative : Bool) (mantissa : Nat) (exponent : Int) : Float :=
  let magnitude := Float.ofNat mantissa * powerOfTwo exponent
  if negative then -magnitude else magnitude

end Number
end ScriptMachine
