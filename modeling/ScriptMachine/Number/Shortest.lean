import ScriptMachine.Number.Binary

/-!
# The fewest digits that read back

A number is printed with the fewest decimal digits that identify it.  The reals that round
to a float form an interval around it, ends included when its mantissa is even; the
digits are those of the coarsest decimal grid with a point in that interval, and of two
such points the nearer one.

Main results:

- {lit}`Magnitude.readsBack`: whether a decimal lies in the interval of a float.
- {lit}`Magnitude.shortest`: the chosen digits.
- {lit}`Decimal.stripZeros_value`: dropping trailing zeros keeps the value.
-/

namespace ScriptMachine
namespace Number

/-! ## Decimals -/

/-- The decimal {lit}`digits · 10 ^ exponent`. -/
structure Decimal where
  digits : Nat
  exponent : Int
deriving Repr, DecidableEq

/-- Which of two equally near decimals is chosen. -/
inductive Tie where
  | toEven
  | up
deriving Repr, DecidableEq

/-- Compares {lit}`a · 10 ^ i` with {lit}`n · 2 ^ j` exactly. -/
def compareScaled (a : Nat) (i : Int) (n : Nat) (j : Int) : Ordering :=
  compare (a * Nat.pow 10 i.toNat * Nat.pow 2 (-j).toNat) (n * Nat.pow 2 j.toNat * Nat.pow 10 (-i).toNat)

/-- Whether the decimal lies among the reals that round to the float. -/
def Magnitude.readsBack (x : Magnitude) (d : Decimal) : Bool :=
  let low := if x.narrowBelow then 4 * x.mantissa - 1 else 4 * x.mantissa - 2
  let high := 4 * x.mantissa + 2
  let closed := x.mantissa % 2 == 0
  let below := compareScaled d.digits d.exponent low (x.exponent - 2)
  let above := compareScaled d.digits d.exponent high (x.exponent - 2)
  (below == .gt || (closed && below == .eq)) && (above == .lt || (closed && above == .eq))

/-! ## Scale and grid -/

/-- The least {lit}`k` with the magnitude below {lit}`10 ^ k`; the magnitude is not zero.
The binary logarithm fixes it up to two steps. -/
def Magnitude.scale (x : Magnitude) : Int :=
  let estimate := (x.exponent + x.mantissa.log2) * 30103 / 100000
  if compareScaled 1 estimate x.mantissa x.exponent == .gt then estimate
  else if compareScaled 1 (estimate + 1) x.mantissa x.exponent == .gt then estimate + 1
  else estimate + 2

/-- The greatest point of the grid {lit}`10 ^ g` that is not above the magnitude, counted in
grid steps. -/
def Magnitude.onGrid (x : Magnitude) (g : Int) : Nat :=
  (x.mantissa * Nat.pow 2 x.exponent.toNat * Nat.pow 10 (-g).toNat) /
    (Nat.pow 2 (-x.exponent).toNat * Nat.pow 10 g.toNat)

/-- The grid point that represents the magnitude on the grid {lit}`10 ^ g`, if one of the two
neighbours on that grid reads back. -/
def Magnitude.pick (x : Magnitude) (tie : Tie) (g : Int) : Option Decimal :=
  let floor : Decimal := ⟨x.onGrid g, g⟩
  let ceiling : Decimal := ⟨x.onGrid g + 1, g⟩
  match x.readsBack floor, x.readsBack ceiling with
  | false, false => none
  | true, false => some floor
  | false, true => some ceiling
  | true, true =>
    -- Twice the value is compared with the sum of the two neighbours.
    match compareScaled (2 * x.onGrid g + 1) g x.mantissa (x.exponent + 1), tie with
    | .gt, _ => some floor
    | .lt, _ => some ceiling
    | .eq, .up => some ceiling
    | .eq, .toEven => if x.onGrid g % 2 = 0 then some floor else some ceiling

/-! ## Trailing zeros -/

/-- Moves trailing zeros of the digits into the exponent. -/
def Decimal.stripZeros (d : Decimal) : Decimal :=
  if h : d.digits ≠ 0 ∧ d.digits % 10 = 0 then
    stripZeros ⟨d.digits / 10, d.exponent + 1⟩
  else d
termination_by d.digits
decreasing_by exact Nat.div_lt_self (Nat.pos_of_ne_zero h.1) (by decide)

/-- Stripping keeps the value: some power of ten moved from the digits to the exponent. -/
theorem Decimal.stripZeros_value (d : Decimal) :
    ∃ n : Nat, d.digits = d.stripZeros.digits * Nat.pow 10 n ∧
      d.stripZeros.exponent = d.exponent + n := by
  fun_induction Decimal.stripZeros d with
  | case1 d h ih =>
    obtain ⟨n, hdigits, hexponent⟩ := ih
    refine ⟨n + 1, ?_, ?_⟩
    · have := Nat.div_add_mod d.digits 10
      rw [h.2] at this
      have hstep : d.digits / 10 = _ := hdigits
      have hpower : Nat.pow 10 (n + 1) = Nat.pow 10 n * 10 := rfl
      rw [hpower, ← Nat.mul_assoc, ← hstep]
      omega
    · rw [hexponent]
      simp only [Int.natCast_add]
      omega
  | case2 d h => exact ⟨0, by simp, by simp⟩

/-! ## The chosen digits -/

/-- The exact decimal value of a magnitude. -/
def Magnitude.exact (x : Magnitude) : Decimal :=
  ⟨x.mantissa * Nat.pow 2 x.exponent.toNat * Nat.pow 5 (-x.exponent).toNat, min x.exponent 0⟩

/-- The digits of the coarsest grid with a point that reads back, of at most seventeen
digits, without trailing zeros. -/
def Magnitude.shortest (x : Magnitude) (tie : Tie) : Decimal :=
  if x.mantissa = 0 then ⟨0, 0⟩
  else
    let k := x.scale
    let grids := (List.range 17).map fun n => k - (n + 1 : Nat)
    ((grids.findSome? (x.pick tie)).getD x.exact).stripZeros

end Number
end ScriptMachine
