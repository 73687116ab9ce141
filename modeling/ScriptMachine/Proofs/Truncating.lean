import ScriptMachine.Proofs.Floating
import ScriptMachine.Proofs.Subscripting

/-!
# Numbers without their fractions

Truncation works on the bits of a number.  By its exact value it is what rounding towards zero
gives, moved to the nearest word of 64 signed bits.  A natural number that is not too large is
truncated to itself, so what was cut to its low 32 bits stays as it is.

Main results:

- {lit}`Number.truncate64_eq_whole`: truncation by exact values.
- {lit}`Number.truncate64_ofNat`: a natural number without a fraction to lose.
-/

namespace ScriptMachine
namespace Number

open Float.Model Float.Model.UnpackedFloat

/-! ## Truncation by exact values -/

/-- An exact value rounded towards zero. -/
def towardsZero (q : ℚ) : Int :=
  if q < 0 then ⌈q⌉ else ⌊q⌋

/-- The number without its fraction, moved to the nearest integer of 64 signed bits.  Infinities go
to the ends, and NaN to zero. -/
def whole (x : Float) : Int :=
  match exactValue? x, decode x with
  | some q, _ => max (-2 ^ 63) (min (2 ^ 63 - 1) (towardsZero q))
  | none, .infinity negative => if negative then -2 ^ 63 else 2 ^ 63 - 1
  | none, _ => 0

/-- The magnitude without its fraction is its value rounded down. -/
theorem Magnitude.floor_value (x : Magnitude) : ⌊x.value⌋ = x.floor := by
  by_cases hexponent : 0 ≤ x.exponent
  · rcases Int.eq_ofNat_of_zero_le hexponent with ⟨k, hk⟩
    have hvalue : x.value = ((x.mantissa * 2 ^ k : Nat) : ℚ) := by
      simp [value, hk]
    rw [hvalue, Int.floor_natCast, floor, if_pos hexponent, hk]
    rfl
  · obtain ⟨k, hk⟩ : ∃ k : Nat, x.exponent = -(k : Int) := ⟨(-x.exponent).toNat, by omega⟩
    have hvalue : x.value = (x.mantissa : ℚ) / (2 ^ k : Nat) := by
      simp [value, hk, div_eq_mul_inv]
    rw [hvalue, Rat.floor_natCast_div_natCast, floor, if_neg hexponent, hk]
    simp

/-- Nothing is left of zero. -/
theorem Magnitude.floor_zero (exponent : Int) (narrow : Bool) :
    Magnitude.floor ⟨0, exponent, narrow⟩ = 0 := by
  unfold floor
  split <;> simp

/-- A signed magnitude is rounded towards zero by truncating it. -/
theorem Magnitude.towardsZero_signed (x : Magnitude) (negative : Bool) :
    towardsZero (if negative then -x.value else x.value) =
      if negative then -(x.floor : Int) else x.floor := by
  have hnonneg : 0 ≤ x.value := mul_nonneg (Nat.cast_nonneg _) (zpow_nonneg (by decide) _)
  unfold towardsZero
  cases negative with
  | false =>
    have hnot : ¬x.value < 0 := not_lt.2 hnonneg
    simp [hnot, x.floor_value]
  | true =>
    simp only [if_true]
    split
    · rw [Int.ceil_neg, x.floor_value]
    · next hnot =>
      have hzero : x.value = 0 := by linarith
      have hfloor := x.floor_value
      rw [hzero, Int.floor_zero] at hfloor
      rw [hzero, neg_zero, Int.floor_zero, ← hfloor, neg_zero]

/-- Truncation is rounding towards zero. -/
theorem truncate64_eq_whole (x : Float) : truncate64 x = whole x := by
  unfold truncate64 whole exactValue?
  cases decode x with
  | nan => rfl
  | infinity negative => cases negative <;> rfl
  | finite negative magnitude =>
    simp only [magnitude.towardsZero_signed]
    rfl

/-! ## Natural numbers -/

/-- The bits of a full mantissa with an exponent in range. -/
theorem toNat_packComponents {m : Nat} {e : Int} (hm : 0 < m) (hlog : m.log2 = 52)
    (hlow : -1074 ≤ e) (hhigh : e ≤ 971) :
    (packComponents .binary64 .positive (BitVec.ofNat 11 (e + 1075).toNat)
      (BitVec.ofNat 52 m)).toNat = (e + 1074).toNat * 2 ^ 52 + m := by
  rcases (Nat.log2_eq_iff (Nat.ne_of_gt hm)).1 hlog with ⟨hmlow, hmhigh⟩
  have hexponent : (BitVec.ofNat 11 (e + 1075).toNat).toNat = (e + 1075).toNat :=
    Nat.mod_eq_of_lt (by omega)
  have hsign : (Sign.toBitVec .positive).toNat = 0 := rfl
  have hmantissa : (BitVec.ofNat 52 m).toNat = m % 2 ^ 52 := BitVec.toNat_ofNat ..
  show ((Sign.toBitVec .positive ++ BitVec.ofNat 11 (e + 1075).toNat) ++ BitVec.ofNat 52 m).toNat = _
  rw [BitVec.toNat_append, ← Nat.shiftLeft_add_eq_or_of_lt (BitVec.isLt _), BitVec.toNat_append,
    ← Nat.shiftLeft_add_eq_or_of_lt (BitVec.isLt _), hexponent, hsign, hmantissa, Nat.shiftLeft_eq,
    Nat.shiftLeft_eq]
  omega

section Casts

variable {n : Nat} (hpos : 0 < n) (hn : n < 2 ^ 53)
include hpos hn

/-- The bits of a natural number that is not too large. -/
theorem toBits_ofNat : (Float.ofNat n).toBits.toNat =
    (n.log2 + 1022) * 2 ^ 52 + n * 2 ^ (52 - n.log2) := by
  have hlog : n.log2 ≤ 52 := Nat.le_of_lt_succ ((Nat.log2_lt (Nat.ne_of_gt hpos)).2 hn)
  have hfull := log2_full hpos hn
  rcases toModel_ofNat hpos hn with ⟨hm, hmodel⟩
  show (Float.ofNat n).toModel.toBits.toNat = _
  rw [hmodel]
  show (UnpackedFloat.pack .binary64 _).toNat = _
  rw [pack_full hm hfull (by omega) (by omega),
    toNat_packComponents hm hfull (by omega) (by omega)]
  congr 2
  omega

/-- A natural number that is not too large is decoded to its full mantissa. -/
theorem decode_ofNat : ∃ narrow, decode (Float.ofNat n) =
    .finite false ⟨n * 2 ^ (52 - n.log2), (n.log2 : Int) - 52, narrow⟩ := by
  have hlog : n.log2 ≤ 52 := Nat.le_of_lt_succ ((Nat.log2_lt (Nat.ne_of_gt hpos)).2 hn)
  have hm : 0 < n * 2 ^ (52 - n.log2) := Nat.mul_pos hpos (Nat.two_pow_pos _)
  have hbits := toBits_ofNat hpos hn
  rcases (Nat.log2_eq_iff (Nat.ne_of_gt hm)).1 (log2_full hpos hn) with ⟨hmlow, hmhigh⟩
  generalize n * 2 ^ (52 - n.log2) = m at *
  have hbiased : ((n.log2 + 1022) * 2 ^ 52 + m) / 0x10000000000000 % 0x800 = n.log2 + 1023 := by
    omega
  have hfraction : ((n.log2 + 1022) * 2 ^ 52 + m) % 0x10000000000000 = m - 2 ^ 52 := by omega
  have hsign : ¬0x8000000000000000 ≤ (n.log2 + 1022) * 2 ^ 52 + m := by omega
  have hmantissa : 0x10000000000000 + (m - 2 ^ 52) = m := by omega
  have hexponent : ((n.log2 + 1023 : Nat) : Int) - 1075 = n.log2 - 52 := by omega
  simp only [decode, hbits, signBit, hiddenBit, hbiased, hfraction, decide_eq_false hsign,
    hmantissa, hexponent]
  rw [if_neg (by omega), if_neg (by omega)]
  exact ⟨_, rfl⟩

end Casts

/-- A natural number that is not too large has no fraction to lose. -/
theorem truncate64_ofNat {n : Nat} (hn : n < 2 ^ 53) : truncate64 (Float.ofNat n) = n := by
  rcases Nat.eq_zero_or_pos n with rfl | hpos
  · have hdecode : decode (Float.ofNat 0) = .finite false ⟨0, -1074, false⟩ := rfl
    simp only [truncate64, hdecode, Magnitude.floor_zero]
    rfl
  · have hlog : n.log2 ≤ 52 := Nat.le_of_lt_succ ((Nat.log2_lt (Nat.ne_of_gt hpos)).2 hn)
    rcases decode_ofNat hpos hn with ⟨narrow, hdecode⟩
    have hfloor : Magnitude.floor ⟨n * 2 ^ (52 - n.log2), (n.log2 : Int) - 52, narrow⟩ = n := by
      unfold Magnitude.floor
      simp only
      split
      · next hexponent =>
        have hgap : 52 - n.log2 = 0 := by omega
        have hnone : ((n.log2 : Int) - 52).toNat = 0 := by omega
        simp [hgap, hnone]
      · have hgap : (-((n.log2 : Int) - 52)).toNat = 52 - n.log2 := by omega
        rw [hgap]
        exact Nat.mul_div_cancel _ (Nat.two_pow_pos _)
    simp only [truncate64, hdecode, hfloor, saturate64, minSigned64, maxSigned64,
      Bool.false_eq_true, if_false]
    omega

end Number
end ScriptMachine
