import Mathlib
import ScriptMachine.Value.Basic

/-!
# Numbers under comparison

The six comparisons of two numbers are readings of one order, in which zero has no sign and NaN
no place.  Whole numbers up to {lit}`2 ^ 53` are numbers exactly, so casting an object handle to a
number neither merges two handles nor changes their order.

Main results:

- {lit}`Number.order?`: the order of two numbers.
- {lit}`Number.order?_swap` and {lit}`Number.order?_isSome`: turned round, it is the opposite order,
  and only NaN has none.
- {lit}`Number.order?_ofNat`: whole numbers are ordered as natural numbers are.
-/

namespace ScriptMachine
namespace Number

open Float.Model Float.Model.UnpackedFloat

/-! ## The order of two numbers -/

/-- The order of two numbers; there is none when one of them is NaN. -/
def order? (x y : Float) : Option Ordering :=
  x.toModel.compare y.toModel

theorem decide_lt (x y : Float) : decide (x < y) = (order? x y == some .lt) :=
  Bool.decide_eq_true.trans Bool.decide_eq_true

theorem decide_le (x y : Float) : decide (x ≤ y) = (order? x y).any (·.isLE) :=
  Bool.decide_eq_true.trans Bool.decide_eq_true

theorem beq_eq (x y : Float) : (x == y) = (order? x y == some .eq) :=
  rfl

/-- Two numbers in the other order compare the other way. -/
theorem order?_swap (x y : Float) : order? y x = (order? x y).map Ordering.swap := by
  show UnpackedFloat.compare y.toModel.unpack x.toModel.unpack =
    (UnpackedFloat.compare x.toModel.unpack y.toModel.unpack).map Ordering.swap
  generalize x.toModel.unpack = a
  generalize y.toModel.unpack = b
  cases a with
  | notANumber => cases b with | infinity s => cases s <;> rfl | _ => rfl
  | infinity s => cases s <;> cases b with
    | infinity t => cases t <;> rfl
    | finite t => cases t <;> rfl
    | _ => rfl
  | zero s => cases b with
    | infinity t => cases t <;> rfl
    | finite t => cases t <;> rfl
    | _ => rfl
  | finite s m e => cases s <;> cases b with
    | infinity t => cases t <;> rfl
    | finite t m' e' =>
      have he : compare e' e = (compare e e').swap := Std.OrientedCmp.eq_swap
      have hm : compare m' m = (compare m m').swap := Std.OrientedCmp.eq_swap
      cases t <;> simp [UnpackedFloat.compare, Ordering.swap_then, he, hm]
    | _ => rfl

/-- Two numbers have an order unless one of them is NaN. -/
theorem order?_isSome {x y : Float} (hx : x.isNaN = false) (hy : y.isNaN = false) :
    ∃ o, order? x y = some o := by
  change x.toModel.unpack.isNaN = false at hx
  change y.toModel.unpack.isNaN = false at hy
  show ∃ o, UnpackedFloat.compare x.toModel.unpack y.toModel.unpack = some o
  generalize x.toModel.unpack = a at *
  generalize y.toModel.unpack = b at *
  cases a with
  | notANumber => cases hx
  | infinity s => cases s <;> cases b with
    | notANumber => cases hy
    | infinity t => exact ⟨_, rfl⟩
    | zero t => exact ⟨_, rfl⟩
    | finite t => exact ⟨_, rfl⟩
  | zero s => cases b with
    | notANumber => cases hy
    | infinity t => cases t <;> exact ⟨_, rfl⟩
    | zero t => exact ⟨_, rfl⟩
    | finite t => cases t <;> exact ⟨_, rfl⟩
  | finite s => cases s <;> cases b with
    | notANumber => cases hy
    | infinity t => cases t <;> exact ⟨_, rfl⟩
    | zero t => exact ⟨_, rfl⟩
    | finite t => cases t <;> exact ⟨_, rfl⟩

/-! ## Whole numbers -/

/-- Zeros behind a mantissa move its leading bit. -/
theorem log2_scaled {m : Nat} (hm : 0 < m) (shift : Nat) :
    (m * 2 ^ shift).log2 = m.log2 + shift := by
  induction shift with
  | zero => simp
  | succ shift ih =>
    have hpos : m * 2 ^ shift ≠ 0 := Nat.ne_of_gt (Nat.mul_pos hm (Nat.two_pow_pos shift))
    rw [Nat.pow_succ', Nat.mul_left_comm, Nat.log2_two_mul hpos, ih, Nat.add_assoc]

/-- Zeros behind a mantissa are shifted out without a remainder. -/
theorem shiftRight_scaled (m shift : Nat) :
    (⟨m * 2 ^ shift, false, false⟩ : ExtendedMantissa) >>> shift = ⟨m, false, false⟩ := by
  show Nat.repeat ExtendedMantissa.shiftRightOne shift ⟨m * 2 ^ shift, false, false⟩ = _
  induction shift generalizing m with
  | zero => simp [Nat.repeat]
  | succ shift ih =>
    rw [Nat.repeat, Nat.pow_succ', ← Nat.mul_assoc, ih (m * 2)]
    simp [ExtendedMantissa.shiftRightOne]

/-- The exponent that is meant for a full mantissa is the one it has. -/
theorem targetExponent_full {m : Nat} {e : Int} (hlog : m.log2 = 52) (he : -1074 ≤ e) :
    Format.binary64.targetExponent (totalExponent m e) = e := by
  have hbits : Format.binary64.mantissaBits = 53 := rfl
  have hmin : Format.binary64.minExponent = -1074 := rfl
  simp only [Format.targetExponent, totalExponent, hlog, hbits, hmin]
  omega

/-- Zeros behind a full mantissa are what it has to be shifted by. -/
theorem shiftToTargetExponent_scaled {m : Nat} {e : Int} (hm : 0 < m) (hlog : m.log2 = 52)
    (he : -1074 ≤ e) (shift : Nat) :
    shiftToTargetExponent .binary64 (m * 2 ^ shift) (e - shift) .exact =
      (⟨m, false, false⟩, e) := by
  have htotal : totalExponent (m * 2 ^ shift) (e - shift) = totalExponent m e := by
    simp only [totalExponent, log2_scaled hm]
    omega
  have hgap : (e - (e - shift)).toNat = shift := by omega
  simp only [shiftToTargetExponent, htotal, targetExponent_full hlog he, shiftToExponent, hgap,
    ExtendedMantissa.ofMantissaAndAccuracy, shiftRight_scaled, Int.sub_add_cancel]

/-- Rounding takes the zeros behind a full mantissa away and nothing else. -/
theorem roundWithAccuracy_scaled {m : Nat} {e : Int} (hm : 0 < m) (hlog : m.log2 = 52)
    (he : -1074 ≤ e) (shift : Nat) :
    roundWithAccuracy .binary64 .positive (m * 2 ^ shift) (e - shift) .exact =
      .finite .positive m e hm := by
  have hfirst := shiftToTargetExponent_scaled hm hlog he shift
  have hsecond := shiftToTargetExponent_scaled hm hlog he 0
  simp only [Nat.pow_zero, Nat.mul_one, Int.natCast_zero, Int.sub_zero] at hsecond
  simp [roundWithAccuracy, hfirst, hsecond, ExtendedMantissa.roundedMantissa,
    ExtendedMantissa.accuracy, Accuracy.roundToNearestEven, Nat.ne_of_gt hm]

/-- A full mantissa loses its leading bit when it is packed. -/
theorem pack_full {m : Nat} {e : Int} (hm : 0 < m) (hlog : m.log2 = 52) (hlow : -1074 ≤ e)
    (hhigh : e ≤ 971) : UnpackedFloat.pack .binary64 (.finite .positive m e hm) =
      packComponents .binary64 .positive (BitVec.ofNat 11 (e + 1075).toNat) (BitVec.ofNat 52 m) := by
  have hbias : (e + (1023 : Nat) + (52 : Nat)).toNat = (e + 1075).toNat := by omega
  have hinside : ¬2 ^ 11 ≤ (e + 1075).toNat + 1 := by omega
  have h1023 : Format.binary64.exponentBias = 1023 := rfl
  have hfull : m.log2 + 1 = Format.binary64.mantissaBits := by rw [hlog]; rfl
  simp only [UnpackedFloat.pack, h1023, hbias, if_neg hinside, if_pos hfull]

/-- The sign comes back from its bit. -/
theorem unpackSign_positive (exponent : BitVec 11) (mantissa : BitVec 52) :
    unpackSign (packComponents .binary64 .positive exponent mantissa) = 0#1 := by
  simp only [unpackSign, packComponents, BitVec.extractLsb]
  rw [BitVec.extractLsb'_append_eq_of_le (by decide),
    BitVec.extractLsb'_append_eq_of_le (by decide)]
  rfl

/-- The leading bit comes back in front of the others. -/
theorem toNat_full {m : Nat} (hm : 0 < m) (hlog : m.log2 = 52) :
    (1#1 ++ BitVec.ofNat 52 m).toNat = m := by
  rcases (Nat.log2_eq_iff (Nat.ne_of_gt hm)).1 hlog with ⟨hmlow, hmhigh⟩
  rw [BitVec.toNat_append, ← Nat.shiftLeft_add_eq_or_of_lt (BitVec.isLt _), BitVec.toNat_ofNat,
    Nat.shiftLeft_eq]
  simp only [BitVec.toNat_ofNat]
  omega

/-- A full mantissa with an exponent in range comes back from its bits. -/
theorem unpack_pack {m : Nat} {e : Int} (hm : 0 < m) (hlog : m.log2 = 52) (hlow : -1074 ≤ e)
    (hhigh : e ≤ 971) :
    (Float.Model.pack (.finite .positive m e hm)).unpack = .finite .positive m e hm := by
  show UnpackedFloat.unpack .binary64 (UnpackedFloat.pack .binary64 (.finite .positive m e hm)) = _
  have hexponent : (BitVec.ofNat 11 (e + 1075).toNat).toNat = (e + 1075).toNat :=
    Nat.mod_eq_of_lt (by omega)
  -- The exponent is neither that of infinity nor that of numbers with fewer digits.
  have hnotLast : BitVec.ofNat 11 (e + 1075).toNat ≠ -1#11 := fun h => by
    have hlast := congrArg BitVec.toNat h
    rw [hexponent] at hlast
    simp at hlast
    omega
  have hnotFirst : BitVec.ofNat 11 (e + 1075).toNat ≠ 0#11 := fun h => by
    have hfirst := congrArg BitVec.toNat h
    rw [hexponent] at hfirst
    simp at hfirst
    omega
  rw [pack_full hm hlog hlow hhigh]
  have h1023 : Format.binary64.exponentBias = 1023 := rfl
  simp only [UnpackedFloat.unpack, unpackMantissa_packComponents, unpackExponent_packComponents,
    unpackSign_positive, if_neg hnotLast, if_neg hnotFirst, toNat_full hm hlog, hexponent, h1023]
  congr 1
  omega

section Casts

variable {n : Nat} (hpos : 0 < n) (hn : n < 2 ^ 53)
include hpos hn

/-- A natural number that is not too large can be moved up to a full mantissa. -/
theorem log2_full : (n * 2 ^ (52 - n.log2)).log2 = 52 := by
  have hlog : n.log2 ≤ 52 := Nat.le_of_lt_succ ((Nat.log2_lt (Nat.ne_of_gt hpos)).2 hn)
  rw [log2_scaled hpos]
  omega

/-- As a word it is that mantissa. -/
theorem ofUInt64_full (hm : 0 < n * 2 ^ (52 - n.log2)) :
    UnpackedFloat.ofUInt64 .binary64 n.toUInt64 =
      .finite .positive (n * 2 ^ (52 - n.log2)) ((n.log2 : Int) - 52) hm := by
  have hlog : n.log2 ≤ 52 := Nat.le_of_lt_succ ((Nat.log2_lt (Nat.ne_of_gt hpos)).2 hn)
  have hfull := log2_full hpos hn
  have hround := roundWithAccuracy_scaled (e := (n.log2 : Int) - 52) hm hfull (by omega) 0
  have hnat : n.toUInt64.toNat = n :=
    UInt64.toNat_ofNat_of_lt (Nat.lt_trans hn (by decide))
  have hpositive : compare (n : Int) 0 = .gt := Int.compare_eq_gt.2 (by omega)
  have htarget : Format.binary64.targetExponent (totalExponent n 0) = (n.log2 : Int) - 52 := by
    have htotal : totalExponent n 0 =
        totalExponent (n * 2 ^ (52 - n.log2)) ((n.log2 : Int) - 52) := by
      simp only [totalExponent, hfull]
      omega
    rw [htotal, targetExponent_full hfull (by omega)]
  have hgap : (0 - ((n.log2 : Int) - 52)).toNat = 52 - n.log2 := by omega
  have hexponent : 0 - ((52 - n.log2 : Nat) : Int) = (n.log2 : Int) - 52 := by omega
  simp only [UnpackedFloat.ofUInt64, UnpackedFloat.ofNat, UnpackedFloat.ofInt,
    UnpackedFloat.normalize, hnat, hpositive, UnpackedFloat.round, htarget, decreaseExponent,
    hgap, Int.toNat_natCast, Nat.shiftLeft_eq, hexponent]
  simpa using hround

/-- A natural number that is not too large, moved up to a full mantissa, is packed as the number
that it casts to. -/
theorem toModel_ofNat : ∃ h, (Float.ofNat n).toModel =
    Float.Model.pack (.finite .positive (n * 2 ^ (52 - n.log2)) ((n.log2 : Int) - 52) h) := by
  have hlog : n.log2 ≤ 52 := Nat.le_of_lt_succ ((Nat.log2_lt (Nat.ne_of_gt hpos)).2 hn)
  have hm : 0 < n * 2 ^ (52 - n.log2) := Nat.mul_pos hpos (Nat.two_pow_pos _)
  have hfull := log2_full hpos hn
  have hround := roundWithAccuracy_scaled (e := (n.log2 : Int) - 52) hm hfull (by omega) 52
  have hback := unpack_pack (e := (n.log2 : Int) - 52) hm hfull (by omega) (by omega)
  -- The cast goes through a word, which is exact, and a product with one.
  have hone : (Float.ofBits 0x3FF0000000000000).toModel.unpack =
      .finite .positive (2 ^ 52) (-52) (Nat.two_pow_pos 52) := by
    rfl
  have hcast : Float.ofNat n = n.toUInt64.toFloat * Float.ofBits 0x3FF0000000000000 :=
    dif_pos ⟨hn, by decide⟩
  refine ⟨hm, ?_⟩
  rw [hcast]
  show Float.Model.pack (UnpackedFloat.mul .binary64
    (Float.Model.pack (UnpackedFloat.ofUInt64 .binary64 n.toUInt64)).unpack
    (Float.ofBits 0x3FF0000000000000).toModel.unpack) = _
  rw [ofUInt64_full hpos hn hm, hback, hone]
  show Float.Model.pack (roundWithAccuracy .binary64 .positive (n * 2 ^ (52 - n.log2) * 2 ^ 52)
    ((n.log2 : Int) - 52 + -52) .exact) = _
  rw [← Int.sub_eq_add_neg]
  exact congrArg Float.Model.pack hround

/-- A natural number that is not too large, moved up to a full mantissa, is the number that it
casts to. -/
theorem unpack_ofNat : ∃ h, (Float.ofNat n).toModel.unpack =
    .finite .positive (n * 2 ^ (52 - n.log2)) ((n.log2 : Int) - 52) h := by
  have hlog : n.log2 ≤ 52 := Nat.le_of_lt_succ ((Nat.log2_lt (Nat.ne_of_gt hpos)).2 hn)
  rcases toModel_ofNat hpos hn with ⟨hm, hmodel⟩
  rw [hmodel]
  exact ⟨hm, unpack_pack hm (log2_full hpos hn) (by omega) (by omega)⟩

end Casts

/-- A greater leading bit makes a number greater. -/
theorem lt_of_log2_lt {a b : Nat} (hb : 0 < b) (h : a.log2 < b.log2) : a < b :=
  Nat.lt_of_lt_of_le Nat.lt_log2_self ((Nat.le_log2 (Nat.ne_of_gt hb)).1 h)

/-- Numbers moved up to full mantissas compare by their exponents, then by their mantissas. -/
theorem compare_scaled {a b : Nat} (ha : 0 < a) (hb : 0 < b) :
    (compare ((a.log2 : Int) - 52) ((b.log2 : Int) - 52)).then
      (compare (a * 2 ^ (52 - a.log2)) (b * 2 ^ (52 - b.log2))) = compare a b := by
  rcases Nat.lt_trichotomy a.log2 b.log2 with hlt | heq | hgt
  · have hexponents : compare ((a.log2 : Int) - 52) ((b.log2 : Int) - 52) = .lt :=
      Int.compare_eq_lt.2 (by omega)
    rw [hexponents, Nat.compare_eq_lt.2 (lt_of_log2_lt hb hlt)]
    rfl
  · have hpow := Nat.two_pow_pos (52 - b.log2)
    rw [heq, Int.compare_eq_eq.2 rfl, Nat.compare_eq_ite_lt, Nat.compare_eq_ite_lt]
    simp only [Ordering.eq_then, Nat.mul_lt_mul_right hpow]
  · have hexponents : compare ((a.log2 : Int) - 52) ((b.log2 : Int) - 52) = .gt :=
      Int.compare_eq_gt.2 (by omega)
    rw [hexponents, Nat.compare_eq_gt.2 (lt_of_log2_lt ha hgt)]
    rfl

/-- Natural numbers that are not too large are ordered as the numbers that they cast to. -/
theorem order?_ofNat {a b : Nat} (ha : a < 2 ^ 53) (hb : b < 2 ^ 53) :
    order? (Float.ofNat a) (Float.ofNat b) = some (compare a b) := by
  have hzero : (Float.ofNat 0).toModel.unpack = .zero .positive := rfl
  show UnpackedFloat.compare (Float.ofNat a).toModel.unpack (Float.ofNat b).toModel.unpack = _
  rcases Nat.eq_zero_or_pos a with rfl | hapos <;> rcases Nat.eq_zero_or_pos b with rfl | hbpos
  · rw [hzero]
    rfl
  · rcases unpack_ofNat hbpos hb with ⟨h, hunpack⟩
    rw [hzero, hunpack, Nat.compare_eq_lt.2 hbpos]
    rfl
  · rcases unpack_ofNat hapos ha with ⟨h, hunpack⟩
    rw [hzero, hunpack, Nat.compare_eq_gt.2 hapos]
    rfl
  · rcases unpack_ofNat hapos ha with ⟨h, hunpack⟩
    rcases unpack_ofNat hbpos hb with ⟨h', hunpack'⟩
    rw [hunpack, hunpack']
    exact congrArg some (compare_scaled hapos hbpos)

/-- Natural numbers that are not too large cast to numbers. -/
theorem isNaN_ofNat {n : Nat} (hn : n < 2 ^ 53) : (Float.ofNat n).isNaN = false := by
  show (Float.ofNat n).toModel.unpack.isNaN = false
  rcases Nat.eq_zero_or_pos n with rfl | hpos
  · rfl
  · rcases unpack_ofNat hpos hn with ⟨h, hunpack⟩
    rw [hunpack]
    rfl

/-- Strings are not read as NaN. -/
theorem isNaN_cast? {s : String} {x : Float} (h : cast? s = some x) : x.isNaN = false := by
  simp only [cast?] at h
  split at h
  · cases h
  · have hfinite : x.toModel.unpack.isFinite = true := (Option.filter_eq_some_iff.1 h).2
    show x.toModel.unpack.isNaN = false
    generalize x.toModel.unpack = u at *
    cases u <;> first | rfl | cases hfinite

end Number
end ScriptMachine
