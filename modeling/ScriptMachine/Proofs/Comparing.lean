import Mathlib.Data.String.Basic
import ScriptMachine.Machine.Operator
import ScriptMachine.Proofs.Floating

/-!
# Comparisons of values

Four operators order two values and two tell whether they are equal.  Ordering casts whatever is not
a string on both sides, equality goes by the variants of the two values; the two are defined
apart and say the same of every pair of values that can be ordered.  There is one exception, which
is meant: equality casts to numbers only next to a number, so a reference and a string that reads
as its handle are neither less, nor greater, nor equal.

Main results:

- {lit}`Value.order?`: the order that two values stand in.
- {lit}`Value.Compared`: what the six operators say of two values in some order.
- {lit}`Value.comparisons_agree`: the operators say that of all values that can be ordered, NaN
  excluded.
-/

namespace ScriptMachine
namespace Value

/-! ## The order of two values -/

/-- The order of two values: strings as texts, anything else by the numeric readings. -/
def order? (l r : Value) : Option Ordering :=
  match l, r with
  | .text s, .text t => some (compare s t)
  | _, _ => do Number.order? (← l.number?) (← r.number?)

/-- Whether one value is a reference and the other a string. -/
def mixes (l r : Value) : Bool :=
  match l, r with
  | .reference _, .text _ | .text _, .reference _ => true
  | _, _ => false

/-- Not both values are strings. -/
def Numeric (l r : Value) : Prop :=
  ∀ s t, l = .text s → r = .text t → False

theorem Numeric.swap {l r : Value} (h : l.Numeric r) : r.Numeric l :=
  fun s t hr hl => h t s hl hr

section Readings

variable {l r : Value} {x y : Float} (hnumeric : l.Numeric r) (hl : l.number? = some x)
  (hr : r.number? = some y)
include hnumeric hl hr

theorem order?_numeric : l.order? r = Number.order? x y := by
  unfold order?
  split
  · exact (hnumeric _ _ rfl rfl).elim
  · simp [hl, hr]

theorem ordered_numeric (symbol : String) (texts : String → String → Bool)
    (numbers : Float → Float → Bool) :
    l.ordered symbol texts numbers r = .ok (.ofBool (numbers x y)) := by
  unfold ordered
  split
  · exact (hnumeric _ _ rfl rfl).elim
  · simp only [numeric, hl, hr]
    rfl

end Readings

/-- References are equal exactly when their handles are as numbers. -/
theorem handleNumber_beq (a b : UInt32) : (handleNumber a == handleNumber b) = (a == b) := by
  have hsmall (handle : UInt32) : handle.toNat < 2 ^ 53 :=
    Nat.lt_trans handle.toNat_lt (by decide)
  rw [Number.beq_eq, handleNumber, handleNumber, Number.order?_ofNat (hsmall a) (hsmall b),
    Bool.eq_iff_iff, beq_iff_eq, beq_iff_eq, Option.some_inj, Nat.compare_eq_eq,
    UInt32.toNat_inj]

/-- Values that are read as numbers are equal as these are, except that a reference never equals a
string. -/
theorem equal_numeric {l r : Value} {x y : Float} (hnumeric : l.Numeric r)
    (hl : l.number? = some x) (hr : r.number? = some y) :
    l.equal r = (x == y && !l.mixes r) := by
  cases l with
  | invalid => cases hl
  | array id => cases hl
  | number x =>
    cases hl
    cases r with
    | invalid => cases hr
    | array id => cases hr
    | number y => cases hr; simp [equal, mixes]
    | reference b => simp [equal, mixes, hr]
    | text t => simp [equal, mixes, hr]
  | reference a =>
    cases hl
    cases r with
    | invalid => cases hr
    | array id => cases hr
    | number y => cases hr; simp [equal, mixes, number?]
    | reference b => cases hr; simp [equal, mixes, handleNumber_beq]
    | text t => simp [equal, mixes]
  | text s =>
    cases r with
    | invalid => cases hr
    | array id => cases hr
    | number y => cases hr; simp [equal, mixes, hl]
    | reference b => simp [equal, mixes]
    | text t => exact (hnumeric _ _ rfl rfl).elim

/-! ## Agreement -/

/-- What the operators say of two values in some order. -/
structure Compared (arrays : Arrays) (l r : Value) (o : Ordering) : Prop where
  less : BinaryOp.less.apply arrays l r = .ok (.ofBool (o == .lt))
  equal : BinaryOp.equal.apply arrays l r = .ok (.ofBool (o == .eq && !l.mixes r))
  greater : BinaryOp.greater.apply arrays l r = .ok (.ofBool (o == .gt))
  lessEqual : BinaryOp.lessEqual.apply arrays l r = .ok (.ofBool (o == .lt || o == .eq))
  greaterEqual : BinaryOp.greaterEqual.apply arrays l r = BinaryOp.lessEqual.apply arrays r l
  notEqual : BinaryOp.notEqual.apply arrays l r = .ok (.ofBool !(o == .eq && !l.mixes r))

/-- Strings are compared as texts. -/
theorem compared_texts (arrays : Arrays) (s t : String) :
    Compared arrays (.text s) (.text t) (compare s t) := by
  have hlt : decide (s < t) = (compare s t == .lt) := by
    rw [Bool.eq_iff_iff, decide_eq_true_iff, beq_iff_eq, compare_lt_iff_lt]
  have heq : (s == t) = (compare s t == .eq) := by
    rw [Bool.eq_iff_iff, beq_iff_eq, beq_iff_eq, compare_eq_iff_eq]
  have hgt : decide (t < s) = (compare s t == .gt) := by
    rw [Bool.eq_iff_iff, decide_eq_true_iff, beq_iff_eq, compare_gt_iff_gt]
  have hle : (!decide (t < s)) = (compare s t == .lt || compare s t == .eq) := by
    rw [hgt]
    cases compare s t <;> rfl
  exact
    { less := congrArg (fun b => Except.ok (ofBool b)) hlt
      equal := by simp [BinaryOp.apply, equal, mixes, heq]
      greater := congrArg (fun b => Except.ok (ofBool b)) hgt
      lessEqual := congrArg (fun b => Except.ok (ofBool b)) hle
      greaterEqual := rfl
      notEqual := by simp [BinaryOp.apply, equal, mixes, heq] }

/-- Anything else is compared by the numeric readings. -/
theorem compared_numeric (arrays : Arrays) {l r : Value} {x y : Float} {o : Ordering}
    (hnumeric : l.Numeric r) (hl : l.number? = some x) (hr : r.number? = some y)
    (ho : Number.order? x y = some o) : Compared arrays l r o := by
  have hswap : Number.order? y x = some o.swap := by rw [Number.order?_swap, ho]; rfl
  have hequal := equal_numeric hnumeric hl hr
  rw [Number.beq_eq, ho] at hequal
  have happly (op : BinaryOp) := ordered_numeric hnumeric hl hr op.symbol
  constructor
  · simp [BinaryOp.apply, happly, Number.decide_lt, ho]
  · simp [BinaryOp.apply, hequal]
  · simp only [BinaryOp.apply, happly, Number.decide_lt, hswap]
    cases o <;> rfl
  · simp only [BinaryOp.apply, happly, Number.decide_le, ho]
    cases o <;> rfl
  · simp [BinaryOp.apply, happly, ordered_numeric hnumeric.swap hr hl]
  · simp [BinaryOp.apply, hequal]

/-- Values that can be ordered are two strings or have numeric readings. -/
theorem readings_of_ordered {arrays : Arrays} {l r v : Value} (hnumeric : l.Numeric r)
    (h : BinaryOp.lessEqual.apply arrays l r = .ok v) :
    ∃ x y, l.number? = some x ∧ r.number? = some y := by
  simp only [BinaryOp.apply, ordered] at h
  split at h
  · exact (hnumeric _ _ rfl rfl).elim
  · cases hl : l.number? with
    | none => simp [numeric, hl] at h; cases h
    | some x =>
      cases hr : r.number? with
      | none => simp [numeric, hl, hr] at h; cases h
      | some y => exact ⟨x, y, rfl, rfl⟩

/-- Only a number is read as NaN. -/
theorem isNaN_number? {v : Value} {x : Float} (hv : ∀ n, v = .number n → n.isNaN = false)
    (h : v.number? = some x) : x.isNaN = false := by
  cases v with
  | invalid => cases h
  | array id => cases h
  | number n => cases h; exact hv x rfl
  | reference handle =>
    cases h
    exact Number.isNaN_ofNat (Nat.lt_trans handle.toNat_lt (by decide))
  | text s => exact Number.isNaN_cast? h

/-- One and zero are different answers. -/
theorem ofBool_injective {a b : Bool} (h : ofBool a = ofBool b) : a = b := by
  have hne : (1.0 : Float) ≠ 0.0 := by decide +kernel
  cases a with
  | false =>
    cases b with
    | false => rfl
    | true => exact (hne (Value.number.inj h).symm).elim
  | true =>
    cases b with
    | false => exact (hne (Value.number.inj h)).elim
    | true => rfl

/-- Unless equality refuses to cast, exactly one of less, equal and greater is answered with one. -/
theorem Compared.existsUnique {arrays : Arrays} {l r : Value} {o : Ordering}
    (h : Compared arrays l r o) (hmixes : l.mixes r = false) :
    ∃! op, op ∈ [BinaryOp.less, .equal, .greater] ∧
      op.apply arrays l r = .ok (.ofBool true) := by
  have hanswer {op : BinaryOp} {b : Bool} (hop : op.apply arrays l r = .ok (.ofBool b)) :
      op.apply arrays l r = .ok (.ofBool true) ↔ b = true := by
    rw [hop, Except.ok.injEq]
    exact ⟨ofBool_injective, fun hb => congrArg ofBool hb⟩
  have hless := hanswer h.less
  have hequal := hanswer h.equal
  have hgreater := hanswer h.greater
  rw [hmixes] at hequal
  cases o with
  | lt => exact ⟨.less, by simp [hless], by simp [hequal, hgreater]⟩
  | eq => exact ⟨.equal, by simp [hequal], by simp [hless, hgreater]⟩
  | gt => exact ⟨.greater, by simp [hgreater], by simp [hless, hequal]⟩

/-- Two values that can be ordered, NaN excluded, stand in one order, and all six operators answer
by it.  Exactly one of less, equal and greater is answered with one, unless one value is a reference
and the other a string. -/
theorem comparisons_agree (arrays : Arrays) {l r v : Value}
    (h : BinaryOp.lessEqual.apply arrays l r = .ok v)
    (hl : ∀ n, l = .number n → n.isNaN = false) (hr : ∀ n, r = .number n → n.isNaN = false) :
    ∃ o, l.order? r = some o ∧ Compared arrays l r o ∧
      (l.mixes r = false → ∃! op, op ∈ [BinaryOp.less, .equal, .greater] ∧
        op.apply arrays l r = .ok (.ofBool true)) := by
  by_cases htexts : ∃ s t, l = .text s ∧ r = .text t
  · rcases htexts with ⟨s, t, rfl, rfl⟩
    have hcompared := compared_texts arrays s t
    exact ⟨_, rfl, hcompared, hcompared.existsUnique⟩
  · have hnumeric : l.Numeric r := fun s t hs ht => htexts ⟨s, t, hs, ht⟩
    rcases readings_of_ordered hnumeric h with ⟨x, y, hx, hy⟩
    rcases Number.order?_isSome (isNaN_number? hl hx) (isNaN_number? hr hy) with ⟨o, ho⟩
    have hcompared := compared_numeric arrays hnumeric hx hy ho
    exact ⟨o, by rw [order?_numeric hnumeric hx hy, ho], hcompared, hcompared.existsUnique⟩

/-- A number and a string that reads as a greater one, which begins with a smaller letter. -/
theorem comparisons_agree_casting :
    ∃ o, (number 2.0).order? (.text "10") = some o ∧ Compared .empty (.number 2.0) (.text "10") o ∧
      ((number 2.0).mixes (.text "10") = false →
        ∃! op, op ∈ [BinaryOp.less, .equal, .greater] ∧
          op.apply .empty (.number 2.0) (.text "10") = .ok (.ofBool true)) :=
  comparisons_agree .empty (v := .ofBool true) rfl (fun _ h => by cases h; rfl)
    (fun _ h => by cases h)

/-- A reference and a string that reads as its handle: less or equal, and neither less, nor equal,
nor greater. -/
theorem not_trichotomous_mixed :
    BinaryOp.lessEqual.apply .empty (.text "5") (.reference 5) = .ok (.ofBool true) ∧
      BinaryOp.less.apply .empty (.text "5") (.reference 5) = .ok (.ofBool false) ∧
      BinaryOp.equal.apply .empty (.text "5") (.reference 5) = .ok (.ofBool false) ∧
      BinaryOp.greater.apply .empty (.text "5") (.reference 5) = .ok (.ofBool false) := by
  refine ⟨?_, ?_, ?_, ?_⟩ <;> rfl

end Value
end ScriptMachine
