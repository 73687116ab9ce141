import Mathlib.Data.Nat.Digits.Defs
import ScriptMachine.Printf
import ScriptMachine.Proofs.Spelling
import ScriptMachine.Proofs.Truncating

/-!
# Templates with one integer conversion

A template with one integer conversion is text, in which a percent sign is written twice, around a
percent sign, flags, a width, a precision, length letters and the letter of the conversion.  It is
rendered as the text around one field.  The field is as long as the width asks for, or as the sign
or base mark and the digits need, and what fills it stands where the flags put it.  Its digits read
back as the number.

Main results:

- {lit}`Printf.readIn_toDigits`: digits read back.
- {lit}`Printf.IntegerTemplate.exists_iff`: what the templates with one integer conversion are.
- {lit}`Printf.IntegerTemplate.fills_field`: the parts of a field.
- {lit}`Printf.IntegerTemplate.format_exact`: every such template is rendered for every number.
-/

namespace ScriptMachine
namespace Printf

open Number Literal

/-! ## Reading digits back -/

/-- The number that digits write with the given numerals, the numeral of zero first. -/
def readIn (numerals digits : List Char) : Option Nat :=
  digits.foldlM (fun value c => (numerals.idxOf? c).map (numerals.length * value + ·)) 0

/-- The count of digits of a number; zero has one. -/
def digitCount (base n : Nat) : Nat :=
  max 1 (base.digits n).length

/-- A last digit. -/
theorem readIn_append_singleton (numerals digits : List Char) (c : Char) :
    readIn numerals (digits ++ [c]) = (readIn numerals digits).bind fun value =>
      (numerals.idxOf? c).map (numerals.length * value + ·) := by
  simp [readIn, List.foldlM_append]

/-- Leading zeros do not count. -/
theorem readIn_zeros {numerals : List Char} (hzero : numerals.idxOf? '0' = some 0) (zeros : Nat)
    (digits : List Char) :
    readIn numerals (List.replicate zeros '0' ++ digits) = readIn numerals digits := by
  induction zeros with
  | zero => rfl
  | succ zeros ih =>
    rw [← ih]
    simp [readIn, List.replicate_succ, hzero]

/-- Digits written with numerals read back with them. -/
theorem readIn_toDigits {numerals : List Char} {spell : Char → Char} (hbase : 1 < numerals.length)
    (hspell : ∀ d < numerals.length, numerals.idxOf? (spell d.digitChar) = some d) (n : Nat) :
    readIn numerals ((Nat.toDigits numerals.length n).map spell) = some n := by
  induction n using Nat.strong_induction_on with
  | _ n ih =>
    by_cases hsmall : n < numerals.length
    · rw [Nat.toDigits_of_lt_base hsmall]
      simp [readIn, hspell n hsmall]
    · have hfewer : n / numerals.length < n := Nat.div_lt_self (by omega) hbase
      have hlast : n % numerals.length < numerals.length := Nat.mod_lt _ (by omega)
      rw [Nat.toDigits_of_base_le hbase (Nat.le_of_not_lt hsmall), List.map_append,
        List.map_singleton, readIn_append_singleton, ih _ hfewer, Option.bind_some, hspell _ hlast,
        Option.map_some, Nat.div_add_mod]

/-- The digits of a number are as many as it has. -/
theorem length_toDigits {base : Nat} (hbase : 1 < base) (n : Nat) :
    (Nat.toDigits base n).length = digitCount base n := by
  induction n using Nat.strong_induction_on with
  | _ n ih =>
    unfold digitCount
    rcases Nat.eq_zero_or_pos n with rfl | hpos
    · rw [Nat.toDigits_of_lt_base (by omega)]
      simp
    · rw [Nat.digits_def' hbase hpos, List.length_cons]
      by_cases hsmall : n < base
      · rw [Nat.toDigits_of_lt_base hsmall, Nat.div_eq_of_lt hsmall]
        simp
      · have hle := Nat.le_of_not_lt hsmall
        have hquotient : n / base ≠ 0 := Nat.ne_of_gt (Nat.div_pos hle (by omega))
        have hsome : 0 < (base.digits (n / base)).length :=
          List.length_pos_iff.2 (Nat.digits_ne_nil_iff_ne_zero.2 hquotient)
        rw [Nat.toDigits_of_base_le hbase hle, List.length_append, List.length_singleton,
          ih _ (Nat.div_lt_self hpos hbase), digitCount]
        omega

/-- The decimal numerals. -/
def decimals : List Char := ['0', '1', '2', '3', '4', '5', '6', '7', '8', '9']

/-- A decimal digit character is the numeral of its value. -/
theorem idxOf?_decimals {c : Char} (h : c.isDigit = true) :
    decimals.idxOf? c = some (digitValue c) := by
  have hbounds : 48 ≤ c.toNat ∧ c.toNat ≤ 57 := by
    simp only [Char.isDigit, Bool.and_eq_true, decide_eq_true_eq] at h
    exact ⟨UInt32.le_iff_toNat_le.1 h.1, UInt32.le_iff_toNat_le.1 h.2⟩
  have hall : ∀ k < 10, decimals.idxOf? (Char.ofNat (48 + k)) = some k := by decide
  have hc := hall (c.toNat - 48) (by omega)
  rw [Nat.add_sub_cancel' hbounds.1, Char.ofNat_toNat] at hc
  exact hc

/-- Decimal digits are read as a width or a precision reads them. -/
theorem readIn_decimals {digits : List Char} (h : ∀ c ∈ digits, c.isDigit = true) :
    readIn decimals digits = some (digitsValue 0 digits) := by
  induction digits using List.reverseRecOn with
  | nil => rfl
  | append_singleton digits c ih =>
    rw [readIn_append_singleton, ih fun d hd => h d (by simp [hd]), Option.bind_some,
      idxOf?_decimals (h c (by simp))]
    simp [digitsValue, decimals]

/-! ## Templates as they are written -/

/-- Text as a template holds it: a percent sign is written twice. -/
def escaped (text : List Char) : List Char :=
  text.flatMap fun c => if c = '%' then ['%', '%'] else [c]

/-- A template with one integer conversion, part by part. -/
structure IntegerTemplate where
  before : List Char
  flags : List Char
  width : List Char
  /-- The digits behind the point, if there is a point. -/
  precision : Option (List Char)
  lengths : List Char
  letter : Char
  after : List Char
  flags_spelled : ∀ c ∈ flags, c ∈ ['-', '+', ' ', '0', '#']
  width_spelled : ∀ c ∈ width, c.isDigit = true
  /-- A zero in front of the width is a flag. -/
  width_head : ∀ c ∈ width.head?, c ≠ '0'
  precision_spelled : ∀ digits ∈ precision, ∀ c ∈ digits, c.isDigit = true
  lengths_spelled : ∀ c ∈ lengths, c ∈ ['l', 'h', 'L']
  letter_spelled : letter ∈ ['d', 'i', 'u', 'x', 'X', 'o']

namespace IntegerTemplate

/-- The point and the digits of a precision. -/
def precisionText : Option (List Char) → List Char
  | none => []
  | some digits => '.' :: digits

/-- What stands behind the percent sign of the conversion. -/
def body (t : IntegerTemplate) : List Char :=
  t.flags ++ (t.width ++ (precisionText t.precision ++ (t.lengths ++ t.letter :: escaped t.after)))

/-- The template as it is written. -/
def written (t : IntegerTemplate) : List Char :=
  escaped t.before ++ '%' :: t.body

/-! ## What a template asks for -/

/-- The least width of the field; widths beyond the greatest length are cut to it. -/
def leastWidth (t : IntegerTemplate) : Nat :=
  min 79 ((readIn decimals t.width).getD 0)

/-- The least count of digits; it is cut in the same way. -/
def leastDigits (t : IntegerTemplate) : Nat :=
  min 79 ((t.precision.bind (readIn decimals)).getD 0)

/-- The integer that is written: the number without its fraction, first reduced to its low 32 bits
if it is read as unsigned, and for conversions without a sign as a word of 64 bits. -/
def value (t : IntegerTemplate) (x : Float) (unsigned : Bool) : Int :=
  let word := if unsigned then whole x % 2 ^ 32 else whole x
  if t.letter ∈ ['d', 'i'] then word else word % 2 ^ 64

/-- The base of the conversion. -/
def base (t : IntegerTemplate) : Nat :=
  if t.letter ∈ ['x', 'X'] then 16 else if t.letter = 'o' then 8 else 10

/-- The numerals of the conversion. -/
def numerals (t : IntegerTemplate) : List Char :=
  let letters := if t.letter = 'X' then ['A', 'B', 'C', 'D', 'E', 'F']
    else ['a', 'b', 'c', 'd', 'e', 'f']
  (decimals ++ letters).take t.base

/-- The sign or base mark in front of an integer. -/
def mark (t : IntegerTemplate) (v : Int) : List Char :=
  if t.letter ∈ ['d', 'i'] then
    if v < 0 then ['-'] else if '+' ∈ t.flags then ['+'] else if ' ' ∈ t.flags then [' '] else []
  else if '#' ∈ t.flags ∧ v ≠ 0 then
    if t.letter = 'x' then ['0', 'x'] else if t.letter = 'X' then ['0', 'X']
    else if t.letter = 'o' then ['0'] else []
  else []

end IntegerTemplate

/-! ## Fields -/

/-- A field: blanks, a mark, zeros, digits and blanks again. -/
structure Field where
  left : Nat
  mark : List Char
  zeros : Nat
  digits : List Char
  right : Nat

/-- The text of a field. -/
def Field.text (field : Field) : List Char :=
  List.replicate field.left ' ' ++ (field.mark ++ (List.replicate field.zeros '0' ++
    (field.digits ++ List.replicate field.right ' ')))

namespace IntegerTemplate

/-- A field holds an integer as a template asks for it.  It is as long as the width, or as the mark
and the digits need, and these are as many as the precision, or as the integer has.  Blanks fill it
on the right with the flag for that, zeros with theirs unless a precision is set, and otherwise
blanks on the left.  The digits read back as the integer without its sign. -/
structure Fills (t : IntegerTemplate) (v : Int) (field : Field) : Prop where
  mark : field.mark = t.mark v
  length : field.text.length =
    max t.leastWidth ((t.mark v).length + max t.leastDigits (digitCount t.base v.natAbs))
  digits : field.digits.length = digitCount t.base v.natAbs
  precise : t.leastDigits ≤ field.zeros + field.digits.length
  reads : readIn t.numerals (List.replicate field.zeros '0' ++ field.digits) = some v.natAbs
  left : 0 < field.left → '-' ∉ t.flags ∧ ¬('0' ∈ t.flags ∧ t.precision = none)
  zeros : t.leastDigits - field.digits.length < field.zeros →
    '0' ∈ t.flags ∧ '-' ∉ t.flags ∧ t.precision = none
  right : 0 < field.right → '-' ∈ t.flags

variable (t : IntegerTemplate)

/-- The conversion letter is one of six. -/
theorem letter_cases : t.letter = 'd' ∨ t.letter = 'i' ∨ t.letter = 'u' ∨ t.letter = 'x' ∨
    t.letter = 'X' ∨ t.letter = 'o' := by
  simpa using t.letter_spelled

/-- There are as many numerals as the base says. -/
theorem length_numerals : t.numerals.length = t.base := by
  rcases t.letter_cases with h | h | h | h | h | h <;> simp [numerals, base, decimals, h]

/-- The bases are 8, 10 and 16. -/
theorem base_bounds : 1 < t.base ∧ t.base ≤ 16 := by
  unfold base
  split
  · decide
  · split <;> decide

/-- The radix of the conversion. -/
def radix : Radix :=
  if t.letter = 'x' then .hexadecimal false else if t.letter = 'X' then .hexadecimal true
  else if t.letter = 'o' then .octal else .decimal

/-- The kind of the conversion. -/
def kind : Kind :=
  if t.letter ∈ ['d', 'i'] then .signed else .unsigned t.radix

/-- The letter asks for that kind. -/
theorem kindOf?_letter : kindOf? t.letter = some t.kind := by
  rcases t.letter_cases with h | h | h | h | h | h <;> simp [kindOf?, kind, radix, h]

/-- The digits of a number in the radix are spelled with the numerals. -/
theorem exists_spell : ∃ spell : Char → Char,
    (∀ d < t.numerals.length, t.numerals.idxOf? (spell d.digitChar) = some d) ∧
      ∀ n, t.radix.digits n = (Nat.toDigits t.numerals.length n).map spell := by
  have hlower : ∀ k ≤ 16, ∀ d < k,
      ((decimals ++ ['a', 'b', 'c', 'd', 'e', 'f']).take k).idxOf? d.digitChar = some d := by
    decide
  have hupper : ∀ d < 16,
      (decimals ++ ['A', 'B', 'C', 'D', 'E', 'F']).idxOf? d.digitChar.toUpper = some d := by
    decide
  rw [t.length_numerals]
  by_cases hcapital : t.letter = 'X'
  · have hnumerals : t.numerals = decimals ++ ['A', 'B', 'C', 'D', 'E', 'F'] := by
      simp [numerals, base, decimals, hcapital]
    have hbase : t.base = 16 := by simp [base, hcapital]
    rw [hnumerals, hbase]
    exact ⟨Char.toUpper, hupper, fun n => by simp [radix, hcapital, Radix.digits]⟩
  · have hnumerals : t.numerals =
        (decimals ++ ['a', 'b', 'c', 'd', 'e', 'f']).take t.base := by
      simp [numerals, hcapital]
    rw [hnumerals]
    refine ⟨id, hlower _ t.base_bounds.2, fun n => ?_⟩
    rcases t.letter_cases with h | h | h | h | h | h <;>
      simp_all [radix, base, Radix.digits, Radix.base]

/-- The digits of a number read back as it. -/
theorem readIn_digits (n : Nat) : readIn t.numerals (t.radix.digits n) = some n := by
  rcases t.exists_spell with ⟨spell, hspell, hdigits⟩
  rw [hdigits]
  exact readIn_toDigits (t.length_numerals ▸ t.base_bounds.1) hspell n

/-- The digits of a number are as many as it has in the base. -/
theorem length_digits (n : Nat) : (t.radix.digits n).length = digitCount t.base n := by
  rcases t.exists_spell with ⟨spell, -, hdigits⟩
  rw [hdigits, List.length_map, t.length_numerals, length_toDigits t.base_bounds.1]

/-- The first numeral is that of zero. -/
theorem idxOf?_zero : t.numerals.idxOf? '0' = some 0 := by
  rcases t.letter_cases with h | h | h | h | h | h <;> simp [numerals, base, decimals, h] <;> rfl

/-! ## The field of a template -/

/-- The conversion that a template holds. -/
def conversion : Conversion where
  left := t.flags.contains '-'
  plus := t.flags.contains '+'
  space := t.flags.contains ' '
  zero := t.flags.contains '0'
  alternate := t.flags.contains '#'
  width := min maxLength (digitsValue 0 t.width)
  precision := t.precision.map fun digits => min maxLength (digitsValue 0 digits)
  kind := t.kind

theorem conversion_width : t.conversion.width = t.leastWidth := by
  simp [leastWidth, readIn_decimals t.width_spelled, conversion, maxLength]

theorem conversion_precision : t.conversion.precision.getD 0 = t.leastDigits := by
  cases h : t.precision with
  | none => simp [leastDigits, conversion, h]
  | some digits =>
    simp [leastDigits, conversion, h, readIn_decimals (t.precision_spelled digits h), maxLength]

/-- The field for an integer. -/
def field (v : Int) : Field :=
  let digits := t.radix.digits v.natAbs
  let zeros := t.leastDigits - digits.length
  let fill := t.leastWidth - ((t.mark v).length + (zeros + digits.length))
  if '-' ∈ t.flags then ⟨0, t.mark v, zeros, digits, fill⟩
  else if '0' ∈ t.flags ∧ t.precision = none then ⟨0, t.mark v, zeros + fill, digits, 0⟩
  else ⟨fill, t.mark v, zeros, digits, 0⟩

/-- The field has the parts that the template asks for. -/
theorem fills_field (v : Int) : t.Fills v (t.field v) := by
  have hdigits := t.length_digits v.natAbs
  have hreads : ∀ zeros, readIn t.numerals
      (List.replicate zeros '0' ++ t.radix.digits v.natAbs) = some v.natAbs := fun zeros => by
    rw [readIn_zeros t.idxOf?_zero, t.readIn_digits]
  unfold field
  by_cases hleft : '-' ∈ t.flags
  · simp only [if_pos hleft]
    refine ⟨rfl, ?_, hdigits, ?_, hreads _, ?_, ?_, fun _ => hleft⟩
    · simp only [Field.text, List.length_append, List.length_replicate, hdigits]
      omega
    · simp only
      omega
    · simp
    · simp
  · simp only [if_neg hleft]
    by_cases hzero : '0' ∈ t.flags ∧ t.precision = none
    · simp only [if_pos hzero]
      refine ⟨rfl, ?_, hdigits, ?_, hreads _, ?_, fun _ => ⟨hzero.1, hleft, hzero.2⟩, ?_⟩
      · simp only [Field.text, List.length_append, List.length_replicate, hdigits]
        omega
      · simp only
        omega
      · simp
      · simp
    · simp only [if_neg hzero]
      refine ⟨rfl, ?_, hdigits, ?_, hreads _, fun _ => ⟨hleft, hzero⟩, ?_, ?_⟩
      · simp only [Field.text, List.length_append, List.length_replicate, hdigits]
        omega
      · simp only
        omega
      · simp
      · simp

/-- Padding puts the parts of the field together. -/
theorem pad_eq (v : Int) :
    t.conversion.pad (t.mark v) (t.conversion.withPrecision (t.radix.digits v.natAbs))
      t.conversion.precision.isNone = (t.field v).text := by
  have hleftFlag : t.conversion.left = true ↔ '-' ∈ t.flags := by simp [conversion]
  have hzeroFlag : (t.conversion.zero && t.conversion.precision.isNone) = true ↔
      '0' ∈ t.flags ∧ t.precision = none := by
    simp [conversion]
  simp only [Conversion.pad, Conversion.withPrecision, padDigits, t.conversion_width,
    t.conversion_precision, hleftFlag, hzeroFlag, List.length_append, List.length_replicate]
  unfold field
  by_cases hleft : '-' ∈ t.flags
  · simp [hleft, Field.text]
  · by_cases hzero : '0' ∈ t.flags ∧ t.precision = none
    · -- The zeros that fill the field and those of the precision make one run.
      simp only [if_neg hleft, if_pos hzero, Field.text, List.replicate_zero, List.nil_append,
        List.append_nil, List.append_assoc]
      rw [← List.append_assoc (List.replicate _ '0') (List.replicate _ '0'),
        List.replicate_append_replicate, Nat.add_comm]
    · simp [hleft, hzero, Field.text]

/-- Whatever is rendered is truncated to the word that the number is read as. -/
theorem truncate64_operand (x : Float) (unsigned : Bool) :
    truncate64 (operand x unsigned) = if unsigned then whole x % 2 ^ 32 else whole x := by
  unfold operand
  cases unsigned with
  | false => simp [truncate64_eq_whole]
  | true =>
    have hlow : low32 (truncate64 x) < 2 ^ 53 := by
      unfold low32
      omega
    simp only [if_true]
    rw [truncate64_ofNat hlow, truncate64_eq_whole, low32]
    omega

/-- The conversion makes the field of the integer. -/
theorem conversion_field (x : Float) (unsigned : Bool) :
    t.conversion.field (operand x unsigned) = (t.field (t.value x unsigned)).text := by
  rw [← t.pad_eq]
  unfold Conversion.field
  simp only [truncate64_operand]
  unfold value
  generalize (if unsigned then whole x % 2 ^ 32 else whole x) = word
  by_cases hsigned : t.letter ∈ ['d', 'i']
  · have hkind : t.conversion.kind = .signed := if_pos hsigned
    have hmark : t.mark word = t.conversion.signText (word < 0) := by
      simp [mark, hsigned, Conversion.signText, conversion]
    have hradix : t.radix = .decimal := by
      have hletter : t.letter = 'd' ∨ t.letter = 'i' := by simpa using hsigned
      rcases hletter with h | h <;> simp [radix, h]
    simp only [hkind, if_pos hsigned, hmark, hradix]
    rfl
  · have hkind : t.conversion.kind = .unsigned t.radix := if_neg hsigned
    have hnat : (word % 2 ^ 64).natAbs = low64 word := by
      unfold low64
      omega
    have hmark : t.mark (word % 2 ^ 64) =
        if t.conversion.alternate && low64 word != 0 then t.radix.alternateText else [] := by
      have hzero : word % 2 ^ 64 ≠ 0 ↔ low64 word ≠ 0 := by
        rw [← hnat]
        exact (not_congr Int.natAbs_eq_zero).symm
      simp only [mark, if_neg hsigned, hzero, conversion, Bool.and_eq_true,
        List.contains_iff_mem, bne_iff_ne]
      congr 1
      rcases t.letter_cases with h | h | h | h | h | h <;> simp [radix, Radix.alternateText, h]
    simp only [hkind, if_neg hsigned, hmark, hnat]

end IntegerTemplate

/-! ## Reading templates -/

/-- Text in a template is read as it is meant. -/
theorem pieces_escaped (converted : Bool) (text s : List Char) :
    pieces converted (escaped text ++ s) =
      (pieces converted s).map (text.map Piece.literal ++ ·) := by
  induction text with
  | nil =>
    rw [escaped, List.flatMap_nil, List.nil_append]
    cases pieces converted s <;> rfl
  | cons c rest ih =>
    by_cases hpercent : c = '%'
    · have hwritten : escaped (c :: rest) ++ s = '%' :: '%' :: (escaped rest ++ s) := by
        simp [escaped, hpercent]
      rw [hwritten, pieces, ih, hpercent]
      cases pieces converted s <;> rfl
    · have hwritten : escaped (c :: rest) ++ s = c :: (escaped rest ++ s) := by
        simp [escaped, hpercent]
      rw [hwritten, pieces.eq_4 _ _ _ (fun _ h => absurd h hpercent) hpercent, ih]
      cases pieces converted s <;> rfl

/-- Text alone has no conversion. -/
theorem pieces_text (converted : Bool) (text : List Char) :
    pieces converted (escaped text) = .ok (text.map Piece.literal) := by
  have hread := pieces_escaped converted text []
  rw [List.append_nil, pieces] at hread
  rw [hread]
  exact congrArg Except.ok (List.append_nil _)

/-- A precision begins with a point. -/
theorem readPrecision_of_head {s : List Char} (h : ∀ c ∈ s.head?, c ≠ '.') :
    readPrecision s = (none, s) := by
  unfold readPrecision
  split
  · exact absurd rfl (h '.' rfl)
  · rfl

namespace IntegerTemplate

variable (t : IntegerTemplate)

/-- Behind a precision stands a length letter or the letter of the conversion. -/
theorem head_lengths : ∀ c ∈ (t.lengths ++ t.letter :: escaped t.after).head?,
    c ∈ ['l', 'h', 'L', 'd', 'i', 'u', 'x', 'X', 'o'] := by
  intro c hc
  cases hlengths : t.lengths with
  | nil =>
    rw [hlengths] at hc
    cases hc
    exact List.mem_append_right ['l', 'h', 'L'] t.letter_spelled
  | cons first rest =>
    rw [hlengths] at hc
    cases hc
    exact List.mem_append_left ['d', 'i', 'u', 'x', 'X', 'o'] (t.lengths_spelled _ (by simp [hlengths]))

/-- Behind a width stands such a letter or a point. -/
theorem head_precision :
    ∀ c ∈ (precisionText t.precision ++ (t.lengths ++ t.letter :: escaped t.after)).head?,
      c ∈ ['.', 'l', 'h', 'L', 'd', 'i', 'u', 'x', 'X', 'o'] := by
  intro c hc
  cases hprecision : t.precision with
  | none =>
    rw [hprecision] at hc
    exact List.mem_cons_of_mem _ (t.head_lengths c hc)
  | some digits =>
    rw [hprecision] at hc
    cases hc
    exact List.mem_cons_self

/-- What stands behind the flags is none. -/
theorem head_width : ∀ c ∈ (t.width ++ (precisionText t.precision ++
    (t.lengths ++ t.letter :: escaped t.after))).head?, isFlag c = false ∧ c ≠ '%' := by
  intro c hc
  cases hwidth : t.width with
  | nil =>
    rw [hwidth] at hc
    have hall : ∀ d ∈ ['.', 'l', 'h', 'L', 'd', 'i', 'u', 'x', 'X', 'o'],
        isFlag d = false ∧ d ≠ '%' := by
      simp [isFlag]
    exact hall c (t.head_precision c hc)
  | cons first rest =>
    rw [hwidth] at hc
    cases hc
    have hdigit := t.width_spelled c (by simp [hwidth])
    have hzero := t.width_head c (by simp [hwidth])
    have hnot : ∀ d ∈ ['-', '+', ' ', '#', '%'], c ≠ d := by
      rintro d hd rfl
      have hall : ∀ d ∈ ['-', '+', ' ', '#', '%'], d.isDigit = false := by simp
      rw [hall c hd] at hdigit
      cases hdigit
    simp_all [isFlag]

/-- The conversion does not begin with a percent sign. -/
theorem head_body : ∀ c ∈ t.body.head?, c ≠ '%' := by
  intro c hc
  cases hflags : t.flags with
  | nil =>
    rw [body, hflags] at hc
    exact (t.head_width c hc).2
  | cons first rest =>
    rw [body, hflags] at hc
    cases hc
    have hall : ∀ d ∈ ['-', '+', ' ', '0', '#'], d ≠ '%' := by simp
    exact hall c (t.flags_spelled c (by simp [hflags]))

/-- The parts of a conversion are read one after the other. -/
theorem readConversion_body : readConversion t.body =
    some (fun kind => { t.conversion with kind := kind }, t.letter, escaped t.after) := by
  have hflags : ∀ c ∈ t.flags, isFlag c = true := by
    have hall : ∀ d ∈ ['-', '+', ' ', '0', '#'], isFlag d = true := by simp [isFlag]
    exact fun c hc => hall c (t.flags_spelled c hc)
  have hlengths : ∀ c ∈ t.lengths, isLength c = true := by
    have hall : ∀ d ∈ ['l', 'h', 'L'], isLength d = true := by simp [isLength]
    exact fun c hc => hall c (t.lengths_spelled c hc)
  have hletter : isLength t.letter = false := by
    have hall : ∀ d ∈ ['d', 'i', 'u', 'x', 'X', 'o'], isLength d = false := by simp [isLength]
    exact hall _ t.letter_spelled
  have hdigits : ∀ d ∈ ['.', 'l', 'h', 'L', 'd', 'i', 'u', 'x', 'X', 'o'], d.isDigit = false := by
    simp
  have hwidth := spanDigits_append t.width_spelled fun c hc => hdigits c (t.head_precision c hc)
  have hprecision : readPrecision (precisionText t.precision ++
      (t.lengths ++ t.letter :: escaped t.after)) =
      (t.conversion.precision, t.lengths ++ t.letter :: escaped t.after) := by
    cases hsome : t.precision with
    | none =>
      have hpoint : ∀ d ∈ ['l', 'h', 'L', 'd', 'i', 'u', 'x', 'X', 'o'], d ≠ '.' := by simp
      have hnone := readPrecision_of_head fun c hc => hpoint c (t.head_lengths c hc)
      simpa [precisionText, conversion, hsome] using hnone
    | some digits =>
      have hspan := spanDigits_append (t.precision_spelled digits hsome)
        fun c hc => hdigits c (List.mem_cons_of_mem _ (t.head_lengths c hc))
      simp [precisionText, readPrecision, readCount, hspan, conversion, hsome]
  unfold readConversion
  rw [body, takeWhile_append_of_head hflags fun c hc => (t.head_width c hc).1,
    dropWhile_append_of_head hflags fun c hc => (t.head_width c hc).1]
  simp only [readCount, hwidth, hprecision]
  rw [dropWhile_append_of_head hlengths (fun c hc => by
    cases hc
    exact hletter)]
  rfl

/-- The template is read as its text and its conversion. -/
theorem parse_written : parse t.written =
    .ok (t.before.map .literal ++ .conversion t.conversion :: t.after.map .literal) := by
  have hpercent : ∀ rest, t.body = '%' :: rest → False := fun rest h =>
    t.head_body '%' (by rw [h]; rfl) rfl
  have hbody : pieces false ('%' :: t.body) =
      .ok (.conversion t.conversion :: t.after.map .literal) := by
    rw [pieces.eq_3 _ _ hpercent, t.readConversion_body]
    simp only [t.kindOf?_letter, pieces_text]
    rfl
  have hsome : t.written.isEmpty = false := by
    simp [written]
  rw [parse, hsome, written, pieces_escaped, hbody]
  rfl

end IntegerTemplate

/-! ## What the templates are -/

/-- What is read as a precision is a point and digits, or nothing. -/
theorem exists_precision (s : List Char) : ∃ precision rest,
    s = IntegerTemplate.precisionText precision ++ rest ∧ (readPrecision s).2 = rest ∧
      ∀ digits ∈ precision, ∀ c ∈ digits, c.isDigit = true := by
  unfold readPrecision
  split
  · next rest =>
    refine ⟨some (rest.takeWhile Char.isDigit), rest.dropWhile Char.isDigit, ?_, rfl, ?_⟩
    · simp [IntegerTemplate.precisionText]
    · rintro digits ⟨⟩
      exact fun c hc => List.mem_takeWhile_imp hc
  · exact ⟨none, s, rfl, rfl, fun digits hdigits => by cases hdigits⟩

/-- What is read as an integer conversion is the middle of a template. -/
theorem exists_template {body rest : List Char} {conversion : Kind → Conversion} {letter : Char}
    (h : readConversion body = some (conversion, letter, rest))
    (hletter : letter ∈ ['d', 'i', 'u', 'x', 'X', 'o']) (before : List Char) {after : List Char}
    (hafter : rest = escaped after) :
    ∃ t : IntegerTemplate, t.before = before ∧ t.body = body := by
  let flags := body.takeWhile isFlag
  let unflagged := body.dropWhile isFlag
  let width := unflagged.takeWhile Char.isDigit
  rcases exists_precision (unflagged.dropWhile Char.isDigit) with
    ⟨precision, measured, hprecision, hmeasured, hdigits⟩
  have hread : measured.dropWhile isLength = letter :: rest := by
    simp only [readConversion] at h
    split at h
    · cases h
    · next found tail hdrop =>
      simp only [Option.some.injEq, Prod.mk.injEq] at h
      rcases h with ⟨-, rfl, rfl⟩
      rw [← hdrop, ← hmeasured]
      rfl
  have hflagged : flags ++ unflagged = body := List.takeWhile_append_dropWhile
  have hwide : width ++ unflagged.dropWhile Char.isDigit = unflagged :=
    List.takeWhile_append_dropWhile
  have hlong : measured.takeWhile isLength ++ measured.dropWhile isLength = measured :=
    List.takeWhile_append_dropWhile
  refine ⟨⟨before, flags, width, precision, measured.takeWhile isLength, letter, after, ?_, ?_, ?_,
    hdigits, ?_, hletter⟩, rfl, ?_⟩
  · intro c hc
    have hflag : isFlag c = true := List.mem_takeWhile_imp hc
    simpa [isFlag, or_assoc] using hflag
  · exact fun c hc => List.mem_takeWhile_imp hc
  · rintro c hc rfl
    -- The first character behind the flags is none.
    have hzero : unflagged.head? = some '0' := by
      rw [← hwide, List.head?_append, Option.mem_def.1 hc]
      rfl
    have hnot := List.head?_dropWhile_not isFlag body
    rw [show body.dropWhile isFlag = unflagged from rfl, hzero] at hnot
    cases hnot
  · intro c hc
    have hlength : isLength c = true := List.mem_takeWhile_imp hc
    simpa [isLength, or_assoc] using hlength
  · show flags ++ (width ++ (IntegerTemplate.precisionText precision ++
      (measured.takeWhile isLength ++ letter :: escaped after))) = body
    rw [← hafter, ← hread, hlong, ← hprecision, hwide, hflagged]

/-- A conversion is of the kind that its letter asks for. -/
theorem kind_of_readConversion {body rest : List Char} {conversion : Kind → Conversion}
    {letter : Char} (h : readConversion body = some (conversion, letter, rest)) (kind : Kind) :
    (conversion kind).kind = kind := by
  simp only [readConversion] at h
  split at h
  · cases h
  · simp only [Option.some.injEq, Prod.mk.injEq] at h
    rw [← h.1]

/-- Pieces are text, or text around one conversion that is read off. -/
def IsSpelled (converted : Bool) (s : List Char) (ps : List Piece) : Prop :=
  (∃ text, s = escaped text ∧ ps = text.map .literal) ∨
    converted = false ∧ ∃ before body after conversion letter kind,
      s = escaped before ++ '%' :: body ∧
      readConversion body = some (conversion, letter, escaped after) ∧
      kindOf? letter = some kind ∧
      ps = before.map .literal ++ .conversion (conversion kind) :: after.map .literal

/-- One more character in front. -/
theorem IsSpelled.cons {converted : Bool} {s : List Char} {ps : List Piece}
    (h : IsSpelled converted s ps) (c : Char) :
    IsSpelled converted (escaped [c] ++ s) (.literal c :: ps) := by
  have hmore : ∀ text, escaped [c] ++ escaped text = escaped (c :: text) := fun text => by
    simp [escaped]
  rcases h with ⟨text, rfl, rfl⟩ | ⟨hfirst, before, body, after, conversion, letter, kind, rfl, hread,
    hkind, rfl⟩
  · exact .inl ⟨c :: text, hmore text, rfl⟩
  · refine .inr ⟨hfirst, c :: before, body, after, conversion, letter, kind, ?_, hread, hkind, rfl⟩
    rw [← List.append_assoc, hmore]

/-- Whatever is read as pieces is spelled so. -/
theorem isSpelled_of_pieces {converted : Bool} {s : List Char} {ps : List Piece}
    (h : pieces converted s = .ok ps) : IsSpelled converted s ps := by
  fun_induction pieces converted s generalizing ps with
  | case1 =>
    cases h
    exact .inl ⟨[], rfl, rfl⟩
  | case2 converted rest ih =>
    cases hothers : pieces converted rest with
    | error => rw [hothers] at h; cases h
    | ok others =>
      rw [hothers] at h
      cases h
      exact (ih hothers).cons '%'
  | case3 => cases h
  | case4 => cases h
  | case5 => cases h
  | case6 converted body hpercent conversion letter rest hread hfirst kind hkind ih =>
    cases hothers : pieces true rest with
    | error => rw [hothers] at h; cases h
    | ok others =>
      rw [hothers] at h
      cases h
      rcases ih hothers with ⟨text, rfl, rfl⟩ | ⟨hsecond, -⟩
      · exact .inr ⟨by simpa using hfirst, [], body, text, conversion, letter, kind, rfl, hread,
          hkind, rfl⟩
      · cases hsecond
  | case7 converted c rest _ hpercent ih =>
    cases hothers : pieces converted rest with
    | error => rw [hothers] at h; cases h
    | ok others =>
      rw [hothers] at h
      cases h
      have hwritten : escaped [c] ++ rest = c :: rest := by
        have hne : c ≠ '%' := hpercent
        simp [escaped, hne]
      rw [← hwritten]
      exact (ih hothers).cons c

/-- The conversions among pieces. -/
def conversions (ps : List Piece) : List Conversion :=
  ps.filterMap fun piece =>
    match piece with
    | .literal _ => none
    | .conversion c => some c

/-- Text has no conversions. -/
theorem conversions_append (text : List Char) (ps : List Piece) :
    conversions (text.map .literal ++ ps) = conversions ps := by
  induction text with
  | nil => rfl
  | cons c rest ih => exact ih

/-- An integer conversion is signed or has a radix. -/
def Kind.IsInteger (kind : Kind) : Prop :=
  kind = .signed ∨ ∃ radix, kind = .unsigned radix

/-- The letters of integer conversions. -/
theorem mem_of_kindOf? {letter : Char} {kind : Kind} (h : kindOf? letter = some kind)
    (hinteger : kind.IsInteger) : letter ∈ ['d', 'i', 'u', 'x', 'X', 'o'] := by
  rcases hinteger with rfl | ⟨radix, rfl⟩ <;> unfold kindOf? at h <;> split at h <;> simp_all

/-- A text is a template with one integer conversion exactly when it is read as one. -/
theorem IntegerTemplate.exists_iff (s : List Char) : (∃ t : IntegerTemplate, t.written = s) ↔
    ∃ ps c, parse s = .ok ps ∧ conversions ps = [c] ∧ c.kind.IsInteger := by
  constructor
  · rintro ⟨t, rfl⟩
    refine ⟨_, t.conversion, t.parse_written, ?_, ?_⟩
    · rw [conversions_append]
      have hnone := conversions_append t.after []
      rw [List.append_nil] at hnone
      exact congrArg (t.conversion :: ·) hnone
    · show t.kind.IsInteger
      unfold kind
      split
      · exact .inl rfl
      · exact .inr ⟨_, rfl⟩
  · rintro ⟨ps, c, hparse, hone, hinteger⟩
    have hread : pieces false s = .ok ps := by
      unfold parse at hparse
      split at hparse
      · cases hparse
      · exact hparse
    rcases isSpelled_of_pieces hread with ⟨text, -, rfl⟩ |
      ⟨-, before, body, after, conversion, letter, kind, rfl, hbody, hkind, rfl⟩
    · have hnone := conversions_append text []
      rw [List.append_nil, hone] at hnone
      cases hnone
    · have hsame : conversion kind = c := by
        rw [conversions_append] at hone
        exact (List.cons.inj hone).1
      rw [← hsame, kind_of_readConversion hbody] at hinteger
      have hletter := mem_of_kindOf? hkind hinteger
      rcases exists_template hbody hletter before rfl with ⟨t, rfl, rfl⟩
      exact ⟨t, rfl⟩

/-! ## Rendering -/

/-- Text is rendered as it is. -/
theorem flatMap_literals (x : Float) (text : List Char) :
    (text.map Piece.literal).flatMap (Piece.render x) = text := by
  induction text with
  | nil => rfl
  | cons c rest ih => exact congrArg (c :: ·) ih

/-- A template with one integer conversion is rendered as its text around the field of the integer,
cut to the greatest length. -/
theorem IntegerTemplate.format_written (t : IntegerTemplate) (x : Float) (unsigned : Bool) :
    format (String.ofList t.written) x unsigned =
      .ok (String.ofList
        ((t.before ++ ((t.field (t.value x unsigned)).text ++ t.after)).take 79)) := by
  have hrendered : (t.before.map Piece.literal ++ Piece.conversion t.conversion ::
      t.after.map Piece.literal).flatMap (Piece.render (operand x unsigned)) =
      t.before ++ ((t.field (t.value x unsigned)).text ++ t.after) := by
    rw [List.flatMap_append, flatMap_literals, List.flatMap_cons, flatMap_literals, Piece.render,
      t.conversion_field]
  unfold format
  rw [String.toList_ofList, t.parse_written]
  exact congrArg (fun text => Except.ok (String.ofList (text.take 79))) hrendered

/-- The templates with one integer conversion are the texts that are read as one, and each of them
is rendered for every number as its text around one field, before that is cut to 79 characters.  The
field has the parts that the flags, the width and the precision ask for, and its digits read back. -/
theorem IntegerTemplate.format_exact :
    (∀ s : List Char, (∃ t : IntegerTemplate, t.written = s) ↔
      ∃ ps c, parse s = .ok ps ∧ conversions ps = [c] ∧ c.kind.IsInteger) ∧
    ∀ (t : IntegerTemplate) (x : Float) (unsigned : Bool), ∃ field,
      t.Fills (t.value x unsigned) field ∧
      format (String.ofList t.written) x unsigned =
        .ok (String.ofList ((t.before ++ (field.text ++ t.after)).take 79)) :=
  ⟨exists_iff, fun t x unsigned =>
    ⟨t.field (t.value x unsigned), t.fills_field _, t.format_written x unsigned⟩⟩

/-- Zeros stand between the base mark and the digits. -/
example : (IntegerTemplate.field ⟨[], ['#', '0'], ['8'], none, [], 'x', [], by simp, by simp,
    by simp, by simp, by simp, by simp⟩ 255).text = "0x0000ff".toList := by
  decide +kernel

end Printf
end ScriptMachine
