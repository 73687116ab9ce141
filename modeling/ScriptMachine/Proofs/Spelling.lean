import ScriptMachine.Proofs.Rendering

/-!
# Literals are taken off a text

A literal, or a name, is taken as a whole if what follows it is no part of a token: neither a
character of a name nor a point.  The digits of a number literal always have a value.

Main results:

- {lit}`Literal.takeNumber_append`, {lit}`Literal.takeReference_append`,
  {lit}`Literal.takeQuoted_append` and {lit}`Literal.takeIdentifier_append`: each kind of token is
  taken off.
- {lit}`Number.isSome_parse?`: a number literal has a value.
-/

namespace ScriptMachine

open Text

namespace Literal

/-- A token ends here: neither a character of a name nor a point follows. -/
def Ended (rest : List Char) : Prop :=
  ∀ c ∈ rest.head?, isNameChar c = false ∧ c ≠ '.'

/-- All characters of one kind are taken, up to the first one of another kind. -/
theorem takeWhile_append_of_head {p : Char → Bool} {s rest : List Char} (h : ∀ c ∈ s, p c = true)
    (hrest : ∀ c ∈ rest.head?, p c = false) : (s ++ rest).takeWhile p = s := by
  rw [List.takeWhile_append_of_pos h]
  cases rest with
  | nil => simp
  | cons c rest => simp [hrest c rfl]

/-- What is left then begins with that character. -/
theorem dropWhile_append_of_head {p : Char → Bool} {s rest : List Char} (h : ∀ c ∈ s, p c = true)
    (hrest : ∀ c ∈ rest.head?, p c = false) : (s ++ rest).dropWhile p = rest := by
  rw [List.dropWhile_append_of_pos h]
  cases rest with
  | nil => simp
  | cons c rest => simp [hrest c rfl]

/-- A digit may stand in a name. -/
theorem isNameChar_of_isDigit {c : Char} (h : c.isDigit = true) : isNameChar c = true := by
  simp [isNameChar, Char.isAlphanum, h]

/-- No digit follows the end of a token. -/
theorem Ended.isDigit {rest : List Char} (h : Ended rest) : ∀ c ∈ rest.head?, c.isDigit = false := by
  intro c hc
  rw [Bool.eq_false_iff]
  intro hdigit
  have hnot := (h c hc).1
  rw [isNameChar_of_isDigit hdigit] at hnot
  cases hnot

/-- An identifier is taken off a text. -/
theorem takeIdentifier_append {identifier : String} {rest : List Char}
    (h : isIdentifier identifier.toList = true) (hrest : Ended rest) :
    takeIdentifier (identifier.toList ++ rest) = some (identifier, rest) := by
  rcases exists_cons_of_isIdentifier h with ⟨c, others, hcons, hstart, hothers⟩
  have hend : ∀ c ∈ rest.head?, isNameChar c = false := fun c hc => (hrest c hc).1
  have hname : String.ofList (c :: others) = identifier := by
    rw [← hcons, String.ofList_toList]
  rw [hcons, List.cons_append, takeIdentifier, if_pos hstart,
    takeWhile_append_of_head hothers hend, dropWhile_append_of_head hothers hend, hname]

/-- Nothing else begins an identifier. -/
theorem takeIdentifier_cons_of_not {c : Char} (h : isNameStart c = false) (rest : List Char) :
    takeIdentifier (c :: rest) = none := by
  simp [takeIdentifier, h]

/-- Digits are split off a text. -/
theorem spanDigits_append {digits rest : List Char} (h : Digits digits)
    (hrest : ∀ c ∈ rest.head?, c.isDigit = false) :
    Number.spanDigits (digits ++ rest) = (digits, rest) := by
  rw [Number.spanDigits, takeWhile_append_of_head h hrest, dropWhile_append_of_head h hrest]

/-- An exponent is taken off a text. -/
theorem takeExponent_append {exponent rest : List Char} (h : Exponent exponent) (hrest : Ended rest) :
    takeExponent (exponent ++ rest) = (exponent, rest) := by
  cases h with
  | none =>
    cases rest with
    | nil => rfl
    | cons c rest =>
      have hc : (c == 'e' || c == 'E') = false := by
        rw [Bool.eq_false_iff]
        intro hmark
        have hnot := (hrest c rfl).1
        simp only [Bool.or_eq_true, beq_iff_eq] at hmark
        rcases hmark with rfl | rfl <;> cases hnot
      simp [takeExponent, hc]
  | @marked mark sign digits hmark hsign h hne =>
    have hspan := spanDigits_append h hrest.isDigit
    have hfirst : ∃ d others, digits = d :: others ∧ (d == '+' || d == '-') = false := by
      cases digits with
      | nil => exact absurd rfl hne
      | cons d others =>
        refine ⟨d, others, rfl, ?_⟩
        rw [Bool.eq_false_iff]
        intro hd
        have hdigit := h d (by simp)
        simp only [Bool.or_eq_true, beq_iff_eq] at hd
        rcases hd with rfl | rfl <;> cases hdigit
    have hmarked : (mark == 'e' || mark == 'E') = true := by
      rcases hmark with rfl | rfl <;> rfl
    rcases hsign with rfl | rfl | rfl
    · rcases hfirst with ⟨d, others, rfl, hd⟩
      simp only [List.nil_append, List.cons_append] at hspan ⊢
      simp [takeExponent, hmarked, hd, hspan]
    · simp [takeExponent, hmarked, hspan, hne]
    · simp [takeExponent, hmarked, hspan, hne]

/-- What follows the digits of a number is neither a digit nor a point. -/
theorem head_of_exponent {exponent rest : List Char} (h : Exponent exponent) (hrest : Ended rest) :
    ∀ c ∈ (exponent ++ rest).head?, c.isDigit = false ∧ c ≠ '.' := by
  intro c hc
  cases h with
  | none => exact ⟨hrest.isDigit c hc, (hrest c hc).2⟩
  | marked hmark =>
    cases hc
    rcases hmark with rfl | rfl <;> decide

/-- A number is taken off a text. -/
theorem takeNumber_append {s rest : List Char} (h : NumberText s) (hrest : Ended rest) :
    takeNumber (s ++ rest) = some (s, rest) := by
  rcases h with ⟨mantissa, exponent, hmantissa, hexponent, rfl⟩
  have hhead := head_of_exponent hexponent hrest
  have htaken := takeExponent_append hexponent hrest
  rw [List.append_assoc]
  cases hmantissa with
  | whole h hne =>
    have hspan := spanDigits_append h fun c hc => (hhead c hc).1
    unfold takeNumber
    rw [hspan]
    simp only
    split
    · next tail heq => exact absurd rfl (hhead '.' (by rw [heq]; rfl)).2
    · simp [hne, htaken]
  | @point whole fraction hwhole hfraction hne =>
    have hspan : Number.spanDigits (whole ++ '.' :: (fraction ++ (exponent ++ rest))) =
        (whole, '.' :: (fraction ++ (exponent ++ rest))) :=
      spanDigits_append hwhole fun c hc => by cases hc; rfl
    have hspan' := spanDigits_append hfraction fun c hc => (hhead c hc).1
    have hempty : (whole.isEmpty && fraction.isEmpty) = false := by
      rw [Bool.eq_false_iff]
      intro hboth
      simp only [Bool.and_eq_true, List.isEmpty_iff] at hboth
      rcases hne with hne | hne
      · exact hne hboth.1
      · exact hne hboth.2
    unfold takeNumber
    rw [List.append_assoc, List.cons_append, hspan]
    simp [hspan', hempty, htaken]

/-- Only digits and a point begin a number. -/
theorem takeNumber_cons_of_not {c : Char} (h : c.isDigit = false) (hpoint : c ≠ '.')
    (rest : List Char) : takeNumber (c :: rest) = none := by
  unfold takeNumber
  simp only [Number.spanDigits, List.takeWhile_cons, List.dropWhile_cons, h, Bool.false_eq_true,
    if_false]
  split
  · next tail heq => exact absurd (List.cons.inj heq).1 hpoint
  · rfl

/-- A reference is taken off a text. -/
theorem takeReference_append {digits rest : List Char} (h : ∀ c ∈ digits, isHexDigit c = true)
    (hne : digits ≠ []) (hrest : Ended rest) :
    takeReference ('#' :: (digits ++ rest)) = some (digits, rest) := by
  have hend : ∀ c ∈ rest.head?, isHexDigit c = false := by
    intro c hc
    rw [Bool.eq_false_iff]
    intro hhex
    have hnot := (hrest c hc).1
    have hname : isNameChar c = true := by
      simp only [isHexDigit, Bool.or_eq_true, Bool.and_eq_true, decide_eq_true_eq] at hhex
      rcases hhex with (hdigit | ⟨hlow, hhigh⟩) | ⟨hlow, hhigh⟩
      · simp [isNameChar, Char.isAlphanum, hdigit]
      · have hz : c ≤ 'z' := Char.le_trans hhigh (by decide)
        have hletter : c.isAlpha = true :=
          Bool.or_eq_true_iff.2 (.inr (Bool.and_eq_true_iff.2 ⟨decide_eq_true hlow, decide_eq_true hz⟩))
        simp [isNameChar, Char.isAlphanum, hletter]
      · have hz : c ≤ 'Z' := Char.le_trans hhigh (by decide)
        have hletter : c.isAlpha = true := Bool.or_eq_true_iff.2 (.inl (decide_eq_true ⟨hlow, hz⟩))
        simp [isNameChar, Char.isAlphanum, hletter]
    rw [hname] at hnot
    cases hnot
  unfold takeReference
  simp [takeWhile_append_of_head h hend, dropWhile_append_of_head h hend, hne]

/-- Nothing else begins a reference. -/
theorem takeReference_cons_of_ne {c : Char} (h : c ≠ '#') (rest : List Char) :
    takeReference (c :: rest) = none := by
  unfold takeReference
  split
  · next heq => exact absurd (List.cons.inj heq).1 h
  · rfl

/-- However a string is spelled, it is taken off a text. -/
theorem takeQuoted_append {s w : List Char} (h : Spelled s w) (rest : List Char) :
    takeQuoted (w ++ '"' :: rest) = some (s, rest) := by
  induction h with
  | nil => rfl
  | plain hquote hslash h ih =>
    rw [List.cons_append, takeQuoted]
    · simp [ih]
    · exact fun hc => hquote hc
    · exact fun hc _ => hslash hc
    · exact fun d r hc => absurd hc hslash
  | quote h ih | backslash h ih | newline h ih | tab h ih => simp [takeQuoted, ih, unescape]
  | needless hfeed htab h ih => simp [takeQuoted, ih, unescape, hfeed, htab]

/-- Nothing else begins a string. -/
theorem takeString_cons_of_ne {c : Char} (h : c ≠ '"') (rest : List Char) :
    takeString (c :: rest) = none := by
  unfold takeString
  split
  · next heq => exact absurd (List.cons.inj heq).1 h
  · rfl

end Literal

/-! ## Values of number literals -/

namespace Number

open Literal

/-- What begins like the digits of a number has no sign. -/
theorem spanSign_cons {c : Char} (h : c.isDigit = true ∨ c = '.') (rest : List Char) :
    spanSign (c :: rest) = (false, c :: rest) := by
  rcases h with h | rfl
  · unfold spanSign
    split
    · next heq =>
      rw [(List.cons.inj heq).1] at h
      cases h
    · next heq =>
      rw [(List.cons.inj heq).1] at h
      cases h
    · rfl
  · rfl

/-- An exponent has a value. -/
theorem isSome_parseExponent? {exponent : List Char} (h : Exponent exponent) :
    (parseExponent? exponent).isSome = true := by
  have hspan : ∀ {digits : List Char}, Digits digits → spanDigits digits = (digits, []) := by
    intro digits h
    have hspan := spanDigits_append h (show ∀ c ∈ ([] : List Char).head?, c.isDigit = false by simp)
    rw [List.append_nil] at hspan
    exact hspan
  cases h with
  | none => rfl
  | @marked mark sign digits hmark hsign h hne =>
    have hmarked : (mark == 'e' || mark == 'E') = true := by
      rcases hmark with rfl | rfl <;> rfl
    rcases hsign with rfl | rfl | rfl
    · have hsigned : spanSign digits = (false, digits) := by
        cases digits with
        | nil => rfl
        | cons d others => exact spanSign_cons (.inl (h d (by simp))) others
      simp [parseExponent?, hmarked, hsigned, hspan h, hne]
    · simp [parseExponent?, hmarked, spanSign, hspan h, hne]
    · simp [parseExponent?, hmarked, spanSign, hspan h, hne]

/-- The digits of a number literal have a value. -/
theorem isSome_parseDecimal? {s : List Char} (h : NumberText s) :
    (parseDecimal? s).isSome = true := by
  rcases h with ⟨mantissa, exponent, hmantissa, hexponent, rfl⟩
  rcases Option.isSome_iff_exists.1 (isSome_parseExponent? hexponent) with ⟨value, hvalue⟩
  have hhead := head_of_exponent hexponent (show Ended [] by simp [Ended])
  rw [List.append_nil] at hhead
  have hsplit : ∃ whole fraction, spanMantissa (mantissa ++ exponent) =
      some (whole, fraction, exponent) := by
    cases hmantissa with
    | whole h hne =>
      refine ⟨mantissa, [], ?_⟩
      unfold spanMantissa
      rw [spanDigits_append h fun c hc => (hhead c hc).1]
      simp only
      split
      · next tail => exact absurd rfl (hhead '.' rfl).2
      · simp [hne]
    | @point whole fraction hwhole hfraction hne =>
      have hspan : spanDigits (whole ++ '.' :: (fraction ++ exponent)) =
          (whole, '.' :: (fraction ++ exponent)) :=
        spanDigits_append hwhole fun c hc => by cases hc; rfl
      refine ⟨whole, fraction, ?_⟩
      unfold spanMantissa
      rw [List.append_assoc, List.cons_append, hspan]
      simp only [spanDigits_append hfraction fun c hc => (hhead c hc).1]
      rw [if_neg]
      simpa [Decidable.imp_iff_not_or] using hne
  rcases hsplit with ⟨whole, fraction, hsplit⟩
  simp [parseDecimal?, hsplit, hvalue]

/-- A number literal has a value. -/
theorem isSome_parse? {s : List Char} (h : NumberText s) : (parse? s).isSome = true := by
  rcases h.exists_cons with ⟨c, rest, hcons, hc⟩
  have hunsigned : spanSign s = (false, s) := by
    rw [hcons]
    exact spanSign_cons hc rest
  have hsome : (parseMagnitude? s).isSome = true := by
    unfold parseMagnitude?
    simp only
    split
    · rfl
    · split
      · rfl
      · exact isSome_parseDecimal? h
  simpa [parse?, hunsigned] using hsome

end Number
end ScriptMachine
