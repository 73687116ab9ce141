import ScriptMachine.Expr.Literal
import ScriptMachine.Proofs.Casing

/-!
# Normal forms of expression texts

The normal form of an expression text has small letters everywhere but in its string literals, so two
texts have one normal form when they differ in letter case outside of literals only.  Names, numbers
and references are taken off a normal form in small letters, as long as they are in the text; a string
literal is taken off as it is.

Main results:

- {lit}`Source.normal`: the normal form of an expression text.
- {lit}`Source.normalFrom_congr`: letter case outside of literals makes no difference to it.
- {lit}`Literal.takeIdentifier_normal`: an identifier is taken off in small letters.
- {lit}`Literal.takeNumber_normal`: so is a number.
- {lit}`Literal.takeReference_normal`: so is a reference.
- {lit}`Literal.takeString_normal`: a string literal is taken off as it is.
-/

namespace ScriptMachine

open Text Source

/-! ## Normal forms of texts -/

namespace Source

/-- The text with small letters outside of its string literals, scanned from a quoting. -/
def normalFrom (quoting : Quoting) : List Char → List Char
  | [] => []
  | c :: rest =>
    (if quoting = .outside then c.toLower else c) :: normalFrom (quoting.next c) rest

/-- The text with small letters outside of its string literals. -/
def normal (s : List Char) : List Char :=
  normalFrom .outside s

@[simp] theorem normal_nil : normal [] = [] := rfl

/-- A normal form has as many characters. -/
@[simp] theorem length_normalFrom (quoting : Quoting) (s : List Char) :
    (normalFrom quoting s).length = s.length := by
  induction s generalizing quoting with
  | nil => rfl
  | cons c rest ih => simp [normalFrom, ih]

@[simp] theorem length_normal (s : List Char) : (normal s).length = s.length :=
  length_normalFrom .outside s

/-- A normal form is empty only when the text is. -/
@[simp] theorem isEmpty_normal (s : List Char) : (normal s).isEmpty = s.isEmpty := by
  cases s <;> rfl

/-- Texts with one normal form differ in letter case only. -/
theorem lower_normalFrom (quoting : Quoting) (s : List Char) :
    lower (normalFrom quoting s) = lower s := by
  induction s generalizing quoting with
  | nil => rfl
  | cons c rest ih =>
    rw [normalFrom, lower_cons, ih, lower_cons]
    split
    · rw [toLower_toLower]
    · rfl

/-- The characters of string literals, with the quotes that close them, scanned from a quoting. -/
def quotedFrom (quoting : Quoting) : List Char → List Char
  | [] => []
  | c :: rest =>
    if quoting = .outside then quotedFrom (quoting.next c) rest
    else c :: quotedFrom (quoting.next c) rest

/-- The characters of the string literals of a text. -/
def quoted (s : List Char) : List Char :=
  quotedFrom .outside s

/-- Texts that differ in letter case only have one normal form when their literals are the same. -/
theorem normalFrom_congr {quoting : Quoting} {s t : List Char} (hlower : lower s = lower t)
    (hquoted : quotedFrom quoting s = quotedFrom quoting t) :
    normalFrom quoting s = normalFrom quoting t := by
  induction s generalizing quoting t with
  | nil =>
    cases t with
    | nil => rfl
    | cons d t => cases hlower
  | cons c s ih =>
    cases t with
    | nil => cases hlower
    | cons d t =>
      rw [lower_cons, lower_cons, List.cons.injEq] at hlower
      have hnext : quoting.next c = quoting.next d := by
        rw [← Quoting.next_toLower, hlower.1, Quoting.next_toLower]
      rw [normalFrom, normalFrom]
      rw [quotedFrom, quotedFrom, hnext] at hquoted
      split at hquoted
      · next houtside =>
        rw [if_pos houtside, if_pos houtside, hlower.1, hnext, ih hlower.2 hquoted]
      · next hinside =>
        rw [List.cons.injEq] at hquoted
        rw [if_neg hinside, if_neg hinside, hquoted.1, ih hlower.2 hquoted.2]

/-- Outside of literals, anything but a quote is made small. -/
theorem normal_cons {c : Char} (hc : c ≠ '"') (rest : List Char) :
    normal (c :: rest) = c.toLower :: normal rest := by
  simp [normal, normalFrom, Quoting.next, hc]

/-- A quote begins the normal form where it begins the text. -/
theorem normal_quote (rest : List Char) : normal ('"' :: rest) = '"' :: normalFrom .inside rest :=
  rfl

/-- A text without quotes is in small letters. -/
theorem normal_append {s : List Char} (hs : '"' ∉ s) (rest : List Char) :
    normal (s ++ rest) = lower s ++ normal rest := by
  induction s with
  | nil => rfl
  | cons c others ih =>
    rw [List.mem_cons, not_or] at hs
    rw [List.cons_append, normal_cons (Ne.symm hs.1), ih hs.2]
    rfl

/-- A symbol without case stands at the end of a normal form. -/
theorem normalFrom_concat (quoting : Quoting) (s : List Char) :
    normalFrom quoting (s ++ [')']) = normalFrom quoting s ++ [')'] := by
  induction s generalizing quoting with
  | nil => cases quoting <;> rfl
  | cons c rest ih => rw [List.cons_append, normalFrom, ih, normalFrom, List.cons_append]

/-- The beginning of one kind of characters, without quotes. -/
theorem takeWhile_normal {p : Char → Bool} (hp : ∀ c, p c.toLower = p c) (hquote : p '"' = false)
    (s : List Char) : (normal s).takeWhile p = lower (s.takeWhile p) := by
  induction s with
  | nil => rfl
  | cons c rest ih =>
    by_cases hc : c = '"'
    · subst hc
      simp [normal, normalFrom, hquote, show Char.toLower '"' = '"' from rfl]
    · rw [normal_cons hc, List.takeWhile_cons, List.takeWhile_cons, hp]
      cases p c with
      | false => rfl
      | true => simp [ih]

/-- What follows the beginning of one kind of characters, without quotes. -/
theorem dropWhile_normal {p : Char → Bool} (hp : ∀ c, p c.toLower = p c) (hquote : p '"' = false)
    (s : List Char) : (normal s).dropWhile p = normal (s.dropWhile p) := by
  induction s with
  | nil => rfl
  | cons c rest ih =>
    by_cases hc : c = '"'
    · subst hc
      simp [normal, normalFrom, hquote, show Char.toLower '"' = '"' from rfl]
    · rw [normal_cons hc, List.dropWhile_cons, List.dropWhile_cons, hp]
      cases hpc : p c with
      | false => simp [normal_cons hc]
      | true => simp [ih]

end Source

/-! ## Normal forms of tokens -/

namespace Literal

/-- A character that is no letter is found in the normal form where it is in the text. -/
theorem normal_eq_cons_iff {c : Char} (hc : c.isAlpha = false) (hquote : c ≠ '"') (s : List Char) :
    (∃ rest, normal s = c :: rest) ↔ ∃ rest, s = c :: rest := by
  cases s with
  | nil => simp
  | cons d rest =>
    by_cases hd : d = '"'
    · subst hd
      simp [normal, normalFrom, show Char.toLower '"' = '"' from rfl, hquote.symm]
    · simp [normal_cons hd, toLower_eq_iff hc]

/-- An identifier is taken off the normal form in small letters. -/
theorem takeIdentifier_normal (s : List Char) : takeIdentifier (normal s) =
    (takeIdentifier s).map fun (name, rest) => (fold name, normal rest) := by
  cases s with
  | nil => rfl
  | cons c rest =>
    by_cases hc : c = '"'
    · subst hc
      rfl
    · rw [normal_cons hc, takeIdentifier, takeIdentifier, isNameStart_toLower,
        takeWhile_normal isNameChar_toLower rfl, dropWhile_normal isNameChar_toLower rfl]
      split
      · simp only [Option.map_some, fold_ofList, lower_cons]
      · rfl

/-- Digits are split off the normal form. -/
theorem spanDigits_normal (s : List Char) : Number.spanDigits (normal s) =
    ((Number.spanDigits s).1, normal (Number.spanDigits s).2) := by
  rw [Number.spanDigits, takeWhile_normal isDigit_toLower rfl, dropWhile_normal isDigit_toLower rfl,
    Number.lower_digits (List.all_eq_true.1 List.all_takeWhile)]
  rfl

/-- The sign of an exponent, if there is one. -/
def signOf (body : List Char) : List Char :=
  body.take (if body.head?.any (fun c => c == '+' || c == '-') then 1 else 0)

/-- Signs have no case. -/
theorem signOf_normal (body : List Char) : signOf (normal body) = signOf body ∧
    lower (signOf body) = signOf body ∧
      (normal body).drop (signOf body).length = normal (body.drop (signOf body).length) := by
  cases body with
  | nil => exact ⟨rfl, rfl, rfl⟩
  | cons c rest =>
    by_cases hquote : c = '"'
    · subst hquote
      exact ⟨rfl, rfl, rfl⟩
    have hsign := of_toLower (fun c => c == '+' || c == '-') (by decide) c
    rw [normal_cons hquote]
    cases hc : c == '+' || c == '-' with
    | false => simp_all [signOf, normal_cons hquote]
    | true =>
      have hlow : c.toLower = c := by
        simp only [Bool.or_eq_true, beq_iff_eq] at hc
        rcases hc with rfl | rfl <;> rfl
      simp [signOf, hc, hlow]

/-- An exponent is taken off the normal form in small letters. -/
theorem takeExponent_normal (s : List Char) : takeExponent (normal s) =
    (lower (takeExponent s).1, normal (takeExponent s).2) := by
  have hmarked : ∀ (mark : Char) (body : List Char), takeExponent (mark :: body) =
      if mark == 'e' || mark == 'E' then
        if (Number.spanDigits (body.drop (signOf body).length)).1.isEmpty then ([], mark :: body)
        else (mark :: signOf body ++ (Number.spanDigits (body.drop (signOf body).length)).1,
          (Number.spanDigits (body.drop (signOf body).length)).2)
      else ([], mark :: body) := fun _ _ => rfl
  cases s with
  | nil => rfl
  | cons mark body =>
    by_cases hquote : mark = '"'
    · subst hquote
      rfl
    rcases signOf_normal body with ⟨hsign, hlower, hdrop⟩
    have hdigits : lower (Number.spanDigits (body.drop (signOf body).length)).1 =
        (Number.spanDigits (body.drop (signOf body).length)).1 :=
      Number.lower_digits (List.all_eq_true.1 List.all_takeWhile)
    rw [normal_cons hquote, hmarked, hmarked, Number.isMark_toLower, hsign, hdrop, spanDigits_normal]
    split
    · split
      · rw [lower_nil, normal_cons hquote]
      · rw [lower_append, lower_cons, hlower, hdigits]
    · rw [lower_nil, normal_cons hquote]

/-- A number with a point behind its first digits. -/
theorem takeNumber_of_point {s tail : List Char} (h : (Number.spanDigits s).2 = '.' :: tail) :
    takeNumber s =
      if (Number.spanDigits s).1.isEmpty && (Number.spanDigits tail).1.isEmpty then none
      else some ((Number.spanDigits s).1 ++ '.' :: (Number.spanDigits tail).1 ++
        (takeExponent (Number.spanDigits tail).2).1, (takeExponent (Number.spanDigits tail).2).2) := by
  unfold takeNumber
  generalize Number.spanDigits s = parts at h
  rcases parts with ⟨whole, rest⟩
  simp only at h
  subst h
  rfl

/-- A number without a point. -/
theorem takeNumber_of_no_point {s : List Char}
    (h : ∀ tail, (Number.spanDigits s).2 ≠ '.' :: tail) : takeNumber s =
      if (Number.spanDigits s).1.isEmpty then none
      else some ((Number.spanDigits s).1 ++ (takeExponent (Number.spanDigits s).2).1,
        (takeExponent (Number.spanDigits s).2).2) := by
  unfold takeNumber
  generalize Number.spanDigits s = parts at h
  rcases parts with ⟨whole, rest⟩
  simp only at h ⊢

/-- A number is taken off the normal form in small letters. -/
theorem takeNumber_normal (s : List Char) : takeNumber (normal s) =
    (takeNumber s).map fun (digits, rest) => (lower digits, normal rest) := by
  have hdigits : ∀ s, lower (Number.spanDigits s).1 = (Number.spanDigits s).1 := fun s =>
    Number.lower_digits (List.all_eq_true.1 List.all_takeWhile)
  have hsplit := spanDigits_normal s
  by_cases hpoint : ∃ tail, (Number.spanDigits s).2 = '.' :: tail
  · rcases hpoint with ⟨tail, htail⟩
    have hnormal : (Number.spanDigits (normal s)).2 = '.' :: normal tail := by
      rw [hsplit, htail, normal_cons (by decide)]
      rfl
    rw [takeNumber_of_point htail, takeNumber_of_point hnormal, hsplit, spanDigits_normal,
      takeExponent_normal]
    split
    · rfl
    · simp only [Option.map_some, lower_append, lower_cons, hdigits]
      rfl
  · have hnormal : ∀ tail, (Number.spanDigits (normal s)).2 ≠ '.' :: tail := by
      intro tail heq
      rw [hsplit] at heq
      exact hpoint ((normal_eq_cons_iff rfl (by decide) _).1 ⟨tail, heq⟩)
    rw [takeNumber_of_no_point hnormal, takeNumber_of_no_point fun tail heq => hpoint ⟨tail, heq⟩,
      hsplit, takeExponent_normal]
    split
    · rfl
    · simp only [Option.map_some, lower_append, hdigits]

/-- Hexadecimal digits may be capitals. -/
@[simp] theorem isHexDigit_toLower (c : Char) : isHexDigit c.toLower = isHexDigit c :=
  of_toLower isHexDigit (by decide) c

/-- A reference is taken off the normal form in small letters. -/
theorem takeReference_normal (s : List Char) : takeReference (normal s) =
    (takeReference s).map fun (digits, rest) => (lower digits, normal rest) := by
  cases s with
  | nil => rfl
  | cons c rest =>
    by_cases hquote : c = '"'
    · subst hquote
      rfl
    by_cases hsign : c = '#'
    · subst hsign
      rw [normal_cons (by decide)]
      simp only [show Char.toLower '#' = '#' from rfl, takeReference, isEmpty_lower,
        takeWhile_normal isHexDigit_toLower rfl, dropWhile_normal isHexDigit_toLower rfl]
      split <;> rfl
    · have hlow : c.toLower ≠ '#' := fun heq => hsign ((toLower_eq_iff rfl).1 heq)
      rw [normal_cons hquote, takeReference, takeReference] <;> simp [hsign, hlow]

/-- A string is taken off the normal form as it is. -/
theorem takeQuoted_normal (s : List Char) : takeQuoted (normalFrom .inside s) =
    (takeQuoted s).map fun (text, rest) => (text, normal rest) := by
  induction s using takeQuoted.induct with
  | case1 => rfl
  | case2 rest => rfl
  | case3 => rfl
  | case4 c rest ih =>
    have hinside : normalFrom .inside ('\\' :: c :: rest) = '\\' :: c :: normalFrom .inside rest := rfl
    rw [hinside, takeQuoted, takeQuoted, ih]
    cases takeQuoted rest <;> rfl
  | case5 c rest hquote hslash hother ih =>
    have hback : c ≠ '\\' := by
      intro hc
      cases rest with
      | nil => exact hslash hc rfl
      | cons d others => exact hother d others hc rfl
    have hinside : normalFrom .inside (c :: rest) = c :: normalFrom .inside rest := by
      have hne : c ≠ '"' := hquote
      simp [normalFrom, Quoting.next, hne, hback]
    rw [hinside, takeQuoted.eq_5 _ _ hquote (fun hc _ => hback hc) (fun _ _ hc _ => hback hc), ih,
      takeQuoted.eq_5 _ _ hquote hslash hother]
    cases takeQuoted rest <;> rfl

/-- A string literal is taken off the normal form as it is. -/
theorem takeString_normal (s : List Char) : takeString (normal s) =
    (takeString s).map fun (text, rest) => (text, normal rest) := by
  cases s with
  | nil => rfl
  | cons c rest =>
    by_cases hquote : c = '"'
    · subst hquote
      rw [normal_quote, takeString, takeString, takeQuoted_normal]
      cases takeQuoted rest <;> rfl
    · have hlow : c.toLower ≠ '"' := fun heq => hquote ((toLower_eq_iff rfl).1 heq)
      rw [normal_cons hquote, takeString, takeString] <;> simp [hquote, hlow]

end Literal
end ScriptMachine
