import ScriptMachine.Proofs.Parsing

/-!
# What parsers have read

Whatever a parser of the grammar answers with is written in the text that it has read: its answer
has a text, and the parser has read that text with blanks around it.  So an expression is accepted
only in one of the ways in which it can be written.

Main results:

- {lit}`Parser.Yields`: the answers of a parser and the texts that it reads for them.
- {lit}`Parser.Yields.many`: a repetition has read one item after another.
- {lit}`Grammar.expression_yields`: expressions are read only from their texts.
- {lit}`Term.parse_eq_ok_iff`: the sources that are accepted.
-/

namespace ScriptMachine

open Text

/-- Blanks behind blanks. -/
theorem Blanks.append {s t : List Char} (hs : Blanks s) (ht : Blanks t) : Blanks (s ++ t) := by
  intro c hc
  rcases List.mem_append.1 hc with hc | hc
  · exact hs c hc
  · exact ht c hc

/-- No text is blank. -/
theorem Blanks.nil : Blanks [] :=
  fun _ hc => absurd hc List.not_mem_nil

/-! ## Characters -/

/-- A visible ASCII character is not blank. -/
theorem isBlank_of_visible {c : Char} (hlow : 33 ≤ c.toNat) (hhigh : c.toNat ≤ 126) :
    isBlank c = false := by
  rw [Bool.eq_false_iff]
  intro hblank
  simp [isBlank, blankRanges] at hblank
  omega

/-- The characters of a name are letters, digits and underscores. -/
theorem isNameChar_eq (c : Char) :
    isNameChar c = (c.isUpper || c.isLower || c.isDigit || c == '_') :=
  rfl

/-- A character of a name is not blank. -/
theorem isBlank_of_isNameChar {c : Char} (h : isNameChar c = true) : isBlank c = false := by
  have hvisible : ∀ {low high : Char}, low ≤ c ∧ c ≤ high → 33 ≤ low.toNat → high.toNat ≤ 126 →
      isBlank c = false := fun hbounds hlow hhigh =>
    isBlank_of_visible (Nat.le_trans hlow (UInt32.le_iff_toNat_le.1 hbounds.1))
      (Nat.le_trans (UInt32.le_iff_toNat_le.1 hbounds.2) hhigh)
  have hboth : ∀ {p q : Prop} [Decidable p] [Decidable q], (decide p && decide q) = true → p ∧ q :=
    fun hpq => (Bool.and_eq_true_iff.1 hpq).imp of_decide_eq_true of_decide_eq_true
  simp only [isNameChar_eq, Bool.or_eq_true, beq_iff_eq] at h
  rcases h with ((hupper | hlower) | hdigit) | rfl
  · exact @hvisible 'A' 'Z' (of_decide_eq_true hupper) (by decide) (by decide)
  · exact @hvisible 'a' 'z' (hboth hlower) (by decide) (by decide)
  · exact @hvisible '0' '9' (hboth hdigit) (by decide) (by decide)
  · decide

/-- A character that begins a name may stand in it. -/
theorem isNameChar_of_isNameStart {c : Char} (h : isNameStart c = true) : isNameChar c = true := by
  simp only [isNameStart, isNameChar, Char.isAlphanum, Bool.or_eq_true] at h ⊢
  rcases h with h | h
  · exact .inl (.inl h)
  · exact .inr h

/-- Only characters of names stand in an identifier. -/
theorem isNameChar_of_isIdentifier {s : List Char} (h : isIdentifier s = true) :
    ∀ c ∈ s, isNameChar c = true := by
  rcases exists_cons_of_isIdentifier h with ⟨c, rest, rfl, hstart, hrest⟩
  exact List.forall_mem_cons.2 ⟨isNameChar_of_isNameStart hstart, hrest⟩

/-- The text of a term does not begin with a blank. -/
theorem isBlank_of_begins {level : Level} {c : Char} (h : level.begins c = true) :
    isBlank c = false := by
  have hterm : beginsTerm c = true := by
    cases level <;> simp_all [Level.begins, beginsTerm]
  simp only [beginsTerm, beginsOperand, Bool.or_eq_true, List.contains_iff_mem, List.mem_cons,
    List.not_mem_nil, or_false] at hterm
  rcases hterm with (hname | rfl | rfl | rfl | rfl) | rfl | rfl
  · rcases hname with hname | hdigit
    · exact isBlank_of_isNameChar (isNameChar_of_isNameStart hname)
    · exact isBlank_of_isNameChar (Literal.isNameChar_of_isDigit hdigit)
  all_goals decide

namespace Parser

variable {α β γ : Type}

/-! ## Answers and what was read for them -/

/-- Each answer of the parser stands in a relation to the text that was read for it. -/
def Yields (p : Parser α) (W : α → List Char → Prop) : Prop :=
  ∀ ⦃cursor attempts x next attempts'⦄, p cursor attempts = (some (x, next), attempts') →
    ∃ w, cursor.rest = w ++ next.rest ∧ W x w

section Yields

variable {p q : Parser α} {f : α → Parser β} {W V : α → List Char → Prop} {U : β → List Char → Prop}

/-- What was read for an answer has weaker properties too. -/
theorem Yields.mono (h : p.Yields W) (hle : ∀ x w, W x w → V x w) : p.Yields V := by
  intro cursor attempts x next attempts' hrun
  rcases h hrun with ⟨w, hrest, hw⟩
  exact ⟨w, hrest, hle x w hw⟩

/-- Nothing was read for an answer that is given at once. -/
theorem Yields.pure {x : α} (h : W x []) : (Pure.pure x : Parser α).Yields W := by
  intro cursor attempts y next attempts' hrun
  cases hrun
  exact ⟨[], rfl, h⟩

/-- A parser that fails gives no answer. -/
theorem Yields.fail : (Parser.fail : Parser α).Yields W := by
  intro cursor attempts x next attempts' hrun
  cases hrun

/-- An answer of one parser behind another comes from answers of both. -/
theorem exists_of_bind {cursor next : Cursor} {attempts attempts' : Attempts} {y : β}
    (h : (p >>= f) cursor attempts = (some (y, next), attempts')) :
    ∃ x between tried, p cursor attempts = (some (x, between), tried) ∧
      f x between tried = (some (y, next), attempts') := by
  change Parser.bind p f cursor attempts = _ at h
  unfold Parser.bind at h
  cases hp : p cursor attempts with
  | mk answer tried =>
    rw [hp] at h
    cases answer with
    | none => cases h
    | some result => exact ⟨result.1, result.2, tried, rfl, h⟩

/-- One parser behind another reads one text behind another. -/
theorem Yields.bind (h : p.Yields W)
    (hf : ∀ x w, W x w → (f x).Yields fun y v => U y (w ++ v)) : (p >>= f).Yields U := by
  intro cursor attempts y next attempts' hrun
  rcases exists_of_bind hrun with ⟨x, between, tried, hp, hlast⟩
  rcases h hp with ⟨w, hrest, hw⟩
  rcases hf x w hw hlast with ⟨v, hbetween, hv⟩
  exact ⟨w ++ v, by rw [hrest, hbetween, List.append_assoc], hv⟩

/-- An answer is changed, and what was read is not. -/
theorem Yields.map {f : α → β} (h : p.Yields W) (hf : ∀ x w, W x w → U (f x) w) :
    (p >>= fun x => Pure.pure (f x)).Yields U :=
  h.bind fun x w hw => .pure (by rw [List.append_nil]; exact hf x w hw)

/-- An answer of a choice is one of either parser. -/
theorem Yields.or (hp : p.Yields W) (hq : q.Yields W) : (Parser.or p q).Yields W := by
  intro cursor attempts x next attempts' hrun
  unfold Parser.or at hrun
  cases h : p cursor attempts with
  | mk answer tried =>
    rw [h] at hrun
    cases answer with
    | none => exact hq hrun
    | some result =>
      cases hrun
      exact hp h

/-- Nothing was read for what is missing. -/
theorem Yields.optional {U : Option α → List Char → Prop} (h : p.Yields fun x w => U (some x) w)
    (hnone : U none []) : (Parser.optional p).Yields U := by
  intro cursor attempts y next attempts' hrun
  unfold Parser.optional at hrun
  cases hp : p cursor attempts with
  | mk answer tried =>
    rw [hp] at hrun
    cases answer with
    | none =>
      cases hrun
      exact ⟨[], rfl, hnone⟩
    | some result =>
      cases hrun
      exact h hp

/-- A rule answers as its parser does. -/
theorem eq_of_named {rule : Rule} {cursor next : Cursor} {attempts attempts' : Attempts} {x : α}
    (h : Parser.named rule p cursor attempts = (some (x, next), attempts')) :
    p cursor attempts = (some (x, next), attempts') := by
  unfold Parser.named at h
  cases hp : p cursor attempts with
  | mk answer tried =>
    rw [hp] at h
    cases answer with
    | none => cases h
    | some result => exact h

/-- What a rule has read is what its parser has read. -/
theorem Yields.named (h : p.Yields W) (rule : Rule) : (Parser.named rule p).Yields W :=
  fun _ _ _ _ _ hrun => h (eq_of_named hrun)

/-- A function on texts is taken at its word. -/
theorem Yields.take {f : List Char → Option (α × List Char)}
    (h : ∀ s x r, f s = some (x, r) → ∃ w, s = w ++ r ∧ W x w) : (Parser.take f).Yields W := by
  intro cursor attempts x next attempts' hrun
  unfold Parser.take at hrun
  cases hf : f cursor.rest with
  | none =>
    rw [hf] at hrun
    cases hrun
  | some result =>
    rcases result with ⟨y, r⟩
    rw [hf] at hrun
    cases hrun
    exact h _ _ _ hf

end Yields

/-! ## Pieces of text -/

/-- Skipping reads blanks. -/
theorem skip_yields : skip.Yields fun _ w => Blanks w := by
  refine .take fun s x r h => ?_
  cases h
  refine ⟨s.takeWhile fun c => c == ' ' || c == '\t', List.takeWhile_append_dropWhile.symm, ?_⟩
  intro c hc
  have hblank := List.all_eq_true.1 List.all_takeWhile c hc
  simpa using hblank

/-- Blanks are skipped in front of something else. -/
theorem Yields.skip_bind {f : Parser β} {U : β → List Char → Prop}
    (hf : ∀ gap, Blanks gap → f.Yields fun y v => U y (gap ++ v)) : (skip >>= fun _ => f).Yields U :=
  skip_yields.bind fun _ gap hgap => hf gap hgap

/-- What stands behind a given beginning. -/
theorem eq_of_behind? {start s r : List Char} (h : behind? start s = some r) : s = start ++ r := by
  induction start generalizing s with
  | nil =>
    cases h
    rfl
  | cons c start ih =>
    cases s with
    | nil => cases h
    | cons d rest =>
      unfold behind? at h
      split at h
      · next heq => rw [ih h, heq, List.cons_append]
      · cases h

/-- The given characters are read. -/
theorem literal_yields (text : String) : (literal text).Yields fun _ w => w = text.toList := by
  refine .take fun s x r h => ?_
  rcases Option.map_eq_some_iff.1 h with ⟨rest, hrest, heq⟩
  cases heq
  exact ⟨text.toList, eq_of_behind? hrest, rfl⟩

/-- The symbol that belongs to the answer is read. -/
theorem oneOf_yields (symbols : List (String × α)) :
    (oneOf symbols).Yields fun x w => ∃ symbol, (symbol, x) ∈ symbols ∧ w = symbol.toList := by
  induction symbols with
  | nil => exact .fail
  | cons first others ih =>
    rcases first with ⟨symbol, y⟩
    refine .or ((literal_yields symbol).map fun _ w hw => ⟨symbol, List.mem_cons_self, hw⟩)
      (ih.mono ?_)
    rintro x w ⟨other, hmem, hw⟩
    exact ⟨other, List.mem_cons_of_mem _ hmem, hw⟩

/-- Only the end of the source is the end. -/
theorem rest_of_endOfInput {cursor next : Cursor} {attempts attempts' : Attempts} {x : Unit}
    (h : endOfInput cursor attempts = (some (x, next), attempts')) : next.rest = [] := by
  unfold endOfInput take at h
  cases hrest : cursor.rest with
  | nil =>
    rw [hrest] at h
    cases h
    rfl
  | cons c rest =>
    rw [hrest] at h
    cases h

/-! ## Repetition -/

/-- Texts of items one behind the other, each behind blanks. -/
inductive Run (W : α → List Char → Prop) : List α → List Char → Prop where
  | nil : Run W [] []
  | cons {x : α} {xs : List α} {gap w v : List Char} (hgap : Blanks gap) (hw : W x w)
      (h : Run W xs v) : Run W (x :: xs) (gap ++ w ++ v)

/-- A repetition of further items reads one behind the other. -/
theorem Yields.manyMore {item : Parser α} {W : α → List Char → Prop} (h : item.Yields W)
    (bound : Nat) : (Parser.manyMore item bound).Yields (Run W) := by
  induction bound with
  | zero => exact .pure .nil
  | succ bound ih =>
    intro cursor attempts xs next attempts' hrun
    have hitem : (skip.bind fun _ => item).Yields fun x w =>
        ∃ gap v, Blanks gap ∧ W x v ∧ w = gap ++ v :=
      Yields.skip_bind fun gap hgap => h.mono fun x v hv => ⟨gap, v, hgap, hv, rfl⟩
    unfold Parser.manyMore at hrun
    cases hfirst : (skip.bind fun _ => item) cursor attempts with
    | mk answer tried =>
      simp only [hfirst] at hrun
      cases answer with
      | none =>
        cases hrun
        exact ⟨[], rfl, .nil⟩
      | some result =>
        rcases result with ⟨x, between⟩
        rcases hitem hfirst with ⟨w, hrest, gap, v, hgap, hv, rfl⟩
        simp only at hrun
        cases hothers : Parser.manyMore item bound between tried with
        | mk answer tried' =>
          simp only [hothers] at hrun
          cases answer with
          | none => cases hrun
          | some result =>
            rcases result with ⟨others, last⟩
            cases hrun
            rcases ih hothers with ⟨u, hbetween, hu⟩
            exact ⟨gap ++ v ++ u, by rw [hrest, hbetween, List.append_assoc _ u], .cons hgap hv hu⟩

/-- A repetition reads one item behind the other. -/
theorem Yields.many {item : Parser α} {W : α → List Char → Prop} (h : item.Yields W) :
    (Parser.many item).Yields (Run W) := by
  intro cursor attempts xs next attempts' hrun
  unfold Parser.many at hrun
  cases hfirst : item cursor attempts with
  | mk answer tried =>
    simp only [hfirst] at hrun
    cases answer with
    | none =>
      cases hrun
      exact ⟨[], rfl, .nil⟩
    | some result =>
      rcases result with ⟨x, between⟩
      rcases h hfirst with ⟨w, hrest, hw⟩
      simp only at hrun
      cases hothers : Parser.manyMore item (between.rest.length + 1) between tried with
      | mk answer tried' =>
        simp only [hothers] at hrun
        cases answer with
        | none => cases hrun
        | some result =>
          rcases result with ⟨others, last⟩
          cases hrun
          rcases h.manyMore _ hothers with ⟨u, hbetween, hu⟩
          exact ⟨[] ++ w ++ u, by rw [hrest, hbetween, List.nil_append, List.append_assoc],
            .cons .nil hw hu⟩

end Parser

/-! ## Literals and names -/

namespace Literal

/-- An identifier is what is taken off as one. -/
theorem eq_of_takeIdentifier {s r : List Char} {identifier : String}
    (h : takeIdentifier s = some (identifier, r)) :
    s = identifier.toList ++ r ∧ isIdentifier identifier.toList = true := by
  cases s with
  | nil => cases h
  | cons c rest =>
    by_cases hstart : isNameStart c = true
    · rw [takeIdentifier, if_pos hstart] at h
      cases h
      rw [String.toList_ofList]
      refine ⟨by rw [List.cons_append, List.takeWhile_append_dropWhile], ?_⟩
      simp only [isIdentifier, hstart, Bool.true_and]
      exact List.all_takeWhile
    · rw [takeIdentifier, if_neg hstart] at h
      cases h

/-- Digits are what is split off as digits. -/
theorem eq_of_spanDigits {s digits r : List Char} (h : Number.spanDigits s = (digits, r)) :
    s = digits ++ r ∧ Digits digits := by
  cases h
  exact ⟨List.takeWhile_append_dropWhile.symm, List.all_eq_true.1 List.all_takeWhile⟩

/-- An exponent is what is taken off as one. -/
theorem eq_of_takeExponent {s exponent r : List Char} (h : takeExponent s = (exponent, r)) :
    s = exponent ++ r ∧ Exponent exponent := by
  cases s with
  | nil =>
    cases h
    exact ⟨rfl, .none⟩
  | cons mark body =>
    unfold takeExponent at h
    by_cases hmark : (mark == 'e' || mark == 'E') = true
    · simp only [if_pos hmark] at h
      generalize hsign : body.take (if body.head?.any (fun c => c == '+' || c == '-') then 1 else 0) =
        sign at h
      cases hspan : Number.spanDigits (body.drop sign.length) with
      | mk digits rest =>
        rw [hspan] at h
        by_cases hempty : digits.isEmpty = true
        · simp only [if_pos hempty] at h
          cases h
          exact ⟨rfl, .none⟩
        · simp only [if_neg hempty] at h
          cases h
          rcases eq_of_spanDigits hspan with ⟨hdrop, hdigits⟩
          have hlength : body.drop sign.length = body.drop
              (if body.head?.any (fun c => c == '+' || c == '-') then 1 else 0) := by
            cases body with
            | nil => simp
            | cons c others =>
              by_cases hc : (c == '+' || c == '-') = true
              · simp [← hsign, hc]
              · simp [← hsign, hc]
          rw [hlength] at hdrop
          have hbody : body = sign ++ (digits ++ r) := by
            rw [← hdrop, ← hsign, List.take_append_drop]
          refine ⟨by rw [hbody]; simp, ?_⟩
          refine .marked (by simpa using hmark) ?_ hdigits (by simpa using hempty)
          cases body with
          | nil => simp [← hsign]
          | cons c others =>
            by_cases hc : (c == '+' || c == '-') = true
            · rw [← hsign]
              simp only [Bool.or_eq_true, beq_iff_eq] at hc
              rcases hc with rfl | rfl <;> simp
            · simp [← hsign, hc]
    · simp only [if_neg hmark] at h
      cases h
      exact ⟨rfl, .none⟩

/-- A number is what is taken off as one. -/
theorem eq_of_takeNumber {s digits r : List Char} (h : takeNumber s = some (digits, r)) :
    s = digits ++ r ∧ NumberText digits := by
  unfold takeNumber at h
  cases hspan : Number.spanDigits s with
  | mk whole afterWhole =>
    rw [hspan] at h
    rcases eq_of_spanDigits hspan with ⟨hs, hwhole⟩
    simp only at h
    split at h
    · next tail =>
      cases hspan' : Number.spanDigits tail with
      | mk fraction afterFraction =>
        rw [hspan'] at h
        rcases eq_of_spanDigits hspan' with ⟨htail, hfraction⟩
        simp only at h
        by_cases hempty : (whole.isEmpty && fraction.isEmpty) = true
        · rw [if_pos hempty] at h
          cases h
        · rw [if_neg hempty] at h
          cases hexponent : takeExponent afterFraction with
          | mk exponent rest =>
            rw [hexponent] at h
            cases h
            rcases eq_of_takeExponent hexponent with ⟨hafter, hexponent⟩
            have hne : whole ≠ [] ∨ fraction ≠ [] := by
              simpa [Classical.or_iff_not_imp_left] using hempty
            exact ⟨by rw [hs, htail, hafter]; simp,
              _, exponent, .point hwhole hfraction hne, hexponent, rfl⟩
    · by_cases hempty : whole.isEmpty = true
      · rw [if_pos hempty] at h
        cases h
      · rw [if_neg hempty] at h
        cases hexponent : takeExponent afterWhole with
        | mk exponent rest =>
          rw [hexponent] at h
          cases h
          rcases eq_of_takeExponent hexponent with ⟨hafter, hexponent⟩
          exact ⟨by rw [hs, hafter]; simp,
            whole, exponent, .whole hwhole (by simpa using hempty), hexponent, rfl⟩

/-- The digits of a reference are what is taken off as such. -/
theorem eq_of_takeReference {s digits r : List Char} (h : takeReference s = some (digits, r)) :
    s = '#' :: digits ++ r ∧ (∀ c ∈ digits, isHexDigit c = true) ∧ digits ≠ [] := by
  unfold takeReference at h
  split at h
  · next rest =>
    simp only at h
    split at h
    · cases h
    · next hne =>
      cases h
      refine ⟨by rw [List.cons_append, List.takeWhile_append_dropWhile],
        List.all_eq_true.1 List.all_takeWhile, by simpa using hne⟩
  · cases h

/-- What is taken off up to a quote spells the answer. -/
theorem eq_of_takeQuoted {s text r : List Char} (h : takeQuoted s = some (text, r)) :
    ∃ w, s = w ++ '"' :: r ∧ Spelled text w := by
  induction s using takeQuoted.induct generalizing text with
  | case1 => cases h
  | case2 rest =>
    cases h
    exact ⟨[], rfl, .nil⟩
  | case3 => cases h
  | case4 c rest ih =>
    rw [takeQuoted] at h
    rcases Option.map_eq_some_iff.1 h with ⟨⟨inside, after⟩, htaken, heq⟩
    cases heq
    rcases ih htaken with ⟨w, rfl, hw⟩
    refine ⟨'\\' :: c :: w, rfl, ?_⟩
    unfold unescape
    split
    · next hfeed =>
      rw [hfeed]
      exact .newline hw
    · next hfeed =>
      split
      · next htab =>
        rw [htab]
        exact .tab hw
      · next htab => exact .needless hfeed htab hw
  | case5 c rest hquote hslash hescape ih =>
    rw [takeQuoted] at h
    · rcases Option.map_eq_some_iff.1 h with ⟨⟨inside, after⟩, htaken, heq⟩
      cases heq
      rcases ih htaken with ⟨w, rfl, hw⟩
      refine ⟨c :: w, rfl, .plain hquote ?_ hw⟩
      intro hc
      cases hrest : w ++ '"' :: r with
      | nil => simp at hrest
      | cons d others => exact hescape d others hc hrest
    all_goals assumption

/-- A string is what is taken off as one. -/
theorem eq_of_takeString {s r : List Char} {text : String} (h : takeString s = some (text, r)) :
    ∃ w, s = '"' :: (w ++ '"' :: r) ∧ Spelled text.toList w := by
  unfold takeString at h
  split at h
  · next rest =>
    rcases Option.map_eq_some_iff.1 h with ⟨⟨inside, after⟩, htaken, heq⟩
    cases heq
    rcases eq_of_takeQuoted htaken with ⟨w, rfl, hw⟩
    exact ⟨w, rfl, by rwa [String.toList_ofList]⟩
  · cases h

end Literal

/-! ## Terms between blanks -/

/-- A text of a term at a level, between blanks. -/
def Spread (level : Level) (term : Term) (s : List Char) : Prop :=
  ∃ before w after, Blanks before ∧ Written level term w ∧ Blanks after ∧ s = before ++ w ++ after

/-- A text with an expression in it, between blanks and what encloses them. -/
def Enclosed (enclose : Padded → List Char) (term : Term) (s : List Char) : Prop :=
  ∃ inside : Padded, inside.term = term ∧ inside.Spaced ∧
    Written .expression inside.term inside.text ∧ s = enclose inside

/-- The texts of a list of arguments between parentheses. -/
inductive ArgumentList : List Term → List Char → Prop where
  | empty {blanks : List Char} (h : Blanks blanks) : ArgumentList [] blanks
  | filled {first : Padded} {others : List Padded}
      (hspaced : ∀ argument ∈ first :: others, argument.Spaced)
      (h : ∀ argument ∈ first :: others, Written .expression argument.term argument.text) :
      ArgumentList ((first :: others).map Padded.term)
        (first.written ++ others.flatMap fun argument => ',' :: argument.written)

/-- A primary term is an expression. -/
theorem Written.expression_of_primary {term : Term} {w : List Char} (h : Written .primary term w) :
    Written .expression term w :=
  .tighter (.tighter (.tighter (.tighter (.tighter (.tighter (.tighter (.tighter (.tighter h))))))))

/-- A text of its own is a text between blanks. -/
theorem Written.spread {level : Level} {term : Term} {w : List Char} (h : Written level term w) :
    Spread level term w :=
  ⟨[], w, [], .nil, h, .nil, by simp⟩

namespace Spread

variable {level : Level} {term : Term} {s gap : List Char}

/-- More blanks in front. -/
theorem blanks_append (h : Spread level term s) (hgap : Blanks gap) : Spread level term (gap ++ s) := by
  rcases h with ⟨before, w, after, hbefore, hw, hafter, rfl⟩
  exact ⟨gap ++ before, w, after, hgap.append hbefore, hw, hafter, by simp⟩

/-- More blanks behind. -/
theorem append_blanks (h : Spread level term s) (hgap : Blanks gap) : Spread level term (s ++ gap) := by
  rcases h with ⟨before, w, after, hbefore, hw, hafter, rfl⟩
  exact ⟨before, w, after ++ gap, hbefore, hw, hafter.append hgap, by simp⟩

/-- A text at a tighter level. -/
theorem tighter (h : Spread level.next term s) : Spread level term s := by
  rcases h with ⟨before, w, after, hbefore, hw, hafter, rfl⟩
  exact ⟨before, w, after, hbefore, .tighter hw, hafter, rfl⟩

/-- What encloses an expression between blanks. -/
theorem inside (h : Spread .expression term s) (enclose : Padded → List Char) (front back : List Char)
    (henclose : ∀ p : Padded, enclose p = front ++ p.written ++ back) :
    Enclosed enclose term (front ++ s ++ back) := by
  rcases h with ⟨before, w, after, hbefore, hw, hafter, rfl⟩
  exact ⟨⟨before, term, w, after⟩, rfl, ⟨hbefore, hafter⟩, hw,
    (henclose ⟨before, term, w, after⟩).symm⟩

/-- Two operands and the operator between them. -/
theorem binary {op : BinaryOp} {left right : Term} {l r : List Char} (hleft : Spread op.level left l)
    (hright : Spread op.level.next right r) :
    Spread op.level (.binary op left right) (l ++ op.symbol.toList ++ r) := by
  rcases hleft with ⟨before, w, gap, hbefore, hw, hgap, rfl⟩
  rcases hright with ⟨gap', v, after, hgap', hv, hafter, rfl⟩
  exact ⟨before, w ++ gap ++ op.symbol.toList ++ gap' ++ v, after, hbefore,
    .binary op hw hgap hgap' hv, hafter, by simp⟩

/-- An operand and the operator in front of it. -/
theorem unary {op : UnaryOp} {operand : Term} {s : List Char} (h : Spread .unary operand s) :
    Spread .unary (.unary op operand) (op.symbol.toList ++ s) := by
  rcases h with ⟨gap, w, after, hgap, hw, hafter, rfl⟩
  exact ⟨[], op.symbol.toList ++ gap ++ w, after, .nil, .unary op hgap hw, hafter, by simp⟩

/-- An operand and the index behind it. -/
theorem index {target : Term} {inside : Padded} (h : Spread .postfixed target s)
    (hspaced : inside.Spaced) (hinside : Written .expression inside.term inside.text) :
    Spread .postfixed (.index target inside.term) (s ++ inside.bracketed) := by
  rcases h with ⟨before, w, gap, hbefore, hw, hgap, rfl⟩
  exact ⟨before, w ++ Position.written ⟨gap, inside⟩, [], hbefore,
    @Written.index _ _ ⟨gap, inside⟩ hw ⟨hgap, hspaced⟩ hinside, .nil, by simp [Position.written]⟩

end Spread

namespace ArgumentList

variable {terms : List Term} {s gap : List Char}

/-- More blanks behind the opening parenthesis. -/
theorem blanks_append (h : ArgumentList terms s) (hgap : Blanks gap) : ArgumentList terms (gap ++ s) := by
  cases h with
  | empty h => exact .empty (hgap.append h)
  | @filled first others hspaced h =>
    rcases List.forall_mem_cons.1 hspaced with ⟨hfirst, hrest⟩
    have hmore :
        ArgumentList (({ first with before := gap ++ first.before } :: others).map Padded.term) _ :=
      .filled (List.forall_mem_cons.2 ⟨⟨hgap.append hfirst.before, hfirst.after⟩, hrest⟩)
        (List.forall_mem_cons.2 (List.forall_mem_cons.1 h))
    simpa [Padded.written] using hmore

/-- More blanks in front of the closing parenthesis. -/
theorem append_blanks (h : ArgumentList terms s) (hgap : Blanks gap) : ArgumentList terms (s ++ gap) := by
  cases h with
  | empty h => exact .empty (h.append hgap)
  | @filled first others hspaced h =>
    rcases List.forall_mem_cons.1 hspaced with ⟨hfirst, hrest⟩
    rcases List.forall_mem_cons.1 h with ⟨hwritten, hothers⟩
    -- The blanks belong to the last argument.
    rcases List.eq_nil_or_concat others with rfl | ⟨init, last, rfl⟩
    · have hmore : ArgumentList ([{ first with after := first.after ++ gap }].map Padded.term) _ :=
        .filled (by simpa using ⟨hfirst.before, hfirst.after.append hgap⟩) (by simpa using hwritten)
      simpa [Padded.written] using hmore
    · simp only [List.concat_eq_append, List.forall_mem_append,
        List.forall_mem_singleton] at hrest hothers
      have hmore : ArgumentList ((first :: (init ++ [{ last with after := last.after ++ gap }])).map
          Padded.term) _ :=
        .filled
          (List.forall_mem_cons.2 ⟨hfirst, List.forall_mem_append.2
            ⟨hrest.1, by simpa using ⟨hrest.2.before, hrest.2.after.append hgap⟩⟩⟩)
          (List.forall_mem_cons.2 ⟨hwritten, List.forall_mem_append.2
            ⟨hothers.1, by simpa using hothers.2⟩⟩)
      simpa [Padded.written] using hmore

/-- A call of a command with arguments. -/
theorem call {identifier : String} (h : ArgumentList terms s)
    (hidentifier : isIdentifier identifier.toList = true) (hgap : Blanks gap) :
    Written .primary (.call identifier terms) (identifier.toList ++ gap ++ '(' :: (s ++ [')'])) := by
  cases h with
  | empty h => exact .callNone hidentifier hgap h
  | filled hspaced h => simpa using Written.call hidentifier hgap hspaced h

end ArgumentList

/-! ## Repeated parts of terms -/

namespace Parser
namespace Run

/-- Operands to the right of a first one, each behind an operator of the level. -/
theorem links {level : Level} {items : List (BinaryOp × Term)} {u : List Char}
    (h : Run (fun (op, right) w => op.level = level ∧ ∃ v, Spread level.next right v ∧
      w = op.symbol.toList ++ v) items u) :
    ∀ {first : Term} {s : List Char}, Spread level first s →
      Spread level (items.foldl (fun left (op, right) => .binary op left right) first) (s ++ u) := by
  induction h with
  | nil =>
    intro first s hs
    simpa using hs
  | @cons item others gap w v hgap hw hothers ih =>
    intro first s hs
    rcases item with ⟨op, right⟩
    rcases hw with ⟨rfl, r, hright, rfl⟩
    simpa using ih ((hs.append_blanks hgap).binary hright)

/-- Operators in front of an operand. -/
theorem ops {items : List UnaryOp} {u : List Char} (h : Run (fun op w => w = op.symbol.toList) items u)
    {operand : Term} {s : List Char} (hs : Spread .unary operand s) :
    Spread .unary (items.foldr Term.unary operand) (u ++ s) := by
  induction h with
  | nil => exact hs
  | cons hgap hw hothers ih =>
    subst hw
    simpa using (Spread.unary ih).blanks_append hgap

/-- Indices behind an operand. -/
theorem indices {items : List Term} {u : List Char} (h : Run (Enclosed Padded.bracketed) items u) :
    ∀ {target : Term} {s : List Char}, Spread .postfixed target s →
      Spread .postfixed (items.foldl Term.index target) (s ++ u) := by
  induction h with
  | nil =>
    intro target s hs
    simpa using hs
  | cons hgap hw hothers ih =>
    intro target s hs
    rcases hw with ⟨inside, rfl, hspaced, hinside, rfl⟩
    simpa using ih ((hs.append_blanks hgap).index hspaced hinside)

/-- Indices behind a name. -/
theorem positions {items : List Term} {u : List Char} (h : Run (Enclosed Padded.bracketed) items u) :
    ∀ {gap : List Char}, Blanks gap → ∃ (positions : List Position) (gap' : List Char),
      (∀ position ∈ positions, position.Spaced) ∧
      (∀ position ∈ positions, Written .expression position.inside.term position.inside.text) ∧
      items = (positions.map fun position => position.inside.term) ∧ Blanks gap' ∧
      gap ++ u = positions.flatMap Position.written ++ gap' := by
  induction h with
  | nil =>
    intro gap hgap
    exact ⟨[], gap, by simp, by simp, rfl, hgap, by simp⟩
  | @cons x others gap' w v hgap' hw hothers ih =>
    intro gap hgap
    rcases hw with ⟨inside, rfl, hspaced, hinside, rfl⟩
    rcases ih .nil with ⟨positions, last, hpositions, hwritten, rfl, hlast, heq⟩
    refine ⟨⟨gap ++ gap', inside⟩ :: positions, last,
      List.forall_mem_cons.2 ⟨⟨hgap.append hgap', hspaced⟩, hpositions⟩,
      List.forall_mem_cons.2 ⟨hinside, hwritten⟩, rfl, hlast, ?_⟩
    rw [List.nil_append] at heq
    simp [heq, Position.written]

/-- Arguments behind a first one, each behind a comma. -/
theorem arguments {items : List Term} {u : List Char}
    (h : Run (Enclosed fun argument => ',' :: argument.written) items u) :
    ∀ {first : Padded}, first.Spaced → Written .expression first.term first.text →
      ∃ (first' : Padded) (others : List Padded), first'.term = first.term ∧
        (∀ argument ∈ first' :: others, argument.Spaced) ∧
        (∀ argument ∈ first' :: others, Written .expression argument.term argument.text) ∧
        items = others.map Padded.term ∧
        first.written ++ u =
          first'.written ++ others.flatMap fun argument => ',' :: argument.written := by
  induction h with
  | nil =>
    intro first hspaced hfirst
    exact ⟨first, [], rfl, by simpa using hspaced, by simpa using hfirst, rfl, by simp⟩
  | @cons x others gap w v hgap hw hothers ih =>
    intro first hspaced hfirst
    rcases hw with ⟨next, rfl, hnext, hwritten, rfl⟩
    rcases ih hnext hwritten with ⟨next', behind, hterm, hbehind, hall, rfl, heq⟩
    -- The blanks in front of the comma belong to the argument before it.
    refine ⟨{ first with after := first.after ++ gap }, next' :: behind, rfl,
      List.forall_mem_cons.2 ⟨⟨hspaced.before, hspaced.after.append hgap⟩, hbehind⟩,
      List.forall_mem_cons.2 ⟨hfirst, hall⟩, by simp [hterm], ?_⟩
    have hwhole : first.written ++ (gap ++ ',' :: next.written ++ v) =
        first.written ++ gap ++ ',' :: (next.written ++ v) := by simp
    rw [hwhole, heq]
    simp [Padded.written]

end Run
end Parser

/-! ## The grammar -/

namespace Grammar

open Parser

variable {inner : Parser Term}

/-- The operators of a level are read from their symbols. -/
theorem binaryOp_yields {level : Level} {rule : Rule} {symbols : List (String × BinaryOp)}
    (h : ∀ entry ∈ symbols, entry.1 = entry.2.symbol ∧ entry.2.level = level) :
    (named rule (oneOf symbols)).Yields fun op w => op.level = level ∧ w = op.symbol.toList := by
  refine .named ((oneOf_yields symbols).mono ?_) rule
  rintro op w ⟨symbol, hmem, rfl⟩
  rcases h _ hmem with ⟨hsymbol, hlevel⟩
  exact ⟨hlevel, by rw [← hsymbol]⟩

/-- Unary operators are read from their symbols. -/
theorem unaryOp_yields : unaryOp.Yields fun op w => w = op.symbol.toList := by
  refine .named ((oneOf_yields _).mono ?_) _
  rintro op w ⟨symbol, hmem, rfl⟩
  simp only [List.mem_cons, Prod.mk.injEq, List.not_mem_nil, or_false] at hmem
  rcases hmem with ⟨rfl, rfl⟩ | ⟨rfl, rfl⟩ <;> rfl

/-- Assignment operators are read from their symbols. -/
theorem assignOp_yields : assignOp.Yields fun op w => w = op.symbol.toList := by
  refine .named (.or ((oneOf_yields _).mono ?_) (.take ?_)) _
  · rintro op w ⟨symbol, hmem, rfl⟩
    simp only [List.mem_cons, Prod.mk.injEq, List.not_mem_nil, or_false] at hmem
    rcases hmem with ⟨rfl, rfl⟩ | ⟨rfl, rfl⟩ | ⟨rfl, rfl⟩ | ⟨rfl, rfl⟩ <;> rfl
  · intro s op r h
    unfold takeSet at h
    split at h
    · cases h
    · cases h
      exact ⟨['='], rfl, rfl⟩
    · cases h

/-- Identifiers are read as they are. -/
theorem identifier_yields :
    identifier.Yields fun name w => isIdentifier name.toList = true ∧ w = name.toList := by
  refine .named (.take fun s name r h => ?_) _
  rcases Literal.eq_of_takeIdentifier h with ⟨hs, hname⟩
  exact ⟨name.toList, hs, hname, rfl⟩

/-- Numbers are read from their digits. -/
theorem number_yields : number.Yields (Written .primary) := by
  have htake : (take Literal.takeNumber).Yields fun digits w => w = digits ∧ NumberText digits := by
    refine .take fun s digits r h => ?_
    rcases Literal.eq_of_takeNumber h with ⟨hs, hdigits⟩
    exact ⟨digits, hs, rfl, hdigits⟩
  refine .named (htake.map ?_) _
  rintro digits w ⟨rfl, hdigits⟩
  exact .number hdigits

/-- References are read from their digits. -/
theorem reference_yields : reference.Yields (Written .primary) := by
  have htake : (take Literal.takeReference).Yields fun digits w =>
      w = '#' :: digits ∧ (∀ c ∈ digits, Literal.isHexDigit c = true) ∧ digits ≠ [] := by
    refine .take fun s digits r h => ?_
    rcases Literal.eq_of_takeReference h with ⟨hs, hdigits⟩
    exact ⟨'#' :: digits, hs, rfl, hdigits⟩
  refine .named (htake.map ?_) _
  rintro digits w ⟨rfl, hdigits, hne⟩
  exact .reference hdigits hne

/-- Strings are read from what spells them. -/
theorem string_yields : string.Yields (Written .primary) := by
  have htake : (take Literal.takeString).Yields fun text w =>
      ∃ v, w = '"' :: (v ++ ['"']) ∧ Spelled text.toList v := by
    refine .take fun s text r h => ?_
    rcases Literal.eq_of_takeString h with ⟨v, hs, hv⟩
    exact ⟨'"' :: (v ++ ['"']), by simpa using hs, v, rfl, hv⟩
  refine .named (htake.map ?_) _
  rintro text w ⟨v, rfl, hv⟩
  simpa using Written.text hv

section Inner

variable (hinner : inner.Yields (Spread .expression))
include hinner

/-- An index is an expression between brackets. -/
theorem index_yields : (index inner).Yields (Enclosed Padded.bracketed) := by
  refine .named ((literal_yields "[").bind ?_) _
  rintro - w rfl
  refine .skip_bind fun gap hgap => hinner.bind fun term s hs => .skip_bind fun gap' hgap' =>
    (literal_yields "]").map ?_
  rintro - w rfl
  have hpadded := (hs.blanks_append hgap).append_blanks hgap'
  simpa using hpadded.inside Padded.bracketed ['['] [']'] fun p => by simp [Padded.bracketed]

/-- One more argument stands behind a comma. -/
theorem furtherArgument_yields :
    (furtherArgument inner).Yields (Enclosed fun argument => ',' :: argument.written) := by
  refine (literal_yields ",").bind ?_
  rintro - w rfl
  refine .skip_bind fun gap hgap => hinner.mono fun term s hs => ?_
  simpa using (hs.blanks_append hgap).inside (fun argument => ',' :: argument.written) [','] []
    fun p => by simp

/-- Arguments are separated by commas. -/
theorem arguments_yields : (arguments inner).Yields ArgumentList := by
  refine hinner.bind fun first s hs => .skip_bind fun gap hgap =>
    (furtherArgument_yields hinner).many.map fun others u hu => ?_
  rcases (hs.append_blanks hgap).inside Padded.written [] [] (fun p => by simp) with
    ⟨inside, rfl, hspaced, hwritten, heq⟩
  rcases hu.arguments hspaced hwritten with ⟨first', behind, hterm, hall, hbehind, rfl, hsplit⟩
  have harguments := ArgumentList.filled hall hbehind
  rw [← hsplit, ← heq, List.map_cons, hterm] at harguments
  simpa using harguments

/-- A call is a name with arguments in parentheses. -/
theorem call_yields : (call inner).Yields (Written .primary) := by
  refine .named (identifier_yields.bind ?_) _
  rintro name w ⟨hname, rfl⟩
  refine .skip_bind fun gap hgap => (literal_yields "(").bind ?_
  rintro - w rfl
  have hgiven : (optional (arguments inner)).Yields fun given s => ArgumentList (given.getD []) s :=
    .optional ((arguments_yields hinner).mono fun terms s hs => hs) (.empty .nil)
  refine .skip_bind fun gap' hgap' => hgiven.bind fun given s hs => .skip_bind fun gap'' hgap'' =>
    (literal_yields ")").map ?_
  rintro - w rfl
  have hall := ((hs.append_blanks hgap'').blanks_append hgap').call hname hgap
  simpa using hall

/-- An expression in parentheses. -/
theorem group_yields : (group inner).Yields (Written .primary) := by
  refine (literal_yields "(").bind ?_
  rintro - w rfl
  refine .skip_bind fun gap hgap => hinner.bind fun term s hs => .skip_bind fun gap' hgap' =>
    (literal_yields ")").map ?_
  rintro - w rfl
  have hpadded := (hs.blanks_append hgap).append_blanks hgap'
  rcases hpadded.inside Padded.grouped ['('] [')'] (fun p => by simp [Padded.grouped]) with
    ⟨inside, rfl, hspaced, hwritten, heq⟩
  have hgroup := Written.group hspaced hwritten
  rw [← heq] at hgroup
  simpa using hgroup

/-- An operand without operators and indices. -/
theorem primary_yields : (primary inner).Yields (Written .primary) := by
  have hname : (do return Term.name (← identifier) : Parser Term).Yields (Written .primary) := by
    refine identifier_yields.map ?_
    rintro name w ⟨hname, rfl⟩
    exact .name hname
  exact .or number_yields (.or string_yields (.or reference_yields (.or (call_yields hinner)
    (.or hname (group_yields hinner)))))

/-- An operand with indices behind it. -/
theorem postfixed_yields : (postfixed inner).Yields (Spread .postfixed) := by
  refine .named ((primary_yields hinner).bind fun target w hw => .skip_bind fun gap hgap =>
    (index_yields hinner).many.map fun positions u hu => ?_) _
  have htarget : Spread .postfixed target w := @Spread.tighter .postfixed _ _ hw.spread
  simpa using hu.indices (htarget.append_blanks hgap)

/-- An operand with unary operators in front of it. -/
theorem unary_yields : (unary inner).Yields (Spread .unary) := by
  refine .named (unaryOp_yields.many.bind fun ops u hu => .skip_bind fun gap hgap =>
    (postfixed_yields hinner).map fun operand s hs => ?_) _
  exact hu.ops ((@Spread.tighter .unary _ _ hs).blanks_append hgap)

omit hinner in
/-- Operands with operators of a level between them. -/
theorem chain_yields {level : Level} {rule rule' : Rule} {symbols : List (String × BinaryOp)}
    {operand : Parser Term}
    (hop : ∀ entry ∈ symbols, entry.1 = entry.2.symbol ∧ entry.2.level = level)
    (h : operand.Yields (Spread level.next)) :
    (chain rule (named rule' (oneOf symbols)) operand).Yields (Spread level) := by
  have hlink : (link (named rule' (oneOf symbols)) operand).Yields fun (op, right) w =>
      op.level = level ∧ ∃ v, Spread level.next right v ∧ w = op.symbol.toList ++ v := by
    refine (binaryOp_yields hop).bind ?_
    rintro op w ⟨hlevel, rfl⟩
    exact .skip_bind fun gap hgap => h.map fun right v hv =>
      ⟨hlevel, gap ++ v, hv.blanks_append hgap, rfl⟩
  refine .named (h.bind fun first s hs => .skip_bind fun gap hgap =>
    hlink.many.map fun links u hu => ?_) _
  simpa using hu.links (hs.tighter.append_blanks hgap)

/-- Disjunctions are all that is no assignment. -/
theorem disjunction_yields : (disjunction inner).Yields (Spread .disjunction) := by
  have hproduct : (product inner).Yields (Spread .product) :=
    chain_yields (by decide) (unary_yields hinner)
  have hsum : (sum inner).Yields (Spread .sum) := chain_yields (by decide) hproduct
  have hcomparison : (comparison inner).Yields (Spread .comparison) := chain_yields (by decide) hsum
  have hequality : (equality inner).Yields (Spread .equality) := chain_yields (by decide) hcomparison
  have hconjunction : (conjunction inner).Yields (Spread .conjunction) :=
    chain_yields (by decide) hequality
  exact chain_yields (by decide) hconjunction

/-- Assignments are read from a name, indices, an operator and a value. -/
theorem assignment_yields : (assignment inner).Yields (Spread .expression) := by
  have hplace : (place inner).Yields fun target w => isIdentifier target.1.toList = true ∧
      ∃ (positions : List Position) (gap : List Char), (∀ position ∈ positions, position.Spaced) ∧
        (∀ position ∈ positions, Written .expression position.inside.term position.inside.text) ∧
        target.2 = (positions.map fun position => position.inside.term) ∧ Blanks gap ∧
        w = target.1.toList ++ positions.flatMap Position.written ++ gap := by
    refine .named (identifier_yields.bind ?_) _
    rintro name w ⟨hname, rfl⟩
    refine .skip_bind fun gap hgap => (index_yields hinner).many.map fun items u hu => ?_
    rcases hu.positions hgap with ⟨positions, gap', hpositions, hwritten, hitems, hgap', heq⟩
    exact ⟨hname, positions, gap', hpositions, hwritten, hitems, hgap', by simp [heq]⟩
  refine .named (hplace.bind ?_) _
  rintro ⟨name, items⟩ w ⟨hname, positions, gap, hpositions, hwritten, rfl, hgap, rfl⟩
  refine .skip_bind fun gap' hgap' => assignOp_yields.bind ?_
  rintro op - rfl
  refine .skip_bind fun gap'' hgap'' => hinner.map fun value s hs => ?_
  rcases hs with ⟨before, v, after, hbefore, hv, hafter, rfl⟩
  have hassign := Written.assign op hname hpositions hwritten (hgap.append hgap')
    (hgap''.append hbefore) hv
  simpa using hassign.spread.append_blanks hafter

/-- An expression is an assignment or a disjunction. -/
theorem expressionWith_yields : (expressionWith inner).Yields (Spread .expression) :=
  .named (.or (assignment_yields hinner)
    ((disjunction_yields hinner).mono fun _ _ hs => @Spread.tighter .expression _ _ hs)) _

end Inner

/-- Expressions are read only from their texts, with blanks around them. -/
theorem expression_yields (depth : Nat) : (expression depth).Yields (Spread .expression) := by
  induction depth with
  | zero => exact .fail
  | succ depth ih => exact fun _ _ _ _ _ hrun => expressionWith_yields ih hrun

/-- A statement is an expression between blanks. -/
theorem statement_yields (depth : Nat) : (statement depth).Yields (Spread .expression) := by
  have hend : (named .endOfInput endOfInput).Yields fun _ w => w = [] := by
    refine .named (.take fun s x r h => ?_) _
    split at h
    · cases h
      exact ⟨[], rfl, rfl⟩
    · cases h
  refine .named (.skip_bind fun gap hgap => (expression_yields depth).bind fun term s hs =>
    .skip_bind fun gap' hgap' => hend.map ?_) _
  rintro - w rfl
  simpa using (hs.append_blanks hgap').blanks_append hgap

/-- A statement is read to its end. -/
theorem rest_of_statement {depth : Nat} {cursor next : Cursor} {attempts attempts' : Attempts}
    {term : Term} (h : statement depth cursor attempts = (some (term, next), attempts')) :
    next.rest = [] := by
  rcases exists_of_bind (eq_of_named h) with ⟨_, _, _, -, h⟩
  rcases exists_of_bind h with ⟨_, _, _, -, h⟩
  rcases exists_of_bind h with ⟨_, _, _, -, h⟩
  rcases exists_of_bind h with ⟨_, last, _, hend, h⟩
  cases h
  exact rest_of_endOfInput (eq_of_named hend)

end Grammar

/-- A source is accepted exactly if it is a text of the term between blanks. -/
theorem Term.parse_eq_ok_iff {source : List Char} {term : Term} :
    Term.parse source = .ok term ↔ Spread .expression term source := by
  constructor
  · intro h
    unfold Term.parse at h
    split at h
    · next answer last attempts hrun =>
      cases h
      rcases Grammar.statement_yields _ hrun with ⟨w, hsource, hw⟩
      rw [Grammar.rest_of_statement hrun, List.append_nil] at hsource
      rwa [show source = w from hsource]
    · cases h
  · rintro ⟨before, w, after, hbefore, hw, hafter, rfl⟩
    exact Term.parse_of_written hbefore hw hafter

end ScriptMachine
