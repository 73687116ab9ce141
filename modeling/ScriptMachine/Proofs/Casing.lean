import ScriptMachine.Proofs.Wording
import ScriptMachine.Script.Outline

/-!
# Letter case in sources

Whatever is done to a source before its expressions are looked at treats a capital like its small
letter: what is blank, a digit or part of a name, what begins a comment, a literal or another line.
So each step can as well be taken on the text with all its capitals made small, with the same result
but for the letters.

Main results:

- {lit}`of_toLower`: what holds of capitals and their small letters alike does not depend on case.
- {lit}`Source.logicalLines_lower`: the logical lines of a source in small letters.
- {lit}`Source.tokenize_lower`: the tokens of a line in small letters.
-/

namespace ScriptMachine

open Text

namespace Text

/-! ## Characters -/

/-- The ASCII capitals. -/
def capitals : List Char := "ABCDEFGHIJKLMNOPQRSTUVWXYZ".toList

/-- Any other character is its own small letter. -/
theorem toLower_of_not_mem {c : Char} (h : c ∉ capitals) : c.toLower = c := by
  unfold Char.toLower
  by_cases hupper : c.val ≥ 'A'.val ∧ c.val ≤ 'Z'.val
  · refine absurd ?_ h
    have hall : ∀ k < 26, Char.ofNat (65 + k) ∈ capitals := by decide
    have hlow : 65 ≤ c.toNat := hupper.1
    have hhigh : c.toNat ≤ 90 := hupper.2
    have hmem := hall (c.toNat - 65) (by omega)
    rwa [Nat.add_sub_cancel' hlow, Char.ofNat_toNat] at hmem
  · exact dif_neg hupper

/-- What does not tell a capital from its small letter does not depend on case. -/
theorem of_toLower {α : Type} (f : Char → α)
    (h : capitals.map (fun c => f c.toLower) = capitals.map f) (c : Char) : f c.toLower = f c := by
  by_cases hc : c ∈ capitals
  · exact List.map_inj_left.1 h c hc
  · rw [toLower_of_not_mem hc]

/-- Blanks have no case. -/
@[simp] theorem isBlank_toLower (c : Char) : isBlank c.toLower = isBlank c :=
  of_toLower isBlank (by decide) c

/-- Digits have no case. -/
@[simp] theorem isDigit_toLower (c : Char) : c.toLower.isDigit = c.isDigit :=
  of_toLower Char.isDigit (by decide) c

/-- Letters begin names in either case. -/
@[simp] theorem isNameStart_toLower (c : Char) : isNameStart c.toLower = isNameStart c :=
  of_toLower isNameStart (by decide) c

/-- Letters stand in names in either case. -/
@[simp] theorem isNameChar_toLower (c : Char) : isNameChar c.toLower = isNameChar c :=
  of_toLower isNameChar (by decide) c

/-- A character that is no letter is the small letter of no other character. -/
theorem toLower_eq_iff {c d : Char} (hd : d.isAlpha = false) : c.toLower = d ↔ c = d := by
  have hcapital : ∀ c ∈ capitals, c.isAlpha = true ∧ c.toLower.isAlpha = true := by
    intro c hc
    have hall : capitals.all (fun c => c.isAlpha && c.toLower.isAlpha) = true := by decide
    simpa using List.all_eq_true.1 hall c hc
  by_cases hc : c ∈ capitals
  · constructor
    · rintro rfl
      rw [(hcapital c hc).2] at hd
      cases hd
    · rintro rfl
      rw [(hcapital c hc).1] at hd
      cases hd
  · rw [toLower_of_not_mem hc]

/-! ## Texts -/

/-- The text with every ASCII capital replaced by its small letter. -/
def lower (s : List Char) : List Char :=
  s.map Char.toLower

@[simp] theorem lower_nil : lower [] = [] := rfl

@[simp] theorem lower_cons (c : Char) (s : List Char) : lower (c :: s) = c.toLower :: lower s := rfl

@[simp] theorem lower_append (s t : List Char) : lower (s ++ t) = lower s ++ lower t :=
  List.map_append

@[simp] theorem length_lower (s : List Char) : (lower s).length = s.length :=
  List.length_map ..

@[simp] theorem isEmpty_lower (s : List Char) : (lower s).isEmpty = s.isEmpty := by
  cases s <;> rfl

/-- Nothing is left to do. -/
@[simp] theorem lower_lower (s : List Char) : lower (lower s) = lower s := by
  simp [lower, toLower_toLower]

/-- A name is folded by making its letters small. -/
theorem fold_ofList (s : List Char) : fold (String.ofList s) = String.ofList (lower s) := by
  simp [fold, lower]

/-- The beginning of one kind of characters. -/
theorem takeWhile_lower {p : Char → Bool} (hp : ∀ c, p c.toLower = p c) (s : List Char) :
    (lower s).takeWhile p = lower (s.takeWhile p) := by
  have hcomp : p ∘ Char.toLower = p := funext hp
  rw [lower, List.takeWhile_map, hcomp]
  rfl

/-- What follows the beginning of one kind of characters. -/
theorem dropWhile_lower {p : Char → Bool} (hp : ∀ c, p c.toLower = p c) (s : List Char) :
    (lower s).dropWhile p = lower (s.dropWhile p) := by
  have hcomp : p ∘ Char.toLower = p := funext hp
  rw [lower, List.dropWhile_map, hcomp]
  rfl

theorem trimStart_lower (s : List Char) : trimStart (lower s) = lower (trimStart s) :=
  dropWhile_lower isBlank_toLower s

theorem trimEnd_lower (s : List Char) : trimEnd (lower s) = lower (trimEnd s) := by
  induction s with
  | nil => rfl
  | cons c rest ih =>
    rw [lower_cons, trimEnd, trimEnd, ih, isBlank_toLower]
    cases trimEnd rest with
    | nil => cases isBlank c <;> rfl
    | cons d kept => rfl

theorem trim_lower (s : List Char) : trim (lower s) = lower (trim s) := by
  rw [trim, trim, trimStart_lower, trimEnd_lower]

/-- Lines end at the same places. -/
theorem lines_lower (s : List Char) : lines (lower s) = (lines s).map lower := by
  have hfeed : ∀ {c : Char}, (c = '\n' → False) → c.toLower = '\n' → False :=
    fun h hc => h ((toLower_eq_iff rfl).1 hc)
  have hreturn : ∀ {c : Char} {rest : List Char}, (∀ others, c = '\r' → rest = '\n' :: others → False) →
      ∀ others, c.toLower = '\r' → lower rest = '\n' :: others → False := by
    intro c rest h others hc hrest
    cases rest with
    | nil => cases hrest
    | cons d rest =>
      rw [lower_cons, List.cons.injEq, toLower_eq_iff rfl] at hrest
      exact h rest ((toLower_eq_iff rfl).1 hc) (by rw [hrest.1])
  induction s using lines.induct with
  | case1 => rfl
  | case2 rest ih => simp [lines, ih, show Char.toLower '\n' = '\n' from rfl]
  | case3 rest ih =>
    simp [lines, ih, show Char.toLower '\n' = '\n' from rfl, show Char.toLower '\r' = '\r' from rfl]
  | case4 c rest hc hr hnone ih =>
    rw [lower_cons, lines.eq_4 _ _ (hfeed hc) (hreturn hr), ih, lines.eq_4 _ _ hc hr, hnone]
    rfl
  | case5 c rest hc hr line others hsome ih =>
    rw [lower_cons, lines.eq_4 _ _ (hfeed hc) (hreturn hr), ih, lines.eq_4 _ _ hc hr, hsome]
    rfl

/-- Identifiers are identifiers in any letter case. -/
theorem isIdentifier_lower (s : List Char) : isIdentifier (lower s) = isIdentifier s := by
  cases s with
  | nil => rfl
  | cons c rest => simp [isIdentifier, lower, List.all_map, Function.comp_def]

/-- Cutting bytes off cuts the same characters off. -/
theorem dropBytes?_lower (n : Nat) (s : List Char) :
    dropBytes? n (lower s) = (dropBytes? n s).map lower := by
  induction s generalizing n with
  | nil =>
    by_cases hn : n = 0 <;> simp [dropBytes?, hn]
  | cons c rest ih =>
    rw [lower_cons, dropBytes?, dropBytes?, Source.utf8Size_toLower, ih]
    split
    · rfl
    · split <;> rfl

end Text

/-! ## Numbers -/

namespace Number

/-- Digits are their own small letters. -/
theorem lower_digits {s : List Char} (h : ∀ c ∈ s, c.isDigit = true) : lower s = s := by
  have hcapital : ∀ c ∈ capitals, c.isDigit = false := by
    intro c hc
    have hall : capitals.all (fun c => !c.isDigit) = true := by decide
    simpa using List.all_eq_true.1 hall c hc
  refine (List.map_congr_left fun c hc => ?_).trans (List.map_id s)
  refine toLower_of_not_mem fun hmem => ?_
  have hdigit := h c hc
  rw [hcapital c hmem] at hdigit
  cases hdigit

/-- Digits have no case. -/
theorem spanDigits_lower (s : List Char) :
    spanDigits (lower s) = ((spanDigits s).1, lower (spanDigits s).2) := by
  rw [spanDigits, takeWhile_lower isDigit_toLower, dropWhile_lower isDigit_toLower,
    lower_digits (List.all_eq_true.1 List.all_takeWhile)]
  rfl

/-- Signs have no case. -/
theorem spanSign_lower (s : List Char) :
    spanSign (lower s) = ((spanSign s).1, lower (spanSign s).2) := by
  cases s with
  | nil => rfl
  | cons c rest =>
    by_cases hminus : c = '-'
    · subst hminus
      rfl
    by_cases hplus : c = '+'
    · subst hplus
      rfl
    have hminus' : c.toLower ≠ '-' := fun heq => hminus ((toLower_eq_iff rfl).1 heq)
    have hplus' : c.toLower ≠ '+' := fun heq => hplus ((toLower_eq_iff rfl).1 heq)
    rw [lower_cons, spanSign, spanSign] <;> simp [hminus, hplus, hminus', hplus']

/-- The mark of an exponent may be a capital. -/
theorem isMark_toLower (c : Char) :
    (c.toLower == 'e' || c.toLower == 'E') = (c == 'e' || c == 'E') :=
  of_toLower (fun c => c == 'e' || c == 'E') (by decide) c

/-- Exponents are read in any letter case. -/
theorem parseExponent?_lower (s : List Char) : parseExponent? (lower s) = parseExponent? s := by
  cases s with
  | nil => rfl
  | cons mark rest =>
    simp only [lower_cons, parseExponent?, isMark_toLower, spanSign_lower, spanDigits_lower,
      isEmpty_lower]

/-- Digits around a point have no case. -/
theorem spanMantissa_lower (s : List Char) : spanMantissa (lower s) =
    (spanMantissa s).map fun (whole, fraction, rest) => (whole, fraction, lower rest) := by
  unfold spanMantissa
  rw [spanDigits_lower]
  rcases spanDigits s with ⟨whole, rest⟩
  cases rest with
  | nil => cases whole <;> rfl
  | cons c tail =>
    by_cases hpoint : c = '.'
    · subst hpoint
      have hlow : Char.toLower '.' = '.' := rfl
      simp only [lower_cons, hlow, spanDigits_lower]
      split <;> rfl
    · have hlow : c.toLower ≠ '.' := fun heq => hpoint ((toLower_eq_iff rfl).1 heq)
      cases whole <;> simp [hpoint, hlow]

/-- Numbers are read in any letter case. -/
theorem parse?_lower (s : List Char) : parse? (lower s) = parse? s := by
  have hdecimal : ∀ s, parseDecimal? (lower s) = parseDecimal? s := by
    intro s
    unfold parseDecimal?
    rw [spanMantissa_lower]
    cases spanMantissa s with
    | none => rfl
    | some parts => simp [parseExponent?_lower]
  have hmagnitude : ∀ s, parseMagnitude? (lower s) = parseMagnitude? s := by
    intro s
    have hword : (lower s).map Char.toLower = s.map Char.toLower := lower_lower s
    rw [parseMagnitude?, parseMagnitude?, hword, hdecimal]
  rw [parse?, parse?, spanSign_lower]
  simp only [hmagnitude]

end Number

/-! ## Lines -/

namespace Source

/-- Letters neither open nor close a literal. -/
@[simp] theorem Quoting.next_toLower (quoting : Quoting) (c : Char) :
    quoting.next c.toLower = quoting.next c := by
  cases quoting <;> exact of_toLower _ (by decide) c

/-- Comments begin at the same places. -/
theorem beforeComment_lower (quoting : Quoting) (s : List Char) :
    beforeComment quoting (lower s) = lower (beforeComment quoting s) := by
  induction s generalizing quoting with
  | nil => rfl
  | cons c rest ih =>
    rw [lower_cons, beforeComment, beforeComment, Quoting.next_toLower, ih]
    simp only [toLower_eq_iff (show Char.isAlpha ';' = false from rfl)]
    split <;> rfl

/-- Lines are cleaned alike. -/
theorem clean_lower (cleaning : Cleaning) (line : List Char) :
    clean cleaning (lower line) = lower (clean cleaning line) := by
  have htab : ∀ s : List Char, (lower s).map (fun c => if c = '\t' then ' ' else c) =
      lower (s.map fun c => if c = '\t' then ' ' else c) := by
    intro s
    simp only [lower, List.map_map]
    refine List.map_congr_left fun c hc => ?_
    simp only [Function.comp_apply, toLower_eq_iff (c := c) (d := '\t') rfl]
    split <;> rfl
  unfold clean
  cases cleaning.comments <;> cases cleaning.tabs <;> cases cleaning.leading <;>
    simp only [if_true, Bool.false_eq_true, if_false, beforeComment_lower, htab, trimStart_lower,
      trimEnd_lower]

/-- A line in small letters. -/
def Line.lower (line : Line) : Line :=
  { line with text := Text.lower line.text }

/-- The physical lines of a source in small letters. -/
theorem physicalLines_lower (source : List Char) :
    physicalLines (lower source) = (physicalLines source).map Line.lower := by
  unfold physicalLines
  rw [lines_lower, List.map_map]
  have hclean : clean .commentsOnly ∘ Text.lower = Text.lower ∘ clean .commentsOnly :=
    funext (clean_lower .commentsOnly)
  rw [hclean, ← List.map_map, List.zipIdx_map, List.filterMap_map, List.map_filterMap]
  congr 1
  funext entry
  rcases entry with ⟨text, number⟩
  simp only [Function.comp_apply, Prod.map, isEmpty_lower]
  split <;> rfl

/-- The same lines go on in the next one. -/
theorem isContinued_lower (text : List Char) : isContinued (lower text) = isContinued text := by
  rw [isContinued, isContinued, lower, List.getLast?_map]
  cases text.getLast? with
  | none => rfl
  | some c => exact of_toLower (fun c => some c == some '\\') (by decide) c

/-- Markers are dropped alike. -/
theorem withoutMarker_lower (text : List Char) :
    withoutMarker (lower text) = lower (withoutMarker text) := by
  rw [withoutMarker, withoutMarker, isContinued_lower]
  split
  · exact (List.map_dropLast ..).symm
  · rfl

/-- Lines are joined alike. -/
theorem joinLine_lower (unfinished : Option Line) (line : Line) :
    joinLine (unfinished.map Line.lower) line.lower = (joinLine unfinished line).lower := by
  cases unfinished with
  | none => simp [joinLine, Line.lower, withoutMarker_lower]
  | some first => simp [joinLine, Line.lower, withoutMarker_lower, trimStart_lower]

/-- Continued lines are the same in small letters. -/
theorem foldContinuations_lower (unfinished : Option Line) (physical : List Line) :
    foldContinuations (unfinished.map Line.lower) (physical.map Line.lower) =
      (foldContinuations unfinished physical).map Line.lower := by
  induction physical generalizing unfinished with
  | nil => cases unfinished <;> rfl
  | cons line rest ih =>
    have hcontinued : isContinued line.lower.text = isContinued line.text :=
      isContinued_lower line.text
    simp only [List.map_cons, foldContinuations, joinLine_lower, hcontinued]
    split
    · exact ih (some _)
    · rw [List.map_cons, ← ih none]
      rfl

/-- A shorthand in small letters stands for its call in small letters. -/
theorem expand?_lower (inHead : Bool) (s : List Char) :
    expand? inHead (lower s) = (expand? inHead s).map lower := by
  have hclose : ∀ s : List Char, (lower s).contains ')' = s.contains ')' := by
    intro s
    rw [Bool.eq_iff_iff, List.contains_iff_mem, List.contains_iff_mem, lower, List.mem_map]
    constructor
    · rintro ⟨c, hc, heq⟩
      rwa [(toLower_eq_iff rfl).1 heq] at hc
    · exact fun hmem => ⟨')', hmem, rfl⟩
  have hopening : ∀ s : List Char, lower (callOpening s) = callOpening s := by
    intro s
    unfold callOpening
    split <;> rfl
  have hopen : ∀ s : List Char, callOpening (lower s) = callOpening s := by
    intro s
    cases s with
    | nil => rfl
    | cons c rest =>
      by_cases hc : c = ')'
      · subst hc
        rfl
      · have hlow : c.toLower ≠ ')' := fun heq => hc ((toLower_eq_iff rfl).1 heq)
        rw [lower_cons, callOpening, callOpening] <;> simp [hc, hlow]
  have hmap : ∀ (o : Option (List Char)) (f : List Char → List Char), (∀ s, lower (f s) = f (lower s)) →
      (o.map lower).map f = (o.map f).map lower := by
    intro o f hf
    cases o with
    | none => rfl
    | some s => simp [hf]
  induction s generalizing inHead with
  | nil => cases inHead <;> rfl
  | cons c rest ih =>
    have hparen := toLower_eq_iff (c := c) (show Char.isAlpha '(' = false from rfl)
    have hpoint := toLower_eq_iff (c := c) (show Char.isAlpha '.' = false from rfl)
    have hat := toLower_eq_iff (c := c) (show Char.isAlpha '@' = false from rfl)
    cases inHead with
    | true =>
      simp only [lower_cons, expand?, if_true, hparen, hpoint, isBlank_toLower, hclose, hopen, ih]
      split
      · split
        · exact hmap _ _ fun s => by rw [lower_append, hopening]
        · rfl
      · split
        · exact hmap _ _ fun s => rfl
        · split
          · rfl
          · simp [Option.map_map, Function.comp_def]
    | false =>
      simp only [lower_cons, expand?, Bool.false_eq_true, if_false, hat, ih]
      split
      · exact hmap _ _ fun s => by rw [lower_append]; rfl
      · simp [Option.map_map, Function.comp_def]

/-- Shorthands are expanded alike. -/
theorem expandShorthands_lower (line : List Char) :
    expandShorthands (lower line) = lower (expandShorthands line) := by
  rw [expandShorthands, expandShorthands, expand?_lower]
  cases expand? false line <;> rfl

/-- The logical lines of a source in small letters. -/
theorem logicalLines_lower (source : List Char) :
    logicalLines (lower source) = (logicalLines source).map Line.lower := by
  have hjoined := foldContinuations_lower none (physicalLines source)
  rw [Option.map_none, ← physicalLines_lower] at hjoined
  unfold logicalLines
  rw [hjoined, List.filterMap_map, List.map_filterMap]
  congr 1
  funext line
  simp only [Function.comp_apply, Line.lower, trim_lower, isEmpty_lower, expandShorthands_lower]
  split <;> rfl

/-! ## Tokens and keywords -/

/-- A token in small letters. -/
def Token.lower (token : Token) : Token :=
  { token with text := Text.lower token.text }

/-- The tokens of a text in small letters. -/
theorem tokensFrom_lower (offset : Nat) (s : List Char) :
    tokensFrom offset (lower s) = (tokensFrom offset s).map Token.lower := by
  induction s generalizing offset with
  | nil => rfl
  | cons c rest ih =>
    rw [lower_cons, tokensFrom, tokensFrom, isBlank_toLower, utf8Size_toLower, ih]
    cases tokensFrom (offset + c.utf8Size) rest with
    | nil => cases isBlank c <;> rfl
    | cons token others =>
      cases isBlank c with
      | true => rfl
      | false =>
        simp only [List.map_cons, Token.lower, Bool.false_eq_true, if_false]
        split <;> rfl

/-- The tokens of a line in small letters. -/
theorem tokenize_lower (line : List Char) : tokenize (lower line) = (tokenize line).map Token.lower :=
  tokensFrom_lower 0 line

namespace Keyword

/-- Keywords are spelled in any letter case. -/
theorem ofWord?_lower (word : List Char) : ofWord? (lower word) = ofWord? word := by
  have hword : (lower word).map Char.toLower = word.map Char.toLower := lower_lower word
  rw [ofWord?, ofWord?, hword]

/-- A token spells its keyword in any letter case. -/
theorem ofToken?_lower (token : List Char) : ofToken? (lower token) = ofToken? token := by
  unfold ofToken?
  rw [dropWhile_lower isNameChar_toLower, takeWhile_lower isNameChar_toLower]
  cases token.dropWhile isNameChar with
  | nil => exact ofWord?_lower token
  | cons c rest =>
    by_cases hc : c = '('
    · subst hc
      exact ofWord?_lower _
    · have hlow : c.toLower ≠ '(' := fun heq => hc ((toLower_eq_iff rfl).1 heq)
      simp [hc, hlow]

/-- A line has its keyword in any letter case. -/
theorem ofTokens?_lower (tokens : List Token) :
    ofTokens? (tokens.map Token.lower) = ofTokens? tokens := by
  cases tokens with
  | nil => rfl
  | cons first others => exact ofToken?_lower first.text

/-- What stands behind a keyword, in small letters. -/
theorem remainder?_lower (keyword : Keyword) (line : List Char) :
    keyword.remainder? (lower line) = (keyword.remainder? line).map lower := by
  have hsize : byteSize (lower (trimStart line)) = byteSize (trimStart line) :=
    byteSize_map_toLower _
  unfold remainder?
  simp only [trimStart_lower, hsize, dropBytes?_lower, Option.map_map]
  congr 1
  funext rest
  exact trim_lower rest

end Keyword
end Source

/-! ## Pieces of lines -/

namespace Outline

open Source

/-- Parentheses close at the same places. -/
theorem closesAtEnd_lower (quoting : Quoting) (depth : Nat) (s : List Char) :
    closesAtEnd quoting depth (lower s) = closesAtEnd quoting depth s := by
  induction s generalizing quoting depth with
  | nil => rfl
  | cons c rest ih =>
    have hopen := toLower_eq_iff (c := c) (show Char.isAlpha '(' = false from rfl)
    have hclose := toLower_eq_iff (c := c) (show Char.isAlpha ')' = false from rfl)
    simp only [lower_cons, closesAtEnd, hopen, hclose, ih, isEmpty_lower, Quoting.next_toLower]

/-- Groups are groups in any letter case. -/
theorem isGroup_lower (text : List Char) : isGroup (lower text) = isGroup text := by
  rw [isGroup, isGroup, closesAtEnd_lower]
  cases text with
  | nil => rfl
  | cons c rest =>
    have hhead := of_toLower (fun c => some c == some '(') (by decide) c
    exact congrArg (· && _) hhead

/-- The interval of a header is read in any letter case. -/
theorem readInterval?_lower (token : List Char) :
    readInterval? (lower token) = readInterval? token := by
  cases token with
  | nil => rfl
  | cons c rest =>
    by_cases hopen : c = '('
    · subst hopen
      have hlow : Char.toLower '(' = '(' := rfl
      have hlast : (lower rest).getLast? = some ')' ↔ rest.getLast? = some ')' := by
        rw [lower, List.getLast?_map]
        cases rest.getLast? with
        | none => simp
        | some d => simp [toLower_eq_iff (c := d) (d := ')') rfl]
      have hinside : (lower rest).dropLast = lower rest.dropLast := (List.map_dropLast ..).symm
      simp only [lower_cons, hlow, readInterval?, hlast, hinside, trim_lower, Number.parse?_lower]
    · have hlow : c.toLower ≠ '(' := fun heq => hopen ((toLower_eq_iff rfl).1 heq)
      rw [lower_cons, readInterval?, readInterval?] <;> simp [hopen, hlow]

end Outline
end ScriptMachine
