import ScriptMachine.Script.Outline

/-!
# Words and keywords of a line

The tokens of a line are pieces of it, so the text from a token on can always be cut off.
The keyword of a line is spelled by its first characters, comments and tabs or not, so the
text behind the keyword can always be cut off as well.

Main results:

- {lit}`Source.tokensFrom_split`: a token is a piece of the text at its offset.
- {lit}`Source.Line.exists_remainder`: what a line says behind its keyword exists.
- {lit}`Source.Line.exists_fromToken`: so does what it says from a token on.
-/

namespace ScriptMachine
namespace Source

open Text

/-! ## Tokens -/

/-- A token is a piece of the text at its offset. -/
theorem tokensFrom_split {offset : Nat} {s : List Char} {token : Token}
    (h : token ∈ tokensFrom offset s) :
    ∃ before after, s = before ++ token.text ++ after ∧
      token.offset = offset + byteSize before := by
  induction s generalizing offset token with
  | nil => simp [tokensFrom] at h
  | cons c rest ih =>
    -- What holds behind the first character holds for the whole text.
    have hbehind : token ∈ tokensFrom (offset + c.utf8Size) rest → ∃ before after,
        c :: rest = before ++ token.text ++ after ∧ token.offset = offset + byteSize before := by
      intro hmem
      rcases ih hmem with ⟨before, after, hrest, hoffset⟩
      refine ⟨c :: before, after, ?_, ?_⟩
      · rw [hrest]
        simp
      · simp only [byteSize]
        omega
    simp only [tokensFrom] at h
    by_cases hblank : isBlank c = true
    · rw [if_pos hblank] at h
      exact hbehind h
    · rw [if_neg hblank] at h
      cases hfollowing : tokensFrom (offset + c.utf8Size) rest with
      | nil =>
        rw [hfollowing] at h
        simp only [List.mem_singleton] at h
        subst h
        exact ⟨[], rest, rfl, rfl⟩
      | cons first others =>
        have hfirst : first ∈ tokensFrom (offset + c.utf8Size) rest := by simp [hfollowing]
        rw [hfollowing] at h hbehind
        simp only at h
        by_cases hadjacent : first.offset = offset + c.utf8Size
        · rw [if_pos hadjacent] at h
          rcases List.mem_cons.1 h with rfl | hmem
          · rcases ih hfirst with ⟨before, after, hrest, hoffset⟩
            have hempty : before = [] := by
              cases before with
              | nil => rfl
              | cons d more =>
                have hpos := d.utf8Size_pos
                simp only [byteSize] at hoffset
                omega
            subst hempty
            exact ⟨[], after, by simp [hrest], rfl⟩
          · exact hbehind (List.mem_cons_of_mem _ hmem)
        · rw [if_neg hadjacent] at h
          rcases List.mem_cons.1 h with rfl | hmem
          · exact ⟨[], rest, rfl, rfl⟩
          · exact hbehind hmem

/-- Only blanks stand in front of the first token. -/
theorem tokensFrom_first {offset : Nat} {s : List Char} {first : Token} {others : List Token}
    (h : tokensFrom offset s = first :: others) :
    ∃ before after, s = before ++ first.text ++ after ∧ ∀ c ∈ before, isBlank c = true := by
  induction s generalizing offset first others with
  | nil => simp [tokensFrom] at h
  | cons c rest ih =>
    by_cases hblank : isBlank c = true
    · simp only [tokensFrom, if_pos hblank] at h
      rcases ih h with ⟨before, after, hrest, hall⟩
      refine ⟨c :: before, after, by simp [hrest], ?_⟩
      intro d hd
      rcases List.mem_cons.1 hd with rfl | hd
      · exact hblank
      · exact hall d hd
    · -- The first token starts with the first character.
      have hmem : first ∈ tokensFrom offset (c :: rest) := by simp [h]
      have hoffset : first.offset = offset := by
        simp only [tokensFrom, if_neg hblank] at h
        split at h
        · cases h
          rfl
        · split at h
          · cases h
            rfl
          · cases h
            rfl
      rcases tokensFrom_split hmem with ⟨before, after, hs, hsize⟩
      have hempty : before = [] := by
        cases before with
        | nil => rfl
        | cons d more =>
          have hpos := d.utf8Size_pos
          simp only [byteSize] at hsize
          omega
      subst hempty
      exact ⟨[], after, hs, by simp⟩

/-! ## Keywords -/

/-- Letter case does not change the size of a character. -/
theorem utf8Size_toLower (c : Char) : c.toLower.utf8Size = c.utf8Size := by
  unfold Char.toLower
  split
  · next h =>
    have hupper : c.val.toNat ≤ 90 := UInt32.le_iff_toNat_le.1 h.2
    have hsmall : c.utf8Size = 1 := by
      rw [Char.utf8Size_eq_one_iff, UInt32.le_iff_toNat_le]
      exact Nat.le_trans hupper (by decide)
    rw [hsmall, Char.utf8Size_eq_one_iff, UInt32.le_iff_toNat_le, UInt32.toNat_add]
    show (c.val.toNat + 32) % 4294967296 ≤ 127
    omega
  · rfl

/-- Letter case does not change the size of a text. -/
theorem byteSize_map_toLower (s : List Char) : byteSize (s.map Char.toLower) = byteSize s := by
  induction s with
  | nil => rfl
  | cons c rest ih => simp only [List.map_cons, byteSize, utf8Size_toLower, ih]

/-- Trimming the end leaves a beginning. -/
theorem trimEnd_prefix (s : List Char) : ∃ blanks, s = trimEnd s ++ blanks := by
  induction s with
  | nil => exact ⟨[], rfl⟩
  | cons c rest ih =>
    rcases ih with ⟨blanks, hrest⟩
    unfold trimEnd
    split
    · by_cases hblank : isBlank c = true
      · rw [if_pos hblank]
        exact ⟨c :: rest, rfl⟩
      · rw [if_neg hblank]
        exact ⟨rest, rfl⟩
    · refine ⟨blanks, ?_⟩
      rw [List.cons_append, ← hrest]

/-- Blanks behind a text are trimmed off. -/
theorem trimEnd_append_blanks {blanks : List Char} (h : ∀ c ∈ blanks, isBlank c = true)
    (s : List Char) : trimEnd (s ++ blanks) = trimEnd s := by
  induction s with
  | nil => exact (trimEnd_nil_iff blanks).2 h
  | cons c rest ih => rw [List.cons_append, trimEnd, ih, trimEnd]

/-- Trimming the start drops blanks. -/
theorem trimStart_suffix (s : List Char) :
    ∃ blanks, s = blanks ++ trimStart s ∧ ∀ c ∈ blanks, isBlank c = true :=
  ⟨s.takeWhile isBlank, List.takeWhile_append_dropWhile.symm,
    List.all_eq_true.1 List.all_takeWhile⟩

/-- Blanks in front of another character are what trimming drops. -/
theorem trimStart_append {blanks : List Char} (hblanks : ∀ c ∈ blanks, isBlank c = true) {c : Char}
    {rest : List Char} (hc : isBlank c = false) : trimStart (blanks ++ c :: rest) = c :: rest := by
  unfold trimStart
  rw [List.dropWhile_append_of_pos hblanks, List.dropWhile_cons, hc]
  rfl

/-- A comment is the end of a line. -/
theorem beforeComment_prefix (quoting : Quoting) (s : List Char) :
    ∃ comment, s = beforeComment quoting s ++ comment := by
  induction s generalizing quoting with
  | nil => exact ⟨[], rfl⟩
  | cons c rest ih =>
    unfold beforeComment
    by_cases hcomment : quoting = .outside ∧ c = ';'
    · rw [if_pos hcomment]
      exact ⟨c :: rest, rfl⟩
    · rw [if_neg hcomment]
      rcases ih (quoting.next c) with ⟨comment, hrest⟩
      refine ⟨comment, ?_⟩
      rw [List.cons_append, ← hrest]

/-- The first word of a line that holds no blank is the same before the line is cleaned. -/
theorem trimStart_of_clean {line before word after : List Char}
    (hclean : clean .everything line = before ++ word ++ after)
    (hbefore : ∀ c ∈ before, isBlank c = true) (hword : ∀ c ∈ word, isBlank c = false)
    (hne : word ≠ []) : ∃ rest, trimStart line = word ++ rest := by
  let tab : Char → Char := fun c => if c = '\t' then ' ' else c
  have htab : ∀ c, isBlank (tab c) = isBlank c := by
    intro c
    by_cases hc : c = '\t'
    · subst hc
      decide
    · simp only [tab, if_neg hc]
  rcases beforeComment_prefix .outside line with ⟨comment, hline⟩
  have hstart := trimEnd_prefix (trimStart ((beforeComment .outside line).map tab))
  rcases hstart with ⟨last, hstart⟩
  have hcleaned : trimEnd (trimStart ((beforeComment .outside line).map tab)) =
      before ++ word ++ after := hclean
  rw [hcleaned] at hstart
  rcases trimStart_suffix ((beforeComment .outside line).map tab) with ⟨blanks, htabbed, hblanks⟩
  rw [hstart] at htabbed
  -- The same pieces in the line before its tabs were replaced.
  have hpieces : (beforeComment .outside line).map tab =
      (blanks ++ before) ++ (word ++ (after ++ last)) := by
    rw [htabbed]
    simp
  rcases List.map_eq_append_iff.1 hpieces with ⟨front, back, hsplit, hfront, hback⟩
  rcases List.map_eq_append_iff.1 hback with ⟨first, rest, hsplit', hfirst, _⟩
  have hsame : first = word := by
    rw [← hfirst]
    refine (List.map_id first).symm.trans (List.map_congr_left fun c hc => ?_)
    have hnot : isBlank c = false := by
      rw [← htab]
      exact hword _ (hfirst ▸ List.mem_map_of_mem hc)
    by_cases hctab : c = '\t'
    · subst hctab
      cases hnot
    · simp only [tab, if_neg hctab, id]
  have hfrontBlank : ∀ c ∈ front, isBlank c = true := by
    intro c hc
    rw [← htab]
    have hmem : tab c ∈ blanks ++ before := hfront ▸ List.mem_map_of_mem hc
    rcases List.mem_append.1 hmem with hmem | hmem
    · exact hblanks _ hmem
    · exact hbefore _ hmem
  refine ⟨rest ++ comment, ?_⟩
  rw [hline, hsplit, hsplit', hsame]
  cases word with
  | nil => exact absurd rfl hne
  | cons c more =>
    have hc := hword c (by simp)
    have hjoin : front ++ (c :: more ++ rest) ++ comment =
        front ++ c :: (more ++ rest ++ comment) := by
      simp
    rw [hjoin, trimStart_append hfrontBlank hc]
    simp

namespace Keyword

/-- The keyword of a token is spelled by its first characters. -/
theorem ofToken?_spelled {token : List Char} {keyword : Keyword}
    (h : ofToken? token = some keyword) :
    ∃ word rest, token = word ++ rest ∧ word.map Char.toLower = keyword.text.toList := by
  have hspelled : ∀ {word : List Char}, ofWord? word = some keyword →
      word.map Char.toLower = keyword.text.toList := by
    intro word hword
    have hfound := List.find?_some hword
    exact (beq_iff_eq.1 hfound).symm
  unfold ofToken? at h
  split at h
  · exact ⟨token, [], by simp, hspelled h⟩
  · exact ⟨_, _, List.takeWhile_append_dropWhile.symm, hspelled h⟩
  · cases h

/-- The text of a keyword is not empty. -/
theorem text_ne_nil (keyword : Keyword) : keyword.text.toList ≠ [] := by
  cases keyword <;> decide

end Keyword

namespace Line

/-- The tokens of a line. -/
def tokens (line : Line) : List Token :=
  tokenize (clean .everything line.text)

/-- The keyword of a line. -/
def keyword? (line : Line) : Option Keyword :=
  Keyword.ofTokens? line.tokens

/-- What a line says behind its keyword exists. -/
theorem exists_remainder {line : Line} {keyword : Keyword} (h : line.keyword? = some keyword) :
    ∃ text, keyword.remainder? line.text = some text := by
  unfold keyword? Keyword.ofTokens? at h
  split at h
  · cases h
  · next first others htokens =>
    rcases tokensFrom_first htokens with ⟨before, after, hclean, hbefore⟩
    rcases Keyword.ofToken?_spelled h with ⟨word, rest, htoken, hspelled⟩
    have hblank : ∀ c ∈ word, isBlank c = false := by
      intro c hc
      have hmem : first ∈ tokensFrom 0 (clean .everything line.text) := by
        have hall : tokensFrom 0 (clean .everything line.text) = first :: others := htokens
        simp [hall]
      refine (tokensFrom_text 0 _ first hmem).2 c ?_
      rw [htoken]
      exact List.mem_append_left _ hc
    have hne : word ≠ [] := by
      intro hnil
      rw [hnil] at hspelled
      exact keyword.text_ne_nil hspelled.symm
    rw [htoken, ← List.append_assoc, List.append_assoc (before ++ word)] at hclean
    rcases trimStart_of_clean hclean hbefore hblank hne with ⟨tail, htrim⟩
    have hsize : byteSize keyword.text.toList = byteSize word := by
      rw [← hspelled, byteSize_map_toLower]
    refine ⟨trim tail, ?_⟩
    unfold Keyword.remainder?
    simp only [htrim, hsize, byteSize_append]
    rw [Nat.min_eq_left (Nat.le_add_right _ _), dropBytes?_append]
    rfl

/-- What a line says from a token on exists. -/
theorem exists_fromToken {line : Line} {token : Token} (h : token ∈ line.tokens) :
    ∃ text, dropBytes? token.offset (clean .everything line.text) = some text := by
  rcases tokensFrom_split h with ⟨before, after, hclean, hoffset⟩
  refine ⟨token.text ++ after, ?_⟩
  rw [hoffset, Nat.zero_add, hclean, List.append_assoc]
  exact dropBytes?_append _ _

end Line

end Source
end ScriptMachine
