import Mathlib.Data.List.Basic
import Mathlib.Data.List.Chain
import ScriptMachine.Proofs.Declaring

/-!
# The tokens of a line

A line is blanks around its tokens: blanks stand in front of each token and behind the last one, and
at least one blank stands between two tokens.  A line is laid out in one way only.  Its tokens are
the runs of characters that are not blank and that cannot be made longer, so every character
outside of the tokens is blank, and the line can be cut at the offset of each token.

Main results:

- {lit}`Source.LaidOut`: a text of gaps and tokens, with the offsets of the tokens.
- {lit}`Source.tokensFrom_eq_iff`: the tokens that a text is laid out by.
- {lit}`Source.LaidOut.mem_iff`: they are the maximal runs.
- {lit}`Source.tokenize_exact`: the tokens of every line.
-/

namespace ScriptMachine
namespace Source

open Text

/-! ## Texts laid out by tokens -/

/-- A text that starts at an offset is laid out by tokens: each of them stands behind a gap of
blanks and goes on up to a blank or the end, and a last gap stands behind all of them. -/
inductive LaidOut : Nat → List Token → List Char → Prop where
  | gap {offset : Nat} {gap : List Char} (hgap : ∀ c ∈ gap, isBlank c = true) :
      LaidOut offset [] gap
  | token {offset : Nat} {gap text rest : List Char} {tokens : List Token}
      (hgap : ∀ c ∈ gap, isBlank c = true) (hne : text ≠ [])
      (htext : ∀ c ∈ text, isBlank c = false) (hrest : ∀ c ∈ rest.head?, isBlank c = true)
      (hlater : LaidOut (offset + byteSize gap + byteSize text) tokens rest) :
      LaidOut offset (⟨text, offset + byteSize gap⟩ :: tokens) (gap ++ (text ++ rest))

section LaidOut

variable {offset : Nat} {tokens others : List Token} {s line : List Char}

/-- A text is laid out by its tokens. -/
theorem laidOut_tokensFrom (offset : Nat) (s : List Char) :
    LaidOut offset (tokensFrom offset s) s := by
  rcases exists_word s with hblank | ⟨gap, text, rest, hs, hgap, hne, htext, hrest⟩
  · have hnone := tokensFrom_blanks hblank offset []
    rw [List.append_nil] at hnone
    rw [hnone]
    exact .gap hblank
  · have hshorter : rest.length < s.length := by
      have hlength := List.length_pos_iff.2 hne
      rw [hs, List.length_append, List.length_append]
      omega
    have hlater := laidOut_tokensFrom (offset + byteSize gap + byteSize text) rest
    rw [hs, tokensFrom_blanks hgap, tokensFrom_word hne htext hrest]
    exact .token hgap hne htext hrest hlater
termination_by s.length

/-- The tokens of a text are the ones that it is laid out by. -/
theorem tokensFrom_eq_iff : tokensFrom offset s = tokens ↔ LaidOut offset tokens s := by
  constructor
  · rintro rfl
    exact laidOut_tokensFrom offset s
  · intro h
    induction h with
    | @gap offset gap hgap =>
      have hnone := tokensFrom_blanks hgap offset []
      rwa [List.append_nil] at hnone
    | token hgap hne htext hrest _ ih =>
      rw [tokensFrom_blanks hgap, tokensFrom_word hne htext hrest, ih]

/-- More blanks in front of a text. -/
theorem LaidOut.behind_gap {gap : List Char} (hgap : ∀ c ∈ gap, isBlank c = true)
    (h : LaidOut (offset + byteSize gap) tokens s) : LaidOut offset tokens (gap ++ s) := by
  rw [← tokensFrom_eq_iff, tokensFrom_blanks hgap]
  exact tokensFrom_eq_iff.2 h

/-- Texts are laid out one behind the other when the first one does not end inside of a token. -/
theorem LaidOut.append (h : LaidOut offset tokens s) (hlast : ∀ c ∈ s.getLast?, isBlank c = true)
    {behind : List Char} (hbehind : LaidOut (offset + byteSize s) others behind) :
    LaidOut offset (tokens ++ others) (s ++ behind) := by
  induction h with
  | gap hgap => exact hbehind.behind_gap hgap
  | @token offset gap text rest tokens hgap hne htext hrest _ ih =>
    -- The text does not end in the token, so that a blank stands right behind it.
    have hmore : rest ≠ [] := by
      rintro rfl
      have hlastText := List.getLast?_eq_some_getLast hne
      have hblank := hlast (text.getLast hne) (by simp [hlastText])
      rw [htext _ (List.getLast_mem hne)] at hblank
      cases hblank
    have hlater := ih
      (fun c hc => hlast c (by
        rw [← List.append_assoc, List.getLast?_append_of_ne_nil _ hmore]
        exact hc))
      (by simpa [Nat.add_assoc] using hbehind)
    have hhead : ∀ c ∈ (rest ++ behind).head?, isBlank c = true := by
      rw [List.head?_append_of_ne_nil _ hmore]
      exact hrest
    simpa [List.append_assoc] using LaidOut.token hgap hne htext hhead hlater

/-! ## Maximal runs -/

/-- A token is a run of characters of a line that are not blank, at the offset of the first of
them; blanks or the ends of the line stand on both sides of it. -/
def IsRun (line : List Char) (token : Token) : Prop :=
  token.text ≠ [] ∧ (∀ c ∈ token.text, isBlank c = false) ∧
    ∃ before after, line = before ++ (token.text ++ after) ∧ token.offset = byteSize before ∧
      (∀ c ∈ before.getLast?, isBlank c = true) ∧ ∀ c ∈ after.head?, isBlank c = true

/-- Blanks stand on both sides of the tokens that a text is laid out by. -/
theorem LaidOut.exists_sides (h : LaidOut offset tokens s) {token : Token} (hmem : token ∈ tokens) :
    token.text ≠ [] ∧ (∀ c ∈ token.text, isBlank c = false) ∧
      ∃ before after, s = before ++ (token.text ++ after) ∧
        token.offset = offset + byteSize before ∧
        (∀ c ∈ before.getLast?, isBlank c = true) ∧ ∀ c ∈ after.head?, isBlank c = true := by
  induction h with
  | gap => cases hmem
  | @token offset gap text rest tokens hgap hne htext hrest _ ih =>
    rcases List.mem_cons.1 hmem with rfl | hlater
    · exact ⟨hne, htext, gap, rest, rfl, rfl,
        fun c hc => hgap c (List.mem_of_getLast? hc), hrest⟩
    · rcases ih hlater with ⟨hsome, hvisible, before, after, hsplit, hoffset, hbefore, hafter⟩
      refine ⟨hsome, hvisible, gap ++ (text ++ before), after, ?_, ?_, fun c hc => ?_, hafter⟩
      · simp [hsplit]
      · rw [hoffset]
        simp [Nat.add_assoc]
      · -- A later token does not begin right behind this one.
        cases before with
        | nil =>
          rcases List.exists_cons_of_ne_nil hsome with ⟨d, more, hd⟩
          have hblank := hrest d (by simp [hsplit, hd])
          rw [hvisible d (by simp [hd])] at hblank
          cases hblank
        | cons d more =>
          refine hbefore c ?_
          rwa [← List.append_assoc, List.getLast?_append_of_ne_nil _ (List.cons_ne_nil d more)]
            at hc

/-- The tokens that a line is laid out by are its maximal runs. -/
theorem LaidOut.mem_iff (h : LaidOut 0 tokens line) {token : Token} :
    token ∈ tokens ↔ IsRun line token := by
  constructor
  · intro hmem
    simpa [IsRun] using h.exists_sides hmem
  · rintro ⟨hne, htext, before, after, rfl, hoffset, hbefore, hafter⟩
    -- The line laid out anew: what stands before the run, the run, and what stands behind it.
    have hrun : LaidOut (byteSize before) _ ([] ++ (token.text ++ after)) :=
      .token (by simp) hne htext hafter (laidOut_tokensFrom _ after)
    have hwhole := (laidOut_tokensFrom 0 before).append hbefore (by simpa using hrun)
    rw [← tokensFrom_eq_iff.2 h, tokensFrom_eq_iff.2 hwhole]
    simp [byteSize, ← hoffset]

/-! ## Gaps -/

/-- Two tokens follow each other in a line with nothing but a gap of blanks in between. -/
def Follows (line : List Char) (first next : Token) : Prop :=
  ∃ before gap after, line = before ++ (first.text ++ (gap ++ (next.text ++ after))) ∧
    first.offset = byteSize before ∧
    next.offset = first.offset + byteSize first.text + byteSize gap ∧
    gap ≠ [] ∧ ∀ c ∈ gap, isBlank c = true

/-- In a line that is laid out from some point on, the tokens from there on follow each other. -/
theorem LaidOut.isChain (h : LaidOut offset tokens s) {front : List Char}
    (hfront : byteSize front = offset) : tokens.IsChain (Follows (front ++ s)) := by
  induction h generalizing front with
  | gap => exact .nil
  | @token offset gap text rest tokens hgap hne htext hrest hlater ih =>
    have hsize : byteSize (front ++ (gap ++ text)) = offset + byteSize gap + byteSize text := by
      simp [hfront, Nat.add_assoc]
    have hbehind := ih hsize
    have hline : front ++ (gap ++ text) ++ rest = front ++ (gap ++ (text ++ rest)) := by simp
    rw [hline] at hbehind
    cases hlater with
    | gap => exact .singleton _
    | @token _ between nextText after others hbetween hnextNe hnextText =>
      refine .cons_cons ⟨front ++ gap, between, after, by simp, ?_, rfl, ?_, hbetween⟩ hbehind
      · simp [hfront]
      · -- The next token begins with a character that is not blank.
        rintro rfl
        rcases List.exists_cons_of_ne_nil hnextNe with ⟨d, more, rfl⟩
        have hblank := hrest d (by simp)
        rw [hnextText d (by simp)] at hblank
        cases hblank

/-- A token that follows another one stands further on. -/
theorem Follows.offset_lt {first next : Token} (h : Follows line first next) :
    first.offset < next.offset := by
  rcases h with ⟨before, gap, after, -, -, hnext, hne, -⟩
  rcases List.exists_cons_of_ne_nil hne with ⟨c, more, rfl⟩
  have hpos := c.utf8Size_pos
  simp only [byteSize] at hnext
  omega

/-- Offsets of tokens that follow each other ascend. -/
theorem pairwise_of_follows (h : tokens.IsChain (Follows line)) :
    tokens.Pairwise fun first later => first.offset < later.offset := by
  have hascending := h.imp fun _ _ hfollows => hfollows.offset_lt
  exact List.isChain_iff_pairwise.1 hascending

/-- A text ends in characters that are not blank, behind a blank or none. -/
theorem exists_visible_end (s : List Char) : ∃ before front, s = before ++ front ∧
    (∀ c ∈ front, isBlank c = false) ∧ ∀ c ∈ before.getLast?, isBlank c = true := by
  induction s using List.reverseRecOn with
  | nil => exact ⟨[], [], rfl, by simp, by simp⟩
  | append_singleton s c ih =>
    by_cases hc : isBlank c = true
    · exact ⟨s ++ [c], [], by simp, by simp, by simpa using hc⟩
    · rcases ih with ⟨before, front, rfl, hfront, hbefore⟩
      refine ⟨before, front ++ [c], by simp, fun d hd => ?_, hbefore⟩
      rcases List.mem_append.1 hd with hd | hd
      · exact hfront d hd
      · rw [List.mem_singleton.1 hd]
        exact Bool.eq_false_iff.2 hc

/-- A text begins with characters that are not blank, up to a blank or the end. -/
theorem exists_visible_start (s : List Char) : ∃ back after, s = back ++ after ∧
    (∀ c ∈ back, isBlank c = false) ∧ ∀ c ∈ after.head?, isBlank c = true := by
  induction s with
  | nil => exact ⟨[], [], rfl, by simp, by simp⟩
  | cons c rest ih =>
    by_cases hc : isBlank c = true
    · exact ⟨[], c :: rest, rfl, by simp, by simpa using hc⟩
    · rcases ih with ⟨back, after, rfl, hback, hafter⟩
      refine ⟨c :: back, after, rfl, fun d hd => ?_, hafter⟩
      rcases List.mem_cons.1 hd with rfl | hd
      · exact Bool.eq_false_iff.2 hc
      · exact hback d hd

/-- Every character of a line that is not blank belongs to a maximal run. -/
theorem exists_isRun {before after : List Char} {c : Char} (hc : isBlank c = false) :
    ∃ token front back, IsRun (before ++ c :: after) token ∧ token.text = front ++ c :: back ∧
      token.offset + byteSize front = byteSize before := by
  rcases exists_visible_end before with ⟨start, front, rfl, hfront, hstart⟩
  rcases exists_visible_start after with ⟨back, last, rfl, hback, hlast⟩
  refine ⟨⟨front ++ c :: back, byteSize start⟩, front, back,
    ⟨by simp, fun d hd => ?_, start, last, by simp, rfl, hstart, hlast⟩, rfl, by simp⟩
  rcases List.mem_append.1 hd with hd | hd
  · exact hfront d hd
  · rcases List.mem_cons.1 hd with rfl | hd
    · exact hc
    · exact hback d hd

end LaidOut

/-! ## The tokens of every line -/

/-- The tokens of a line are its maximal runs of characters that are not blank, in their order and
with the bytes in front of them counted.  The line consists of them and of the gaps around them, one
blank at least between two of them, and of no other tokens and gaps; it can be cut at every token,
and a character that is not blank is a character of a token. -/
theorem tokenize_exact (line : List Char) :
    (∀ tokens, LaidOut 0 tokens line ↔ tokens = tokenize line) ∧
      (∀ token, token ∈ tokenize line ↔ IsRun line token) ∧
      (tokenize line).IsChain (Follows line) ∧
      ((tokenize line).Pairwise fun first later => first.offset < later.offset) ∧
      (∀ token ∈ tokenize line,
        ∃ after, dropBytes? token.offset line = some (token.text ++ after)) ∧
      ∀ before c after, line = before ++ c :: after → isBlank c = false →
        ∃ token ∈ tokenize line, ∃ front back, token.text = front ++ c :: back ∧
          token.offset + byteSize front = byteSize before := by
  have hlaid : LaidOut 0 (tokenize line) line := laidOut_tokensFrom 0 line
  have hfollow : (tokenize line).IsChain (Follows ([] ++ line)) := hlaid.isChain rfl
  refine ⟨fun tokens => ?_, fun token => hlaid.mem_iff, hfollow, pairwise_of_follows hfollow,
    fun token hmem => ?_, ?_⟩
  · rw [← tokensFrom_eq_iff, eq_comm]
    rfl
  · rcases hlaid.mem_iff.1 hmem with ⟨-, -, before, after, hline, hoffset, -⟩
    refine ⟨after, ?_⟩
    rw [hoffset]
    conv_lhs => rw [hline]
    exact dropBytes?_append _ _
  · rintro before c after rfl hc
    have hinside : ∃ token front back, IsRun (before ++ c :: after) token ∧
        token.text = front ++ c :: back ∧ token.offset + byteSize front = byteSize before :=
      exists_isRun hc
    rcases hinside with ⟨token, front, back, hrun, htext, hoffset⟩
    exact ⟨token, hlaid.mem_iff.2 hrun, front, back, htext, hoffset⟩

/-- Characters of more than one byte move the offsets behind them, and a wide blank separates. -/
example : tokenize "  é  ab".toList = [⟨['é'], 2⟩, ⟨['a', 'b'], 8⟩] := by
  decide

end Source
end ScriptMachine
