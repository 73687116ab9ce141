import ScriptMachine.Proofs.Compiling

/-!
# String literals in logical lines

Comments are stripped and continued lines are joined without touching a string literal, as long as
every literal is closed on its line: comments, blanks at the ends and continuation markers all stand
outside of literals.  Call shorthands are expanded without regard to literals.  A literal is spared
if the line has a malformed shorthand, so that it stays as it is, if the literal stands in the head
of a shorthand and has none of the characters that are rewritten there, or if it stands elsewhere
and has no at sign.

Main results:

- {lit}`Source.LiteralAt`: where a literal stands in a line.
- {lit}`Source.expandShorthands_append`: a line with its shorthands expanded, part by part.
- {lit}`Source.expandPart_eq_iff`: which parts of a line come out of the expansion unchanged.
- {lit}`Source.literals_kept`: what becomes of a literal in the logical line.
-/

namespace ScriptMachine
namespace Source

open Text

/-! ## Literals -/

/-- The scan of a text comes outside of literals with its last character, and not before. -/
def closes : Quoting → List Char → Bool
  | _, [] => false
  | quoting, [c] => quoting.next c = .outside
  | quoting, c :: rest => quoting.next c ≠ .outside && closes (quoting.next c) rest

/-- A quote, and what belongs to it up to the closing quote. -/
def isLiteral : List Char → Bool
  | '"' :: rest => closes .inside rest
  | _ => false

/-- A literal stands in a line, behind some text and in front of another one. -/
structure LiteralAt (line front literal back : List Char) : Prop where
  line : line = front ++ literal ++ back
  outside : Quoting.outside.after front = .outside
  literal : isLiteral literal = true

/-- Every literal of a line is closed in front of its comment. -/
def IsComplete (line : List Char) : Prop :=
  Quoting.outside.after (beforeComment .outside line) = .outside

instance (line : List Char) : Decidable (IsComplete line) :=
  inferInstanceAs (Decidable (_ = _))

/-- What closes a literal ends with a quote. -/
theorem exists_of_closes {quoting : Quoting} {s : List Char} (hne : quoting ≠ .outside)
    (h : closes quoting s = true) : ∃ body, s = body ++ ['"'] := by
  induction s generalizing quoting with
  | nil => cases h
  | cons c rest ih =>
    cases rest with
    | nil =>
      refine ⟨[], ?_⟩
      by_cases hc : c = '"'
      · rw [hc]
        rfl
      · cases quoting <;> simp [closes, Quoting.next, hc] at h hne
        split at h <;> cases h
    | cons d others =>
      simp only [closes, Bool.and_eq_true, decide_eq_true_eq] at h
      rcases ih h.1 h.2 with ⟨body, hbody⟩
      exact ⟨c :: body, by rw [hbody]; rfl⟩

/-- No comment begins before a literal is closed. -/
theorem beforeComment_of_closes {quoting : Quoting} {s : List Char} (t : List Char)
    (hne : quoting ≠ .outside) (h : closes quoting s = true) :
    beforeComment quoting (s ++ t) = s ++ beforeComment .outside t := by
  induction s generalizing quoting with
  | nil => cases h
  | cons c rest ih =>
    rw [List.cons_append, beforeComment, if_neg fun hcomment => hne hcomment.1]
    cases rest with
    | nil =>
      have hnext : quoting.next c = .outside := by simpa [closes] using h
      rw [hnext]
      rfl
    | cons d others =>
      simp only [closes, Bool.and_eq_true, decide_eq_true_eq] at h
      rw [ih h.1 h.2]
      rfl

section Literal

variable {literal : List Char} (h : isLiteral literal = true)
include h

/-- A literal begins with a quote. -/
theorem exists_of_isLiteral : ∃ rest, literal = '"' :: rest ∧ closes .inside rest = true := by
  unfold isLiteral at h
  split at h
  · exact ⟨_, rfl, h⟩
  · cases h

/-- A literal ends with a quote. -/
theorem exists_concat_of_isLiteral : ∃ body, literal = body ++ ['"'] := by
  rcases exists_of_isLiteral h with ⟨rest, rfl, hrest⟩
  rcases exists_of_closes (by decide) hrest with ⟨body, rfl⟩
  exact ⟨'"' :: body, rfl⟩

/-- No comment begins inside of a literal. -/
theorem beforeComment_of_isLiteral (t : List Char) :
    beforeComment .outside (literal ++ t) = literal ++ beforeComment .outside t := by
  rcases exists_of_isLiteral h with ⟨rest, rfl, hrest⟩
  rw [List.cons_append, beforeComment, if_neg (by decide)]
  exact congrArg _ (beforeComment_of_closes t (by decide) hrest)

end Literal

/-! ## Cleaned lines -/

/-- Text without a comment is kept in front of what follows it. -/
theorem beforeComment_of_not_hasComment {quoting : Quoting} {s : List Char} (t : List Char)
    (h : hasComment quoting s = false) :
    beforeComment quoting (s ++ t) = s ++ beforeComment (quoting.after s) t := by
  induction s generalizing quoting with
  | nil => rfl
  | cons c rest ih =>
    simp only [hasComment, Bool.or_eq_false_iff, decide_eq_false_iff_not] at h
    rw [List.cons_append, beforeComment, if_neg h.1, ih h.2]
    rfl

/-- Trimming the end of a text stops at a character that is not blank. -/
theorem trimEnd_append {s : List Char} {c : Char} (t : List Char) (hc : isBlank c = false) :
    trimEnd (s ++ c :: t) = s ++ c :: trimEnd t := by
  have hbase : trimEnd (c :: t) = c :: trimEnd t := by
    rw [trimEnd]
    split
    · next hrest => rw [hrest, hc]; rfl
    · rfl
  induction s with
  | nil => exact hbase
  | cons d rest ih =>
    rw [List.cons_append, trimEnd, ih]
    cases rest <;> rfl

/-- A blank opens and closes no literal. -/
theorem next_of_isBlank (quoting : Quoting) {c : Char} (hc : isBlank c = true) :
    quoting.next c = .outside ↔ quoting = .outside := by
  have hne : c ≠ '"' := by
    rintro rfl
    exact absurd hc (by decide)
  cases quoting with
  | outside => simp [Quoting.next, hne]
  | inside =>
    by_cases hmarker : c = '\\' <;> simp [Quoting.next, hne, hmarker]
  | escape => simp [Quoting.next]

/-- A text that ends outside of literals still does when its end is trimmed. -/
theorem after_trimEnd {quoting : Quoting} {s : List Char} (h : quoting.after s = .outside) :
    quoting.after (trimEnd s) = .outside := by
  induction s generalizing quoting with
  | nil => exact h
  | cons c rest ih =>
    have hrest : (quoting.next c).after (trimEnd rest) = .outside := ih h
    unfold trimEnd
    split
    · next hnil =>
      rw [hnil] at hrest
      split
      · next hblank => exact (next_of_isBlank quoting hblank).1 hrest
      · exact hrest
    · exact hrest

/-- A text that ends outside of literals still does when its start is trimmed. -/
theorem after_trimStart {s : List Char} (h : Quoting.outside.after s = .outside) :
    Quoting.outside.after (trimStart s) = .outside := by
  induction s with
  | nil => exact h
  | cons c rest ih =>
    unfold trimStart
    rw [List.dropWhile_cons]
    split
    · next hblank =>
      have hnext : Quoting.outside.next c = .outside := (next_of_isBlank _ hblank).2 rfl
      have hrest : (Quoting.outside.next c).after rest = .outside := h
      rw [hnext] at hrest
      exact ih hrest
    · exact h

/-- A text that ends outside of literals still does without its continuation marker. -/
theorem after_withoutMarker {s : List Char} (h : Quoting.outside.after s = .outside) :
    Quoting.outside.after (withoutMarker s) = .outside := by
  unfold withoutMarker
  split
  · next hmarker =>
    have hlast : s.getLast? = some '\\' := by simpa [isContinued] using hmarker
    rcases List.getLast?_eq_some_iff.1 hlast with ⟨front, rfl⟩
    rw [List.dropLast_concat]
    rw [Quoting.after_append] at h
    cases hfront : Quoting.outside.after front with
    | outside => rfl
    | inside =>
      rw [hfront] at h
      cases h
    | escape =>
      rw [hfront] at h
      cases h
  · exact h

namespace LiteralAt

variable {line front literal back : List Char} (h : LiteralAt line front literal back)
include h

/-- The end of a literal stands in its line. -/
theorem exists_quote : ∃ start, line = start ++ '"' :: back := by
  rcases exists_concat_of_isLiteral h.literal with ⟨body, hbody⟩
  refine ⟨front ++ body, ?_⟩
  rw [h.line, hbody]
  simp

/-- Stripping the comment and trimming the end leave a literal in front of the comment. -/
theorem clean (hcomment : hasComment .outside front = false) :
    LiteralAt (clean .commentsOnly line) front literal
      (trimEnd (beforeComment .outside back)) := by
  refine ⟨?_, h.outside, h.literal⟩
  rcases exists_concat_of_isLiteral h.literal with ⟨body, hbody⟩
  have hstripped : beforeComment .outside line =
      front ++ (literal ++ beforeComment .outside back) := by
    rw [h.line, List.append_assoc, beforeComment_of_not_hasComment _ hcomment, h.outside,
      beforeComment_of_isLiteral h.literal]
  show trimEnd (beforeComment .outside line) = _
  rw [hstripped, hbody]
  have hquote := trimEnd_append (s := front ++ body) (c := '"')
    (beforeComment .outside back) (by decide)
  simpa using hquote

/-- Dropping a continuation marker leaves the literals. -/
theorem withoutMarker : ∃ rest, LiteralAt (withoutMarker line) front literal rest := by
  unfold Source.withoutMarker
  split
  · next hmarker =>
    have hlast : line.getLast? = some '\\' := by simpa [isContinued] using hmarker
    rcases h.exists_quote with ⟨start, hquote⟩
    have hback : back ≠ [] := by
      rintro rfl
      rw [hquote, List.getLast?_append] at hlast
      cases hlast
    refine ⟨back.dropLast, ?_, h.outside, h.literal⟩
    rw [h.line, List.dropLast_append_of_ne_nil hback]
  · exact ⟨back, h⟩

/-- Trimming the start leaves the literals. -/
theorem trimStart : ∃ start, LiteralAt (trimStart line) start literal back := by
  rcases h with ⟨rfl, houtside, hliteral⟩
  induction front with
  | nil =>
    rcases exists_of_isLiteral hliteral with ⟨rest, rfl, -⟩
    refine ⟨[], ?_, rfl, hliteral⟩
    simp [Text.trimStart, isBlank, blankRanges]
  | cons c rest ih =>
    by_cases hblank : isBlank c = true
    · have hnext : Quoting.outside.next c = .outside := (next_of_isBlank _ hblank).2 rfl
      have hrest : (Quoting.outside.next c).after rest = .outside := houtside
      rw [hnext] at hrest
      rcases ih hrest with ⟨start, hstart⟩
      refine ⟨start, ?_⟩
      have hdrop : Text.trimStart (c :: rest ++ literal ++ back) =
          Text.trimStart (rest ++ literal ++ back) := by
        simp [Text.trimStart, hblank]
      rw [hdrop]
      exact hstart
    · refine ⟨c :: rest, ?_, houtside, hliteral⟩
      simp [Text.trimStart, hblank]

/-- A literal stays when text follows. -/
theorem append_right (t : List Char) : LiteralAt (line ++ t) front literal (back ++ t) := by
  refine ⟨?_, h.outside, h.literal⟩
  rw [h.line]
  simp

/-- A literal stays behind text that ends outside of literals. -/
theorem append_left {s : List Char} (hs : Quoting.outside.after s = .outside) :
    LiteralAt (s ++ line) (s ++ front) literal back := by
  refine ⟨?_, ?_, h.literal⟩
  · rw [h.line]
    simp
  · rw [Quoting.after_append, hs]
    exact h.outside

/-- Joining a line to an unfinished one leaves its literals. -/
theorem joinLine {unfinished : Option Line} {next : Line} (hnext : next.text = line)
    (hunfinished : ∀ first ∈ unfinished, Quoting.outside.after first.text = .outside) :
    ∃ start rest, LiteralAt (joinLine unfinished next).text start literal rest := by
  subst hnext
  rcases h.withoutMarker with ⟨rest, hmarker⟩
  cases unfinished with
  | none => exact ⟨front, rest, hmarker⟩
  | some first =>
    rcases hmarker.trimStart with ⟨start, hstart⟩
    exact ⟨first.text ++ start, rest, hstart.append_left (hunfinished first rfl)⟩

end LiteralAt

/-! ## Joined lines -/

/-- The line of a list that a physical line went into: the last one that does not begin behind
it. -/
structure IsLineOf (lines : List Line) (number : Nat) (line : Line) : Prop where
  mem : line ∈ lines
  before : line.number ≤ number
  last : ∀ other ∈ lines, other.number ≤ number → other.number ≤ line.number

/-- A line in front of lines with greater numbers is what smaller numbers lead to. -/
theorem isLineOf_head {lines : List Line} {number : Nat} {line : Line} (hline : line.number ≤ number)
    (hlines : ∀ other ∈ lines, number < other.number) : IsLineOf (line :: lines) number line where
  mem := List.mem_cons_self
  before := hline
  last := by
    intro other hother hbefore
    rcases List.mem_cons.1 hother with rfl | hbehind
    · exact Nat.le_refl _
    · exact absurd hbefore (Nat.not_le_of_lt (hlines other hbehind))

/-- A line that a number leads to stays so behind a line that comes before it. -/
theorem IsLineOf.cons {lines : List Line} {number : Nat} {line first : Line}
    (h : IsLineOf lines number line) (hfirst : first.number ≤ line.number) :
    IsLineOf (first :: lines) number line where
  mem := List.mem_cons_of_mem _ h.mem
  before := h.before
  last := by
    intro other hother hbefore
    rcases List.mem_cons.1 hother with rfl | hbehind
    · exact hfirst
    · exact h.last other hbehind hbefore

/-- Lines stand in the order of their numbers. -/
def Ascending (lines : List Line) : Prop :=
  lines.Pairwise fun line later => line.number < later.number

/-- Physical lines stand in the order of their numbers. -/
theorem physicalLines_ascending (source : List Char) : Ascending (physicalLines source) := by
  have hnumbered : (((lines source).map (clean .commentsOnly)).zipIdx 1).Pairwise
      fun line later => line.2 < later.2 := by
    rw [List.pairwise_iff_getElem]
    intro i j hi hj hlt
    simpa using hlt
  refine List.Pairwise.filterMap _ ?_ hnumbered
  rintro ⟨text, number⟩ ⟨later, behind⟩ hlt line hline other hother
  simp only at hline hother
  split at hline
  · cases hline
  · split at hother
    · cases hother
    · cases hline
      cases hother
      exact hlt

/-- A line of the text stands among the physical lines when something is left of it. -/
theorem mem_physicalLines {source text : List Char} {n : Nat} (hline : (lines source)[n]? = some text)
    (hleft : clean .commentsOnly text ≠ []) :
    ⟨n + 1, clean .commentsOnly text⟩ ∈ physicalLines source := by
  refine List.mem_filterMap.2 ⟨(clean .commentsOnly text, n + 1), ?_, ?_⟩
  · rw [Nat.add_comm, List.mk_add_mem_zipIdx_iff_getElem?, List.getElem?_map, hline]
    rfl
  · simp [hleft]

/-- Physical lines end outside of literals when the lines of the text are complete. -/
theorem after_of_mem_physicalLines {source : List Char}
    (hcomplete : ∀ text ∈ lines source, IsComplete text) :
    ∀ line ∈ physicalLines source, Quoting.outside.after line.text = .outside := by
  intro line hline
  rcases List.mem_filterMap.1 hline with ⟨⟨text, number⟩, hmem, hkept⟩
  simp only at hkept
  split at hkept
  · cases hkept
  · cases hkept
    have hcleaned := List.fst_mem_of_mem_zipIdx hmem
    rcases List.mem_map.1 hcleaned with ⟨raw, hraw, rfl⟩
    exact after_trimEnd (hcomplete raw hraw)

/-- Joining two complete lines gives a complete line. -/
theorem after_joinLine {unfinished : Option Line} {next : Line}
    (hnext : Quoting.outside.after next.text = .outside)
    (hunfinished : ∀ first ∈ unfinished, Quoting.outside.after first.text = .outside) :
    Quoting.outside.after (joinLine unfinished next).text = .outside := by
  have hmarker := after_withoutMarker hnext
  cases unfinished with
  | none => exact hmarker
  | some first =>
    show Quoting.outside.after (first.text ++ _) = _
    rw [Quoting.after_append, hunfinished first rfl]
    exact after_trimStart hmarker

/-- An unfinished line begins the first of the joined lines. -/
theorem exists_foldContinuations (first : Line) (physical : List Line) :
    ∃ text others, foldContinuations (some first) physical =
        ⟨first.number, first.text ++ text⟩ :: others ∧
      ∀ other ∈ others, other.number ∈ physical.map Line.number := by
  induction physical generalizing first with
  | nil => exact ⟨[], [], by simp [foldContinuations], fun _ hother => by cases hother⟩
  | cons next rest ih =>
    unfold foldContinuations
    split
    · rcases ih (joinLine (some first) next) with ⟨text, others, hfolded, hothers⟩
      refine ⟨trimStart (withoutMarker next.text) ++ text, others, ?_, fun other hother => ?_⟩
      · rw [hfolded]
        simp [joinLine]
      · exact List.mem_cons_of_mem _ (hothers other hother)
    · refine ⟨trimStart (withoutMarker next.text), _, rfl, fun other hother => ?_⟩
      have hmem := number_of_mem_foldContinuations hother
      rw [Option.toList_none, List.nil_append] at hmem
      exact List.mem_cons_of_mem _ hmem

/-- A joined line has a number that comes no later than the line that is joined to it. -/
theorem number_joinLine_le {unfinished : Option Line} {next : Line} {others : List Line}
    (hascending : Ascending (unfinished.toList ++ next :: others)) :
    (joinLine unfinished next).number ≤ next.number := by
  cases unfinished with
  | none => exact Nat.le_refl _
  | some first =>
    have hlt := List.rel_of_pairwise_cons hascending List.mem_cons_self
    exact Nat.le_of_lt hlt

/-- A literal of a physical line stands in the line it is joined to. -/
theorem exists_folded {physical : List Line} {unfinished : Option Line} {line : Line}
    {front literal back : List Char}
    (hcomplete : ∀ other ∈ physical, Quoting.outside.after other.text = .outside)
    (hunfinished : ∀ first ∈ unfinished, Quoting.outside.after first.text = .outside)
    (hascending : Ascending (unfinished.toList ++ physical)) (hmem : line ∈ physical)
    (hliteral : LiteralAt line.text front literal back) :
    ∃ folded start rest, IsLineOf (foldContinuations unfinished physical) line.number folded ∧
      LiteralAt folded.text start literal rest := by
  induction physical generalizing unfinished with
  | nil => cases hmem
  | cons next others ih =>
    have hrest : ∀ other ∈ others, Quoting.outside.after other.text = .outside :=
      fun other hother => hcomplete other (List.mem_cons_of_mem _ hother)
    have hjoined : Quoting.outside.after (joinLine unfinished next).text = .outside :=
      after_joinLine (hcomplete next List.mem_cons_self) hunfinished
    have hnumber := number_joinLine_le hascending
    have hothers : Ascending (next :: others) := (List.pairwise_append.1 hascending).2.1
    have hbehind : ∀ other ∈ others, next.number < other.number := fun other hother =>
      List.rel_of_pairwise_cons hothers hother
    have hlater : ∀ number ∈ others.map Line.number, next.number < number := by
      intro number hnumber
      rcases List.mem_map.1 hnumber with ⟨other, hother, rfl⟩
      exact hbehind other hother
    unfold foldContinuations
    rcases List.mem_cons.1 hmem with rfl | hmem
    · rcases hliteral.joinLine rfl hunfinished with ⟨start, rest, hstands⟩
      split
      · rcases exists_foldContinuations (joinLine unfinished line) others with
          ⟨text, joined, hfolded, hjoined⟩
        rw [hfolded]
        exact ⟨_, start, _, isLineOf_head hnumber fun other hother =>
          hlater _ (hjoined other hother), hstands.append_right text⟩
      · refine ⟨_, start, rest, isLineOf_head hnumber fun other hother => ?_, hstands⟩
        exact hlater _ (number_of_mem_foldContinuations hother)
    · split
      · refine ih hrest (fun first hfirst => ?_) ?_ hmem
        · cases hfirst
          exact hjoined
        · exact List.pairwise_cons.2 ⟨fun other hother =>
            Nat.lt_of_le_of_lt hnumber (hbehind other hother), hothers.tail⟩
      · have hnone : ∀ first ∈ (none : Option Line), Quoting.outside.after first.text = .outside :=
          fun _ hfirst => by cases hfirst
        rcases ih hrest hnone hothers.tail hmem with
          ⟨folded, start, rest, hfolded, hstands⟩
        have hfirst : (joinLine unfinished next).number ≤ folded.number :=
          Nat.le_trans hnumber
            (Nat.le_of_lt (hlater _ (number_of_mem_foldContinuations hfolded.mem)))
        exact ⟨folded, start, rest, hfolded.cons hfirst, hstands⟩

/-! ## Expanded lines -/

/-- Whether the scan stands in the head of a shorthand behind a character. -/
def nextHead (inHead : Bool) (c : Char) : Bool :=
  if inHead then c ≠ '(' else c = '@'

/-- Whether the scan stands in the head of a shorthand behind a text. -/
def headAfter (inHead : Bool) (s : List Char) : Bool :=
  s.foldl nextHead inHead

/-- What a character is rewritten to, in front of the rest of its line. -/
def spellChar (inHead : Bool) (c : Char) (behind : List Char) : List Char :=
  if inHead then
    if c = '(' then callOpening behind
    else if c = '.' then ['/']
    else if isBlank c then []
    else [c]
  else if c = '@' then callStart
  else [c]

/-- What a part of a line is rewritten to, in front of the rest of the line. -/
def spell (inHead : Bool) (part behind : List Char) : List Char :=
  match part with
  | [] => []
  | c :: rest => spellChar inHead c (rest ++ behind) ++ spell (nextHead inHead c) rest behind

/-- A character that is rewritten to itself. -/
def IsKept (inHead : Bool) (c : Char) : Prop :=
  if inHead then c ≠ '(' ∧ c ≠ '.' ∧ isBlank c = false else c ≠ '@'

/-- What a part of a line becomes when the shorthands of the line are expanded. -/
def expandPart (front part behind : List Char) : List Char :=
  if (expand? false (front ++ part ++ behind)).isSome then spell (headAfter false front) part behind
  else part

/-- Nothing is rewritten in a part of a line: the line has a malformed shorthand, or each
character of the part is rewritten to itself. -/
def Spared (front part behind : List Char) : Prop :=
  expand? false (front ++ part ++ behind) = none ∨ ∀ c ∈ part, IsKept (headAfter false front) c

/-- A text is rewritten part by part. -/
theorem spell_append (inHead : Bool) (s t behind : List Char) :
    spell inHead (s ++ t) behind =
      spell inHead s (t ++ behind) ++ spell (headAfter inHead s) t behind := by
  induction s generalizing inHead with
  | nil => rfl
  | cons c rest ih => simp [spell, headAfter, ih]

/-- Expansion rewrites one character after the other. -/
theorem expand?_cons {inHead : Bool} {c : Char} {rest out : List Char}
    (h : expand? inHead (c :: rest) = some out) :
    ∃ text, expand? (nextHead inHead c) rest = some text ∧
      out = spellChar inHead c rest ++ text := by
  have hmap : ∀ {next : Bool} (front : List Char),
      (expand? next rest).map (front ++ ·) = some out →
        ∃ text, expand? next rest = some text ∧ out = front ++ text := by
    intro next front hrest
    rcases Option.map_eq_some_iff.1 hrest with ⟨text, htext, rfl⟩
    exact ⟨text, htext, rfl⟩
  unfold expand? at h
  unfold nextHead spellChar
  cases inHead with
  | false =>
    simp only [Bool.false_eq_true, if_false] at h ⊢
    by_cases hstart : c = '@'
    · rw [if_pos hstart] at h ⊢
      simpa [hstart] using hmap callStart h
    · rw [if_neg hstart] at h ⊢
      simpa [hstart] using hmap [c] h
  | true =>
    simp only [if_true] at h ⊢
    by_cases hopening : c = '('
    · rw [if_pos hopening] at h ⊢
      split at h
      · simpa [hopening] using hmap (callOpening rest) h
      · cases h
    · rw [if_neg hopening] at h ⊢
      by_cases hpoint : c = '.'
      · rw [if_pos hpoint] at h ⊢
        simpa [hopening] using hmap ['/'] h
      · rw [if_neg hpoint] at h ⊢
        by_cases hblank : isBlank c = true
        · rw [if_pos hblank] at h ⊢
          exact ⟨out, by simpa [hopening] using h, rfl⟩
        · rw [if_neg hblank] at h ⊢
          simpa [hopening] using hmap [c] h

/-- Expansion rewrites each character. -/
theorem expand?_eq_spell {inHead : Bool} {s out : List Char} (h : expand? inHead s = some out) :
    out = spell inHead s [] := by
  induction s generalizing inHead out with
  | nil =>
    cases inHead <;> cases h
    rfl
  | cons c rest ih =>
    rcases expand?_cons h with ⟨text, htext, rfl⟩
    rw [ih htext, spell, List.append_nil]

/-- A line with its shorthands expanded is put together from its parts. -/
theorem expandShorthands_append (front part behind : List Char) :
    expandShorthands (front ++ part ++ behind) =
      expandPart [] front (part ++ behind) ++ expandPart front part behind ++
        expandPart (front ++ part) behind [] := by
  unfold expandShorthands expandPart
  simp only [List.nil_append, List.append_nil, ← List.append_assoc]
  cases hexpanded : expand? false (front ++ part ++ behind) with
  | none => rfl
  | some out =>
    simp only [Option.isSome_some, if_true, Option.getD_some]
    rw [expand?_eq_spell hexpanded, spell_append, spell_append]
    simp [headAfter]

/-- A character that is kept is all that it is rewritten to, and leaves the scan where it is. -/
theorem IsKept.spellChar {inHead : Bool} {c : Char} (h : IsKept inHead c) (behind : List Char) :
    spellChar inHead c behind = [c] ∧ nextHead inHead c = inHead := by
  cases inHead with
  | false =>
    have hstart : c ≠ '@' := h
    simp [Source.spellChar, nextHead, hstart]
  | true =>
    have hhead : c ≠ '(' ∧ c ≠ '.' ∧ isBlank c = false := h
    simp [Source.spellChar, nextHead, hhead]

/-- What is rewritten in the head of a shorthand begins with no blank. -/
theorem isBlank_of_spell {s behind text : List Char} {c : Char}
    (h : spell true s behind = c :: text) : isBlank c = false := by
  induction s with
  | nil => cases h
  | cons d rest ih =>
    unfold spell spellChar at h
    simp only [if_true] at h
    by_cases hopening : d = '('
    · rw [if_pos hopening] at h
      unfold callOpening at h
      split at h <;> (cases h; decide)
    · rw [if_neg hopening] at h
      by_cases hpoint : d = '.'
      · rw [if_pos hpoint] at h
        cases h
        decide
      · rw [if_neg hpoint] at h
        have hnext : nextHead true d = true := by simp [nextHead, hopening]
        by_cases hblank : isBlank d = true
        · rw [if_pos hblank, hnext] at h
          exact ih h
        · rw [if_neg hblank] at h
          cases h
          simpa using hblank

/-- A text that is rewritten to itself begins with a character that is kept. -/
theorem isKept_of_spell {inHead : Bool} {c : Char} {rest behind : List Char}
    (h : spell inHead (c :: rest) behind = c :: rest) : IsKept inHead c := by
  unfold spell spellChar at h
  cases inHead with
  | false =>
    rintro rfl
    cases h
  | true =>
    simp only [if_true] at h
    refine ⟨?_, ?_, ?_⟩
    · rintro rfl
      simp only [if_true] at h
      unfold callOpening at h
      split at h <;> cases h
    · rintro rfl
      cases h
    · refine Bool.eq_false_iff.2 fun hblank => ?_
      have hopening : c ≠ '(' := by
        rintro rfl
        exact absurd hblank (by decide)
      have hpoint : c ≠ '.' := by
        rintro rfl
        exact absurd hblank (by decide)
      have hnext : nextHead true c = true := by simp [nextHead, hopening]
      rw [if_neg hopening, if_neg hpoint, if_pos hblank, hnext] at h
      exact absurd hblank (by rw [isBlank_of_spell h]; decide)

/-- A text is rewritten to itself if and only if each of its characters is. -/
theorem spell_eq_iff (inHead : Bool) (s behind : List Char) :
    spell inHead s behind = s ↔ ∀ c ∈ s, IsKept inHead c := by
  induction s with
  | nil => simp [spell]
  | cons c rest ih =>
    have hrest : IsKept inHead c →
        (spell inHead (c :: rest) behind = c :: rest ↔ spell inHead rest behind = rest) := by
      intro hc
      rcases hc.spellChar (rest ++ behind) with ⟨hchar, hnext⟩
      rw [spell, hchar, hnext, List.singleton_append, List.cons.injEq]
      exact and_iff_right rfl
    constructor
    · intro h
      have hc := isKept_of_spell h
      exact List.forall_mem_cons.2 ⟨hc, ih.1 ((hrest hc).1 h)⟩
    · intro h
      rcases List.forall_mem_cons.1 h with ⟨hc, hkept⟩
      exact (hrest hc).2 (ih.2 hkept)

/-- A part of a line comes out unchanged if and only if it is spared. -/
theorem expandPart_eq_iff (front part behind : List Char) :
    expandPart front part behind = part ↔ Spared front part behind := by
  unfold expandPart Spared
  cases expand? false (front ++ part ++ behind) with
  | none => simp
  | some out => simpa using spell_eq_iff (headAfter false front) part behind

/-! ## Logical lines -/

/-- A joined line with a quote in it is a logical line. -/
theorem IsLineOf.expanded {source : List Char} {number : Nat} {folded : Line}
    (h : IsLineOf (foldContinuations none (physicalLines source)) number folded)
    (hquote : '"' ∈ folded.text) :
    IsLineOf (logicalLines source) number
      { folded with text := expandShorthands folded.text } where
  mem := by
    refine List.mem_filterMap.2 ⟨folded, h.mem, if_neg fun hempty => ?_⟩
    have hend := (trimEnd_nil_iff _).1 (List.isEmpty_iff.1 hempty)
    rcases trimStart_suffix folded.text with ⟨blanks, hsplit, hblanks⟩
    rw [hsplit] at hquote
    have hblank : isBlank '"' = true :=
      (List.mem_append.1 hquote).elim (hblanks _) (hend _)
    exact absurd hblank (by decide)
  before := h.before
  last := by
    intro other hother hbefore
    rcases List.mem_filterMap.1 hother with ⟨joined, hmem, hkept⟩
    split at hkept
    · cases hkept
    · cases hkept
      exact h.last joined hmem hbefore

/-- In a text whose lines are complete, a literal in front of the comment of its line stands, as
it is, in the line that its line is joined to.  The logical line is put together from what comes
in front of the literal, the literal and what comes behind it, each with its shorthands expanded,
and the literal comes out of that unchanged if and only if it is spared. -/
theorem literals_kept {source line front literal back : List Char} {n : Nat}
    (hcomplete : ∀ text ∈ lines source, IsComplete text) (hline : (lines source)[n]? = some line)
    (hliteral : LiteralAt line front literal back)
    (hcomment : hasComment .outside front = false) :
    ∃ folded before behind,
      IsLineOf (foldContinuations none (physicalLines source)) (n + 1) folded ∧
      LiteralAt folded.text before literal behind ∧
      IsLineOf (logicalLines source) (n + 1)
        { folded with text := expandShorthands folded.text } ∧
      expandShorthands folded.text =
        expandPart [] before (literal ++ behind) ++ expandPart before literal behind ++
          expandPart (before ++ literal) behind [] ∧
      (expandPart before literal behind = literal ↔ Spared before literal behind) := by
  have hcleaned := hliteral.clean hcomment
  have hleft : clean .commentsOnly line ≠ [] := by
    rcases hcleaned.exists_quote with ⟨start, hquote⟩
    rw [hquote]
    simp
  have hphysical := mem_physicalLines hline hleft
  have hnone : ∀ first ∈ (none : Option Line), Quoting.outside.after first.text = .outside :=
    fun _ hfirst => by cases hfirst
  rcases exists_folded (after_of_mem_physicalLines hcomplete) hnone
    (physicalLines_ascending source) hphysical hcleaned with
    ⟨folded, before, behind, hfolded, hstands⟩
  have hquote : '"' ∈ folded.text := by
    rcases hstands.exists_quote with ⟨start, hquote⟩
    rw [hquote]
    simp
  refine ⟨folded, before, behind, hfolded, hstands, hfolded.expanded hquote, ?_,
    expandPart_eq_iff before literal behind⟩
  rw [hstands.line]
  exact expandShorthands_append before literal behind

/-- A literal with a point in it, in a line that is joined to another one, between a shorthand and
a comment with a quote. -/
theorem literals_kept_joined :
    ∃ folded before behind,
      IsLineOf (foldContinuations none (physicalLines
        "a \\ ; first\n  @b(\"c.d\") ; \"last".toList)) 2 folded ∧
      LiteralAt folded.text before "\"c.d\"".toList behind ∧
      IsLineOf (logicalLines "a \\ ; first\n  @b(\"c.d\") ; \"last".toList) 2
        { folded with text := expandShorthands folded.text } ∧
      expandShorthands folded.text =
        expandPart [] before ("\"c.d\"".toList ++ behind) ++
          expandPart before "\"c.d\"".toList behind ++
          expandPart (before ++ "\"c.d\"".toList) behind [] ∧
      (expandPart before "\"c.d\"".toList behind = "\"c.d\"".toList ↔
        Spared before "\"c.d\"".toList behind) := by
  have hliteral : LiteralAt "  @b(\"c.d\") ; \"last".toList "  @b(".toList "\"c.d\"".toList
      ") ; \"last".toList :=
    ⟨by decide +kernel, by decide +kernel, by decide +kernel⟩
  exact literals_kept (by decide +kernel) (by decide +kernel) hliteral (by decide +kernel)

/-- A literal with an at sign is taken for a shorthand. -/
example : expandShorthands "printc(\"a@b(c)\")".toList = "printc(\"acall(\"b\", c)\")".toList := by
  decide +kernel

end Source
end ScriptMachine
