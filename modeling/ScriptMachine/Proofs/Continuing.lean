import ScriptMachine.Proofs.Quotation

/-!
# Lines that are broken in two

A line may be broken at any place in front of a character that is not blank: its first part ends
with a marker and its second part follows on the next physical line, behind any blanks.  Comments are
stripped from each physical line before lines are joined, and each physical line is scanned from
outside of literals.  So the second part must have no comment when it is scanned on its own.  Then the
logical line is that of the unbroken line, and otherwise the line loses what its second part holds
from there on.

Main results:

- {lit}`Text.lines_append`: the lines of a text behind whole lines.
- {lit}`Source.foldContinuations_append`: lines behind a finished line are joined on their own.
- {lit}`Source.logicalLines_append`: so the logical lines of a text do not depend on those before it.
- {lit}`Source.logicalLines_broken`: a broken line and the lines around it.
-/

namespace ScriptMachine

open Text Source

-- What holds of the characters of a text is decided on the text, never on all the characters there are.

instance decidableAllOfText {p : Char → Prop} [DecidablePred p] (s : List Char) :
    Decidable (∀ c ∈ s, p c) :=
  List.decidableBAll p s

instance decidableAllOfFound {p : Char → Prop} [DecidablePred p] (found : Option Char) :
    Decidable (∀ c ∈ found, p c) :=
  Option.decidableForallMem found

/-! ## Whole lines -/

namespace Text

/-- Nothing stands behind the last line feed of a text. -/
def IsWhole (s : List Char) : Prop :=
  ∀ c ∈ s.getLast?, c = '\n'

instance (s : List Char) : Decidable (IsWhole s) :=
  inferInstanceAs (Decidable (∀ c ∈ s.getLast?, c = '\n'))

/-- A character in front of a line. -/
theorem lines_cons {c : Char} {rest line : List Char} {others : List (List Char)} (hfeed : c ≠ '\n')
    (hreturn : c = '\r' → rest.head? ≠ some '\n') (h : lines rest = line :: others) :
    lines (c :: rest) = (c :: line) :: others := by
  rw [lines]
  · rw [h]
  · exact hfeed
  · rintro behind hc rfl
    exact hreturn hc rfl

/-- A text that is not empty has lines. -/
theorem exists_of_lines {s : List Char} (hne : s ≠ []) : ∃ line others, lines s = line :: others := by
  induction s using lines.induct with
  | case1 => exact absurd rfl hne
  | case2 rest => exact ⟨[], lines rest, rfl⟩
  | case3 rest => exact ⟨[], lines rest, rfl⟩
  | case4 c rest hfeed hreturn hnone => exact ⟨[c], [], by rw [lines, hnone] <;> assumption⟩
  | case5 c rest hfeed hreturn line others hlines =>
    exact ⟨c :: line, others, by rw [lines, hlines] <;> assumption⟩

/-- A line feed ends the lines in front of it. -/
theorem lines_append_feed (s t : List Char) :
    lines (s ++ '\n' :: t) = lines (s ++ ['\n']) ++ lines t := by
  induction s with
  | nil => simp [lines]
  | cons c rest ih =>
    have hhead : ∀ u, (rest ++ '\n' :: u).head? = (rest ++ ['\n']).head? := by
      intro u
      cases rest <;> rfl
    by_cases hfeed : c = '\n'
    · subst hfeed
      simp [lines, ih]
    · by_cases hreturn : c = '\r' ∧ (rest ++ ['\n']).head? = some '\n'
      · -- The carriage return belongs to the line feed behind it.
        have hdrop : ∀ u, lines (c :: (rest ++ '\n' :: u)) = lines (rest ++ '\n' :: u) := by
          intro u
          have hstart := (hhead u).trans hreturn.2
          rw [List.head?_eq_some_iff] at hstart
          rcases hstart with ⟨behind, hbehind⟩
          rw [hbehind, hreturn.1]
          rfl
        simpa [hdrop] using ih
      · have hreturn' : c = '\r' → (rest ++ ['\n']).head? ≠ some '\n' := fun hc hstart =>
          hreturn ⟨hc, hstart⟩
        rcases exists_of_lines (s := rest ++ ['\n']) (by simp) with ⟨line, others, hlines⟩
        have hall : lines (rest ++ '\n' :: t) = line :: (others ++ lines t) := by
          rw [ih, hlines, List.cons_append]
        rw [List.cons_append, List.cons_append, lines_cons hfeed hreturn' hlines,
          lines_cons hfeed (by rwa [hhead]) hall, List.cons_append]

/-- The lines of a text behind whole lines. -/
theorem lines_append {s : List Char} (h : IsWhole s) (t : List Char) :
    lines (s ++ t) = lines s ++ lines t := by
  rcases List.eq_nil_or_concat s with rfl | ⟨front, c, rfl⟩
  · rfl
  · rw [List.concat_eq_append] at h ⊢
    have hc : c = '\n' := h c (by simp)
    rw [hc, List.append_assoc, List.singleton_append, lines_append_feed]

/-- A text without line feeds is one line, with a line feed at its end or without. -/
theorem lines_of_not_mem {s : List Char} (hfeed : '\n' ∉ s) (hne : s ≠ [])
    (hlast : s.getLast? ≠ some '\r') : lines s = [s] ∧ lines (s ++ ['\n']) = [s] := by
  induction s with
  | nil => exact absurd rfl hne
  | cons c rest ih =>
    rw [List.mem_cons, not_or] at hfeed
    have hc : c ≠ '\n' := Ne.symm hfeed.1
    cases rest with
    | nil =>
      have hreturn : c ≠ '\r' := by simpa using hlast
      constructor
      · simp [lines]
      · simp [lines, hreturn]
    | cons d others =>
      rw [List.getLast?_cons_cons] at hlast
      have hd : d ≠ '\n' := fun hd => hfeed.2 (by simp [hd])
      have hboth := ih hfeed.2 (by simp) hlast
      exact ⟨lines_cons hc (by simp [hd]) hboth.1, lines_cons hc (by simp [hd]) hboth.2⟩

end Text

namespace Source

/-! ## Lines behind other lines -/

/-- The line under a number that is greater by some lines. -/
def Line.later (count : Nat) (line : Line) : Line :=
  { line with number := line.number + count }

/-- Numbers that are greater twice. -/
theorem Line.later_later (first second : Nat) (line : Line) :
    (line.later first).later second = line.later (second + first) := by
  simp only [later, Nat.add_assoc, Nat.add_comm first second]

/-- Greater numbers tell lines apart as before. -/
theorem Line.later_injective (count : Nat) : Function.Injective (Line.later count) := by
  rintro ⟨n, s⟩ ⟨m, t⟩ heq
  simp only [later, Line.mk.injEq, Nat.add_right_cancel_iff] at heq
  simp [heq]

/-- A text ends no logical line in its middle: its last line goes on no further. -/
def IsFinished (source : List Char) : Prop :=
  ∀ line ∈ (physicalLines source).getLast?, isContinued line.text = false

instance (source : List Char) : Decidable (IsFinished source) :=
  inferInstanceAs (Decidable (∀ line ∈ (physicalLines source).getLast?, _))

/-- The lines that are not empty, counted from a greater number. -/
theorem filterMap_zipIdx_add (texts : List (List Char)) (start count : Nat) :
    ((texts.zipIdx (start + count)).filterMap fun (text, number) =>
        if text.isEmpty then none else some (⟨number, text⟩ : Line)) =
      ((texts.zipIdx start).filterMap fun (text, number) =>
        if text.isEmpty then none else some (⟨number, text⟩ : Line)).map (Line.later count) := by
  induction texts generalizing start with
  | nil => rfl
  | cons text others ih =>
    have hrest := ih (start + 1)
    rw [Nat.add_right_comm] at hrest
    rw [List.zipIdx_cons, List.zipIdx_cons, List.filterMap_cons, List.filterMap_cons, hrest]
    by_cases hempty : text.isEmpty = true
    · simp only [if_pos hempty]
    · simp only [if_neg hempty, List.map_cons, Line.later]

/-- The physical lines of a text behind whole lines have greater numbers. -/
theorem physicalLines_append {front : List Char} (h : IsWhole front) (back : List Char) :
    physicalLines (front ++ back) =
      physicalLines front ++ (physicalLines back).map (Line.later (lines front).length) := by
  unfold physicalLines
  rw [lines_append h, List.map_append, List.zipIdx_append, List.filterMap_append,
    filterMap_zipIdx_add, List.length_map]

/-- A joined line under a greater number. -/
theorem joinLine_later (unfinished : Option Line) (line : Line) (count : Nat) :
    joinLine (unfinished.map (Line.later count)) (line.later count) =
      (joinLine unfinished line).later count := by
  cases unfinished <;> rfl

/-- Lines under greater numbers are joined alike. -/
theorem foldContinuations_later (unfinished : Option Line) (physical : List Line) (count : Nat) :
    foldContinuations (unfinished.map (Line.later count)) (physical.map (Line.later count)) =
      (foldContinuations unfinished physical).map (Line.later count) := by
  induction physical generalizing unfinished with
  | nil => cases unfinished <;> rfl
  | cons line rest ih =>
    have hnone := ih none
    have hsome := ih (some (joinLine unfinished line))
    rw [Option.map_none] at hnone
    rw [Option.map_some, ← joinLine_later] at hsome
    rw [List.map_cons, foldContinuations, foldContinuations]
    simp only [show (line.later count).text = line.text from rfl, hnone, hsome]
    split
    · rfl
    · rw [List.map_cons, joinLine_later]

/-- Lines behind a finished line are joined on their own. -/
theorem foldContinuations_append (unfinished : Option Line) {first : List Line} (hne : first ≠ [])
    (h : ∀ line ∈ first.getLast?, isContinued line.text = false) (second : List Line) :
    foldContinuations unfinished (first ++ second) =
      foldContinuations unfinished first ++ foldContinuations none second := by
  induction first generalizing unfinished with
  | nil => exact absurd rfl hne
  | cons line rest ih =>
    rw [List.cons_append, foldContinuations, foldContinuations]
    cases rest with
    | nil =>
      have hlast : isContinued line.text = false := h line rfl
      simp [hlast, foldContinuations]
    | cons next others =>
      rw [List.getLast?_cons_cons] at h
      simp only [ih _ (by simp) h]
      split
      · rfl
      · rw [List.cons_append]

/-- The logical lines of a text behind whole lines, the last of which is finished, are those of the
text on its own under greater numbers. -/
theorem logicalLines_append {front : List Char} (hwhole : IsWhole front) (hfinished : IsFinished front)
    (back : List Char) :
    logicalLines (front ++ back) =
      logicalLines front ++ (logicalLines back).map (Line.later (lines front).length) := by
  have hfold : foldContinuations none (physicalLines (front ++ back)) =
      foldContinuations none (physicalLines front) ++
        (foldContinuations none (physicalLines back)).map (Line.later (lines front).length) := by
    rw [physicalLines_append hwhole, ← foldContinuations_later, Option.map_none]
    by_cases hnone : physicalLines front = []
    · rw [hnone]
      rfl
    · rw [foldContinuations_append none hnone hfinished]
  unfold logicalLines
  rw [hfold, List.filterMap_append, List.filterMap_map, List.map_filterMap]
  congr 2
  funext line
  by_cases hempty : trim line.text = [] <;> simp [Line.later, hempty]

/-! ## Comments in parts of a line -/

/-- A comment begins in one part of a text or in the other. -/
theorem hasComment_append (quoting : Quoting) (s t : List Char) :
    hasComment quoting (s ++ t) = (hasComment quoting s || hasComment (quoting.after s) t) := by
  induction s generalizing quoting with
  | nil => rfl
  | cons c rest ih =>
    rw [List.cons_append, hasComment, hasComment, ih, Bool.or_assoc]
    rfl

/-- Blanks leave the scan outside of literals, and hold no comment. -/
theorem scan_blanks {blanks : List Char} (h : ∀ c ∈ blanks, isBlank c = true) :
    Quoting.outside.after blanks = .outside ∧ hasComment .outside blanks = false := by
  induction blanks with
  | nil => exact ⟨rfl, rfl⟩
  | cons c rest ih =>
    have hc := h c (by simp)
    have hcomment : c ≠ ';' := by
      rintro rfl
      exact absurd hc (by decide)
    have hnext : Quoting.outside.next c = .outside := (next_of_isBlank _ hc).2 rfl
    rcases ih fun d hd => h d (by simp [hd]) with ⟨hafter, hnone⟩
    constructor
    · show (Quoting.outside.next c).after rest = .outside
      rw [hnext, hafter]
    · simp [hasComment, hnext, hnone, hcomment]

/-- Behind blanks, a text has the comments that it has on its own. -/
theorem hasComment_blanks {blanks : List Char} (h : ∀ c ∈ blanks, isBlank c = true) (s : List Char) :
    hasComment .outside (blanks ++ s) = hasComment .outside s := by
  rcases scan_blanks h with ⟨hafter, hnone⟩
  rw [hasComment_append, hafter, hnone, Bool.false_or]

/-- A text without a comment is kept. -/
theorem beforeComment_eq_self {quoting : Quoting} {s : List Char} (h : hasComment quoting s = false) :
    beforeComment quoting s = s := by
  simpa [beforeComment] using beforeComment_of_not_hasComment [] h

/-- A comment makes a text shorter. -/
theorem length_beforeComment_lt {quoting : Quoting} {s : List Char}
    (h : hasComment quoting s = true) : (beforeComment quoting s).length < s.length := by
  induction s generalizing quoting with
  | nil => cases h
  | cons c rest ih =>
    unfold beforeComment
    split
    · simp
    · next hcomment =>
      simp only [hasComment, hcomment, decide_false, Bool.false_or] at h
      simpa using ih h

/-- Nothing is trimmed behind a character that is not blank. -/
theorem trimEnd_eq_self {s : List Char} (h : ∀ c ∈ s.getLast?, isBlank c = false) :
    trimEnd s = s := by
  rcases List.eq_nil_or_concat s with rfl | ⟨front, c, rfl⟩
  · rfl
  · rw [List.concat_eq_append] at h ⊢
    exact trimEnd_append [] (h c (by simp))

/-! ## Broken lines -/

/-- A line that is a logical line as it stands: without shorthands and comments, without blanks at
its ends, and not going on in the next line. -/
structure IsPlain (line : List Char) : Prop where
  feed : '\n' ∉ line
  shorthand : '@' ∉ line
  comment : hasComment .outside line = false
  start : ∀ c ∈ line.head?, isBlank c = false
  last : ∀ c ∈ line.getLast?, isBlank c = false ∧ c ≠ '\\'

/-- A line broken in two, its second part behind blanks. -/
def broken (first indent second : List Char) : List Char :=
  first ++ '\\' :: '\n' :: (indent ++ second)

/-- What a physical line adds to the line that goes on in it. -/
def added (line : List Char) : List Char :=
  trimStart (withoutMarker (clean .commentsOnly line))

/-- The logical line of a joined text, if something is left of it. -/
def soleLine (text : List Char) : List Line :=
  if (trim text).isEmpty then [] else [⟨1, expandShorthands text⟩]

namespace IsPlain

variable {line : List Char} (h : IsPlain line)
include h

/-- A plain line is clean. -/
theorem clean_eq : clean .commentsOnly line = line := by
  show trimEnd (beforeComment .outside line) = line
  rw [beforeComment_eq_self h.comment]
  exact trimEnd_eq_self fun c hc => (h.last c hc).1

/-- A plain line goes on no further. -/
theorem not_continued : isContinued line = false := by
  refine Bool.eq_false_iff.2 fun hmarker => ?_
  exact (h.last '\\' (by simpa [isContinued] using hmarker)).2 rfl

/-- No carriage return stands at the end of a plain line. -/
theorem last_ne : line.getLast? ≠ some '\r' := fun hreturn =>
  absurd (h.last '\r' hreturn).1 (by decide)

/-- Something is left of a plain line. -/
theorem trim_ne (hne : line ≠ []) : trim line ≠ [] := by
  cases line with
  | nil => exact absurd rfl hne
  | cons c rest =>
    have hc : isBlank c = false := h.start c rfl
    have hstart : trimStart (c :: rest) = c :: rest := by simp [trimStart, hc]
    unfold trim
    rw [hstart, trimEnd_eq_self fun c hc => (h.last c hc).1]
    simp

/-- A plain line has no shorthands to expand. -/
theorem expandShorthands_eq : expandShorthands line = line := by
  unfold expandShorthands
  rw [expand?_of_not_mem line h.shorthand, Option.getD_some]

/-- A plain line is what is left of it. -/
theorem soleLine_eq (hne : line ≠ []) : soleLine line = [⟨1, line⟩] := by
  simp [soleLine, h.trim_ne hne, h.expandShorthands_eq]

/-- A plain line is a logical line. -/
theorem logicalLines_eq (hne : line ≠ []) {source : List Char} (hlines : lines source = [line]) :
    logicalLines source = [⟨1, line⟩] := by
  have hphysical : physicalLines source = [⟨1, line⟩] := by
    simp [physicalLines, hlines, h.clean_eq, hne]
  have hkept := h.trim_ne hne
  unfold logicalLines
  rw [hphysical]
  simp [foldContinuations, h.not_continued, joinLine, withoutMarker, hkept, h.expandShorthands_eq]

end IsPlain

section Broken

variable {first indent second : List Char}

/-- The physical lines of a broken line, with a line feed at its end or without. -/
theorem lines_broken (hfirst : '\n' ∉ first) (hindent : '\n' ∉ indent) (hsecond : '\n' ∉ second)
    (hne : second ≠ []) (hlast : second.getLast? ≠ some '\r') :
    lines (broken first indent second) = [first ++ ['\\'], indent ++ second] ∧
      lines (broken first indent second ++ ['\n']) = [first ++ ['\\'], indent ++ second] := by
  have hstart : lines (first ++ ['\\'] ++ ['\n']) = [first ++ ['\\']] :=
    (lines_of_not_mem (by simp [hfirst]) (by simp) (by simp)).2
  have hend := lines_of_not_mem (s := indent ++ second) (by simp [hindent, hsecond]) (by simp [hne])
    (by rwa [List.getLast?_append, Option.or_of_isSome (by simpa using hne)])
  have hsplit : ∀ t, broken first indent second ++ t =
      first ++ ['\\'] ++ '\n' :: (indent ++ second ++ t) := by
    intro t
    simp [broken]
  constructor
  · rw [← List.append_nil (broken first indent second), hsplit, lines_append_feed, hstart,
      List.append_nil, hend.1, List.singleton_append]
  · rw [hsplit, lines_append_feed, hstart, hend.2, List.singleton_append]

/-- A broken line is joined to one logical line: its first part, and what the second line adds. -/
theorem logicalLines_of_broken {source : List Char}
    (hlines : lines source = [first ++ ['\\'], indent ++ second])
    (hcomment : hasComment .outside first = false) :
    logicalLines source = soleLine (first ++ added (indent ++ second)) := by
  have hmarked : clean .commentsOnly (first ++ ['\\']) = first ++ ['\\'] := by
    show trimEnd (beforeComment .outside (first ++ ['\\'])) = _
    rw [beforeComment_eq_self (by simp [hasComment_append, hcomment, hasComment])]
    exact trimEnd_eq_self (by simp [isBlank, blankRanges])
  have hcontinued : isContinued (first ++ ['\\']) = true := by simp [isContinued]
  have hfold : foldContinuations none (physicalLines source) =
      [⟨1, first ++ added (indent ++ second)⟩] := by
    by_cases hnone : clean .commentsOnly (indent ++ second) = []
    · have hphysical : physicalLines source = [⟨1, first ++ ['\\']⟩] := by
        simp [physicalLines, hlines, hmarked, hnone]
      rw [hphysical]
      simp [foldContinuations, joinLine, withoutMarker, added, hnone, trimStart, isContinued]
    · have hphysical : physicalLines source =
          [⟨1, first ++ ['\\']⟩, ⟨2, clean .commentsOnly (indent ++ second)⟩] := by
        simp [physicalLines, hlines, hmarked, hnone]
      rw [hphysical]
      simp only [foldContinuations, hcontinued, if_true, joinLine]
      have hdrop : withoutMarker (first ++ ['\\']) = first := by
        simp [withoutMarker, hcontinued]
      rw [hdrop]
      -- The last line is joined whether it goes on or not.
      split <;> rfl
  unfold logicalLines soleLine
  rw [hfold]
  by_cases hempty : trim (first ++ added (indent ++ second)) = [] <;> simp [hempty]

/-- Only the end of a line is its marker. -/
theorem withoutMarker_isPrefix (line : List Char) : withoutMarker line <+: line := by
  unfold withoutMarker
  split
  · exact List.dropLast_prefix line
  · exact List.prefix_rfl

/-- Of a part of a text behind blanks, no more is left than the text. -/
theorem length_trimStart_le {blanks text part : List Char} (hblanks : ∀ c ∈ blanks, isBlank c = true)
    (hpart : part <+: blanks ++ text) : (trimStart part).length ≤ text.length := by
  induction blanks generalizing part with
  | nil => exact Nat.le_trans (List.dropWhile_suffix isBlank).length_le hpart.length_le
  | cons c rest ih =>
    cases part with
    | nil => simp [trimStart]
    | cons d others =>
      rw [List.cons_append, List.cons_prefix_cons] at hpart
      rcases hpart with ⟨rfl, hothers⟩
      have hd : isBlank d = true := hblanks d (by simp)
      have hdrop : trimStart (d :: others) = trimStart others := by simp [trimStart, hd]
      rw [hdrop]
      exact ih (fun c hc => hblanks c (by simp [hc])) hothers

/-- A plain line behind blanks is clean, and goes on no further. -/
theorem clean_indented (hindent : ∀ c ∈ indent, isBlank c = true) (h : IsPlain second)
    (hne : second ≠ []) :
    clean .commentsOnly (indent ++ second) = indent ++ second ∧
      isContinued (indent ++ second) = false := by
  have hend : (indent ++ second).getLast? = second.getLast? := by
    rw [List.getLast?_append, Option.or_of_isSome (by simpa using hne)]
  constructor
  · show trimEnd (beforeComment .outside (indent ++ second)) = _
    rw [beforeComment_eq_self (by rw [hasComment_blanks hindent, h.comment])]
    exact trimEnd_eq_self fun c hc => (h.last c (hend ▸ hc)).1
  · have hlast := h.not_continued
    unfold isContinued at hlast ⊢
    rwa [hend]

/-- A second part without a comment is added as it is. -/
theorem added_eq (hindent : ∀ c ∈ indent, isBlank c = true) (h : IsPlain second) (hne : second ≠ []) :
    added (indent ++ second) = second := by
  rcases clean_indented hindent h hne with ⟨hkept, hmarker⟩
  unfold added
  rw [hkept, withoutMarker, hmarker]
  cases second with
  | nil => exact absurd rfl hne
  | cons c rest => exact trimStart_append hindent (h.start c rfl)

/-- Cleaning drops the end of a line. -/
theorem withoutMarker_clean_isPrefix (line : List Char) :
    withoutMarker (clean .commentsOnly line) <+: beforeComment .outside line := by
  rcases trimEnd_prefix (beforeComment .outside line) with ⟨blanks, hblanks⟩
  have hclean : clean .commentsOnly line <+: beforeComment .outside line := ⟨blanks, hblanks.symm⟩
  exact (withoutMarker_isPrefix _).trans hclean

/-- What a line adds stands in it. -/
theorem mem_of_mem_added {c : Char} {line : List Char} (h : c ∈ added line) : c ∈ line := by
  have hclean : c ∈ withoutMarker (clean .commentsOnly line) :=
    (List.dropWhile_sublist isBlank).mem h
  have hbefore := (withoutMarker_clean_isPrefix line).mem hclean
  rcases beforeComment_prefix .outside line with ⟨comment, hline⟩
  rw [hline]
  exact List.mem_append_left comment hbefore

/-- Of a second part with a comment, something is lost. -/
theorem length_added_lt (hindent : ∀ c ∈ indent, isBlank c = true)
    (hcomment : hasComment .outside second = true) :
    (added (indent ++ second)).length < second.length := by
  rcases scan_blanks hindent with ⟨hafter, hnone⟩
  have hprefix := withoutMarker_clean_isPrefix (indent ++ second)
  rw [beforeComment_of_not_hasComment second hnone, hafter] at hprefix
  have hadded : (added (indent ++ second)).length ≤ (beforeComment .outside second).length :=
    length_trimStart_le hindent hprefix
  exact Nat.lt_of_le_of_lt hadded (length_beforeComment_lt hcomment)

/-- The second part of a plain line is plain, unless it has a comment on its own. -/
theorem IsPlain.right (h : IsPlain (first ++ second)) (hne : second ≠ [])
    (hstart : ∀ c ∈ second.head?, isBlank c = false) (hcomment : hasComment .outside second = false) :
    IsPlain second where
  feed hmem := h.feed (List.mem_append_right _ hmem)
  shorthand hmem := h.shorthand (List.mem_append_right _ hmem)
  comment := hcomment
  start := hstart
  last c hc := h.last c (by rwa [List.getLast?_append, Option.or_of_isSome (by simpa using hne)])

/-- Both parts on one line are what is left of the broken line, unless the second part has a comment. -/
theorem soleLine_added (h : IsPlain (first ++ second)) (hne : second ≠ [])
    (hstart : ∀ c ∈ second.head?, isBlank c = false) (hindent : ∀ c ∈ indent, isBlank c = true) :
    soleLine (first ++ added (indent ++ second)) = [⟨1, first ++ second⟩] ↔
      hasComment .outside second = false := by
  constructor
  · intro hwhole
    rw [← Bool.not_eq_true]
    intro hcomment
    have hshort := length_added_lt hindent hcomment
    have hshorthand : '@' ∉ first ++ added (indent ++ second) := by
      intro hmem
      rcases List.mem_append.1 hmem with hmem | hmem
      · exact h.shorthand (List.mem_append_left _ hmem)
      · rcases List.mem_append.1 (mem_of_mem_added hmem) with hmem | hmem
        · exact absurd (hindent _ hmem) (by decide)
        · exact h.shorthand (List.mem_append_right _ hmem)
    unfold soleLine at hwhole
    split at hwhole
    · cases hwhole
    · rw [expandShorthands, expand?_of_not_mem _ hshorthand, Option.getD_some] at hwhole
      simp only [List.cons.injEq, Line.mk.injEq, List.append_cancel_left_eq] at hwhole
      rw [hwhole.1.2] at hshort
      exact absurd hshort (Nat.lt_irrefl _)
  · intro hcomment
    rw [added_eq hindent (h.right hne hstart hcomment) hne]
    exact h.soleLine_eq (by simp [hne])

end Broken

/-! ## Broken lines among other lines -/

/-- A text is finished when something that goes on no further is left of its last line. -/
theorem isFinished_of_lines {source last : List Char} {init : List (List Char)}
    (hlines : lines source = init ++ [last]) (hkept : clean .commentsOnly last ≠ [])
    (hlast : isContinued (clean .commentsOnly last) = false) : IsFinished source := by
  intro line hline
  unfold physicalLines at hline
  simp only [hlines, List.map_append, List.zipIdx_append, List.filterMap_append, List.map_singleton,
    List.zipIdx_singleton, List.filterMap_cons, List.isEmpty_iff, if_neg hkept, List.filterMap_nil,
    List.getLast?_append, List.getLast?_singleton, Option.some_or, Option.mem_some_iff] at hline
  rw [← hline]
  exact hlast

/-- A finished text of one logical line, among other lines. -/
theorem logicalLines_among {front text : List Char} {line : Line} (hwhole : IsWhole front)
    (hfinished : IsFinished front) (hsole : logicalLines (text ++ ['\n']) = [line])
    (hend : IsFinished (text ++ ['\n'])) (back : List Char) :
    logicalLines (front ++ (text ++ '\n' :: back)) =
      logicalLines front ++ line.later (lines front).length ::
        (logicalLines back).map
          (Line.later ((lines front).length + (lines (text ++ ['\n'])).length)) := by
  have hsplit : text ++ '\n' :: back = text ++ ['\n'] ++ back := by simp
  rw [logicalLines_append hwhole hfinished, hsplit, logicalLines_append (by simp [IsWhole]) hend,
    hsole, List.map_append, List.map_map, List.map_singleton, List.singleton_append]
  congr 2
  exact List.map_congr_left fun later _ => Line.later_later _ _ later

/-- A line that is broken in two stands for the unbroken line, under the number of its first part, as
long as its second part has no comment when it is scanned on its own.  A comment that begins there,
inside of a literal that the first part has opened, is lost. -/
theorem logicalLines_broken {front first indent second : List Char} (hwhole : IsWhole front)
    (hfinished : IsFinished front) (h : IsPlain (first ++ second)) (hne : second ≠ [])
    (hstart : ∀ c ∈ second.head?, isBlank c = false) (hindent : ∀ c ∈ indent, isBlank c = true)
    (hfeed : '\n' ∉ indent) :
    (∀ back, logicalLines (front ++ (first ++ second ++ '\n' :: back)) =
        logicalLines front ++ ⟨(lines front).length + 1, first ++ second⟩ ::
          (logicalLines back).map (Line.later ((lines front).length + 1))) ∧
      (hasComment .outside second = false →
        ∀ back, logicalLines (front ++ (broken first indent second ++ '\n' :: back)) =
          logicalLines front ++ ⟨(lines front).length + 1, first ++ second⟩ ::
            (logicalLines back).map (Line.later ((lines front).length + 2))) ∧
      (logicalLines (front ++ broken first indent second) =
          logicalLines (front ++ (first ++ second)) ↔ hasComment .outside second = false) := by
  have hwholeNe : first ++ second ≠ [] := by simp [hne]
  have hnumber : ∀ text, (⟨1, text⟩ : Line).later (lines front).length =
      ⟨(lines front).length + 1, text⟩ := fun text => by rw [Line.later, Nat.add_comm]
  have hcomment : hasComment .outside first = false := by
    have hboth := h.comment
    rw [hasComment_append, Bool.or_eq_false_iff] at hboth
    exact hboth.1
  have hlastReturn : second.getLast? ≠ some '\r' := by
    have hlast := h.last_ne
    rwa [List.getLast?_append, Option.or_of_isSome (by simpa using hne)] at hlast
  have hsole := lines_of_not_mem h.feed hwholeNe h.last_ne
  have hparts := @lines_broken first _ _ (fun hmem => h.feed (List.mem_append_left _ hmem)) hfeed
    (fun hmem => h.feed (List.mem_append_right _ hmem)) hne hlastReturn
  have hjoined := soleLine_added h hne hstart hindent
  refine ⟨?_, ?_, ?_⟩
  · intro back
    have hend : IsFinished (first ++ second ++ ['\n']) :=
      @isFinished_of_lines _ _ [] hsole.2 (by rwa [h.clean_eq]) (by rw [h.clean_eq, h.not_continued])
    rw [logicalLines_among hwhole hfinished (h.logicalLines_eq hwholeNe hsole.2) hend, hsole.2, hnumber,
      List.length_singleton]
  · intro hnone back
    rcases clean_indented hindent (h.right hne hstart hnone) hne with ⟨hkept, hmarker⟩
    have hend : IsFinished (broken first indent second ++ ['\n']) :=
      @isFinished_of_lines _ _ [first ++ ['\\']] hparts.2 (by simp [hkept, hne])
        (by rw [hkept, hmarker])
    have hone : logicalLines (broken first indent second ++ ['\n']) = [⟨1, first ++ second⟩] := by
      rw [logicalLines_of_broken hparts.2 hcomment, hjoined.2 hnone]
    rw [logicalLines_among hwhole hfinished hone hend, hparts.2, hnumber]
    rfl
  · rw [logicalLines_append hwhole hfinished, logicalLines_append hwhole hfinished,
      logicalLines_of_broken hparts.1 hcomment, h.logicalLines_eq hwholeNe hsole.1,
      List.append_cancel_left_eq, ← hjoined]
    exact List.map_inj_right fun _ _ heq => Line.later_injective _ heq

/-- A line that is broken inside of a literal, between other lines. -/
theorem logicalLines_broken_literal :
    IsWhole "scriptname S\n".toList ∧ IsFinished "scriptname S\n".toList ∧
      IsPlain ("x = \"a".toList ++ "b\"".toList) ∧ hasComment .outside "b\"".toList = false ∧
      logicalLines ("scriptname S\n".toList ++
          (broken "x = \"a".toList "\t ".toList "b\"".toList ++ '\n' :: "y = x".toList)) =
        [⟨1, "scriptname S".toList⟩, ⟨2, "x = \"ab\"".toList⟩, ⟨4, "y = x".toList⟩] := by
  have hplain : IsPlain ("x = \"a".toList ++ "b\"".toList) := by
    constructor <;> decide
  have hbroken := (@logicalLines_broken "scriptname S\n".toList _ "\t ".toList _ (by decide)
     (by decide) hplain (by decide) (by decide) (by decide) (by decide)).2.1 (by decide)
    "y = x".toList
  refine ⟨by decide, by decide, hplain, by decide, hbroken.trans ?_⟩
  decide

/-- The quote that the first part opens does not protect what stands behind the break: the second part
is scanned on its own, and what looks like a comment there is stripped. -/
theorem logicalLines_broken_semicolon :
    IsPlain ("x = \"a".toList ++ ";b\"".toList) ∧
      logicalLines (broken "x = \"a".toList [] ";b\"".toList) ≠
        logicalLines ("x = \"a".toList ++ ";b\"".toList) ∧
      logicalLines (broken "x = \"a".toList [] ";b\"".toList) = [⟨1, "x = \"a".toList⟩] ∧
      logicalLines ("x = \"a".toList ++ ";b\"".toList) = [⟨1, "x = \"a;b\"".toList⟩] := by
  refine ⟨⟨?_, ?_, ?_, ?_, ?_⟩, ?_, ?_, ?_⟩ <;> decide

end Source
end ScriptMachine
