import ScriptMachine.Proofs.Quotation
import ScriptMachine.Proofs.Yielding

/-!
# Lines with call shorthands

A line with call shorthands is text, and shorthands with their arguments between parentheses, where
the arguments may hold shorthands of their own.  Expansion rewrites the head of each shorthand and
leaves all other text alone.  It looks at one character only to see whether there are arguments.  So a
shorthand with blanks between its parentheses gets the comma of a shorthand with arguments, and the
call that it becomes has a comma with nothing behind it.

A shorthand whose parenthesis is missing, or is never closed, keeps the whole line from being expanded.

Main results:

- {lit}`Phrase`: lines with call shorthands, and what they are expanded to.
- {lit}`Phrase.expandShorthands_written`: expansion by shorthands.
- {lit}`expand?_eq_none`: the lines that are not expanded.
- {lit}`expandShorthands_exact`: expansion of well-formed and of malformed lines.
-/

namespace ScriptMachine
namespace Source

open Text

/-! ## Lines with shorthands -/

/-- A line with call shorthands.  The names of a shorthand are what stands between its points. -/
inductive Phrase where
  | nil
  | text (s : List Char) (rest : Phrase)
  | shorthand (names : List (List Char)) (arguments rest : Phrase)
deriving Repr, DecidableEq

/-- The name of a script, without blanks and with slashes for points. -/
def scriptPath (names : List (List Char)) : List Char :=
  ['/'].intercalate (names.map (List.filter fun c => !isBlank c))

namespace Phrase

/-- The line as it is written. -/
def written : Phrase → List Char
  | nil => []
  | text s rest => s ++ rest.written
  | shorthand names arguments rest =>
    '@' :: (['.'].intercalate names ++ '(' :: (arguments.written ++ ')' :: rest.written))

/-- The line with an explicit call for each shorthand.  There is a comma in front of the arguments but
for those that count as none. -/
def calls (isNone : List Char → Bool) : Phrase → List Char
  | nil => []
  | text s rest => s ++ rest.calls isNone
  | shorthand names arguments rest =>
    callStart ++ (scriptPath names ++ '"' :: ((if isNone arguments.written then [] else [',', ' ']) ++
      (arguments.calls isNone ++ ')' :: rest.calls isNone)))

/-- Whether there are only blanks. -/
def isBlankText (s : List Char) : Bool :=
  s.all isBlank

/-- The line with its shorthands expanded: only an empty list of arguments gets no comma. -/
abbrev expanded (p : Phrase) : List Char :=
  p.calls List.isEmpty

/-- The line with the calls that its shorthands stand for: a blank list of arguments gets no comma. -/
abbrev explicit (p : Phrase) : List Char :=
  p.calls isBlankText

/-- How many shorthands have nothing but blanks between their parentheses. -/
def blankLists : Phrase → Nat
  | nil => 0
  | text _ rest => rest.blankLists
  | shorthand _ arguments rest =>
    (if isBlankText arguments.written ∧ arguments.written ≠ [] then 1 else 0) +
      arguments.blankLists + rest.blankLists

/-- Shorthands stand apart from the text around them: there is no at sign in texts, and no point and no
parenthesis in names.  The arguments do not begin with the parenthesis that closes them. -/
def WellFormed : Phrase → Prop
  | nil => True
  | text s rest => '@' ∉ s ∧ rest.WellFormed
  | shorthand names arguments rest =>
    (∀ name ∈ names, '.' ∉ name ∧ '(' ∉ name) ∧ arguments.written.head? ≠ some ')' ∧
      arguments.WellFormed ∧ rest.WellFormed

instance decidableWellFormed : (p : Phrase) → Decidable p.WellFormed
  | nil => inferInstanceAs (Decidable True)
  | text s rest =>
    have := decidableWellFormed rest
    inferInstanceAs (Decidable ('@' ∉ s ∧ rest.WellFormed))
  | shorthand names arguments rest =>
    have := decidableWellFormed arguments
    have := decidableWellFormed rest
    inferInstanceAs (Decidable ((∀ name ∈ names, '.' ∉ name ∧ '(' ∉ name) ∧
      arguments.written.head? ≠ some ')' ∧ arguments.WellFormed ∧ rest.WellFormed))

end Phrase

/-! ## Expansion by shorthands -/

/-- Text without an at sign stays as it is. -/
theorem expand?_plain {s rest : List Char} (h : '@' ∉ s) :
    expand? false (s ++ rest) = (expand? false rest).map (s ++ ·) := by
  induction s with
  | nil => simp
  | cons c others ih =>
    simp only [List.mem_cons, not_or] at h
    have hstart : c ≠ '@' := Ne.symm h.1
    simp [expand?, hstart, ih h.2, Option.map_map, Function.comp_def]

/-- A piece of the head of a shorthand without points loses its blanks. -/
theorem expand?_name {name rest : List Char} (h : '.' ∉ name ∧ '(' ∉ name) :
    expand? true (name ++ rest) =
      (expand? true rest).map (name.filter (fun c => !isBlank c) ++ ·) := by
  induction name with
  | nil => simp
  | cons c others ih =>
    simp only [List.mem_cons, not_or] at h
    have hrest := ih ⟨h.1.2, h.2.2⟩
    have hpoint : c ≠ '.' := Ne.symm h.1.1
    have hopening : c ≠ '(' := Ne.symm h.2.1
    rw [List.cons_append, expand?, if_pos rfl, if_neg hopening, if_neg hpoint, hrest]
    by_cases hblank : isBlank c = true
    · rw [if_pos hblank, List.filter_cons_of_neg (by simp [hblank])]
    · rw [if_neg hblank, List.filter_cons_of_pos (by simp [hblank]), Option.map_map]
      rfl

/-- The names of a shorthand become the path of a script. -/
theorem expand?_names {names : List (List Char)} {rest : List Char}
    (h : ∀ name ∈ names, '.' ∉ name ∧ '(' ∉ name) :
    expand? true (['.'].intercalate names ++ rest) =
      (expand? true rest).map (scriptPath names ++ ·) := by
  induction names with
  | nil => simp [scriptPath]
  | cons name others ih =>
    have hname := h name List.mem_cons_self
    cases others with
    | nil => simpa [scriptPath] using expand?_name hname
    | cons next behind =>
      have hrest := ih fun other hother => h other (List.mem_cons_of_mem _ hother)
      rw [List.intercalate_cons_cons, List.append_assoc, List.append_assoc, expand?_name hname,
        List.singleton_append, expand?, if_pos rfl, if_neg (by decide), if_pos rfl, hrest]
      simp only [Option.map_map]
      congr 1
      funext out
      simp [scriptPath, List.intercalate_cons_cons]

/-- The parenthesis of a shorthand ends its script name, with a comma unless it is closed at once. -/
theorem callOpening_arguments {arguments behind : List Char} (h : arguments.head? ≠ some ')') :
    callOpening (arguments ++ ')' :: behind) =
      '"' :: if arguments.isEmpty then [] else [',', ' '] := by
  cases arguments with
  | nil => rfl
  | cons c rest =>
    have hc : c ≠ ')' := by simpa using h
    unfold callOpening
    split
    · next hcons =>
      rw [List.cons_append, List.cons.injEq] at hcons
      exact absurd hcons.1 hc
    · rfl

namespace Phrase

/-- A line with shorthands is expanded, whatever well-formed text comes behind it. -/
theorem expand?_written {p : Phrase} (h : p.WellFormed) {behind out : List Char}
    (hbehind : expand? false behind = some out) :
    expand? false (p.written ++ behind) = some (p.expanded ++ out) := by
  induction p generalizing behind out with
  | nil => exact hbehind
  | text s rest ih =>
    rcases h with ⟨hshorthand, hrest⟩
    rw [written, List.append_assoc, expand?_plain hshorthand, ih hrest hbehind]
    simp [expanded, calls]
  | shorthand names arguments rest ihArguments ihRest =>
    rcases h with ⟨hnames, hhead, harguments, hrest⟩
    have hclose : expand? false (')' :: (rest.written ++ behind)) =
        some (')' :: (rest.expanded ++ out)) := by
      rw [expand?]
      simp [ihRest hrest hbehind]
    have hinside := ihArguments harguments hclose
    have hclosed : (arguments.written ++ ')' :: (rest.written ++ behind)).contains ')' = true := by
      simp
    have hline : (shorthand names arguments rest).written ++ behind =
        '@' :: (['.'].intercalate names ++
          '(' :: (arguments.written ++ ')' :: (rest.written ++ behind))) := by
      simp [written]
    rw [hline, expand?]
    simp only [Bool.false_eq_true, if_false, if_true]
    rw [expand?_names hnames, expand?, if_pos rfl, if_pos rfl, if_pos hclosed, hinside,
      callOpening_arguments hhead]
    simp [expanded, calls]

/-- Each list of blanks makes the expansion longer than the line with the calls that the shorthands
stand for, by a comma and a blank.  Without such lists they are the same. -/
theorem expanded_explicit (p : Phrase) :
    p.expanded.length = p.explicit.length + 2 * p.blankLists ∧
      (p.blankLists = 0 → p.expanded = p.explicit) := by
  unfold expanded explicit
  induction p with
  | nil => exact ⟨rfl, fun _ => rfl⟩
  | text s rest ih =>
    rcases ih with ⟨hlength, hsame⟩
    simp only [calls, blankLists, List.length_append, hlength]
    exact ⟨by omega, fun hnone => by rw [hsame hnone]⟩
  | shorthand names arguments rest ihArguments ihRest =>
    rcases ihArguments with ⟨hargumentsLength, hargumentsSame⟩
    rcases ihRest with ⟨hrestLength, hrestSame⟩
    have hcommas : (if arguments.written.isEmpty then [] else [',', ' ']) =
        (if isBlankText arguments.written ∧ arguments.written ≠ [] then [',', ' '] else []) ++
          (if isBlankText arguments.written then [] else [',', ' ']) := by
      cases hwritten : arguments.written with
      | nil => rfl
      | cons c others => by_cases hblank : isBlankText (c :: others) = true <;> simp [hblank]
    simp only [calls, blankLists, hcommas, List.length_append, List.length_cons, hargumentsLength,
      hrestLength]
    constructor
    · split <;> simp <;> omega
    · intro hnone
      have hkept : ¬ (isBlankText arguments.written ∧ arguments.written ≠ []) := by
        intro hlist
        rw [if_pos hlist] at hnone
        omega
      rw [if_neg hkept] at hnone ⊢
      rw [hargumentsSame (by omega), hrestSame (by omega), List.nil_append]

/-- The expansion is the line with the calls that the shorthands stand for exactly if no shorthand has
nothing but blanks between its parentheses. -/
theorem expanded_eq_iff (p : Phrase) : p.expanded = p.explicit ↔ p.blankLists = 0 := by
  rcases p.expanded_explicit with ⟨hlength, hsame⟩
  refine ⟨fun heq => ?_, hsame⟩
  rw [heq] at hlength
  omega

/-- A line with shorthands is expanded. -/
theorem expandShorthands_written {p : Phrase} (h : p.WellFormed) :
    expandShorthands p.written = p.expanded := by
  have hexpanded := expand?_written h (show expand? false [] = some [] from rfl)
  rw [List.append_nil, List.append_nil] at hexpanded
  unfold expandShorthands
  rw [hexpanded, Option.getD_some]

end Phrase

/-! ## The calls of shorthands -/

namespace Phrase

/-- A blank line has no shorthands. -/
theorem explicit_of_isBlankText {p : Phrase} (h : isBlankText p.written = true) :
    p.explicit = p.written := by
  unfold explicit
  induction p with
  | nil => rfl
  | text s rest ih =>
    simp only [isBlankText, written, List.all_append, Bool.and_eq_true] at h
    rw [calls, written, ih h.2]
  | shorthand names arguments rest =>
    simp [isBlankText, written, isBlank, blankRanges] at h

/-- Where the calls that shorthands stand for leave blanks only, there are no shorthands. -/
theorem isBlankText_of_explicit {p : Phrase} (h : isBlankText p.explicit = true) :
    isBlankText p.written = true := by
  unfold explicit at h
  induction p with
  | nil => rfl
  | text s rest ih =>
    simp only [isBlankText, calls, List.all_append, Bool.and_eq_true] at h
    simp only [isBlankText, written, List.all_append, Bool.and_eq_true]
    exact ⟨h.1, ih h.2⟩
  | shorthand names arguments rest =>
    have hstart : callStart.all isBlank = false := by decide
    rw [isBlankText, calls, List.all_append, hstart, Bool.false_and] at h
    cases h

end Phrase

/-- A character without a special meaning may stand in a literal as it is. -/
theorem Spelled.refl {s : List Char} (h : ∀ c ∈ s, c ≠ '"' ∧ c ≠ '\\') : Spelled s s := by
  induction s with
  | nil => exact .nil
  | cons c rest ih =>
    rcases List.forall_mem_cons.1 h with ⟨hc, hrest⟩
    exact .plain hc.1 hc.2 (ih hrest)

/-- A call of {lit}`call` with a path in front of other arguments. -/
theorem written_call {path : List Char} (after : List Char) (others : List Padded)
    (hpath : ∀ c ∈ path, c ≠ '"' ∧ c ≠ '\\') (hafter : Blanks after)
    (hspaced : ∀ argument ∈ others, argument.Spaced)
    (h : ∀ argument ∈ others, Written .expression argument.term argument.text) :
    Written .primary (.call "call" (.text (String.ofList path) :: others.map Padded.term))
      (callStart ++ (path ++ '"' ::
        (after ++ others.flatMap (fun argument => ',' :: argument.written) ++ [')']))) := by
  have hliteral : Written .expression (.text (String.ofList path)) ('"' :: (path ++ ['"'])) :=
    (Written.text (Spelled.refl hpath)).expression_of_primary
  have hcall := @Written.call "call" []
    ⟨[], .text (String.ofList path), '"' :: (path ++ ['"']), after⟩ others rfl (by simp [Blanks])
    (List.forall_mem_cons.2 ⟨⟨by simp [Blanks], hafter⟩, hspaced⟩)
    (List.forall_mem_cons.2 ⟨hliteral, h⟩)
  simpa [Padded.written, callStart] using hcall

/-- The call that a shorthand stands for is a call of {lit}`call` with the path of the script in front
of the arguments. -/
theorem Phrase.written_explicit {names : List (List Char)} {arguments : Phrase} {terms : List Term}
    (hpath : ∀ c ∈ scriptPath names, c ≠ '"' ∧ c ≠ '\\') (h : ArgumentList terms arguments.explicit) :
    Written .primary (.call "call" (.text (String.ofList (scriptPath names)) :: terms))
      (shorthand names arguments nil).explicit := by
  generalize hexplicit : arguments.explicit = text at h
  unfold explicit
  rw [calls, calls]
  cases h with
  | empty hblanks =>
    have hblank : isBlankText arguments.written = true := by
      apply isBlankText_of_explicit
      rw [hexplicit, isBlankText, List.all_eq_true]
      intro c hc
      rcases hblanks c hc with rfl | rfl <;> decide
    -- The blanks stand behind the path.
    have hcall := written_call _ [] hpath hblanks (by simp) (by simp)
    simpa [hblank, hexplicit] using hcall
  | @filled first others hspaced harguments =>
    have hblank : isBlankText arguments.written = false := by
      rw [Bool.eq_false_iff]
      intro hblank
      rcases (harguments first List.mem_cons_self).exists_cons with ⟨c, rest, hcons, hc⟩
      have hall : isBlankText arguments.explicit = true := by rwa [explicit_of_isBlankText hblank]
      rw [hexplicit, isBlankText, List.all_eq_true] at hall
      have hvisible := hall c (by simp [Padded.written, hcons])
      rw [isBlank_of_begins hc] at hvisible
      cases hvisible
    -- The blank behind the comma stands in front of the first argument.
    rcases List.forall_mem_cons.1 hspaced with ⟨hfirst, hrest⟩
    have hbefore : Blanks (' ' :: first.before) := List.forall_mem_cons.2 ⟨.inl rfl, hfirst.before⟩
    have hcall := written_call [] ({ first with before := ' ' :: first.before } :: others) hpath
      (by simp [Blanks]) (List.forall_mem_cons.2 ⟨⟨hbefore, hfirst.after⟩, hrest⟩)
      (List.forall_mem_cons.2 (List.forall_mem_cons.1 harguments))
    simpa [hblank, hexplicit, Padded.written] using hcall

/-! ## Malformed lines -/

/-- No parenthesis closes behind the first one that opens. -/
def Unclosed (s : List Char) : Prop :=
  ')' ∉ s.dropWhile (· ≠ '(')

/-- A line has a shorthand without a parenthesis, or with one that is never closed. -/
def Malformed (line : List Char) : Prop :=
  ∃ front back, line = front ++ '@' :: back ∧ Unclosed back

/-- A character that opens no parenthesis makes no difference. -/
theorem unclosed_cons {c : Char} (s : List Char) (hc : c ≠ '(') : Unclosed (c :: s) ↔ Unclosed s := by
  simp [Unclosed, hc]

/-- A malformed shorthand begins with the first character of a line or behind it. -/
theorem malformed_cons (c : Char) (s : List Char) :
    Malformed (c :: s) ↔ (c = '@' ∧ Unclosed s) ∨ Malformed s := by
  constructor
  · rintro ⟨front, back, hline, hback⟩
    cases front with
    | nil =>
      cases hline
      exact .inl ⟨rfl, hback⟩
    | cons d others =>
      cases hline
      exact .inr ⟨others, back, rfl, hback⟩
  · rintro (⟨rfl, hs⟩ | ⟨front, back, rfl, hback⟩)
    · exact ⟨[], s, rfl, hs⟩
    · exact ⟨c :: front, back, rfl, hback⟩

/-- The empty line has no shorthands. -/
theorem not_malformed_nil : ¬ Malformed [] := by
  rintro ⟨front, back, hline, -⟩
  cases front <;> cases hline

/-- Expansion fails on the lines with a malformed shorthand, and in the head of a malformed one. -/
theorem expand?_eq_none (inHead : Bool) (s : List Char) :
    expand? inHead s = none ↔ (inHead = true ∧ Unclosed s) ∨ Malformed s := by
  induction s generalizing inHead with
  | nil =>
    have hnone := not_malformed_nil
    cases inHead <;> simp [expand?, Unclosed, hnone]
  | cons c rest ih =>
    rw [malformed_cons]
    cases inHead with
    | false =>
      rw [expand?]
      by_cases hstart : c = '@' <;> simp [hstart, ih]
    | true =>
      by_cases hopening : c = '('
      · subst hopening
        by_cases hclosed : ')' ∈ rest <;> simp [expand?, hclosed, ih, Unclosed]
      · -- An at sign in a head is a character of the name.
        have hrest : expand? true (c :: rest) = none ↔ expand? true rest = none := by
          rw [expand?, if_pos rfl, if_neg hopening]
          split
          · simp
          · split <;> simp
        rw [hrest, ih, unclosed_cons rest hopening]
        grind

/-- A line of text and shorthands is expanded to the explicit calls, and so read as they are, except
that a shorthand with nothing but blanks between its parentheses gets a comma.  The explicit call is one
of {lit}`call` with the path in front of the arguments.  A line with a malformed shorthand, and no other
line, stays as it is. -/
theorem expandShorthands_exact {p : Phrase} (h : p.WellFormed) (line : List Char) :
    (expandShorthands p.written = p.expanded ∧
      (expandShorthands p.written = p.explicit ↔ p.blankLists = 0)) ∧
    (∀ before term w after, p.blankLists = 0 → p.explicit = before ++ w ++ after → Blanks before →
      Written .expression term w → Blanks after →
        Term.parse (expandShorthands p.written) = .ok term) ∧
    (∀ names arguments terms, (∀ c ∈ scriptPath names, c ≠ '"' ∧ c ≠ '\\') →
      ArgumentList terms arguments.explicit →
        Written .primary (.call "call" (.text (String.ofList (scriptPath names)) :: terms))
          (Phrase.shorthand names arguments .nil).explicit) ∧
    (expand? false line = none ↔ Malformed line) ∧
    (Malformed line → expandShorthands line = line) := by
  have hexpanded := Phrase.expandShorthands_written h
  have hnone : expand? false line = none ↔ Malformed line := by
    simpa using expand?_eq_none false line
  refine ⟨⟨hexpanded, by rw [hexpanded, p.expanded_eq_iff]⟩, ?_,
    fun names arguments terms => Phrase.written_explicit, hnone, fun hmalformed => ?_⟩
  · intro before term w after hlists hexplicit hbefore hw hafter
    rw [hexpanded, p.expanded_eq_iff.2 hlists, hexplicit]
    exact Term.parse_of_written hbefore hw hafter
  · unfold expandShorthands
    rw [hnone.2 hmalformed, Option.getD_none]

/-- A shorthand with blanks in its head and a shorthand among its arguments, in front of one with nothing
but blanks between its parentheses; a line whose second shorthand is never closed; and the call that a
shorthand without arguments stands for. -/
theorem expandShorthands_nested :
    expandShorthands "x = @ lib .a(@b(), 1) + @c( )".toList =
        "x = call(\"lib/a\", call(\"b\"), 1) + call(\"c\",  )".toList ∧
      expandShorthands "@a(1) + @b(2".toList = "@a(1) + @b(2".toList ∧
      Term.parse (expandShorthands "@a()".toList) = .ok (.call "call" [.text "a"]) := by
  let nested : Phrase := .shorthand [" lib ".toList, "a".toList]
    (.shorthand ["b".toList] .nil (.text ", 1".toList .nil)) (.text " + ".toList
      (.shorthand ["c".toList] (.text " ".toList .nil) .nil))
  let bare : Phrase := .shorthand ["a".toList] .nil .nil
  have hmalformed : Malformed "@a(1) + @b(2".toList := ⟨"@a(1) + ".toList, "b(2".toList, rfl, by
    unfold Unclosed
    decide⟩
  rcases @expandShorthands_exact (.text "x = ".toList nested) (by decide) "@a(1) + @b(2".toList with
    ⟨⟨hexpanded, -⟩, -, -, -, hunmodified⟩
  rcases @expandShorthands_exact bare (by decide) [] with ⟨-, hread, hcall, -, -⟩
  have hname : scriptPath ["a".toList] = ['a'] := by decide
  have hwritten := hcall ["a".toList] .nil [] (by rw [hname]; simp) (.empty .nil)
  have hparsed := hread [] _ bare.explicit [] (by decide) (by simp) .nil
    hwritten.expression_of_primary .nil
  exact ⟨hexpanded, hunmodified hmalformed, hparsed⟩

/-- No argument stands behind the comma of a blank list. -/
example : (Term.parse "call(\"c\",  )".toList).isOk = false := by decide +kernel

end Source
end ScriptMachine
