import Mathlib.Data.List.Basic
import ScriptMachine.Proofs.Initializing

/-!
# Keyword statements as calls

A statement that begins with a keyword stands for the call of a command, and what follows the keyword
stands for the arguments.  Parentheses around all of it are those of the call, and are added where there
are none.  A scan that knows string literals finds out which is the case, and it agrees with the grammar:
the parentheses of a term are balanced for it.

Main results:

- {lit}`Written.isBalanced`: the scan passes over the texts of terms.
- {lit}`Written.exists_group`: texts that begin with a parenthesis.
- {lit}`Outline.parse_commandForm`: arguments behind a keyword, in parentheses or without.
- {lit}`Source.Line.Gives.statementText`: the lines that give a keyword.
- {lit}`Expr.compile_statement`: what keyword statements are compiled to.
-/

namespace ScriptMachine

open Source Text

/-! ## Balanced texts -/

namespace Outline

/-- Inside of parentheses, the scan for the closing one passes over the text. -/
def IsBalanced (s : List Char) : Prop :=
  ∀ depth t, closesAtEnd .outside (depth + 1) (s ++ t) = closesAtEnd .outside (depth + 1) t

/-- Neither parentheses nor quotes. -/
def IsFlat (s : List Char) : Prop :=
  ∀ c ∈ s, c ≠ '(' ∧ c ≠ ')' ∧ c ≠ '"'

namespace IsBalanced

variable {s t : List Char}

theorem nil : IsBalanced [] := fun _ _ => rfl

/-- Balanced texts in a row. -/
theorem append (hs : IsBalanced s) (ht : IsBalanced t) : IsBalanced (s ++ t) := by
  intro depth behind
  rw [List.append_assoc, hs, ht]

/-- Balanced texts of the items of a list. -/
theorem flatMap {α : Type} {text : α → List Char} {items : List α}
    (h : ∀ item ∈ items, IsBalanced (text item)) : IsBalanced (items.flatMap text) := by
  induction items with
  | nil => exact nil
  | cons first rest ih =>
    rcases List.forall_mem_cons.1 h with ⟨hfirst, hrest⟩
    exact hfirst.append (ih hrest)

/-- A balanced text in parentheses. -/
theorem group (h : IsBalanced s) : IsBalanced ('(' :: (s ++ [')'])) := by
  intro depth behind
  rw [List.cons_append, closesAtEnd, if_pos ⟨rfl, rfl⟩, List.append_assoc, h (depth + 1)]
  simp [closesAtEnd]

end IsBalanced

/-- Nothing counts in a flat text. -/
theorem IsFlat.isBalanced {s : List Char} (h : IsFlat s) : IsBalanced s := by
  induction s with
  | nil => exact .nil
  | cons c rest ih =>
    rcases List.forall_mem_cons.1 h with ⟨⟨hopen, hclose, hquote⟩, hrest⟩
    intro depth behind
    have hnext : Quoting.outside.next c = .outside := by simp [Quoting.next, hquote]
    simp [closesAtEnd, hopen, hclose, hnext, ih hrest depth]

/-- A spelling is scanned up to the quote that ends its literal. -/
theorem closesAtEnd_spelled {s w : List Char} (h : Spelled s w) (depth : Nat) (t : List Char) :
    closesAtEnd .inside depth (w ++ '"' :: t) = closesAtEnd .outside depth t := by
  induction h with
  | nil => simp [closesAtEnd, Quoting.next]
  | plain hquote hslash h ih => simp [closesAtEnd, Quoting.next, hquote, hslash, ih]
  | quote h ih | backslash h ih | newline h ih | tab h ih | needless _ _ h ih =>
    simp [closesAtEnd, Quoting.next, ih]

/-- Nothing counts in a literal. -/
theorem isBalanced_literal {s w : List Char} (h : Spelled s w) : IsBalanced ('"' :: (w ++ ['"'])) := by
  intro depth behind
  have hscan := closesAtEnd_spelled h (depth + 1) behind
  simp [closesAtEnd, Quoting.next, hscan]

end Outline

open Outline

/-! ## Flat texts -/

/-- A character of a name is flat. -/
theorem isFlat_of_isNameChar {s : List Char} (h : ∀ c ∈ s, isNameChar c = true) : IsFlat s := by
  intro c hc
  have hname := h c hc
  refine ⟨?_, ?_, ?_⟩ <;> (rintro rfl; cases hname)

theorem isFlat_append {s t : List Char} : IsFlat (s ++ t) ↔ IsFlat s ∧ IsFlat t :=
  List.forall_mem_append

theorem isFlat_cons {c : Char} {s : List Char} :
    IsFlat (c :: s) ↔ (c ≠ '(' ∧ c ≠ ')' ∧ c ≠ '"') ∧ IsFlat s :=
  List.forall_mem_cons

theorem Blanks.isFlat {s : List Char} (h : Blanks s) : IsFlat s := by
  intro c hc
  rcases h c hc with rfl | rfl <;> decide

theorem isFlat_of_isIdentifier {s : List Char} (h : isIdentifier s = true) : IsFlat s :=
  isFlat_of_isNameChar (isNameChar_of_isIdentifier h)

theorem Digits.isFlat {s : List Char} (h : Digits s) : IsFlat s :=
  isFlat_of_isNameChar fun c hc => Literal.isNameChar_of_isDigit (h c hc)

/-- The text of a number is flat. -/
theorem NumberText.isFlat {s : List Char} (h : NumberText s) : IsFlat s := by
  rcases h with ⟨mantissa, exponent, hmantissa, hexponent, rfl⟩
  refine isFlat_append.2 ⟨?_, ?_⟩
  · cases hmantissa with
    | whole h hne => exact h.isFlat
    | point hwhole hfraction hne =>
      exact isFlat_append.2 ⟨hwhole.isFlat, isFlat_cons.2 ⟨by decide, hfraction.isFlat⟩⟩
  · cases hexponent with
    | none => exact List.forall_mem_nil _
    | marked hmark hsign h hne =>
      refine isFlat_cons.2 ⟨?_, isFlat_append.2 ⟨?_, h.isFlat⟩⟩
      · rcases hmark with rfl | rfl <;> decide
      · rcases hsign with rfl | rfl | rfl <;> (unfold IsFlat; decide)

/-- The symbols of operators are flat. -/
theorem UnaryOp.isFlat_symbol (op : UnaryOp) : IsFlat op.symbol.toList := by
  cases op <;> (unfold IsFlat; decide)

theorem BinaryOp.isFlat_symbol (op : BinaryOp) : IsFlat op.symbol.toList := by
  cases op <;> (unfold IsFlat; decide)

theorem AssignOp.isFlat_symbol (op : AssignOp) : IsFlat op.symbol.toList := by
  cases op <;> (unfold IsFlat; decide)

/-! ## Texts of terms -/

theorem Padded.isBalanced_written {p : Padded} (h : p.Spaced) (hp : IsBalanced p.text) :
    IsBalanced p.written :=
  (h.before.isFlat.isBalanced.append hp).append h.after.isFlat.isBalanced

theorem Position.isBalanced_written {p : Position} (h : p.Spaced) (hp : IsBalanced p.inside.text) :
    IsBalanced p.written := by
  have hinside := Padded.isBalanced_written h.inside hp
  have hopening : IsFlat ['['] := by unfold IsFlat; decide
  have hclosing : IsFlat [']'] := by unfold IsFlat; decide
  exact h.gap.isFlat.isBalanced.append
    (hopening.isBalanced.append (hinside.append hclosing.isBalanced))

/-- Balanced arguments between commas. -/
theorem isBalanced_arguments {first : Padded} {others : List Padded}
    (h : ∀ argument ∈ first :: others, IsBalanced argument.written) :
    IsBalanced (first.written ++ others.flatMap fun argument => ',' :: argument.written) := by
  have hcomma : IsFlat [','] := by unfold IsFlat; decide
  refine (h first List.mem_cons_self).append (.flatMap fun argument hmem => ?_)
  exact hcomma.isBalanced.append (h argument (List.mem_cons_of_mem _ hmem))

/-- The scan passes over the texts of terms. -/
theorem Written.isBalanced {level : Level} {term : Term} {w : List Char} (h : Written level term w) :
    IsBalanced w := by
  induction h with
  | number h => exact h.isFlat.isBalanced
  | text h => exact isBalanced_literal h
  | reference h hne =>
    refine (isFlat_cons.2 ⟨by decide, ?_⟩ : IsFlat _).isBalanced
    exact isFlat_of_isNameChar fun c hc => isNameChar_of_isHexDigit (h c hc)
  | name h => exact (isFlat_of_isIdentifier h).isBalanced
  | callNone h hgap hinside =>
    exact ((isFlat_of_isIdentifier h).isBalanced.append hgap.isFlat.isBalanced).append
      hinside.isFlat.isBalanced.group
  | @call identifier gap first others h hgap hspaced harguments ih =>
    have harguments := isBalanced_arguments fun argument hmem =>
      Padded.isBalanced_written (hspaced argument hmem) (ih argument hmem)
    exact ((isFlat_of_isIdentifier h).isBalanced.append hgap.isFlat.isBalanced).append
      harguments.group
  | group hspaced h ih => exact (Padded.isBalanced_written hspaced ih).group
  | index h hspaced hposition ih ihposition => exact ih.append (Position.isBalanced_written hspaced ihposition)
  | unary op hgap h ih => exact (op.isFlat_symbol.isBalanced.append hgap.isFlat.isBalanced).append ih
  | binary op hleft hgap hgap' hright ihleft ihright =>
    exact (((ihleft.append hgap.isFlat.isBalanced).append op.isFlat_symbol.isBalanced).append
      hgap'.isFlat.isBalanced).append ihright
  | assign op h hspaced hpositions hgap hgap' hvalue ihpositions ihvalue =>
    have hindices := IsBalanced.flatMap fun position hmem =>
      Position.isBalanced_written (hspaced position hmem) (ihpositions position hmem)
    have htarget := (isFlat_of_isIdentifier h).isBalanced.append hindices
    exact (((htarget.append hgap.isFlat.isBalanced).append op.isFlat_symbol.isBalanced).append
      hgap'.isFlat.isBalanced).append ihvalue
  | tighter h ih => exact ih

/-! ## Parentheses around a text -/

/-- Whether the parenthesis in front of a balanced text closes with the last character. -/
theorem Outline.isGroup_append {s : List Char} (h : IsBalanced s) (behind : List Char) :
    isGroup ('(' :: (s ++ ')' :: behind)) = behind.isEmpty := by
  have hscan : closesAtEnd .outside 0 ('(' :: (s ++ ')' :: behind)) = behind.isEmpty := by
    rw [closesAtEnd, if_pos ⟨rfl, rfl⟩, h 0]
    simp [closesAtEnd]
  rw [isGroup, hscan]
  rfl

/-- A flat text does not begin with a parenthesis. -/
theorem Outline.IsFlat.head?_ne {s : List Char} (h : IsFlat s) : s.head? ≠ some '(' := by
  intro hhead
  exact (h '(' (List.mem_of_mem_head? hhead)).1 rfl

/-- The text of a term is not empty. -/
theorem Written.ne_nil {level : Level} {term : Term} {w : List Char} (h : Written level term w) :
    w ≠ [] := by
  rcases h.exists_cons with ⟨c, rest, rfl, -⟩
  exact List.cons_ne_nil c rest

/-- A text that begins with a parenthesis begins with a term in parentheses.  Where nothing follows
them, it is a text of that term. -/
theorem Written.exists_group {level : Level} {term : Term} {w : List Char} (h : Written level term w)
    (hhead : w.head? = some '(') : ∃ (inside : Padded) (behind : List Char),
      inside.Spaced ∧ Written .expression inside.term inside.text ∧ w = inside.grouped ++ behind ∧
        (behind = [] → inside.term = term) := by
  have hidentifier : ∀ {s t : List Char}, isIdentifier s = true → (s ++ t).head? ≠ some '(' := by
    intro s t h
    rw [List.head?_append_of_ne_nil _ (isSolid_of_isIdentifier h).1]
    exact (isFlat_of_isIdentifier h).head?_ne
  -- Text behind the parentheses belongs to a greater term.
  have hbehind : ∀ {term : Term} {w more : List Char}, more ≠ [] →
      (∃ (inside : Padded) (behind : List Char), inside.Spaced ∧
        Written .expression inside.term inside.text ∧ w = inside.grouped ++ behind) →
      ∃ (inside : Padded) (behind : List Char), inside.Spaced ∧
        Written .expression inside.term inside.text ∧ w ++ more = inside.grouped ++ behind ∧
          (behind = [] → inside.term = term) := by
    rintro term w more hmore ⟨inside, behind, hspaced, hinside, rfl⟩
    refine ⟨inside, behind ++ more, hspaced, hinside, List.append_assoc .., fun hnil => ?_⟩
    exact absurd (List.append_eq_nil_iff.1 hnil).2 hmore
  induction h with
  | number h => exact absurd hhead h.isFlat.head?_ne
  | text h => cases hhead
  | reference h hne => cases hhead
  | name h => exact absurd hhead (isFlat_of_isIdentifier h).head?_ne
  | callNone h hgap hinside =>
    rw [List.append_assoc] at hhead
    exact absurd hhead (hidentifier h)
  | call h hgap hspaced harguments =>
    rw [List.append_assoc] at hhead
    exact absurd hhead (hidentifier h)
  | @group inside hspaced h => exact ⟨inside, [], hspaced, h, (List.append_nil _).symm, fun _ => rfl⟩
  | index h hspaced hposition ih =>
    rw [List.head?_append_of_ne_nil _ h.ne_nil] at hhead
    rcases ih hhead with ⟨inside, behind, hinside, hwritten, hw, -⟩
    exact hbehind (by simp [Position.written, Padded.bracketed]) ⟨inside, behind, hinside, hwritten, hw⟩
  | unary op hgap h =>
    rw [List.append_assoc, List.head?_append_of_ne_nil _ op.isSolid_symbol.1] at hhead
    exact absurd hhead op.isFlat_symbol.head?_ne
  | binary op hleft hgap hgap' hright ih =>
    simp only [List.append_assoc] at hhead ⊢
    rw [List.head?_append_of_ne_nil _ hleft.ne_nil] at hhead
    rcases ih hhead with ⟨inside, behind, hinside, hwritten, hw, -⟩
    exact hbehind (by simp [op.isSolid_symbol.1]) ⟨inside, behind, hinside, hwritten, hw⟩
  | assign op h =>
    simp only [List.append_assoc] at hhead
    exact absurd hhead (hidentifier h)
  | tighter h ih => exact ih hhead

/-- Blanks behind the text of a term are trimmed off. -/
theorem Written.trimEnd_append {level : Level} {term : Term} {w after : List Char}
    (h : Written level term w) (s : List Char) (hafter : Blanks after) :
    trimEnd (s ++ (w ++ after)) = s ++ w := by
  rcases h.exists_concat with ⟨front, c, rfl, hc⟩
  have hall : s ++ (front ++ [c] ++ after) = (s ++ front) ++ c :: after := by simp
  rw [hall, Source.trimEnd_append after hc, (trimEnd_nil_iff after).2 hafter.isBlank]
  simp

/-! ## Lists of arguments -/

namespace ArgumentList

variable {terms : List Term} {s : List Char}

/-- A list of arguments without the blanks in front of it, which begins with an argument. -/
theorem trimStart (h : ArgumentList terms s) (hne : terms ≠ []) :
    ArgumentList terms (Text.trimStart s) := by
  cases h with
  | empty h => exact absurd rfl hne
  | @filled first others hspaced h =>
    rcases List.forall_mem_cons.1 hspaced with ⟨hfirst, hrest⟩
    rcases (h first List.mem_cons_self).exists_cons with ⟨c, rest, hcons, hbegins⟩
    have hless : ArgumentList (({ first with before := [] } :: others).map Padded.term) _ :=
      .filled (List.forall_mem_cons.2 ⟨⟨.nil, hfirst.after⟩, hrest⟩)
        (List.forall_mem_cons.2 (List.forall_mem_cons.1 h))
    have htrim : Text.trimStart (first.written ++ others.flatMap fun argument => ',' :: argument.written) =
        ({ first with before := [] } : Padded).written ++
          others.flatMap fun argument => ',' :: argument.written := by
      simp only [Padded.written, hcons, List.append_assoc, List.cons_append, List.nil_append]
      exact trimStart_append hfirst.before.isBlank (isBlank_of_begins hbegins)
    rw [htrim]
    exact hless

/-- A list of arguments without the blanks behind it. -/
theorem trimEnd (h : ArgumentList terms s) (hne : terms ≠ []) :
    ArgumentList terms (Text.trimEnd s) := by
  cases h with
  | empty h => exact absurd rfl hne
  | @filled first others hspaced h =>
    rcases List.forall_mem_cons.1 hspaced with ⟨hfirst, hrest⟩
    rcases List.forall_mem_cons.1 h with ⟨hwritten, hothers⟩
    -- The blanks belong to the last argument.
    rcases List.eq_nil_or_concat others with rfl | ⟨init, last, rfl⟩
    · have hless : ArgumentList ([{ first with after := [] }].map Padded.term) _ :=
        .filled (by simpa using ⟨hfirst.before, .nil⟩) (by simpa using hwritten)
      have htrim := hwritten.trimEnd_append first.before hfirst.after
      simpa [Padded.written, htrim] using hless
    · simp only [List.concat_eq_append, List.forall_mem_append,
        List.forall_mem_singleton] at hrest hothers
      have hless : ArgumentList ((first :: (init ++ [{ last with after := [] }])).map Padded.term) _ :=
        .filled
          (List.forall_mem_cons.2 ⟨hfirst, List.forall_mem_append.2
            ⟨hrest.1, by simpa using ⟨hrest.2.before, .nil⟩⟩⟩)
          (List.forall_mem_cons.2 ⟨hwritten, List.forall_mem_append.2
            ⟨hothers.1, by simpa using hothers.2⟩⟩)
      have htrim := hothers.2.trimEnd_append
        (first.written ++ ((init.flatMap fun argument => ',' :: argument.written) ++ ',' :: last.before))
        hrest.2.after
      simp only [Padded.written, List.append_assoc, List.cons_append] at htrim
      simpa [Padded.written, htrim] using hless

/-- A list of arguments without the blanks around it. -/
theorem trim (h : ArgumentList terms s) (hne : terms ≠ []) : ArgumentList terms (Text.trim s) :=
  (h.trimStart hne).trimEnd hne

/-- A list of arguments is balanced. -/
theorem isBalanced (h : ArgumentList terms s) : IsBalanced s := by
  cases h with
  | empty h => exact h.isFlat.isBalanced
  | @filled first others hspaced h =>
    exact isBalanced_arguments fun argument hmem =>
      Padded.isBalanced_written (hspaced argument hmem) (h argument hmem).isBalanced

/-- A list of arguments that is one group in parentheses is a term in parentheses, without them
otherwise. -/
theorem exists_group (h : ArgumentList terms s) (hgroup : isGroup s = true) :
    ∃ inside : List Char, ArgumentList terms inside ∧ s = '(' :: (inside ++ [')']) := by
  have hhead : s.head? = some '(' := by
    simp only [isGroup, Bool.and_eq_true, beq_iff_eq] at hgroup
    exact hgroup.1
  cases h with
  | empty h => exact absurd hhead h.isFlat.head?_ne
  | @filled first others hspaced h =>
    have hwritten := h first List.mem_cons_self
    have hbefore : first.before = [] := by
      by_contra hne
      simp only [Padded.written, List.append_assoc] at hhead
      rw [List.head?_append_of_ne_nil _ hne] at hhead
      exact (hspaced first List.mem_cons_self).before.isFlat.head?_ne hhead
    have hfirst : first.written = first.text ++ first.after := by
      rw [Padded.written, hbefore, List.nil_append]
    rw [hfirst, List.append_assoc] at hhead hgroup ⊢
    rw [List.head?_append_of_ne_nil _ hwritten.ne_nil] at hhead
    rcases hwritten.exists_group hhead with ⟨inside, behind, hinside, hin, htext, hterm⟩
    have hall : first.text ++ (first.after ++ others.flatMap fun argument => ',' :: argument.written) =
        '(' :: (inside.written ++ ')' :: (behind ++ (first.after ++
          others.flatMap fun argument => ',' :: argument.written))) := by
      simp [htext, Padded.grouped]
    rw [hall, isGroup_append (Padded.isBalanced_written hinside hin.isBalanced),
      List.isEmpty_iff] at hgroup
    -- Nothing follows the parentheses, so there is no other argument.
    simp only [List.append_eq_nil_iff, List.flatMap_eq_nil_iff] at hgroup
    rcases hgroup with ⟨rfl, hafter, hnone⟩
    have hothers : others = [] := List.eq_nil_iff_forall_not_mem.2 fun argument hmem =>
      absurd (hnone argument hmem) (List.cons_ne_nil _ _)
    have hsole : ArgumentList ([inside].map Padded.term) _ :=
      .filled (by simpa using hinside) (by simpa using hin)
    refine ⟨inside.written, ?_, ?_⟩
    · simpa [hothers, hterm rfl] using hsole
    · simp [hafter, hothers, htext, Padded.grouped]

/-- A list of arguments is not empty. -/
theorem ne_nil (h : ArgumentList terms s) (hne : terms ≠ []) : s ≠ [] := by
  cases h with
  | empty h => exact absurd rfl hne
  | filled hspaced h =>
    intro hnil
    simp only [Padded.written, List.append_eq_nil_iff] at hnil
    exact (h _ List.mem_cons_self).ne_nil hnil.1.1.2

end ArgumentList

/-! ## Command forms -/

namespace Outline

variable {terms : List Term} {s : List Char}

/-- The text of a keyword is the name of a command. -/
theorem isIdentifier_text (keyword : Keyword) : isIdentifier keyword.text.toList = true := by
  cases keyword <;> decide

/-- A list of arguments in parentheses behind a keyword. -/
theorem parse_called (keyword : Keyword) (h : ArgumentList terms s) :
    Term.parse (keyword.text.toList ++ '(' :: (s ++ [')'])) = .ok (.call keyword.text terms) := by
  have hwritten := h.call (isIdentifier_text keyword) .nil
  rw [List.append_nil] at hwritten
  exact Term.parse_eq_ok_iff.2 hwritten.expression_of_primary.spread

/-- A list of arguments behind a keyword is that of a call, whether or not parentheses stand around
it. -/
theorem parse_commandForm (keyword : Keyword) (h : ArgumentList terms s) (hne : terms ≠ []) :
    Term.parse (commandForm keyword (trim s)) = .ok (.call keyword.text terms) ∧
      Term.parse (commandForm keyword ('(' :: (s ++ [')']))) = .ok (.call keyword.text terms) := by
  constructor
  · have htrimmed := h.trim hne
    rw [commandForm, if_neg (by simpa using htrimmed.ne_nil hne)]
    split
    · next hgroup =>
      rcases htrimmed.exists_group hgroup with ⟨inside, hinside, htext⟩
      rw [htext]
      exact parse_called keyword hinside
    · simpa using parse_called keyword htrimmed
  · have hgroup : isGroup ('(' :: (s ++ [')'])) = true := isGroup_append h.isBalanced []
    rw [commandForm, if_neg (by simp), if_pos hgroup]
    exact parse_called keyword h

/-- A keyword alone is a call without arguments. -/
theorem parse_commandForm_nil (keyword : Keyword) :
    Term.parse (commandForm keyword []) = .ok (.call keyword.text []) := by
  have hform : commandForm keyword [] = keyword.text.toList ++ '(' :: ([] ++ [')']) := rfl
  exact (congrArg Term.parse hform).trans (parse_called keyword (.empty .nil))

end Outline

/-! ## Arguments from texts -/

/-- A term between blanks is read back. -/
theorem Padded.parse_written {p : Padded} (h : p.Spaced) (hp : Written .expression p.term p.text) :
    Term.parse p.written = .ok p.term :=
  Term.parse_of_written h.before hp h.after

/-- Texts that are read as terms are terms between blanks. -/
theorem exists_padded {texts : List (List Char)} (h : ∀ text ∈ texts, (Term.parse text).isOk = true) :
    ∃ arguments : List Padded, texts = arguments.map Padded.written ∧
      (∀ argument ∈ arguments, argument.Spaced) ∧
      ∀ argument ∈ arguments, Written .expression argument.term argument.text := by
  induction texts with
  | nil => exact ⟨[], rfl, List.forall_mem_nil _, List.forall_mem_nil _⟩
  | cons text rest ih =>
    rcases List.forall_mem_cons.1 h with ⟨hfirst, hrest⟩
    rcases ih hrest with ⟨arguments, rfl, hspaced, hwritten⟩
    rcases Term.exists_parse hfirst with ⟨term, hterm⟩
    rcases Term.parse_eq_ok_iff.1 hterm with ⟨before, w, after, hbefore, hw, hafter, rfl⟩
    exact ⟨⟨before, term, w, after⟩ :: arguments, rfl,
      List.forall_mem_cons.2 ⟨⟨hbefore, hafter⟩, hspaced⟩, List.forall_mem_cons.2 ⟨hw, hwritten⟩⟩

/-- Texts between commas. -/
theorem intercalate_cons (text : List Char) (others : List (List Char)) :
    [','].intercalate (text :: others) = text ++ others.flatMap (',' :: ·) := by
  induction others generalizing text with
  | nil => simp
  | cons next rest ih => rw [List.intercalate_cons_cons, ih, List.flatMap_cons]; simp

namespace Expr

variable {scope : Scope}

/-- A text that is read as a term is compiled to what the term stands for. -/
theorem compile_of_parse {text : List Char} {term : Term} (h : Term.parse text = .ok term) :
    compile scope text = resolve scope term := by
  unfold compile
  rw [h]

/-- The arguments of a call are compiled one after another. -/
theorem resolveList_eq_mapM {arguments : List Padded} (hspaced : ∀ argument ∈ arguments, argument.Spaced)
    (h : ∀ argument ∈ arguments, Written .expression argument.term argument.text) :
    resolveList scope (arguments.map Padded.term) =
      (arguments.map Padded.written).mapM (compile scope) := by
  induction arguments with
  | nil => rfl
  | cons first rest ih =>
    rcases List.forall_mem_cons.1 hspaced with ⟨hfirst, hrest⟩
    rcases List.forall_mem_cons.1 h with ⟨hwritten, hothers⟩
    have hcompile := @compile_of_parse scope _ _ (Padded.parse_written hfirst hwritten)
    rw [List.map_cons, List.map_cons, List.mapM_cons, hcompile, ← ih hrest hothers]
    rfl

/-- A call of a command that takes so many arguments. -/
theorem resolveCall_eq {name : String} {command : Builtin} {arguments : List Expr}
    (hlookup : scope.commands.lookup? name = some command.command)
    (harity : ∀ expected ∈ command.signature.arity?, arguments.length = expected) :
    resolveCall scope name arguments = (do
      modify fun references => references.addCommand command.signature.name
      return .call command.signature.name arguments) := by
  unfold resolveCall
  rw [hlookup]
  dsimp only [Builtin.command]
  cases hexpected : command.signature.arity? with
  | none => simp
  | some expected => simp [harity expected hexpected]

end Expr

/-! ## Lines of keyword statements -/

namespace Source

/-- Blanks behind a text are trimmed off. -/
theorem trim_append_blanks {blanks : List Char} (h : ∀ c ∈ blanks, isBlank c = true)
    (text : List Char) : trim (text ++ blanks) = trim text := by
  rw [trim, trim, trimStart, trimStart, List.dropWhile_append]
  split
  · next hnone =>
    have hblanks : blanks.dropWhile isBlank = [] := (trimStart_nil_iff blanks).2 h
    rw [List.isEmpty_iff.1 hnone, hblanks]
  · exact trimEnd_append_blanks h _

/-- Parentheses are no blanks. -/
theorem trim_group (s : List Char) : trim ('(' :: (s ++ [')'])) = '(' :: (s ++ [')']) := by
  have hstart : trimStart ('(' :: (s ++ [')'])) = '(' :: (s ++ [')']) := rfl
  rw [trim, hstart, ← List.cons_append, trimEnd_append [] (by decide)]
  rfl

/-- A word that spells a keyword is read as that keyword up to a parenthesis. -/
theorem Keyword.ofToken?_append {word more : List Char} {keyword : Keyword}
    (hword : ofWord? word = some keyword) (hmore : ∀ c ∈ more.head?, c = '(') :
    ofToken? (word ++ more) = some keyword := by
  cases more with
  | nil =>
    rw [List.append_nil]
    exact (exists_of_ofWord? hword).2
  | cons c rest =>
    have hc : c = '(' := hmore c rfl
    have hchars := isNameChar_of_ofWord? hword
    have hdrop : (word ++ c :: rest).dropWhile isNameChar = '(' :: rest := by
      rw [List.dropWhile_append_of_pos hchars, hc]
      rfl
    have htake : (word ++ c :: rest).takeWhile isNameChar = word := by
      rw [List.takeWhile_append_of_pos hchars, hc]
      simp [isNameChar]
    rw [ofToken?, hdrop]
    show ofWord? ((word ++ c :: rest).takeWhile isNameChar) = some keyword
    rw [htake, hword]

/-- A text that begins with a word has the keyword of the word, where a blank or a parenthesis
follows. -/
theorem Keyword.ofTokens?_tokenize {word behind : List Char} {keyword : Keyword}
    (hword : ofWord? word = some keyword)
    (hbehind : ∀ c ∈ behind.head?, isBlank c = true ∨ c = '(') :
    ofTokens? (tokenize (word ++ behind)) = some keyword := by
  rcases (exists_of_ofWord? hword).1 with hsolid
  -- The first token ends at the first blank.
  have hsplit : word ++ behind =
      (word ++ behind.takeWhile (!isBlank ·)) ++ behind.dropWhile (!isBlank ·) := by
    rw [List.append_assoc, List.takeWhile_append_dropWhile]
  have htoken : ∀ c ∈ word ++ behind.takeWhile (!isBlank ·), isBlank c = false := by
    refine List.forall_mem_append.2 ⟨hsolid.isBlank, fun c hc => ?_⟩
    simpa using List.all_eq_true.1 List.all_takeWhile c hc
  have hstop : ∀ c ∈ (behind.dropWhile (!isBlank ·)).head?, isBlank c = true := by
    intro c hc
    have hstop := List.head?_dropWhile_not (!isBlank ·) behind
    rw [Option.mem_def.1 hc] at hstop
    simpa using hstop
  have hmore : ∀ c ∈ (behind.takeWhile (!isBlank ·)).head?, c = '(' := by
    intro c hc
    cases behind with
    | nil => cases hc
    | cons d rest =>
      rw [List.takeWhile_cons] at hc
      split at hc
      · next hsome =>
        cases hc
        exact (hbehind c rfl).resolve_left (by simpa using hsome)
      · cases hc
  rw [hsplit, tokenize, tokensFrom_word (by simp [hsolid.1]) htoken hstop]
  exact ofToken?_append hword hmore

/-- What a text begins with is left of it when it is cleaned, unless everything is trimmed off. -/
theorem head?_cleaned {s : List Char} (h : ∀ c ∈ s.head?, isBlank c = true ∨ c = '(') :
    ∀ c ∈ (trimEnd (blanked (beforeComment .outside s))).head?, isBlank c = true ∨ c = '(' := by
  cases s with
  | nil => exact fun c hc => by cases hc
  | cons c rest =>
    have hc := h c rfl
    have hmarker : c ≠ ';' := by
      rintro rfl
      revert hc
      decide
    have hkept : beforeComment .outside (c :: rest) = c :: beforeComment (Quoting.outside.next c) rest := by
      rw [beforeComment, if_neg (by simp [hmarker])]
    rcases trimEnd_prefix (blanked (beforeComment .outside (c :: rest))) with ⟨blanks, hall⟩
    intro d hd
    cases htrim : trimEnd (blanked (beforeComment .outside (c :: rest))) with
    | nil =>
      rw [htrim] at hd
      cases hd
    | cons e others =>
      rw [htrim] at hd hall
      rw [hkept, blanked_cons, List.cons_append, List.cons.injEq] at hall
      cases hd
      rw [← hall.1, isBlank_blank]
      rcases hc with hc | rfl
      · exact .inl hc
      · exact .inr rfl

namespace Line

variable {line : Line} {keyword : Keyword} {start word rest : List Char}

/-- A line that begins with a keyword, and what it says behind the keyword. -/
theorem keyword_of_word (hstart : ∀ c ∈ start, isBlank c = true)
    (hword : Keyword.ofWord? word = some keyword)
    (hrest : ∀ c ∈ rest.head?, isBlank c = true ∨ c = '(') (hline : line.text = start ++ (word ++ rest)) :
    line.keyword? = some keyword ∧ keyword.remainder? line.text = some (trim rest) := by
  have hsolid := (Keyword.exists_of_ofWord? hword).1
  rcases List.exists_cons_of_ne_nil hsolid.1 with ⟨c, others, hcons⟩
  have hc : isBlank c = false := hsolid.isBlank c (by simp [hcons])
  constructor
  · have hspeaks := (isBare_append.2 ⟨isBare_of_isBlank hstart, hsolid.isBare⟩).speaks
    have hkept : beforeComment .outside line.text =
        start ++ word ++ beforeComment .outside rest := by
      rw [hline, ← List.append_assoc, beforeComment_of_not_hasComment rest hspeaks.comment,
        hspeaks.after]
    have hbegin : trimStart (blanked (start ++ word ++ beforeComment .outside rest)) =
        word ++ blanked (beforeComment .outside rest) := by
      rw [blanked_append, blanked_append, hsolid.blanked_eq, hcons, List.append_assoc,
        List.cons_append]
      exact trimStart_append (isBlank_blanked hstart) hc
    rcases hsolid.exists_concat with ⟨front, d, hconcat, hd⟩
    have hclean : clean .everything line.text =
        word ++ trimEnd (blanked (beforeComment .outside rest)) := by
      show trimEnd (trimStart (blanked (beforeComment .outside line.text))) = _
      rw [hkept, hbegin, hconcat, List.append_assoc, List.singleton_append, trimEnd_append _ hd,
        List.append_cons]
    rw [keyword?, tokens, hclean]
    exact Keyword.ofTokens?_tokenize hword (head?_cleaned hrest)
  · have hstarts : trimStart line.text = word ++ rest := by
      rw [hline, hcons, List.cons_append]
      exact trimStart_append hstart hc
    have hsize : byteSize keyword.text.toList = byteSize word := by
      rw [Keyword.text_of_ofWord? hword, byteSize_map_toLower]
    unfold Keyword.remainder?
    simp only [hstarts, hsize, byteSize_append]
    rw [Nat.min_eq_left (Nat.le_add_right _ _), dropBytes?_append]
    rfl

end Line

end Source

/-! ## Keyword statements -/

/-- The command that a keyword statement calls. -/
def Source.Keyword.command? : Keyword → Option Builtin
  | .returnStatement => some .returnValue
  | .breakStatement => some .breakLoop
  | .continueStatement => some .continueLoop
  | _ => none

/-- A line that gives a keyword, in small and capital letters, and a text behind it, with blanks around
both.  Where no blanks stand between them, the text begins with a parenthesis if it is not empty. -/
def Source.Line.Gives (line : Line) (keyword : Keyword) (text : List Char) : Prop :=
  ∃ start word gap last : List Char, (∀ c ∈ start ++ gap ++ last, isBlank c = true) ∧
    Keyword.ofWord? word = some keyword ∧ (gap = [] → ∀ c ∈ text.head?, c = '(') ∧
    line.text = start ++ (word ++ (gap ++ (text ++ last)))

/-- The expression of such a line. -/
theorem Source.Line.Gives.statementText {line : Line} {keyword : Keyword} {text : List Char}
    (h : line.Gives keyword text) : line.keyword? = some keyword ∧
      Outline.statementText line line.keyword? = .ok (commandForm keyword (trim text)) := by
  rcases h with ⟨start, word, gap, last, hblanks, hword, hgap, hline⟩
  simp only [List.forall_mem_append] at hblanks
  rcases hblanks with ⟨⟨hstart, hbetween⟩, hlast⟩
  have hrest : ∀ c ∈ (gap ++ (text ++ last)).head?, isBlank c = true ∨ c = '(' := by
    cases gap with
    | cons d more =>
      intro c hc
      cases hc
      exact .inl (hbetween _ List.mem_cons_self)
    | nil =>
      cases text with
      | cons d more => exact fun c hc => .inr (hgap rfl c hc)
      | nil => exact fun c hc => .inl (hlast c (List.mem_of_mem_head? hc))
  rcases keyword_of_word hstart hword hrest hline with ⟨hkeyword, hremainder⟩
  refine ⟨hkeyword, ?_⟩
  rw [hkeyword, Outline.statementText, behindKeyword_eq hremainder, trim_append hbetween,
    trim_append_blanks hlast]
  rfl

namespace Expr

variable {scope : Scope}

/-- The call of a command with arguments that are compiled from texts, one after another. -/
def compileCall (scope : Scope) (command : Builtin) (texts : List (List Char)) : Resolve Expr := do
  let arguments ← texts.mapM (compile scope)
  modify fun references => references.addCommand command.signature.name
  return .call command.signature.name arguments

/-- A list of texts behind a keyword is compiled to a call with them, in parentheses or without. -/
theorem compile_commandForm {keyword : Keyword} {command : Builtin}
    (hlookup : scope.commands.lookup? keyword.text = some command.command)
    (harity : command.signature.arity? = none) {texts : List (List Char)} (hne : texts ≠ [])
    (h : ∀ text ∈ texts, (Term.parse text).isOk = true) :
    compile scope (commandForm keyword (trim ([','].intercalate texts))) =
        compileCall scope command texts ∧
      compile scope (commandForm keyword ('(' :: ([','].intercalate texts ++ [')']))) =
        compileCall scope command texts := by
  rcases exists_padded h with ⟨arguments, rfl, hspaced, hwritten⟩
  have hcall : ∀ {form : List Char},
      Term.parse form = .ok (.call keyword.text (arguments.map Padded.term)) →
        compile scope form = compileCall scope command (arguments.map Padded.written) := by
    intro form hform
    have hresolve : resolveCall scope keyword.text = fun found => (do
        modify fun references => references.addCommand command.signature.name
        return .call command.signature.name found) :=
      funext fun found => resolveCall_eq hlookup (by simp [harity])
    simp only [compile_of_parse hform, resolve, hresolve, resolveList_eq_mapM hspaced hwritten]
    rfl
  cases arguments with
  | nil => exact absurd rfl hne
  | cons first others =>
    have hlist : ArgumentList ((first :: others).map Padded.term) _ := .filled hspaced hwritten
    have htext : [','].intercalate ((first :: others).map Padded.written) =
        first.written ++ others.flatMap fun argument => ',' :: argument.written := by
      rw [List.map_cons, intercalate_cons, List.flatMap_map]
    rw [htext]
    rcases parse_commandForm keyword hlist (by simp) with ⟨hplain, hgrouped⟩
    exact ⟨hcall hplain, hcall hgrouped⟩

/-- A keyword alone is compiled to a call without arguments. -/
theorem compile_commandForm_nil {keyword : Keyword} {command : Builtin}
    (hlookup : scope.commands.lookup? keyword.text = some command.command)
    (harity : ∀ expected ∈ command.signature.arity?, expected = 0) :
    compile scope (commandForm keyword []) = compileCall scope command [] := by
  have hresolve := @resolveCall_eq scope _ _ [] hlookup
    fun expected hexpected => (harity expected hexpected).symm
  rw [compile_of_parse (parse_commandForm_nil keyword), resolve]
  show resolveCall scope keyword.text [] = _
  rw [hresolve]
  rfl

/-- Where the keyword statements find their commands, a list of expressions behind a return keyword is
compiled to a call with exactly these arguments, and a keyword alone to a call without any.  Blanks and
the case of the keyword make no difference, and neither do parentheses around the list. -/
theorem compile_statement
    (hcommands : ∀ keyword command, Keyword.command? keyword = some command →
      scope.commands.lookup? keyword.text = some command.command) :
    (∀ (line : Line) (texts : List (List Char)), texts ≠ [] →
      (∀ text ∈ texts, (Term.parse text).isOk = true) →
      line.Gives .returnStatement ([','].intercalate texts) ∨
        line.Gives .returnStatement ('(' :: ([','].intercalate texts ++ [')'])) →
      line.keyword? = some .returnStatement ∧ ∃ form, Outline.statementText line line.keyword? = .ok form ∧
        compile scope form = compileCall scope .returnValue texts) ∧
    ∀ (line : Line) keyword command, Keyword.command? keyword = some command → line.Gives keyword [] →
      line.keyword? = some keyword ∧ ∃ form, Outline.statementText line line.keyword? = .ok form ∧
        compile scope form = compileCall scope command [] := by
  constructor
  · intro line texts hne htexts hgives
    rcases compile_commandForm (hcommands .returnStatement .returnValue rfl) rfl hne htexts with
      ⟨hplain, hgrouped⟩
    rcases hgives with hgives | hgives
    · rcases hgives.statementText with ⟨hkeyword, htext⟩
      exact ⟨hkeyword, _, htext, hplain⟩
    · rcases hgives.statementText with ⟨hkeyword, htext⟩
      rw [trim_group] at htext
      exact ⟨hkeyword, _, htext, hgrouped⟩
  · intro line keyword command hcommand hgives
    rcases hgives.statementText with ⟨hkeyword, htext⟩
    refine ⟨hkeyword, _, htext, compile_commandForm_nil (hcommands keyword command hcommand) ?_⟩
    cases keyword <;> cases hcommand <;> decide

/-- The built-in commands are those that keyword statements call. -/
theorem lookup?_text (keyword : Keyword) (command : Builtin) (h : Keyword.command? keyword = some command) :
    CommandTable.standard.lookup? keyword.text = some command.command := by
  cases keyword <;> cases h <;> rfl

/-- Two arguments with parentheses, commas and quotes in their literals behind a keyword in small and
capital letters, the same in parentheses without blanks, and a keyword alone. -/
theorem compile_statement_quoted :
    let texts := ["(\"a)\\\"(\")".toList, " Error(\",\") ".toList]
    (∃ form, Outline.statementText ⟨1, "ReTurn\t(\"a)\\\"(\"), Error(\",\") ".toList⟩
        (some .returnStatement) = .ok form ∧
      compile .counting form = compileCall .counting .returnValue texts) ∧
    (∃ form, Outline.statementText ⟨1, " return((\"a)\\\"(\"), Error(\",\") )".toList⟩
        (some .returnStatement) = .ok form ∧
      compile .counting form = compileCall .counting .returnValue texts) ∧
    ∃ form, Outline.statementText ⟨1, "BREAK ".toList⟩ (some .breakStatement) = .ok form ∧
      compile .counting form = compileCall .counting .breakLoop [] := by
  intro texts
  have htexts : ∀ text ∈ texts, (Term.parse text).isOk = true := by decide +kernel
  rcases @compile_statement .counting lookup?_text with ⟨hreturn, hbare⟩
  have hplain := hreturn ⟨1, "ReTurn\t(\"a)\\\"(\"), Error(\",\") ".toList⟩ texts (by simp [texts]) htexts
    (.inl ⟨[], "ReTurn".toList, ['\t'], [], by decide, by decide +kernel, by simp, rfl⟩)
  have hgrouped := hreturn ⟨1, " return((\"a)\\\"(\"), Error(\",\") )".toList⟩ texts (by simp [texts]) htexts
    (.inr ⟨[' '], "return".toList, [], [], by decide, by decide +kernel, by simp, rfl⟩)
  have hbreak := hbare ⟨1, "BREAK ".toList⟩ .breakStatement .breakLoop rfl
    ⟨[], "BREAK".toList, [], [' '], by decide, by decide +kernel, by simp, rfl⟩
  rw [hplain.1] at hplain
  rw [hgrouped.1] at hgrouped
  rw [hbreak.1] at hbreak
  exact ⟨hplain.2, hgrouped.2, hbreak.2⟩

end Expr

end ScriptMachine
