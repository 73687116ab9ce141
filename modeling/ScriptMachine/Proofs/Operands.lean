import ScriptMachine.Proofs.Consuming
import ScriptMachine.Proofs.Spelling

/-!
# Operators and operands are read

A token ends where it is written to end if what follows is no part of it, and an operator is taken
for no other one if the text of a term follows.  What may follow a text of a level is decided by its
first character: it closes a nested expression or begins an operator of a looser level.  From there
on the operands are read, whose nested expressions are left to a parser that is a parameter.

Main results:

- {lit}`Level.enders` and {lit}`Stops`: what may follow a text of a level.
- {lit}`Understood`: a nested expression, with blanks around it, is read.
- {lit}`Heard`: texts of a level are read in front of what may follow them.
-/

namespace ScriptMachine

open Text Parser Grammar

/-! ## Levels and their parsers -/

namespace Level

/-- The parser of the binary operators of a level. -/
def operator : Level → Parser BinaryOp
  | .disjunction => orOp
  | .conjunction => andOp
  | .equality => eqOp
  | .comparison => cmpOp
  | .sum => addOp
  | .product => mulOp
  | _ => fail

/-- The rule of a level; operands without parentheses have none of their own. -/
def rule : Level → Rule
  | .expression => .expression
  | .disjunction => .disjunction
  | .conjunction => .conjunction
  | .equality => .equality
  | .comparison => .comparison
  | .sum => .sum
  | .product => .product
  | .unary => .unary
  | .postfixed | .primary => .postfixed

/-- The parser of a level. -/
def parser (inner : Parser Term) : Level → Parser Term
  | .expression => expressionWith inner
  | .disjunction => Grammar.disjunction inner
  | .conjunction => Grammar.conjunction inner
  | .equality => Grammar.equality inner
  | .comparison => Grammar.comparison inner
  | .sum => Grammar.sum inner
  | .product => Grammar.product inner
  | .unary => Grammar.unary inner
  | .postfixed => Grammar.postfixed inner
  | .primary => Grammar.primary inner

/-- The characters that may follow a text of a level: those that close a nested expression, and
those that begin an operator of a looser level. -/
def enders : Level → List Char
  | .expression | .disjunction => [')', ']', ',']
  | .conjunction => ['|', ')', ']', ',']
  | .equality => ['&', '|', ')', ']', ',']
  | .comparison => ['=', '!', '&', '|', ')', ']', ',']
  | .sum => ['<', '>', '=', '!', '&', '|', ')', ']', ',']
  | .product => ['+', '-', '<', '>', '=', '!', '&', '|', ')', ']', ',']
  | .unary | .postfixed => ['*', '/', '%', '+', '-', '<', '>', '=', '!', '&', '|', ')', ']', ',']
  | .primary => ['[', '*', '/', '%', '+', '-', '<', '>', '=', '!', '&', '|', ')', ']', ',']

/-- What may follow a text may follow one of a tighter level. -/
theorem mem_enders_next {level : Level} : ∀ c ∈ level.enders, c ∈ level.next.enders := by
  intro c hc
  have hall : level.enders.all level.next.enders.contains = true := by
    cases level <;> decide
  exact List.contains_iff_mem.1 (List.all_eq_true.1 hall c hc)

/-- Whatever may follow a text may follow an operand. -/
theorem mem_enders_primary {level : Level} : ∀ c ∈ level.enders, c ∈ Level.primary.enders := by
  intro c hc
  have hall : level.enders.all Level.primary.enders.contains = true := by
    cases level <;> decide
  exact List.contains_iff_mem.1 (List.all_eq_true.1 hall c hc)

/-- Nothing that may follow a text goes on with a token, begins a call or is blank. -/
theorem not_of_mem_enders {level : Level} :
    ∀ c ∈ level.enders, isNameChar c = false ∧ c ≠ '.' ∧ c ≠ '(' ∧ c ≠ ' ' ∧ c ≠ '\t' := by
  intro c hc
  have hall : level.enders.all (fun c =>
      !isNameChar c && (c != '.' && (c != '(' && (c != ' ' && c != '\t')))) = true := by
    cases level <;> decide
  simpa using List.all_eq_true.1 hall c hc

end Level

/-- A text of the level may end in front of this. -/
def Stops (level : Level) (rest : List Char) : Prop :=
  ∀ c ∈ (unblanked rest).head?, c ∈ level.enders

namespace Stops

variable {level : Level} {rest : List Char}

/-- What ends a text ends one of a tighter level. -/
theorem next (h : Stops level rest) : Stops level.next rest :=
  fun c hc => Level.mem_enders_next c (h c hc)

/-- What ends a text ends an operand. -/
theorem primary (h : Stops level rest) : Stops .primary rest :=
  fun c hc => Level.mem_enders_primary c (h c hc)

/-- Nothing but blanks follows. -/
theorem of_blanks (h : Blanks rest) : Stops level rest := by
  intro c hc
  rw [unblanked_eq_nil h] at hc
  cases hc

/-- Something that ends the text follows behind blanks. -/
theorem of_gap {gap : List Char} {c : Char} (hgap : Blanks gap) (hc : c ∈ level.enders)
    (rest : List Char) : Stops level (gap ++ c :: rest) := by
  intro d hd
  have hblank := (Level.not_of_mem_enders c hc).2.2.2
  rw [unblanked_append hgap, unblanked_cons hblank.1 hblank.2] at hd
  cases hd
  exact hc

/-- No token goes on. -/
theorem ended (h : Stops level rest) : Literal.Ended rest := by
  intro c hc
  cases rest with
  | nil => cases hc
  | cons d rest =>
    have heq : d = c := Option.some.inj hc
    subst heq
    by_cases hspace : d = ' '
    · subst hspace
      decide
    by_cases htab : d = '\t'
    · subst htab
      decide
    have hmem : d ∈ level.enders := h d (by rw [unblanked_cons hspace htab]; rfl)
    exact ⟨(Level.not_of_mem_enders d hmem).1, (Level.not_of_mem_enders d hmem).2.1⟩

end Stops

/-! ## Rejected beginnings -/

/-- A text without the given first character is not taken for one with it. -/
theorem behind?_of_head {start : List Char} {d : Char} {s : List Char}
    (h : ∀ c ∈ s.head?, d ≠ c) : behind? (d :: start) s = none := by
  cases s with
  | nil => rfl
  | cons c rest => exact behind?_cons_ne (h c rfl) start rest

/-- No symbol of a list begins with the first character of a text. -/
theorem Parser.Rejects.oneOf_of_head {α : Type} {symbols : List (String × α)} {s : List Char}
    (h : ∀ entry ∈ symbols, entry.1.toList ≠ [] ∧ ∀ c ∈ s.head?, c ∉ entry.1.toList.head?) :
    (Parser.oneOf symbols).Rejects s := by
  apply Rejects.oneOf
  intro entry hentry
  rcases h entry hentry with ⟨hne, hhead⟩
  cases hsymbol : entry.1.toList with
  | nil => exact absurd hsymbol hne
  | cons d start =>
    rw [hsymbol] at hhead
    exact behind?_of_head fun c hc heq => hhead c hc (by rw [heq]; rfl)

/-- No symbol of a list begins with one of the characters that a text may begin with. -/
theorem Parser.Rejects.oneOf_of_enders {α : Type} {symbols : List (String × α)} {enders s : List Char}
    (h : ∀ c ∈ s.head?, c ∈ enders)
    (hall : (symbols.all fun entry => entry.1.toList.head?.any fun c => !enders.contains c) = true) :
    (Parser.oneOf symbols).Rejects s := by
  refine Rejects.oneOf_of_head fun entry hentry => ?_
  have hany := List.all_eq_true.1 hall entry hentry
  rw [Option.any_eq_true] at hany
  rcases hany with ⟨d, hfirst, hoff⟩
  constructor
  · intro hnil
    rw [hnil] at hfirst
    cases hfirst
  · intro c hc hhead
    rw [hfirst] at hhead
    cases hhead
    simp [h d hc] at hoff

/-- No operator of a level begins with what may follow a text of the level. -/
theorem Level.operator_rejects {level : Level} {s : List Char}
    (h : ∀ c ∈ s.head?, c ∈ level.enders) : level.operator.Rejects s := by
  cases level <;>
    first | exact Rejects.fail s | exact (Rejects.oneOf_of_enders h (by decide)).named _

/-- Blanks apart, a bracket is all that begins an index. -/
theorem Grammar.index_rejects {inner : Parser Term} {s : List Char} (h : ∀ c ∈ s.head?, c ≠ '[') :
    (index inner).Rejects s := by
  apply Rejects.named
  apply Rejects.bind
  apply Rejects.literal
  exact behind?_of_head fun c hc heq => h c hc heq.symm

/-- A comma is all that begins a further argument. -/
theorem Grammar.furtherArgument_rejects {inner : Parser Term} {s : List Char}
    (h : ∀ c ∈ s.head?, c ≠ ',') : (furtherArgument inner).Rejects s := by
  apply Rejects.bind
  apply Rejects.literal
  exact behind?_of_head fun c hc heq => h c hc heq.symm

section Beginnings

variable {inner : Parser Term} {c : Char} {rest : List Char}

/-- Only letters and underscores begin an identifier. -/
theorem Grammar.identifier_rejects (h : isNameStart c = false) : identifier.Rejects (c :: rest) :=
  (Rejects.take (Literal.takeIdentifier_cons_of_not h rest)).named _

/-- Only an identifier begins an assignment. -/
theorem Grammar.assignment_rejects (h : isNameStart c = false) :
    (assignment inner).Rejects (c :: rest) :=
  ((((identifier_rejects h).bind _).named _).bind _).named _

/-- Only digits and a point begin a number. -/
theorem Grammar.number_rejects (h : c.isDigit = false) (hpoint : c ≠ '.') :
    number.Rejects (c :: rest) :=
  ((Rejects.take (Literal.takeNumber_cons_of_not h hpoint rest)).bind _).named _

/-- Only a quote begins a string. -/
theorem Grammar.string_rejects (h : c ≠ '"') : string.Rejects (c :: rest) :=
  ((Rejects.take (Literal.takeString_cons_of_ne h rest)).bind _).named _

/-- Only a number sign begins a reference. -/
theorem Grammar.reference_rejects (h : c ≠ '#') : reference.Rejects (c :: rest) :=
  ((Rejects.take (Literal.takeReference_cons_of_ne h rest)).bind _).named _

/-- Only an identifier begins a call. -/
theorem Grammar.call_rejects (h : isNameStart c = false) : (call inner).Rejects (c :: rest) :=
  ((identifier_rejects h).bind _).named _

/-- Only minus and exclamation marks begin a unary operator. -/
theorem Grammar.unaryOp_rejects (hminus : c ≠ '-') (hmark : c ≠ '!') : unaryOp.Rejects (c :: rest) := by
  apply Rejects.named
  apply Rejects.oneOf
  simp [behind?, hminus.symm, hmark.symm]

/-- Letters and underscores begin no number, string, reference or group. -/
theorem ne_of_isNameStart (h : isNameStart c = true) :
    c.isDigit = false ∧ c ≠ '.' ∧ c ≠ '"' ∧ c ≠ '#' ∧ c ≠ '(' ∧ c ≠ '-' ∧ c ≠ '!' ∧ c ≠ ' ' ∧
      c ≠ '\t' := by
  have hne : ∀ d, isNameStart d = false → c ≠ d := by
    rintro d hd rfl
    rw [h] at hd
    cases hd
  refine ⟨?_, hne _ rfl, hne _ rfl, hne _ rfl, hne _ rfl, hne _ rfl, hne _ rfl, hne _ rfl, hne _ rfl⟩
  rw [Bool.eq_false_iff]
  intro hdigit
  have hbetween : 48 ≤ c.toNat ∧ c.toNat ≤ 57 := by
    simpa [Char.isDigit, UInt32.le_iff_toNat_le] using hdigit
  have hdigits : ∀ k < 10, isNameStart (Char.ofNat (48 + k)) = false := by decide
  have hnot := hdigits (c.toNat - 48) (by omega)
  rw [Nat.add_sub_cancel' hbetween.1, Char.ofNat_toNat, h] at hnot
  cases hnot

/-- Operands begin with none of the unary operators, and with no blank. -/
theorem ne_of_beginsOperand (h : beginsOperand c = true) : c ≠ '-' ∧ c ≠ '!' ∧ c ≠ ' ' ∧ c ≠ '\t' := by
  refine ⟨?_, ?_, ?_, ?_⟩ <;> rintro rfl <;> cases h

/-- Terms begin with no blank and no equals sign. -/
theorem ne_of_begins {level : Level} (h : level.begins c = true) : c ≠ ' ' ∧ c ≠ '\t' ∧ c ≠ '=' := by
  refine ⟨?_, ?_, ?_⟩ <;> rintro rfl <;> cases level <;> cases h

end Beginnings

/-- The text of a term has no blanks at its front. -/
theorem Written.unblanked_append {level : Level} {term : Term} {w : List Char}
    (h : Written level term w) (rest : List Char) : unblanked (w ++ rest) = w ++ rest := by
  rcases h.exists_cons with ⟨c, others, rfl, hc⟩
  exact unblanked_cons (ne_of_begins hc).1 (ne_of_begins hc).2.1 _

/-- Behind an operator, the text of a term makes it no other operator. -/
theorem Written.head_ne {level : Level} {term : Term} {gap w : List Char} (h : Written level term w)
    (hgap : Blanks gap) (rest : List Char) : ∀ c ∈ (gap ++ w ++ rest).head?, c ≠ '=' := by
  intro c hc
  cases gap with
  | nil =>
    rcases h.exists_cons with ⟨d, others, rfl, hd⟩
    cases hc
    exact (ne_of_begins hd).2.2
  | cons d others =>
    have heq : d = c := Option.some.inj hc
    subst heq
    rcases hgap d (by simp) with rfl | rfl <;> decide

/-! ## Operators -/

/-- A binary operator is taken where no equals sign makes it another one. -/
theorem BinaryOp.operator_takes (op : BinaryOp) {rest : List Char} (h : ∀ c ∈ rest.head?, c ≠ '=') :
    op.level.operator.Takes op (op.symbol.toList ++ rest) rest := by
  have hequals : behind? ['='] rest = none := behind?_of_head fun c hc => (h c hc).symm
  have htakes : ∀ {symbols : List (String × BinaryOp)},
      symbols.find? (fun entry => (behind? entry.1.toList (op.symbol.toList ++ rest)).isSome) =
        some (op.symbol, op) → (oneOf symbols).Takes op (op.symbol.toList ++ rest) rest :=
    fun hfind => Takes.oneOf hfind rfl
  cases op <;> refine (htakes ?_).named _ <;> simp [symbol, behind?, hequals]

/-- A unary operator is taken. -/
theorem UnaryOp.takes (op : UnaryOp) (rest : List Char) :
    unaryOp.Takes op (op.symbol.toList ++ rest) rest := by
  have htakes : ∀ {symbols : List (String × UnaryOp)},
      symbols.find? (fun entry => (behind? entry.1.toList (op.symbol.toList ++ rest)).isSome) =
        some (op.symbol, op) → (oneOf symbols).Takes op (op.symbol.toList ++ rest) rest :=
    fun hfind => Takes.oneOf hfind rfl
  cases op <;> refine (htakes ?_).named _ <;> simp [symbol, behind?]

/-- An assignment operator is taken where no equals sign makes it a comparison. -/
theorem AssignOp.takes (op : AssignOp) {rest : List Char} (h : ∀ c ∈ rest.head?, c ≠ '=') :
    assignOp.Takes op (op.symbol.toList ++ rest) rest := by
  have htakes : ∀ {symbols : List (String × AssignOp)} {q : Parser AssignOp},
      symbols.find? (fun entry => (behind? entry.1.toList (op.symbol.toList ++ rest)).isSome) =
        some (op.symbol, op) → (Parser.or (oneOf symbols) q).Takes op (op.symbol.toList ++ rest) rest :=
    fun hfind => (Takes.oneOf hfind rfl).or_left
  cases op with
  | set =>
    have hset : takeSet ('=' :: rest) = some (.set, rest) := by
      cases rest with
      | nil => rfl
      | cons c others =>
        unfold takeSet
        split
        · next heq => exact absurd rfl (h '=' (by rw [(List.cons.inj heq).2]; rfl))
        · next heq => rw [(List.cons.inj heq).2]
        · next _ hother => exact absurd rfl (hother (c :: others))
    refine (Takes.or_right (Rejects.oneOf ?_) (Takes.take hset)).named _
    simp [behind?]
  | add => exact (htakes (by simp [symbol, behind?])).named _
  | subtract => exact (htakes (by simp [symbol, behind?])).named _
  | multiply => exact (htakes (by simp [symbol, behind?])).named _
  | divide => exact (htakes (by simp [symbol, behind?])).named _

/-- What ends an expression, or opens a call, is no assignment operator. -/
theorem Grammar.assignOp_rejects {s : List Char}
    (h : ∀ c ∈ s.head?, c ∈ ['(', ')', ']', ',']) : assignOp.Rejects s := by
  have hset : takeSet s = none := by
    unfold takeSet
    split
    · rfl
    · exact absurd (h '=' rfl) (by decide)
    · rfl
  exact (Rejects.or (Rejects.oneOf_of_enders h (by decide)) (Rejects.take hset)).named _

/-- A binary operator in front of a term is no assignment operator. -/
theorem BinaryOp.assignOp_rejects (op : BinaryOp) {rest : List Char} (h : ∀ c ∈ rest.head?, c ≠ '=') :
    assignOp.Rejects (op.symbol.toList ++ rest) := by
  have hequals : behind? ['='] rest = none := behind?_of_head fun c hc => (h c hc).symm
  refine (Rejects.or (Rejects.oneOf ?_) (Rejects.take ?_)).named _
  · cases op <;> simp [symbol, behind?, hequals]
  · cases op <;> rfl

/-! ## Nested expressions -/

/-- The parser of nested expressions reads a text, whatever blanks are around it. -/
structure Understood (inner : Parser Term) (p : Padded) : Prop where
  spaced : p.Spaced
  front : ∀ rest, unblanked (p.text ++ rest) = p.text ++ rest
  reads : ∀ rest, Stops .expression rest → inner.Reads p.term (p.text ++ rest) rest

namespace Understood

variable {inner : Parser Term} {p : Padded} {position : Position} {rest : List Char}

/-- What is left of a padded text without the blanks at its front. -/
theorem unblanked_written (h : Understood inner p) (rest : List Char) :
    unblanked (p.written ++ rest) = p.text ++ (p.after ++ rest) := by
  rw [Padded.written, List.append_assoc, List.append_assoc, unblanked_append h.spaced.before, h.front]

/-- A text between parentheses or brackets is read as the term inside of them. -/
theorem enclosed (h : Understood inner p) {opener closer : String} {c : Char}
    (hcloser : closer.toList = [c]) (hc : c ∈ Level.expression.enders) {s : List Char}
    (hs : s = opener.toList ++ (p.written ++ c :: rest)) :
    (literal opener >>= fun _ => skip >>= fun _ => inner >>= fun term => skip >>= fun _ =>
      literal closer >>= fun _ => Pure.pure term : Parser Term).Reads p.term s rest := by
  have hstops : Stops .expression (p.after ++ c :: rest) := .of_gap h.spaced.after hc rest
  have hblank := (Level.not_of_mem_enders c hc).2.2.2
  have hclose : unblanked (p.after ++ c :: rest) = closer.toList ++ rest := by
    rw [unblanked_append h.spaced.after, unblanked_cons hblank.1 hblank.2, hcloser]
    rfl
  have hend : (literal closer >>= fun _ => Pure.pure p.term : Parser Term).Reads p.term
      (unblanked (p.after ++ c :: rest)) rest :=
    ((Takes.literal rest hclose).map fun _ => p.term).reads
  refine (Takes.literal _ hs).bind_reads ((Takes.skip _).bind_reads ?_)
  rw [h.unblanked_written]
  exact (h.reads _ hstops).bind_skip hend

/-- A text between parentheses is read as a group. -/
theorem group (h : Understood inner p) (rest : List Char) :
    (Grammar.group inner).Reads p.term (p.grouped ++ rest) rest :=
  h.enclosed (show ")".toList = [')'] from rfl) (by decide) (by simp [Padded.grouped])

/-- A text between brackets is read as an index. -/
theorem index (h : Understood inner p) (rest : List Char) :
    (Grammar.index inner).Reads p.term (p.bracketed ++ rest) rest :=
  (h.enclosed (show "]".toList = [']'] from rfl) (by decide) (by simp [Padded.bracketed])).named _

/-- Some more indices are read in front of others. -/
theorem repeats_cons {positions : List Term} {r : List Char} (h : Understood inner position.inside)
    (hgap : Blanks position.gap) (hrest : Repeats (Grammar.index inner) positions rest r) :
    Repeats (Grammar.index inner) (position.inside.term :: positions) (position.written ++ rest) r := by
  have hfront : unblanked (position.written ++ rest) = position.inside.bracketed ++ rest := by
    rw [Position.written, List.append_assoc, unblanked_append hgap]
    rfl
  refine .more (m := rest) ?_ ?_ hrest
  · rw [hfront]
    exact h.index rest
  · have hle := length_unblanked_le rest
    rw [hfront]
    simp only [Padded.bracketed, List.length_append, List.length_cons]
    omega

/-- The indices of a place are read, up to what ends them. -/
theorem repeats_positions {positions : List Position}
    (h : ∀ position ∈ positions, Understood inner position.inside)
    (hgap : ∀ position ∈ positions, Blanks position.gap)
    (hrest : (Grammar.index inner).Rejects (unblanked rest)) :
    Repeats (Grammar.index inner) (positions.map fun position => position.inside.term)
      (positions.flatMap Position.written ++ rest) rest := by
  induction positions with
  | nil => exact .stop hrest
  | cons position others ih =>
    have hothers := ih (fun other hother => h other (by simp [hother]))
      fun other hother => hgap other (by simp [hother])
    rw [List.flatMap_cons, List.append_assoc]
    exact (h position (by simp)).repeats_cons (hgap position (by simp)) hothers

/-- Further arguments are read, up to the closing parenthesis. -/
theorem repeats_arguments {others : List Padded} (h : ∀ other ∈ others, Understood inner other)
    {gap : List Char} (hgap : Blanks gap) : ∃ r,
      Repeats (furtherArgument inner) (others.map Padded.term)
        (gap ++ (others.flatMap (fun other => ',' :: other.written) ++ ')' :: rest)) r ∧
      unblanked r = ')' :: rest := by
  induction others generalizing gap with
  | nil =>
    have hfront : unblanked (gap ++ ')' :: rest) = ')' :: rest := by
      rw [unblanked_append hgap, unblanked_cons (by decide) (by decide)]
    refine ⟨gap ++ ')' :: rest, .stop ?_, hfront⟩
    apply furtherArgument_rejects
    show ∀ c ∈ (unblanked (gap ++ ')' :: rest)).head?, c ≠ ','
    rw [hfront]
    simp
  | cons other others ih =>
    have hother := h other (by simp)
    rcases ih (fun p hp => h p (by simp [hp])) hother.spaced.after with ⟨r, hrepeats, hleft⟩
    have hfront : unblanked (gap ++ ((other :: others).flatMap (fun other => ',' :: other.written) ++
        ')' :: rest)) = ',' :: (other.written ++
          (others.flatMap (fun other => ',' :: other.written) ++ ')' :: rest)) := by
      rw [unblanked_append hgap, List.flatMap_cons, List.append_assoc, List.cons_append,
        unblanked_cons (by decide) (by decide)]
    have hstops : Stops .expression (other.after ++
        (others.flatMap (fun other => ',' :: other.written) ++ ')' :: rest)) := by
      cases others with
      | nil => exact .of_gap hother.spaced.after (by decide) rest
      | cons next others => exact .of_gap hother.spaced.after (by decide) _
    refine ⟨r, .more ?_ ?_ hrepeats, hleft⟩
    · rw [hfront]
      refine (Takes.literal (other.written ++ _) rfl).bind_reads ((Takes.skip _).bind_reads ?_)
      rw [hother.unblanked_written]
      exact hother.reads _ hstops
    · have hle := length_unblanked_le (other.after ++
        (others.flatMap (fun other => ',' :: other.written) ++ ')' :: rest))
      rw [hfront]
      simp only [Padded.written, List.length_append, List.length_cons] at hle ⊢
      omega

end Understood

/-! ## Operands -/

section Operands

variable {inner : Parser Term} {word : String} {gap rest : List Char}

/-- An identifier is taken. -/
theorem Grammar.identifier_takes (hname : isIdentifier word.toList = true)
    (hrest : Literal.Ended rest) : identifier.Takes word (word.toList ++ rest) rest :=
  (Takes.take (Literal.takeIdentifier_append hname hrest)).named _

/-- A token ends at blanks and at whatever is no part of it. -/
theorem Literal.Ended.of_gap {c : Char} (hgap : Blanks gap) (hc : isNameChar c = false ∧ c ≠ '.')
    (rest : List Char) : Literal.Ended (gap ++ c :: rest) := by
  intro d hd
  cases gap with
  | nil =>
    cases hd
    exact hc
  | cons e others =>
    have heq : e = d := Option.some.inj hd
    subst heq
    rcases hgap e (by simp) with rfl | rfl <;> decide

/-- A name with an argument list is read as a call. -/
theorem Grammar.call_reads {given : Option (List Term)} {s : List Char}
    (hname : isIdentifier word.toList = true) (hgap : Blanks gap)
    (hgiven : (optional (arguments inner)).Reads given (unblanked s) (')' :: rest)) :
    (call inner).Reads (.call word (given.getD [])) (word.toList ++ (gap ++ '(' :: s)) rest := by
  have hopen : unblanked (gap ++ '(' :: s) = "(".toList ++ s := by
    rw [unblanked_append hgap, unblanked_cons (by decide) (by decide)]
    rfl
  have hend : unblanked (')' :: rest) = ")".toList ++ rest :=
    unblanked_cons (by decide) (by decide) rest
  have hinside : (optional (arguments inner) >>= fun given => skip >>= fun _ => literal ")" >>=
      fun _ => Pure.pure (Term.call word (given.getD [])) : Parser Term).Reads
      (.call word (given.getD [])) (unblanked s) rest :=
    hgiven.bind_skip (f := fun given => literal ")" >>= fun _ =>
      Pure.pure (Term.call word (given.getD []))) ((Takes.literal rest hend).map fun _ =>
        Term.call word (given.getD [])).reads
  refine Reads.named ((identifier_takes hname (.of_gap hgap (by decide) s)).reads.bind_skip ?_) _
  exact (Takes.literal s hopen).bind_reads ((Takes.skip s).bind_reads hinside)

/-- Arguments are read, up to the closing parenthesis. -/
theorem Grammar.arguments_reads {first : Padded} {others : List Padded}
    (h : ∀ argument ∈ first :: others, Understood inner argument) :
    (arguments inner).Reads ((first :: others).map Padded.term)
      (unblanked (first.written ++ (others.flatMap (fun argument => ',' :: argument.written) ++
        ')' :: rest))) (')' :: rest) := by
  have hfirst := h first (by simp)
  have hothers : ∀ other ∈ others, Understood inner other := fun other hother =>
    h other (by simp [hother])
  have hrest : ∃ r, Repeats (furtherArgument inner) (others.map Padded.term) (first.after ++
      (others.flatMap (fun argument => ',' :: argument.written) ++ ')' :: rest)) r ∧
        unblanked r = ')' :: rest := Understood.repeats_arguments hothers hfirst.spaced.after
  rcases hrest with ⟨r, hrepeats, hleft⟩
  have hstops : Stops .expression (first.after ++
      (others.flatMap (fun argument => ',' :: argument.written) ++ ')' :: rest)) := by
    cases others with
    | nil => exact .of_gap hfirst.spaced.after (by decide) rest
    | cons next others => exact .of_gap hfirst.spaced.after (by decide) _
  rw [hfirst.unblanked_written]
  have hmany := hrepeats.many.map (first.term :: ·)
  have hall := (hfirst.reads _ hstops).bind_skip
    (f := fun x => many (furtherArgument inner) >>= fun xs => Pure.pure (x :: xs)) hmany
  refine Reads.congr hall ?_
  rw [hleft, unblanked_cons (by decide) (by decide)]

/-- A name without an argument list is no call. -/
theorem Grammar.call_rejects_name (hname : isIdentifier word.toList = true)
    (hrest : Stops .primary rest) : (call inner).Rejects (word.toList ++ rest) := by
  refine Rejects.named ((identifier_takes hname hrest.ended).reads.bind_skip_rejects ?_) _
  apply Rejects.bind
  apply Rejects.literal
  exact behind?_of_head fun c hc heq => (Level.not_of_mem_enders c (hrest c hc)).2.2.1 heq.symm

end Operands

/-- Texts of a level in front of what may follow them are read. -/
def Heard (inner : Parser Term) (level : Level) (term : Term) (w : List Char) : Prop :=
  ∀ rest, Stops level rest → (level.parser inner).Reads term (w ++ rest) rest

section Primaries

variable {inner : Parser Term} {word : String} {gap : List Char}

/-- A number literal is read. -/
theorem Heard.number {digits : List Char} (h : NumberText digits) :
    Heard inner .primary (.number digits) digits :=
  fun _ hrest => (((Takes.take (Literal.takeNumber_append h hrest.ended)).map Term.number).named
    _).reads.or_left

/-- A string literal is read. -/
theorem Heard.text {s w : List Char} (h : Spelled s w) :
    Heard inner .primary (.text (String.ofList s)) ('"' :: (w ++ ['"'])) := by
  intro rest hrest
  have htaken : Literal.takeString ('"' :: (w ++ ['"']) ++ rest) = some (String.ofList s, rest) := by
    simp [Literal.takeString, Literal.takeQuoted_append h]
  exact .or_right (number_rejects rfl (by decide))
    (((Takes.take htaken).map Term.text).named _).reads.or_left

/-- A reference literal is read. -/
theorem Heard.reference {digits : List Char} (h : ∀ c ∈ digits, Literal.isHexDigit c = true)
    (hne : digits ≠ []) : Heard inner .primary (.reference digits) ('#' :: digits) := by
  intro rest hrest
  have htaken := Literal.takeReference_append h hne hrest.ended
  exact .or_right (number_rejects rfl (by decide)) (.or_right (string_rejects (by decide))
    (((Takes.take htaken).map Term.reference).named _).reads.or_left)

/-- What begins with a letter or an underscore is no other literal. -/
theorem Grammar.primary_reads {term : Term} {s rest : List Char}
    (hname : isIdentifier word.toList = true)
    (h : (Parser.or (call inner) (Parser.or (identifier >>= fun name => Pure.pure (.name name))
      (group inner))).Reads term (word.toList ++ s) rest) :
    (Grammar.primary inner).Reads term (word.toList ++ s) rest := by
  rcases exists_cons_of_isIdentifier hname with ⟨c, others, hcons, hstart, -⟩
  have hne := ne_of_isNameStart hstart
  rw [hcons] at h ⊢
  exact .or_right (number_rejects hne.1 hne.2.1) (.or_right (string_rejects hne.2.2.1)
    (.or_right (reference_rejects hne.2.2.2.1) h))

/-- A name is read. -/
theorem Heard.name (hname : isIdentifier word.toList = true) :
    Heard inner .primary (.name word) word.toList := fun _ hrest =>
  primary_reads hname (.or_right (call_rejects_name hname hrest)
    ((identifier_takes hname hrest.ended).map Term.name).reads.or_left)

/-- A call without arguments is read. -/
theorem Heard.callNone {inside : List Char} (hname : isIdentifier word.toList = true)
    (hgap : Blanks gap) (hinside : Blanks inside)
    (hinner : ∀ rest, inner.Rejects (')' :: rest)) :
    Heard inner .primary (.call word []) (word.toList ++ gap ++ '(' :: (inside ++ [')'])) := by
  intro rest hrest
  have hgiven : (optional (arguments inner)).Reads none (unblanked (inside ++ ')' :: rest))
      (')' :: rest) := by
    rw [unblanked_append hinside, unblanked_cons (by decide) (by decide)]
    exact (Takes.optional_none ((hinner rest).bind _)).reads
  have hcall := call_reads hname hgap hgiven
  have hread : (primary inner).Reads _ _ rest := primary_reads hname hcall.or_left
  simpa [Level.parser, List.append_assoc] using hread

/-- A call with arguments is read. -/
theorem Heard.call {first : Padded} {others : List Padded} (hname : isIdentifier word.toList = true)
    (hgap : Blanks gap) (h : ∀ argument ∈ first :: others, Understood inner argument) :
    Heard inner .primary (.call word ((first :: others).map Padded.term))
      (word.toList ++ gap ++ '(' ::
        (first.written ++ others.flatMap (fun argument => ',' :: argument.written) ++ [')'])) := by
  intro rest hrest
  have hgiven : (arguments inner).Reads ((first :: others).map Padded.term) _ (')' :: rest) :=
    arguments_reads h
  have hcall := call_reads hname hgap hgiven.optional
  have hread : (primary inner).Reads _ _ rest := primary_reads hname hcall.or_left
  simpa [Level.parser, List.append_assoc] using hread

/-- A group is read as the term in it. -/
theorem Heard.group {p : Padded} (h : Understood inner p) : Heard inner .primary p.term p.grouped := by
  intro rest hrest
  refine .or_right (number_rejects rfl (by decide)) (.or_right (string_rejects (by decide))
    (.or_right (reference_rejects (by decide)) (.or_right (call_rejects rfl) (.or_right ?_ ?_))))
  · exact (identifier_rejects rfl).bind _
  · exact h.group rest

end Primaries
end ScriptMachine
