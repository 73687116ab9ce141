import ScriptMachine.Proofs.Continuing
import ScriptMachine.Proofs.Recasing
import ScriptMachine.Proofs.Translating

/-!
# What the literals of a text say

A compiled text says what its string literals stand for, character by character.  Blanks for the tabs
outside of literals make no difference to the term that a text is read as.  Blanks for all tabs change
what is said exactly if a tab stands in a literal, and then the code is another one.

Main results:

- {lit}`Source.said`: the characters that the literals of a text stand for.
- {lit}`Written.spaced`: tabs outside of literals may be blanks.
- {lit}`Expr.said_of_codeOf`: a compiled text says what its literals stand for.
- {lit}`Expr.codeOf_blanked_iff`: whether blanks for tabs leave the code as it is.
-/

namespace ScriptMachine

open Source Text

/-! ## Scanning literals -/

namespace Source

/-- The character of a string literal that is given by a character, if there is one. -/
def Quoting.speaks (quoting : Quoting) (c : Char) : List Char :=
  match quoting with
  | .outside => []
  | .inside => if c = '"' ∨ c = '\\' then [] else [c]
  | .escape => [Literal.unescape c]

/-- The characters that string literals stand for, scanned from a quoting. -/
def saidFrom (quoting : Quoting) : List Char → List Char
  | [] => []
  | c :: rest => quoting.speaks c ++ saidFrom (quoting.next c) rest

/-- The characters that the string literals of a text stand for. -/
def said (s : List Char) : List Char :=
  saidFrom .outside s

/-- A blank for a tab. -/
def blank (c : Char) : Char :=
  if c = '\t' then ' ' else c

/-- The text with blanks for its tabs. -/
def blanked (s : List Char) : List Char :=
  s.map blank

/-- The text with blanks for its tabs outside of string literals, scanned from a quoting. -/
def spacedFrom (quoting : Quoting) : List Char → List Char
  | [] => []
  | c :: rest => (if quoting = .outside then blank c else c) :: spacedFrom (quoting.next c) rest

/-- The text with blanks for its tabs outside of string literals. -/
def spaced (s : List Char) : List Char :=
  spacedFrom .outside s

/-! ### Texts in parts -/

section Parts

variable (quoting : Quoting) (s t : List Char)

@[simp] theorem saidFrom_append :
    saidFrom quoting (s ++ t) = saidFrom quoting s ++ saidFrom (quoting.after s) t := by
  induction s generalizing quoting with
  | nil => rfl
  | cons c rest ih => simp [saidFrom, ih, Quoting.after]

@[simp] theorem spacedFrom_append :
    spacedFrom quoting (s ++ t) = spacedFrom quoting s ++ spacedFrom (quoting.after s) t := by
  induction s generalizing quoting with
  | nil => rfl
  | cons c rest ih => simp [spacedFrom, ih, Quoting.after]

@[simp] theorem quotedFrom_append :
    quotedFrom quoting (s ++ t) = quotedFrom quoting s ++ quotedFrom (quoting.after s) t := by
  induction s generalizing quoting with
  | nil => rfl
  | cons c rest ih =>
    simp only [List.cons_append, quotedFrom, ih, Quoting.after, List.foldl_cons]
    split <;> rfl

end Parts

@[simp] theorem blanked_append (s t : List Char) : blanked (s ++ t) = blanked s ++ blanked t := by
  simp [blanked]

/-! ### Blanks for tabs -/

/-- A blank for a tab leads to where the tab leads. -/
@[simp] theorem next_blank (quoting : Quoting) (c : Char) :
    quoting.next (blank c) = quoting.next c := by
  unfold blank
  split
  · next h =>
    subst h
    cases quoting <;> rfl
  · rfl

/-- Blanks for tabs end where the tabs end. -/
@[simp] theorem after_blanked (quoting : Quoting) (s : List Char) :
    quoting.after (blanked s) = quoting.after s := by
  induction s generalizing quoting with
  | nil => rfl
  | cons c rest ih =>
    show (quoting.next (blank c)).after (blanked rest) = (quoting.next c).after rest
    rw [next_blank, ih]

/-- A character is blank exactly if it is with a blank for a tab. -/
@[simp] theorem isBlank_blank (c : Char) : isBlank (blank c) = isBlank c := by
  unfold blank
  split
  · next h =>
    subst h
    rfl
  · rfl

/-- A blank is no tab. -/
theorem blank_eq_iff (c : Char) : blank c = c ↔ c ≠ '\t' := by
  by_cases h : c = '\t'
  · simp [blank, h]
  · simp [blank, h]

/-- A blank for a tab gives another character exactly in literals. -/
theorem speaks_blank_iff (quoting : Quoting) (c : Char) :
    quoting.speaks (blank c) = quoting.speaks c ↔ quoting = .outside ∨ c ≠ '\t' := by
  by_cases h : c = '\t'
  · subst h
    cases quoting <;> decide
  · rw [(blank_eq_iff c).2 h]
    simp [h]

/-- A blank for a tab gives as many characters. -/
theorem length_speaks_blank (quoting : Quoting) (c : Char) :
    (quoting.speaks (blank c)).length = (quoting.speaks c).length := by
  by_cases h : c = '\t'
  · subst h
    cases quoting <;> rfl
  · rw [(blank_eq_iff c).2 h]

/-- Blanks for tabs change what is said exactly if there are tabs in literals. -/
theorem saidFrom_blanked_iff (quoting : Quoting) (s : List Char) :
    saidFrom quoting (blanked s) = saidFrom quoting s ↔ '\t' ∉ quotedFrom quoting s := by
  induction s generalizing quoting with
  | nil => simp [blanked, saidFrom, quotedFrom]
  | cons c rest ih =>
    have hboth : saidFrom quoting (blanked (c :: rest)) = saidFrom quoting (c :: rest) ↔
        (quoting = .outside ∨ c ≠ '\t') ∧ '\t' ∉ quotedFrom (quoting.next c) rest := by
      rw [← speaks_blank_iff, ← ih (quoting.next c), saidFrom, blanked, List.map_cons, saidFrom,
        next_blank]
      constructor
      · intro h
        exact List.append_inj h (length_speaks_blank quoting c)
      · rintro ⟨hfirst, hrest⟩
        rw [hfirst]
        exact congrArg _ hrest
    rw [hboth, quotedFrom]
    split
    · next houtside => simp [houtside]
    · next hinside => simp [hinside, eq_comm]

/-- Where no tab stands in a literal, all tabs stand outside of them. -/
theorem spacedFrom_eq_blanked {quoting : Quoting} {s : List Char} (h : '\t' ∉ quotedFrom quoting s) :
    spacedFrom quoting s = blanked s := by
  induction s generalizing quoting with
  | nil => rfl
  | cons c rest ih =>
    rw [quotedFrom] at h
    rw [spacedFrom, blanked, List.map_cons]
    split at h
    · next houtside =>
      rw [if_pos houtside, ih h]
      rfl
    · next hinside =>
      rw [List.mem_cons, not_or] at h
      rw [if_neg hinside, ih h.2, (blank_eq_iff c).2 (Ne.symm h.1)]
      rfl

/-! ### Texts that end outside of literals -/

/-- A text without comments that ends outside of literals, and what its literals say. -/
structure Speaks (s : List Char) (said : List Char) : Prop where
  after : Quoting.outside.after s = .outside
  comment : hasComment .outside s = false
  said : Source.said s = said

/-- Such texts in a row. -/
theorem Speaks.append {s t a b : List Char} (hs : Speaks s a) (ht : Speaks t b) :
    Speaks (s ++ t) (a ++ b) := by
  constructor
  · rw [Quoting.after_append, hs.after, ht.after]
  · rw [hasComment_append, hs.comment, hs.after, ht.comment]
    rfl
  · rw [Source.said, saidFrom_append, hs.after]
    show Source.said s ++ Source.said t = a ++ b
    rw [hs.said, ht.said]

/-- Neither quotes nor semicolons. -/
def IsBare (s : List Char) : Prop :=
  ∀ c ∈ s, c ≠ '"' ∧ c ≠ ';'

theorem isBare_cons {c : Char} {s : List Char} : IsBare (c :: s) ↔ (c ≠ '"' ∧ c ≠ ';') ∧ IsBare s :=
  List.forall_mem_cons

theorem isBare_append {s t : List Char} : IsBare (s ++ t) ↔ IsBare s ∧ IsBare t :=
  List.forall_mem_append

theorem isBare_nil : IsBare [] :=
  List.forall_mem_nil _

section Bare

variable {s : List Char}

/-- Without quotes, the scan stays outside of literals. -/
theorem IsBare.speaks (h : IsBare s) : Speaks s [] := by
  induction s with
  | nil => exact ⟨rfl, rfl, rfl⟩
  | cons c rest ih =>
    rcases ih fun d hd => h d (by simp [hd]) with ⟨hafter, hcomment, hsaid⟩
    rcases h c (by simp) with ⟨hquote, hmarker⟩
    have hnext : Quoting.outside.next c = .outside := by simp [Quoting.next, hquote]
    constructor
    · show (Quoting.outside.next c).after rest = .outside
      rw [hnext, hafter]
    · simp [hasComment, hnext, hcomment, hmarker]
    · rw [Source.said, saidFrom, hnext]
      exact hsaid

/-- A bare text in front says nothing. -/
theorem Speaks.bare_append {t said : List Char} (ht : Speaks t said) (h : IsBare s) :
    Speaks (s ++ t) said :=
  h.speaks.append ht

/-- A bare text behind says nothing. -/
theorem Speaks.append_bare {t said : List Char} (ht : Speaks t said) (h : IsBare s) :
    Speaks (t ++ s) said := by
  have hboth := ht.append h.speaks
  rwa [List.append_nil] at hboth

/-- Without quotes, nothing is quoted. -/
theorem IsBare.quoted_append (h : IsBare s) (t : List Char) : quoted (s ++ t) = quoted t := by
  have hnone : quotedFrom .outside s = [] := by
    induction s with
    | nil => rfl
    | cons c rest ih =>
      have hnext : Quoting.outside.next c = .outside := by simp [Quoting.next, (h c (by simp)).1]
      rw [quotedFrom, if_pos rfl, hnext]
      exact ih fun d hd => h d (by simp [hd])
  rw [quoted, quotedFrom_append, hnone, h.speaks.after]
  rfl

/-- Without quotes, nothing is said. -/
theorem IsBare.said_append (h : IsBare s) (t : List Char) : said (s ++ t) = said t := by
  rw [said, saidFrom_append, h.speaks.after]
  show said s ++ said t = said t
  rw [h.speaks.said, List.nil_append]

/-- Blanks for tabs bring no quotes. -/
theorem isBare_blanked (h : IsBare s) : IsBare (blanked s) := by
  intro c hc
  rcases List.mem_map.1 hc with ⟨d, hd, rfl⟩
  unfold blank
  split
  · decide
  · exact h d hd

/-- Without quotes, every tab stands outside of literals. -/
theorem IsBare.spaced_eq (h : IsBare s) : spaced s = blanked s := by
  apply spacedFrom_eq_blanked
  have hnone := h.quoted_append []
  rw [List.append_nil] at hnone
  rw [show quotedFrom .outside s = [] from hnone]
  exact List.not_mem_nil

/-- Blanks are neither quotes nor semicolons. -/
theorem isBare_of_isBlank (h : ∀ c ∈ s, isBlank c = true) : IsBare s := by
  intro c hc
  have hblank := h c hc
  constructor <;> (rintro rfl; revert hblank; decide)

/-- Blanks stay blanks without tabs. -/
theorem isBlank_blanked (h : ∀ c ∈ s, isBlank c = true) : ∀ c ∈ blanked s, isBlank c = true := by
  intro c hc
  rcases List.mem_map.1 hc with ⟨d, hd, rfl⟩
  rw [isBlank_blank]
  exact h d hd

end Bare

/-- A character that is neither blank nor a quote nor a semicolon. -/
def isSolid (c : Char) : Bool :=
  !isBlank c && c != '"' && c != ';'

/-- Such characters in a row. -/
def IsSolid (s : List Char) : Prop :=
  s ≠ [] ∧ ∀ c ∈ s, isSolid c = true

section Solid

variable {s : List Char}

/-- A solid text holds no blanks. -/
theorem IsSolid.isBlank (h : IsSolid s) : ∀ c ∈ s, isBlank c = false := by
  intro c hc
  have hsolid := h.2 c hc
  simp only [isSolid, Bool.and_eq_true, Bool.not_eq_true'] at hsolid
  exact hsolid.1.1

/-- A solid text holds neither quotes nor semicolons. -/
theorem IsSolid.isBare (h : IsSolid s) : IsBare s := by
  intro c hc
  have hsolid := h.2 c hc
  simp only [isSolid, Bool.and_eq_true, bne_iff_ne] at hsolid
  exact ⟨hsolid.1.2, hsolid.2⟩

/-- A solid text has no tabs. -/
theorem IsSolid.blanked_eq (h : IsSolid s) : blanked s = s := by
  have hsame : s.map blank = s.map id := by
    apply List.map_congr_left
    intro c hc
    rw [(blank_eq_iff c).2, id]
    rintro rfl
    exact absurd (h.isBlank _ hc) (by decide)
  rw [blanked, hsame, List.map_id]

/-- A solid text is left as it is. -/
theorem IsSolid.spaced_eq (h : IsSolid s) : spaced s = s := by
  rw [h.isBare.spaced_eq, h.blanked_eq]

end Solid

/-- Texts in a row, one for each item. -/
theorem speaks_flatMap {α : Type} {text said : α → List Char} {items : List α}
    (h : ∀ item ∈ items, Speaks (text item) (said item)) :
    Speaks (items.flatMap text) (items.flatMap said) := by
  induction items with
  | nil => exact IsBare.speaks (List.forall_mem_nil _)
  | cons first rest ih =>
    exact (h first (by simp)).append (ih fun item hitem => h item (by simp [hitem]))

end Source

/-! ## What terms and code say -/

mutual

/-- The characters of the texts in a term, in the order of writing. -/
def Term.said : Term → List Char
  | .text s => s.toList
  | .number _ | .reference _ | .name _ => []
  | .index target position => target.said ++ position.said
  | .unary _ operand => operand.said
  | .binary _ left right => left.said ++ right.said
  | .assign _ positions _ value => Term.allSaid positions ++ value.said
  | .call _ arguments => Term.allSaid arguments

/-- The characters of the texts in some terms. -/
def Term.allSaid : List Term → List Char
  | [] => []
  | first :: rest => first.said ++ Term.allSaid rest

end

mutual

/-- The characters of the texts in an expression, in the order of writing. -/
def Expr.said : Expr → List Char
  | .text s => s.toList
  | .number _ | .reference _ | .slot _ | .global _ => []
  | .index target position => target.said ++ position.said
  | .unary _ operand => operand.said
  | .binary _ left right => left.said ++ right.said
  | .assignSlot _ _ value | .assignGlobal _ _ value => value.said
  | .assignElement base position _ value => base.said ++ (position.said ++ value.said)
  | .call _ arguments => Expr.allSaid arguments

/-- The characters of the texts in some expressions. -/
def Expr.allSaid : List Expr → List Char
  | [] => []
  | first :: rest => first.said ++ Expr.allSaid rest

end

/-- What some terms say, in a row. -/
theorem Term.allSaid_eq (terms : List Term) : Term.allSaid terms = terms.flatMap Term.said := by
  induction terms with
  | nil => simp [Term.allSaid]
  | cons first rest ih => simp [Term.allSaid, ih]

namespace Expr

/-- A sign says nothing. -/
theorem said_signed (op : UnaryOp) (e : Expr) : (signed op e).said = e.said := by
  cases op <;> cases e <;> simp [signed, said]

/-- An assignment to an element says what leads to it, and the value. -/
theorem said_storedAt (op : AssignOp) (value base position : Expr) (others : List Expr) :
    (storedAt op value base position others).said =
      base.said ++ (allSaid (position :: others) ++ value.said) := by
  induction others generalizing base position with
  | nil => simp [storedAt, said, allSaid]
  | cons next rest ih => simp [storedAt, ih, said, allSaid]

end Expr

/-- A name says nothing. -/
theorem Scope.said_named (scope : Scope) (name : String) : (scope.named name).said = [] := by
  rcases scope.named_cases name with ⟨slot, h⟩ | ⟨key, h⟩ <;> simp [h, Expr.said]

/-- An assignment says the indices and the value. -/
theorem Scope.said_stored (scope : Scope) (name : String) (op : AssignOp) (value : Expr)
    (positions : List Expr) : (Expr.stored op value (scope.named name) positions).said =
      Expr.allSaid positions ++ value.said := by
  cases positions with
  | nil =>
    rcases scope.named_cases name with ⟨slot, h⟩ | ⟨key, h⟩ <;>
      simp [h, Expr.stored, Expr.said, Expr.allSaid]
  | cons position others => rw [Expr.stored, Expr.said_storedAt, scope.said_named, List.nil_append]

mutual

/-- What a term stands for says what the term says. -/
theorem Term.said_meaning (scope : Scope) : (term : Term) → (term.meaning scope).said = term.said
  | .number _ | .text _ | .reference _ => by simp [Term.meaning, Expr.said, Term.said]
  | .name identifier => by simp [Term.meaning, Term.said, scope.said_named]
  | .index target position => by
    simp [Term.meaning, Expr.said, Term.said, Term.said_meaning scope target,
      Term.said_meaning scope position]
  | .unary op operand => by
    simp [Term.meaning, Term.said, Expr.said_signed, Term.said_meaning scope operand]
  | .binary op left right => by
    simp [Term.meaning, Expr.said, Term.said, Term.said_meaning scope left,
      Term.said_meaning scope right]
  | .assign identifier positions op value => by
    simp [Term.meaning, Term.said, scope.said_stored, Term.said_meanings scope positions,
      Term.said_meaning scope value]
  | .call identifier arguments => by
    simp [Term.meaning, Expr.said, Term.said, Term.said_meanings scope arguments]

/-- So it is with some terms. -/
theorem Term.said_meanings (scope : Scope) : (terms : List Term) →
    Expr.allSaid (Term.meanings scope terms) = Term.allSaid terms
  | [] => by simp [Term.meanings, Expr.allSaid, Term.allSaid]
  | first :: rest => by
    simp [Term.meanings, Expr.allSaid, Term.allSaid, Term.said_meaning scope first,
      Term.said_meanings scope rest]

end

/-! ## Texts of terms -/

namespace Source

/-- Solid characters behind a solid text. -/
theorem IsSolid.append {s t : List Char} (hs : IsSolid s) (ht : ∀ c ∈ t, isSolid c = true) :
    IsSolid (s ++ t) :=
  ⟨by simp [hs.1], List.forall_mem_append.2 ⟨hs.2, ht⟩⟩

end Source

/-- A character of a name is solid. -/
theorem isSolid_of_isNameChar {c : Char} (h : isNameChar c = true) : Source.isSolid c = true := by
  have hquote : c ≠ '"' := by
    rintro rfl
    cases h
  have hmarker : c ≠ ';' := by
    rintro rfl
    cases h
  simp [Source.isSolid, isBlank_of_isNameChar h, hquote, hmarker]

/-- The text of a number is solid. -/
theorem NumberText.isSolid {s : List Char} (h : NumberText s) : IsSolid s := by
  rcases h with ⟨mantissa, exponent, hmantissa, hexponent, rfl⟩
  have hdigits : ∀ {digits : List Char}, Digits digits → ∀ c ∈ digits, Source.isSolid c = true :=
    fun h c hc => isSolid_of_isNameChar (Literal.isNameChar_of_isDigit (h c hc))
  have hfront : IsSolid mantissa := by
    cases hmantissa with
    | whole h hne => exact ⟨hne, hdigits h⟩
    | point hwhole hfraction hne =>
      refine ⟨by simp, List.forall_mem_append.2 ⟨hdigits hwhole, ?_⟩⟩
      exact List.forall_mem_cons.2 ⟨by decide, hdigits hfraction⟩
  apply hfront.append
  cases hexponent with
  | none => exact List.forall_mem_nil _
  | marked hmark hsign h hne =>
    refine List.forall_mem_cons.2 ⟨?_, List.forall_mem_append.2 ⟨?_, hdigits h⟩⟩
    · rcases hmark with rfl | rfl <;> decide
    · rcases hsign with rfl | rfl | rfl <;> decide

/-- A hexadecimal digit may stand in a name. -/
theorem isNameChar_of_isHexDigit {c : Char} (h : Literal.isHexDigit c = true) :
    isNameChar c = true := by
  simp only [Literal.isHexDigit, Bool.or_eq_true, Bool.and_eq_true, decide_eq_true_eq] at h
  simp only [isNameChar_eq, Bool.or_eq_true]
  rcases h with (hdigit | ⟨hlow, hhigh⟩) | ⟨hlow, hhigh⟩
  · exact .inl (.inr hdigit)
  · have hlower : c.isLower = true := Bool.and_eq_true_iff.2
      ⟨decide_eq_true hlow, decide_eq_true (UInt32.le_trans hhigh (by decide))⟩
    exact .inl (.inl (.inr hlower))
  · have hupper : c.isUpper = true := decide_eq_true ⟨hlow, UInt32.le_trans hhigh (by decide)⟩
    exact .inl (.inl (.inl hupper))

/-- An identifier is solid. -/
theorem isSolid_of_isIdentifier {s : List Char} (h : isIdentifier s = true) : IsSolid s := by
  rcases exists_cons_of_isIdentifier h with ⟨c, rest, rfl, -⟩
  exact ⟨by simp, fun d hd => isSolid_of_isNameChar (isNameChar_of_isIdentifier h d hd)⟩

/-- A reference is solid. -/
theorem isSolid_reference {digits : List Char} (h : ∀ c ∈ digits, Literal.isHexDigit c = true) :
    IsSolid ('#' :: digits) := by
  refine ⟨by simp, List.forall_mem_cons.2 ⟨by decide, fun c hc => ?_⟩⟩
  exact isSolid_of_isNameChar (isNameChar_of_isHexDigit (h c hc))

/-- The symbols of operators are solid. -/
theorem UnaryOp.isSolid_symbol (op : UnaryOp) : IsSolid op.symbol.toList := by
  cases op <;> (constructor <;> decide)

theorem BinaryOp.isSolid_symbol (op : BinaryOp) : IsSolid op.symbol.toList := by
  cases op <;> (constructor <;> decide)

theorem AssignOp.isSolid_symbol (op : AssignOp) : IsSolid op.symbol.toList := by
  cases op <;> (constructor <;> decide)

/-- Spaces and tabs are blank. -/
theorem Blanks.isBlank {s : List Char} (h : Blanks s) : ∀ c ∈ s, isBlank c = true := by
  intro c hc
  rcases h c hc with rfl | rfl <;> decide

/-- Blanks are bare. -/
theorem Blanks.isBare {s : List Char} (h : Blanks s) : IsBare s :=
  isBare_of_isBlank h.isBlank

/-- A spelling is scanned inside of a literal up to its end, and it is left as it is. -/
theorem Spelled.scan {s w : List Char} (h : Spelled s w) :
    Quoting.inside.after w = .inside ∧ hasComment .inside w = false ∧ saidFrom .inside w = s ∧
      spacedFrom .inside w = w := by
  have hcons : ∀ (quoting : Quoting) (c : Char) (w : List Char),
      quoting.after (c :: w) = (quoting.next c).after w := fun _ _ _ => rfl
  induction h with
  | nil => exact ⟨rfl, rfl, rfl, rfl⟩
  | plain hquote hslash h ih =>
    simp [hcons, Quoting.next, hasComment, saidFrom, spacedFrom, Quoting.speaks, hquote, hslash, ih]
  | quote h ih | backslash h ih | newline h ih | tab h ih =>
    simp [hcons, Quoting.next, hasComment, saidFrom, spacedFrom, Quoting.speaks, Literal.unescape, ih]
  | needless hfeed htab h ih =>
    simp [hcons, Quoting.next, hasComment, saidFrom, spacedFrom, Quoting.speaks, Literal.unescape,
      hfeed, htab, ih]

/-- A literal says what it spells. -/
theorem Spelled.speaks {s w : List Char} (h : Spelled s w) : Speaks ('"' :: (w ++ ['"'])) s := by
  rcases h.scan with ⟨hafter, hcomment, hsaid, -⟩
  constructor
  · show Quoting.inside.after (w ++ ['"']) = .outside
    rw [Quoting.after_append, hafter]
    rfl
  · show hasComment .inside (w ++ ['"']) = false
    rw [hasComment_append, hafter, hcomment]
    rfl
  · show saidFrom .inside (w ++ ['"']) = s
    rw [saidFrom_append, hafter, hsaid]
    exact List.append_nil s

namespace Padded

/-- A text between blanks says what the text says. -/
theorem speaks_written {p : Padded} (h : p.Spaced) (hp : Speaks p.text p.term.said) :
    Speaks p.written p.term.said :=
  (hp.bare_append h.before.isBare).append_bare h.after.isBare

/-- So does a text in brackets. -/
theorem speaks_bracketed {p : Padded} (h : p.Spaced) (hp : Speaks p.text p.term.said) :
    Speaks p.bracketed p.term.said := by
  have hclosed := (speaks_written h hp).append_bare (s := [']']) (by simp [isBare_cons, isBare_nil])
  exact hclosed.bare_append (s := ['[']) (by simp [isBare_cons, isBare_nil])

/-- So does a text in parentheses. -/
theorem speaks_grouped {p : Padded} (h : p.Spaced) (hp : Speaks p.text p.term.said) :
    Speaks p.grouped p.term.said := by
  have hclosed := (speaks_written h hp).append_bare (s := [')']) (by simp [isBare_cons, isBare_nil])
  exact hclosed.bare_append (s := ['(']) (by simp [isBare_cons, isBare_nil])

end Padded

/-- An index says what the term in it says. -/
theorem Position.speaks_written {p : Position} (h : p.Spaced)
    (hp : Speaks p.inside.text p.inside.term.said) : Speaks p.written p.inside.term.said :=
  (Padded.speaks_bracketed h.inside hp).bare_append h.gap.isBare

/-- The texts of a term are without comments, end outside of literals and say what the term says. -/
theorem Written.speaks {level : Level} {term : Term} {w : List Char} (h : Written level term w) :
    Speaks w term.said := by
  induction h with
  | number h =>
    rw [Term.said]
    exact h.isSolid.isBare.speaks
  | text h =>
    rw [Term.said, String.toList_ofList]
    exact h.speaks
  | reference h hne =>
    rw [Term.said]
    exact (isSolid_reference h).isBare.speaks
  | name h =>
    rw [Term.said]
    exact (isSolid_of_isIdentifier h).isBare.speaks
  | callNone h hgap hinside =>
    rw [Term.said, Term.allSaid]
    apply IsBare.speaks
    simp [isBare_append, isBare_cons, isBare_nil, (isSolid_of_isIdentifier h).isBare, hgap.isBare,
      hinside.isBare]
  | @call identifier gap first others h hgap hspaced harguments ih =>
    have hargument : ∀ argument ∈ first :: others, Speaks argument.written argument.term.said :=
      fun argument hmem => Padded.speaks_written (hspaced argument hmem) (ih argument hmem)
    have hothers : Speaks (others.flatMap fun argument => ',' :: argument.written)
        (others.flatMap fun argument => argument.term.said) :=
      speaks_flatMap fun argument hmem =>
        (hargument argument (List.mem_cons_of_mem _ hmem)).bare_append (s := [','])
          (by simp [isBare_cons, isBare_nil])
    have hclosed := ((hargument first (by simp)).append hothers).append_bare (s := [')'])
      (by simp [isBare_cons, isBare_nil])
    have hcalled := hclosed.bare_append (s := identifier.toList ++ gap ++ ['('])
      (by simp [isBare_append, isBare_cons, isBare_nil, (isSolid_of_isIdentifier h).isBare,
        hgap.isBare])
    simpa [Term.said, Term.allSaid_eq, List.flatMap_map] using hcalled
  | group hspaced h ih => exact Padded.speaks_grouped hspaced ih
  | index h hspaced hposition ih ihposition =>
    rw [Term.said]
    exact ih.append (Position.speaks_written hspaced ihposition)
  | unary op hgap h ih =>
    rw [Term.said]
    exact ih.bare_append (isBare_append.2 ⟨op.isSolid_symbol.isBare, hgap.isBare⟩)
  | binary op hleft hgap hgap' hright ihleft ihright =>
    rw [Term.said]
    have hfront := (ihleft.append_bare hgap.isBare).append_bare op.isSolid_symbol.isBare
    exact (hfront.append_bare hgap'.isBare).append ihright
  | @assign op identifier positions value gap gap' v h hspaced hpositions hgap hgap' hvalue ihpositions
      ihvalue =>
    have hindices : Speaks (positions.flatMap Position.written)
        (positions.flatMap fun position => position.inside.term.said) :=
      speaks_flatMap fun position hmem =>
        Position.speaks_written (hspaced position hmem) (ihpositions position hmem)
    have htarget := hindices.bare_append (isSolid_of_isIdentifier h).isBare
    have hfront := (htarget.append_bare hgap.isBare).append_bare op.isSolid_symbol.isBare
    have hassigned := (hfront.append_bare hgap'.isBare).append ihvalue
    simpa [Term.said, Term.allSaid_eq, List.flatMap_map] using hassigned
  | tighter h ih => exact ih

/-! ## Tabs between the parts of a term -/

namespace Source

/-- A text that ends outside of literals, and the text with blanks for its tabs outside of them. -/
structure SpacedTo (s t : List Char) : Prop where
  after : Quoting.outside.after s = .outside
  eq : spaced s = t

/-- Such texts in a row. -/
theorem SpacedTo.append {s t s' t' : List Char} (h : SpacedTo s t) (h' : SpacedTo s' t') :
    SpacedTo (s ++ s') (t ++ t') := by
  constructor
  · rw [Quoting.after_append, h.after, h'.after]
  · rw [spaced, spacedFrom_append, h.after]
    show spaced s ++ spaced s' = t ++ t'
    rw [h.eq, h'.eq]

/-- Such texts in a row, one for each item. -/
theorem spacedTo_flatMap {α : Type} {before after : α → List Char} {items : List α}
    (h : ∀ item ∈ items, SpacedTo (before item) (after item)) :
    SpacedTo (items.flatMap before) (items.flatMap after) := by
  induction items with
  | nil => exact ⟨rfl, rfl⟩
  | cons first rest ih =>
    exact (h first (by simp)).append (ih fun item hitem => h item (by simp [hitem]))

/-- All tabs of a bare text stand outside of literals. -/
theorem IsBare.spacedTo {s : List Char} (h : IsBare s) : SpacedTo s (blanked s) :=
  ⟨h.speaks.after, h.spaced_eq⟩

/-- A solid text stays as it is. -/
theorem IsSolid.spacedTo {s : List Char} (h : IsSolid s) : SpacedTo s s :=
  ⟨h.isBare.speaks.after, h.spaced_eq⟩

/-- A single character that is solid stays as it is. -/
theorem spacedTo_char {c : Char} (h : isSolid c = true) : SpacedTo [c] [c] :=
  IsSolid.spacedTo ⟨by simp, by simpa using h⟩

/-- So it is in front of a text. -/
theorem SpacedTo.cons {c : Char} {s t : List Char} (h : SpacedTo s t) (hc : isSolid c = true) :
    SpacedTo (c :: s) (c :: t) :=
  (spacedTo_char hc).append h

end Source

/-- Blanks stay blanks. -/
theorem Blanks.blanked {s : List Char} (h : Blanks s) : Blanks (Source.blanked s) := by
  intro c hc
  rcases List.mem_map.1 hc with ⟨d, hd, rfl⟩
  rcases h d hd with rfl | rfl <;> exact .inl rfl

namespace Padded

/-- The text with blanks for the tabs that stand outside of literals. -/
def spaced (p : Padded) : Padded :=
  ⟨blanked p.before, p.term, Source.spaced p.text, blanked p.after⟩

theorem Spaced.spaced {p : Padded} (h : p.Spaced) : p.spaced.Spaced :=
  ⟨h.before.blanked, h.after.blanked⟩

/-- A text between blanks turns into one between blanks. -/
theorem spacedTo_written {p : Padded} (h : p.Spaced) (hp : Written .expression p.term p.text) :
    SpacedTo p.written p.spaced.written :=
  (h.before.isBare.spacedTo.append ⟨hp.speaks.after, rfl⟩).append h.after.isBare.spacedTo

end Padded

namespace Position

/-- The index with blanks for the tabs that stand outside of literals. -/
def spaced (p : Position) : Position :=
  ⟨blanked p.gap, p.inside.spaced⟩

theorem Spaced.spaced {p : Position} (h : p.Spaced) : p.spaced.Spaced :=
  ⟨h.gap.blanked, h.inside.spaced⟩

/-- An index turns into an index. -/
theorem spacedTo_written {p : Position} (h : p.Spaced)
    (hp : Written .expression p.inside.term p.inside.text) : SpacedTo p.written p.spaced.written := by
  have hclosed := (Padded.spacedTo_written h.inside hp).append (spacedTo_char (c := ']') (by decide))
  exact h.gap.isBare.spacedTo.append (hclosed.cons (c := '[') (by decide))

end Position

/-- Blanks for the tabs between the parts of a text make a text of the same term. -/
theorem Written.spaced {level : Level} {term : Term} {w : List Char} (h : Written level term w) :
    Written level term (Source.spaced w) := by
  induction h with
  | number h =>
    rw [h.isSolid.spaced_eq]
    exact .number h
  | @text s w h =>
    have htext : Source.spaced ('"' :: (w ++ ['"'])) = '"' :: (w ++ ['"']) := by
      show '"' :: spacedFrom .inside (w ++ ['"']) = _
      rw [spacedFrom_append, h.scan.2.2.2, h.scan.1]
      rfl
    rw [htext]
    exact .text h
  | reference h hne =>
    rw [(isSolid_reference h).spaced_eq]
    exact .reference h hne
  | name h =>
    rw [(isSolid_of_isIdentifier h).spaced_eq]
    exact .name h
  | callNone h hgap hinside =>
    have hname := (isSolid_of_isIdentifier h).spacedTo
    have hclosed := hinside.isBare.spacedTo.append (spacedTo_char (c := ')') (by decide))
    have hlist := hclosed.cons (c := '(') (by decide)
    rw [((hname.append hgap.isBare.spacedTo).append hlist).eq]
    exact .callNone h hgap.blanked hinside.blanked
  | @call identifier gap first others h hgap hspaced harguments ih =>
    have hargument : ∀ argument ∈ first :: others, SpacedTo argument.written argument.spaced.written :=
      fun argument hmem => Padded.spacedTo_written (hspaced argument hmem) (harguments argument hmem)
    have hname := (isSolid_of_isIdentifier h).spacedTo
    have hothers := spacedTo_flatMap fun argument hmem =>
      (hargument argument (List.mem_cons_of_mem first hmem)).cons (c := ',') (by decide)
    have hclosed := ((hargument first (by simp)).append hothers).append
      (spacedTo_char (c := ')') (by decide))
    have hlist := hclosed.cons (c := '(') (by decide)
    have hcall := @Written.call _ _ first.spaced (others.map Padded.spaced) h hgap.blanked
      (List.forall_mem_map.2 fun argument hmem => (hspaced argument hmem).spaced)
      (List.forall_mem_map.2 fun argument hmem => ih argument hmem)
    rw [← List.map_cons, List.map_map, List.flatMap_map] at hcall
    rw [← ((hname.append hgap.isBare.spacedTo).append hlist).eq] at hcall
    exact hcall
  | @group inside hspaced h ih =>
    have hclosed := (Padded.spacedTo_written hspaced h).append (spacedTo_char (c := ')') (by decide))
    rw [Padded.grouped, (hclosed.cons (c := '(') (by decide)).eq]
    exact @Written.group inside.spaced hspaced.spaced ih
  | index h hspaced hposition ih ihposition =>
    rw [(SpacedTo.append ⟨h.speaks.after, rfl⟩ (Position.spacedTo_written hspaced hposition)).eq]
    exact .index ih hspaced.spaced ihposition
  | unary op hgap h ih =>
    rw [((op.isSolid_symbol.spacedTo.append hgap.isBare.spacedTo).append ⟨h.speaks.after, rfl⟩).eq]
    exact .unary op hgap.blanked ih
  | binary op hleft hgap hgap' hright ihleft ihright =>
    have hfront := (SpacedTo.append ⟨hleft.speaks.after, rfl⟩ hgap.isBare.spacedTo).append
      op.isSolid_symbol.spacedTo
    rw [((hfront.append hgap'.isBare.spacedTo).append ⟨hright.speaks.after, rfl⟩).eq]
    exact .binary op ihleft hgap.blanked hgap'.blanked ihright
  | @assign op identifier positions value gap gap' v h hspaced hpositions hgap hgap' hvalue ihpositions
      ihvalue =>
    have hindices := spacedTo_flatMap fun position hmem =>
      Position.spacedTo_written (hspaced position hmem) (hpositions position hmem)
    have hfront := (((isSolid_of_isIdentifier h).spacedTo.append hindices).append
      hgap.isBare.spacedTo).append op.isSolid_symbol.spacedTo
    have hassign := @Written.assign op _ (positions.map Position.spaced) _ _ _ _ h
      (List.forall_mem_map.2 fun position hmem => (hspaced position hmem).spaced)
      (List.forall_mem_map.2 fun position hmem => ihpositions position hmem)
      hgap.blanked hgap'.blanked ihvalue
    rw [List.map_map, List.flatMap_map] at hassign
    rw [← ((hfront.append hgap'.isBare.spacedTo).append ⟨hvalue.speaks.after, rfl⟩).eq] at hassign
    exact hassign
  | tighter h ih => exact .tighter ih

/-! ## Blanks around a term -/

/-- A solid text ends in a character that is not blank. -/
theorem Source.IsSolid.exists_concat {s : List Char} (h : IsSolid s) :
    ∃ front c, s = front ++ [c] ∧ Text.isBlank c = false := by
  rcases List.eq_nil_or_concat s with rfl | ⟨front, c, rfl⟩
  · exact absurd rfl h.1
  · rw [List.concat_eq_append] at h ⊢
    exact ⟨front, c, rfl, h.isBlank c (by simp)⟩

/-- The texts of a term end in a character that is not blank. -/
theorem Written.exists_concat {level : Level} {term : Term} {w : List Char} (h : Written level term w) :
    ∃ front c, w = front ++ [c] ∧ isBlank c = false := by
  have hbehind : ∀ {first second : List Char}, (∃ front c, second = front ++ [c] ∧ isBlank c = false) →
      ∃ front c, first ++ second = front ++ [c] ∧ isBlank c = false := by
    rintro first second ⟨front, c, rfl, hc⟩
    exact ⟨first ++ front, c, by simp, hc⟩
  induction h with
  | number h => exact h.isSolid.exists_concat
  | text h => exact ⟨_ :: _, '"', rfl, by decide⟩
  | reference h hne => exact (isSolid_reference h).exists_concat
  | name h => exact (isSolid_of_isIdentifier h).exists_concat
  | callNone h hgap hinside => exact hbehind ⟨_ :: _, ')', rfl, by decide⟩
  | call h hgap hspaced harguments ih => exact hbehind ⟨_ :: _, ')', rfl, by decide⟩
  | group hspaced h ih => exact ⟨_ :: _, ')', rfl, by decide⟩
  | @index target w position h hspaced hposition ih ihposition =>
    apply hbehind
    exact @hbehind position.gap _ ⟨_ :: _, ']', rfl, by decide⟩
  | unary op hgap h ih => exact hbehind ih
  | binary op hleft hgap hgap' hright ihleft ihright => exact hbehind ihright
  | assign op h hspaced hpositions hgap hgap' hvalue ihpositions ihvalue => exact hbehind ihvalue
  | tighter h ih => exact ih

namespace Spread

variable {level : Level} {term : Term} {s : List Char}

/-- What is trimmed off a text between blanks are the blanks. -/
theorem exists_blanks (h : Spread level term s) : ∃ before after, Blanks before ∧ Blanks after ∧
    s = before ++ trim s ++ after ∧ Written level term (trim s) := by
  rcases h with ⟨before, w, after, hbefore, hw, hafter, rfl⟩
  have htrim : trim (before ++ w ++ after) = w := by
    rcases hw.exists_cons with ⟨c, rest, hcons, hbegins⟩
    rcases hw.exists_concat with ⟨front, d, hconcat, hd⟩
    have hstart : trimStart (before ++ w ++ after) = w ++ after := by
      rw [List.append_assoc, hcons, List.cons_append]
      exact trimStart_append hbefore.isBlank (isBlank_of_begins hbegins)
    rw [trim, hstart, hconcat, List.append_assoc, List.singleton_append, trimEnd_append after hd,
      (trimEnd_nil_iff after).2 hafter.isBlank]
  rw [htrim]
  exact ⟨before, after, hbefore, hafter, rfl, hw⟩

/-- A text between blanks says what the term says. -/
theorem speaks (h : Spread level term s) : Speaks s term.said := by
  rcases h with ⟨before, w, after, hbefore, hw, hafter, rfl⟩
  exact (hw.speaks.bare_append hbefore.isBare).append_bare hafter.isBare

/-- Blanks around a term say nothing. -/
theorem said_trim (h : Spread level term s) : said (trim s) = said s := by
  rcases h.exists_blanks with ⟨-, -, -, -, -, hw⟩
  rw [hw.speaks.said, h.speaks.said]

/-- Blanks around a term are no part of its literals. -/
theorem quoted_trim (h : Spread level term s) : quoted (trim s) = quoted s := by
  rcases h.exists_blanks with ⟨before, after, hbefore, hafter, hs, hw⟩
  have hlast := hafter.isBare.quoted_append []
  rw [List.append_nil] at hlast
  have hboth : quoted (trim s ++ after) = quoted (trim s) := by
    rw [quoted, quotedFrom_append, hw.speaks.after]
    show quoted (trim s) ++ quoted after = quoted (trim s)
    rw [hlast]
    exact List.append_nil _
  have hall : quoted s = quoted (before ++ trim s ++ after) := congrArg quoted hs
  rw [hall, List.append_assoc, hbefore.isBare.quoted_append, hboth]

/-- Blanks around a term say nothing, whether or not tabs are blanks. -/
theorem said_blanked_trim (h : Spread level term s) : said (blanked (trim s)) = said (blanked s) := by
  rcases h.exists_blanks with ⟨before, after, hbefore, hafter, hs, hw⟩
  have hlast : said (blanked (trim s) ++ blanked after) = said (blanked (trim s)) := by
    rw [said, saidFrom_append, after_blanked, hw.speaks.after]
    show said (blanked (trim s)) ++ said (blanked after) = said (blanked (trim s))
    rw [(isBare_blanked hafter.isBare).speaks.said, List.append_nil]
  have hall : said (blanked s) = said (blanked (before ++ trim s ++ after)) :=
    congrArg (fun text => said (blanked text)) hs
  rw [hall, blanked_append, blanked_append, List.append_assoc,
    (isBare_blanked hbefore.isBare).said_append, hlast]

end Spread

namespace Expr

variable {scope : Scope} {source : List Char} {term : Term}

/-- Texts of one term have the same code. -/
theorem codeOf_congr {other : List Char} (h : Term.parse source = Term.parse other) :
    codeOf scope source = codeOf scope other := by
  unfold codeOf compile
  rw [h]

/-- A compiled text says what its literals stand for. -/
theorem said_of_codeOf {code : Expr} (h : codeOf scope source = some code) :
    code.said = Source.said source := by
  rcases codeOf_eq_some_iff.1 h with ⟨term, hterm, -, rfl⟩
  rw [term.said_meaning, hterm.speaks.said]

/-- Blanks for tabs leave the code of a text as it is if no tab stands in a literal. -/
theorem codeOf_blanked (h : Spread .expression term source) (htab : '\t' ∉ quoted source) :
    codeOf scope (blanked (trim source)) = codeOf scope (trim source) := by
  rcases h.exists_blanks with ⟨-, -, -, -, -, hw⟩
  rw [← h.quoted_trim] at htab
  have hspaced : Source.spaced (trim source) = blanked (trim source) := spacedFrom_eq_blanked htab
  rw [← hspaced]
  apply codeOf_congr
  rw [Term.parse_eq_ok_iff.2 hw.spread, Term.parse_eq_ok_iff.2 hw.spaced.spread]

/-- Blanks for tabs give another code exactly if a tab stands in a literal. -/
theorem codeOf_blanked_iff (h : Spread .expression term source)
    (hsome : (codeOf scope (trim source)).isSome = true) :
    codeOf scope (blanked (trim source)) = codeOf scope (trim source) ↔ '\t' ∉ quoted source := by
  constructor
  · intro hsame
    rcases Option.isSome_iff_exists.1 hsome with ⟨code, hcode⟩
    rw [hcode] at hsame
    rw [← h.quoted_trim]
    apply (saidFrom_blanked_iff .outside (trim source)).1
    show Source.said (blanked (trim source)) = Source.said (trim source)
    rw [← said_of_codeOf hsame, ← said_of_codeOf hcode]
  · exact codeOf_blanked h

end Expr
end ScriptMachine
