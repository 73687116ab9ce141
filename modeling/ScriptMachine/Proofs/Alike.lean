import ScriptMachine.Proofs.Mirroring

/-!
# Lines that differ in letter case

Two lines of scripts that differ in letter case outside of string literals have the same keyword, and
tokens with the same letters.  The expressions in them have one normal form, and are cut out of both
lines or of none.

Main results:

- {lit}`Line.expression`: the part of a line that is read as an expression.
- {lit}`Line.Alike`: lines that differ in letter case only, with the same string literals.
- {lit}`Together`: two readers that stop together, or give related answers.
- {lit}`Line.Alike.behindKeyword` and {lit}`Line.Alike.fromOffset`: expressions are cut out alike.
-/

namespace ScriptMachine

open Text Source

/-! ## Expressions of lines -/

/-- Whether an expression stands right behind a keyword. -/
def Source.Keyword.headsExpression : Keyword → Bool
  | .whileLoop | .ifBlock | .elseIfBranch => true
  | keyword => !keyword.isStructural

namespace Source.Line

/-- The text of a line from one of its tokens on. -/
def fromToken (line : Line) (i : Nat) : List Char :=
  (line.tokens[i]?.bind fun token => dropBytes? token.offset (clean .everything line.text)).getD []

/-- The part of a line that is read as an expression: a declaration from the name on, the collection
of a loop over an array, what stands behind the keyword of a condition or a statement, or the whole
line. -/
def expression (line : Line) : List Char :=
  match line.keyword? with
  | some .declaration => line.fromToken 1
  | some .forEachLoop => line.fromToken 3
  | some keyword => if keyword.headsExpression then (keyword.remainder? line.text).getD [] else []
  | none => trim line.text

/-- Two lines under one number that differ in letter case only, with the same string literals. -/
structure Alike (a b : Line) : Prop where
  lower : a.lower = b.lower
  literals : quoted a.expression = quoted b.expression

/-- The tokens of a line in small letters. -/
theorem tokens_lower (line : Line) : line.lower.tokens = line.tokens.map Token.lower := by
  rw [tokens, tokens, ← tokenize_lower, ← clean_lower]
  rfl

/-- A line has the same keyword in small letters. -/
theorem keyword?_lower (line : Line) : line.lower.keyword? = line.keyword? := by
  have hkeyword := Keyword.ofTokens?_lower line.tokens
  rwa [← tokens_lower] at hkeyword

/-- The expression of a line in small letters. -/
theorem expression_lower (line : Line) : line.lower.expression = Text.lower line.expression := by
  have hgetD : ∀ rest : Option (List Char),
      (rest.map Text.lower).getD [] = Text.lower (rest.getD []) := by
    intro rest
    cases rest <;> rfl
  have hfrom : ∀ i, line.lower.fromToken i = Text.lower (line.fromToken i) := by
    intro i
    rw [fromToken, fromToken, tokens_lower, List.getElem?_map, ← hgetD]
    cases line.tokens[i]? with
    | none => rfl
    | some token =>
      have hcut := dropBytes?_lower token.offset (clean .everything line.text)
      rw [← clean_lower] at hcut
      exact congrArg (·.getD []) hcut
  unfold expression
  rw [keyword?_lower]
  split
  · exact hfrom 1
  · exact hfrom 3
  · split
    · rw [← hgetD, ← Keyword.remainder?_lower]
      rfl
    · rfl
  · exact trim_lower line.text

end Source.Line

/-! ## Two readers side by side -/

/-- Two things with the same image are both there, or neither of them is. -/
theorem both_of_map_eq {α β : Type} {f : α → β} {x y : Option α} (h : x.map f = y.map f) :
    (x = none ∧ y = none) ∨ ∃ a b, x = some a ∧ y = some b ∧ f a = f b := by
  cases x with
  | none => exact .inl ⟨rfl, Option.map_eq_none_iff.1 h.symm⟩
  | some a =>
    rcases Option.map_eq_some_iff.1 h.symm with ⟨b, hb, hsame⟩
    exact .inr ⟨a, b, rfl, hb, hsame.symm⟩

section Readers

variable {α β σ τ : Type}

/-- Both readers stop with a fault, or both answer, and their answers are related. -/
inductive Together (R : α → β → Prop) : Except Fault α → Except Fault β → Prop
  | ok {x : α} {y : β} (h : R x y) : Together R (.ok x) (.ok y)
  | error (e e' : Fault) : Together R (.error e) (.error e')

namespace Together

theorem bind {R : α → β → Prop} {S : σ → τ → Prop} {a : Except Fault α} {b : Except Fault β}
    {f : α → Except Fault σ} {g : β → Except Fault τ} (h : Together R a b)
    (hnext : ∀ x y, R x y → Together S (f x) (g y)) : Together S (a >>= f) (b >>= g) := by
  cases h with
  | ok h => exact hnext _ _ h
  | error e e' => exact .error e e'

theorem map {R : α → β → Prop} {S : σ → τ → Prop} {a : Except Fault α} {b : Except Fault β}
    {f : α → σ} {g : β → τ} (h : Together R a b) (hnext : ∀ x y, R x y → S (f x) (g y)) :
    Together S (f <$> a) (g <$> b) := by
  cases h with
  | ok h => exact .ok (hnext _ _ h)
  | error e e' => exact .error e e'

/-- Texts with one normal form are given to nodes or variables. -/
theorem given {a b : Except Fault (List Char)}
    (h : Together (fun text text' => normal text = normal text') a b) :
    Together (fun (text text' : Option (List Char)) => text.map normal = text'.map normal)
      (some <$> a) (some <$> b) :=
  h.map fun _ _ => congrArg some

/-- Readers that go through lists of the same keys stay together. -/
theorem foldlM {κ : Type} {R : σ → τ → Prop} {k : α → κ} {f : σ → α → Except Fault σ}
    {g : τ → α → Except Fault τ}
    (hstep : ∀ x y a b, R x y → k a = k b → Together R (f x a) (g y b)) {as bs : List α}
    (h : as.map k = bs.map k) {x : σ} {y : τ} (hstart : R x y) :
    Together R (as.foldlM f x) (bs.foldlM g y) := by
  induction as generalizing bs x y with
  | nil =>
    cases bs with
    | nil => exact .ok hstart
    | cons b bs => cases h
  | cons a as ih =>
    cases bs with
    | nil => cases h
    | cons b bs =>
      rw [List.map_cons, List.map_cons, List.cons.injEq] at h
      rw [List.foldlM_cons, List.foldlM_cons]
      exact (hstep x y a b hstart h.1).bind fun x y hnext => ih h.2 hnext

/-- Texts that are there alike have the same normal form. -/
theorem ofOption (e e' : Fault) (s t : Option (List Char)) :
    s.map lower = t.map lower → normal (s.getD []) = normal (t.getD []) →
      Together (fun x y => normal x = normal y)
        (match s with | some text => .ok text | none => .error e)
        (match t with | some text => .ok text | none => .error e') := by
  intro hlower hsame
  rcases both_of_map_eq hlower with ⟨rfl, rfl⟩ | ⟨text, text', rfl, rfl, -⟩
  · exact .error e e'
  · exact .ok hsame

end Together
end Readers

/-! ## Pieces of lines -/

namespace Outline

/-- The call that a keyword statement stands for has a normal form like it. -/
theorem normal_commandForm (keyword : Keyword) (arguments : List Char) :
    normal (commandForm keyword arguments) = commandForm keyword (normal arguments) := by
  have hplain : '"' ∉ keyword.text.toList ∧ lower keyword.text.toList = keyword.text.toList := by
    cases keyword <;> decide
  have hgroup : isGroup (normal arguments) = isGroup arguments := by
    have hlower : lower (normal arguments) = lower arguments := lower_normalFrom .outside arguments
    rw [← isGroup_lower, hlower, isGroup_lower]
  unfold commandForm
  rw [isEmpty_normal, hgroup]
  split
  · rw [normal_append hplain.1, hplain.2]
    rfl
  · split
    · rw [normal_append hplain.1, hplain.2]
    · rw [List.append_assoc, normal_append hplain.1, hplain.2, List.cons_append,
        normal_cons (by decide), normal, normalFrom_concat, List.append_assoc]
      rfl

end Outline

namespace Source.Line.Alike

variable {a b : Line} (h : a.Alike b)

include h

theorem number : a.number = b.number := by
  have hnumber := congrArg Line.number h.lower
  exact hnumber

theorem text : Text.lower a.text = Text.lower b.text := by
  have htext := congrArg Line.text h.lower
  exact htext

theorem cleaned : Text.lower (clean .everything a.text) = Text.lower (clean .everything b.text) := by
  rw [← clean_lower, h.text, clean_lower]

theorem tokens : a.tokens.map Token.lower = b.tokens.map Token.lower := by
  rw [← tokens_lower, h.lower, tokens_lower]

theorem token (i : Nat) : a.tokens[i]?.map Token.lower = b.tokens[i]?.map Token.lower := by
  rw [← List.getElem?_map, h.tokens, List.getElem?_map]

theorem keyword? : a.keyword? = b.keyword? := by
  rw [← keyword?_lower, h.lower, keyword?_lower]

/-- The expressions of both lines have one normal form. -/
theorem expression : normal a.expression = normal b.expression := by
  have hlower : Text.lower a.expression = Text.lower b.expression := by
    rw [← expression_lower, h.lower, expression_lower]
  exact normalFrom_congr hlower h.literals

/-- Either both lines have at least four tokens, or neither of them has. -/
theorem four_or_fewer :
    (∃ keyword iterator preposition collection rest keyword' iterator' preposition' collection' rest',
      a.tokens = keyword :: iterator :: preposition :: collection :: rest ∧
        b.tokens = keyword' :: iterator' :: preposition' :: collection' :: rest' ∧
          iterator.lower = iterator'.lower ∧ preposition.lower = preposition'.lower) ∨
      ((∀ keyword iterator preposition collection rest,
        a.tokens ≠ keyword :: iterator :: preposition :: collection :: rest) ∧
        ∀ keyword iterator preposition collection rest,
          b.tokens ≠ keyword :: iterator :: preposition :: collection :: rest) := by
  have htokens := h.tokens
  have hfew : ∀ {tokens : List Token}, tokens.length < 4 →
      ∀ keyword iterator preposition collection rest,
        tokens ≠ keyword :: iterator :: preposition :: collection :: rest := by
    intro tokens hlength keyword iterator preposition collection rest heq
    simp only [heq, List.length_cons] at hlength
    omega
  have hlength := congrArg List.length htokens
  rw [List.length_map, List.length_map] at hlength
  by_cases hshort : a.tokens.length < 4
  · exact .inr ⟨hfew hshort, hfew (hlength ▸ hshort)⟩
  · have hmany : ∀ {tokens : List Token}, ¬ tokens.length < 4 →
        ∃ keyword iterator preposition collection rest,
          tokens = keyword :: iterator :: preposition :: collection :: rest := by
      intro tokens hlong
      match tokens with
      | keyword :: iterator :: preposition :: collection :: rest => exact ⟨_, _, _, _, _, rfl⟩
      | [] | [_] | [_, _] | [_, _, _] => simp at hlong
    rcases hmany hshort with ⟨keyword, iterator, preposition, collection, rest, ha⟩
    rcases hmany (hlength ▸ hshort) with
      ⟨keyword', iterator', preposition', collection', rest', hb⟩
    simp only [ha, hb, List.map_cons, List.cons.injEq] at htokens
    exact .inl ⟨_, _, _, _, _, _, _, _, _, _, ha, hb, htokens.2.1, htokens.2.2.1⟩

/-- The expression behind a keyword. -/
theorem behindKeyword {keyword : Keyword} (hkeyword : a.keyword? = some keyword)
    (hheads : keyword.headsExpression = true) :
    Together (fun x y => normal x = normal y) (Outline.behindKeyword a keyword)
      (Outline.behindKeyword b keyword) := by
  have hlower : (keyword.remainder? a.text).map Text.lower =
      (keyword.remainder? b.text).map Text.lower := by
    rw [← Keyword.remainder?_lower, h.text, Keyword.remainder?_lower]
  have hexpression : ∀ line : Line, line.keyword? = some keyword →
      line.expression = (keyword.remainder? line.text).getD [] := by
    intro line hline
    unfold Line.expression
    rw [hline]
    cases keyword with
    | whileLoop | ifBlock | elseIfBranch | returnStatement | breakStatement | continueStatement => rfl
    | _ => cases hheads
  have hsame := h.expression
  rw [hexpression a hkeyword, hexpression b (h.keyword? ▸ hkeyword)] at hsame
  exact .ofOption _ _ _ _ hlower hsame

/-- The text from a token on. -/
theorem fromOffset {i : Nat} {token token' : Token} (htoken : a.tokens[i]? = some token)
    (htoken' : b.tokens[i]? = some token') (hsame : normal (a.fromToken i) = normal (b.fromToken i))
    (number number' : Nat) :
    Together (fun x y => normal x = normal y)
      (Outline.fromOffset number (clean .everything a.text) token.offset)
      (Outline.fromOffset number' (clean .everything b.text) token'.offset) := by
  have hlower := h.token i
  rw [htoken, htoken', Option.map_some, Option.map_some, Option.some.injEq] at hlower
  have hoffset : token.offset = token'.offset := by
    have hsame := congrArg Token.offset hlower
    exact hsame
  have hcut := congrArg (dropBytes? token.offset) h.cleaned
  rw [dropBytes?_lower, dropBytes?_lower] at hcut
  rw [Line.fromToken, Line.fromToken, htoken, htoken', Option.bind_some, Option.bind_some,
    ← hoffset] at hsame
  rw [← hoffset]
  exact .ofOption _ _ _ _ hcut hsame

end Source.Line.Alike

end ScriptMachine
