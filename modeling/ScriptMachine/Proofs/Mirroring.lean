import ScriptMachine.Proofs.Recasing
import ScriptMachine.Proofs.Resolving

/-!
# Expressions and their normal forms are read alike

Every parser of the grammar does on the normal form what it does on the text itself, step by step: it
takes as many characters, records the same attempts and answers with the normal form of its answer.
What is left of a term when it is resolved does not depend on the case of its names and digits, only
the reason of a failure quotes them as they are written.

Main results:

- {lit}`Parser.Follows`: a parser does on normal forms what another one does on texts.
- {lit}`Term.parse_normal`: the term of a normal form is the normal form of the term.
- {lit}`Expr.compile_same`: texts with one normal form compile to the same.
-/

namespace ScriptMachine

open Text Source

/-! ## Parsers -/

/-- The same position in front of the normal form of what follows it. -/
def Cursor.normal (cursor : Cursor) : Cursor :=
  { cursor with rest := Source.normal cursor.rest }

namespace Parser

variable {α β γ δ : Type}

/-- The answer on a normal form. -/
def recast (f : α → β) (answer : Option (α × Cursor) × Attempts) : Option (β × Cursor) × Attempts :=
  (answer.1.map fun (x, next) => (f x, next.normal), answer.2)

/-- A parser does on normal forms what another one does on texts. -/
def Follows (p : Parser α) (p' : Parser β) (f : α → β) : Prop :=
  ∀ cursor attempts, p' cursor.normal attempts = recast f (p cursor attempts)

/-- Whether a symbol has neither letters nor quotes. -/
def isPlain (symbol : String) : Bool :=
  symbol.toList.all fun c => !c.isAlpha && c != '"'

namespace Follows

variable {p : Parser α} {p' : Parser β} {f : α → β}

theorem pure (f : α → β) (x : α) : Follows (Pure.pure x) (Pure.pure (f x)) f :=
  fun _ _ => rfl

theorem fail (f : α → β) : Follows Parser.fail Parser.fail f :=
  fun _ _ => rfl

theorem bind {k : α → Parser γ} {k' : β → Parser δ} {g : γ → δ} (h : Follows p p' f)
    (hk : ∀ x, Follows (k x) (k' (f x)) g) : Follows (p >>= k) (p' >>= k') g := by
  intro cursor attempts
  show Parser.bind p' k' cursor.normal attempts = recast g (Parser.bind p k cursor attempts)
  unfold Parser.bind
  rw [h cursor attempts]
  rcases p cursor attempts with ⟨_ | ⟨x, next⟩, after⟩
  · rfl
  · exact hk x next after

/-- The answers are changed alike. -/
theorem map {F : α → γ} {F' : β → δ} {g : γ → δ} (h : Follows p p' f)
    (hF : ∀ x, F' (f x) = g (F x)) :
    Follows (p >>= fun x => Pure.pure (F x)) (p' >>= fun x => Pure.pure (F' x)) g :=
  h.bind fun x => by rw [hF]; exact .pure g (F x)

theorem or {q : Parser α} {q' : Parser β} (h : Follows p p' f) (hq : Follows q q' f) :
    Follows (Parser.or p q) (Parser.or p' q') f := by
  intro cursor attempts
  unfold Parser.or
  rw [h cursor attempts]
  rcases p cursor attempts with ⟨_ | ⟨x, next⟩, after⟩
  · exact hq cursor after
  · rfl

theorem optional (h : Follows p p' f) :
    Follows (Parser.optional p) (Parser.optional p') (Option.map f) := by
  intro cursor attempts
  unfold Parser.optional
  rw [h cursor attempts]
  rcases p cursor attempts with ⟨_ | ⟨x, next⟩, after⟩ <;> rfl

theorem named (h : Follows p p' f) (rule : Rule) :
    Follows (Parser.named rule p) (Parser.named rule p') f := by
  intro cursor attempts
  unfold Parser.named
  rw [h cursor attempts]
  rcases p cursor attempts with ⟨_ | ⟨x, next⟩, after⟩ <;> rfl

theorem take {t : List Char → Option (α × List Char)} {t' : List Char → Option (β × List Char)}
    (h : ∀ s, t' (normal s) = (t s).map fun (x, rest) => (f x, normal rest)) :
    Follows (Parser.take t) (Parser.take t') f := by
  intro cursor attempts
  have hrest : t' cursor.normal.rest = (t cursor.rest).map fun (x, rest) => (f x, normal rest) :=
    h cursor.rest
  unfold Parser.take
  rw [hrest]
  cases t cursor.rest with
  | none => rfl
  | some answer => simp [recast, Cursor.normal]

/-- Symbols without letters stand in normal forms as they are. -/
theorem literal {text : String} (h : isPlain text = true) :
    Follows (Parser.literal text) (Parser.literal text) id := by
  have hplain : ∀ c ∈ text.toList, c.isAlpha = false ∧ c ≠ '"' := by
    intro c hc
    simpa using List.all_eq_true.1 h c hc
  have hbehind : ∀ (start : List Char), (∀ c ∈ start, c.isAlpha = false ∧ c ≠ '"') → ∀ s,
      behind? start (normal s) = (behind? start s).map normal := by
    intro start
    induction start with
    | nil => intro _ s; rfl
    | cons c start ih =>
      intro h s
      have hc := h c (by simp)
      cases s with
      | nil => rfl
      | cons d s =>
        by_cases hquote : d = '"'
        · subst hquote
          rw [normal_quote, behind?, behind?, if_neg hc.2, if_neg hc.2]
          rfl
        · have hiff : c = d.toLower ↔ c = d := by
            rw [eq_comm, toLower_eq_iff hc.1, eq_comm]
          rw [normal_cons hquote, behind?, behind?, ih fun c hc => h c (by simp [hc])]
          simp only [hiff]
          split <;> rfl
  refine take fun s => ?_
  rw [hbehind _ hplain]
  cases behind? text.toList s <;> rfl

theorem oneOf {symbols : List (String × α)}
    (h : (symbols.all fun entry => isPlain entry.1) = true) :
    Follows (Parser.oneOf symbols) (Parser.oneOf symbols) id := by
  induction symbols with
  | nil => exact .fail id
  | cons entry others ih =>
    rw [List.all_cons, Bool.and_eq_true] at h
    exact ((literal h.1).bind fun _ => .pure id entry.2).or (ih h.2)

theorem skip : Follows Parser.skip Parser.skip id := by
  refine take fun s => ?_
  rw [dropWhile_normal (fun c => of_toLower (fun c => c == ' ' || c == '\t') (by decide) c) rfl]
  rfl

theorem endOfInput : Follows Parser.endOfInput Parser.endOfInput id := by
  refine take fun s => ?_
  rw [isEmpty_normal]
  split <;> rfl

theorem manyMore (h : Follows p p' f) (bound : Nat) :
    Follows (Parser.manyMore p bound) (Parser.manyMore p' bound) (List.map f) := by
  induction bound with
  | zero => exact fun _ _ => rfl
  | succ bound ih =>
    intro cursor attempts
    have hitem : Follows (Parser.skip >>= fun _ => p) (Parser.skip >>= fun _ => p') f :=
      skip.bind fun _ => h
    have hrun : Parser.bind Parser.skip (fun _ => p') cursor.normal attempts =
        recast f (Parser.bind Parser.skip (fun _ => p) cursor attempts) := hitem cursor attempts
    unfold Parser.manyMore
    rw [hrun]
    rcases Parser.bind Parser.skip (fun _ => p) cursor attempts with ⟨_ | ⟨x, next⟩, after⟩
    · rfl
    · simp only [recast, Option.map_some]
      rw [ih next after]
      rcases Parser.manyMore p bound next after with ⟨_ | ⟨xs, last⟩, after⟩ <;> rfl

theorem many (h : Follows p p' f) : Follows (Parser.many p) (Parser.many p') (List.map f) := by
  intro cursor attempts
  unfold Parser.many
  rw [h cursor attempts]
  rcases p cursor attempts with ⟨_ | ⟨x, next⟩, after⟩
  · rfl
  · have hlength : next.normal.rest.length = next.rest.length := length_normal next.rest
    simp only [recast, Option.map_some, hlength]
    rw [h.manyMore _ next after]
    rcases Parser.manyMore p (next.rest.length + 1) next after with ⟨_ | ⟨xs, last⟩, after⟩ <;> rfl

end Follows
end Parser

/-! ## Normal forms of terms -/

namespace Term

mutual

/-- The term with its names and digits in small letters. -/
def normal : Term → Term
  | .number digits => .number (lower digits)
  | .text s => .text s
  | .reference digits => .reference (lower digits)
  | .name identifier => .name (fold identifier)
  | .index target position => .index (normal target) (normal position)
  | .unary op operand => .unary op (normal operand)
  | .binary op left right => .binary op (normal left) (normal right)
  | .assign identifier positions op value =>
    .assign (fold identifier) (normals positions) op (normal value)
  | .call identifier arguments => .call (fold identifier) (normals arguments)

/-- Some terms with their names and digits in small letters. -/
def normals : List Term → List Term
  | [] => []
  | term :: others => normal term :: normals others

end

/-- Each of the terms has a normal form of its own. -/
theorem normals_eq (terms : List Term) : normals terms = terms.map normal := by
  induction terms with
  | nil => rfl
  | cons term others ih => rw [normals, ih, List.map_cons]

/-- Indices have the normal forms of their positions. -/
theorem normal_foldl_index (positions : List Term) (target : Term) :
    (positions.map normal).foldl .index target.normal = (positions.foldl .index target).normal := by
  induction positions generalizing target with
  | nil => rfl
  | cons position others ih => exact ih (.index target position)

/-- Unary operators have no letters. -/
theorem normal_foldr_unary (ops : List UnaryOp) (operand : Term) :
    ops.foldr .unary operand.normal = (ops.foldr .unary operand).normal := by
  induction ops with
  | nil => rfl
  | cons op others ih => rw [List.foldr_cons, ih, List.foldr_cons, normal]

/-- Chains have the normal forms of their operands. -/
theorem normal_foldl_binary (links : List (BinaryOp × Term)) (first : Term) :
    (links.map fun (op, right) => (op, right.normal)).foldl
        (fun left (op, right) => .binary op left right) first.normal =
      (links.foldl (fun left (op, right) => .binary op left right) first).normal := by
  induction links generalizing first with
  | nil => rfl
  | cons link others ih => exact ih (.binary link.1 first link.2)

end Term

/-! ## The grammar -/

namespace Grammar

open Parser Literal

variable {inner : Parser Term} (h : Follows inner inner Term.normal)

theorem follows_identifier : Follows identifier identifier fold :=
  (Follows.take takeIdentifier_normal).named _

theorem follows_number : Follows number number Term.normal :=
  (Follows.map (F := Term.number) (Follows.take takeNumber_normal)
    fun _ => by rw [Term.normal]).named _

theorem follows_reference : Follows reference reference Term.normal :=
  (Follows.map (F := Term.reference) (Follows.take takeReference_normal)
    fun _ => by rw [Term.normal]).named _

theorem follows_string : Follows string string Term.normal :=
  (Follows.map (F := Term.text) (f := id) (Follows.take takeString_normal)
    fun _ => by rw [Term.normal, id]).named _

include h

/-- What stands between two symbols. -/
theorem follows_enclosed {opener closer : String}
    (hopener : isPlain opener = true) (hcloser : isPlain closer = true) :
    Follows (literal opener >>= fun _ => skip >>= fun _ => inner >>= fun term => skip >>= fun _ =>
        literal closer >>= fun _ => Pure.pure term)
      (literal opener >>= fun _ => skip >>= fun _ => inner >>= fun term => skip >>= fun _ =>
        literal closer >>= fun _ => Pure.pure term) Term.normal :=
  (Follows.literal hopener).bind fun _ => Follows.skip.bind fun _ => h.bind fun term =>
    Follows.skip.bind fun _ => (Follows.literal hcloser).bind fun _ => .pure _ term

theorem follows_index : Follows (index inner) (index inner) Term.normal :=
  (follows_enclosed h (by decide) (by decide)).named _

theorem follows_group : Follows (group inner) (group inner) Term.normal :=
  follows_enclosed h (by decide) (by decide)

theorem follows_arguments : Follows (arguments inner) (arguments inner) (List.map Term.normal) :=
  h.bind fun _ => Follows.skip.bind fun _ =>
    ((Follows.literal (by decide)).bind fun _ => Follows.skip.bind fun _ => h).many.map fun _ => rfl

theorem follows_call : Follows (call inner) (call inner) Term.normal := by
  refine (follows_identifier.bind fun name => Follows.skip.bind fun _ =>
    (Follows.literal (by decide)).bind fun _ => Follows.skip.bind fun _ =>
      (follows_arguments h).optional.bind fun given => Follows.skip.bind fun _ =>
        (Follows.literal (by decide)).map fun _ => ?_).named _
  rw [Term.normal, Term.normals_eq]
  cases given <;> rfl

theorem follows_primary : Follows (primary inner) (primary inner) Term.normal :=
  follows_number.or <| follows_string.or <| follows_reference.or <| (follows_call h).or <|
    (Follows.map (F := Term.name) follows_identifier
      fun _ => by rw [Term.normal]).or (follows_group h)

theorem follows_postfixed : Follows (postfixed inner) (postfixed inner) Term.normal :=
  ((follows_primary h).bind fun target => Follows.skip.bind fun _ =>
    (follows_index h).many.map fun positions => Term.normal_foldl_index positions target).named _

theorem follows_unary : Follows (unary inner) (unary inner) Term.normal :=
  ((Follows.oneOf (by decide)).named _).many.bind (fun ops => Follows.skip.bind fun _ =>
    (follows_postfixed h).map fun operand => by
      rw [List.map_id]
      exact Term.normal_foldr_unary ops operand) |>.named _

omit h in
/-- A chain of operators without letters. -/
theorem follows_chain {operand : Parser Term} (h : Follows operand operand Term.normal)
    (rule opRule : Rule) {symbols : List (String × BinaryOp)}
    (hsymbols : (symbols.all fun entry => isPlain entry.1) = true) :
    Follows (chain rule (named opRule (oneOf symbols)) operand)
      (chain rule (named opRule (oneOf symbols)) operand) Term.normal := by
  have hlink : Follows (link (named opRule (oneOf symbols)) operand)
      (link (named opRule (oneOf symbols)) operand) fun (op, right) => (op, right.normal) :=
    ((Follows.oneOf hsymbols).named opRule).bind fun op => Follows.skip.bind fun _ =>
      Follows.map h fun right => rfl
  exact (h.bind fun first => Follows.skip.bind fun _ =>
    hlink.many.map fun links => Term.normal_foldl_binary links first).named rule

theorem follows_product : Follows (product inner) (product inner) Term.normal :=
  follows_chain (follows_unary h) _ _ (by decide)

theorem follows_sum : Follows (sum inner) (sum inner) Term.normal :=
  follows_chain (follows_product h) _ _ (by decide)

theorem follows_comparison : Follows (comparison inner) (comparison inner) Term.normal :=
  follows_chain (follows_sum h) _ _ (by decide)

theorem follows_equality : Follows (equality inner) (equality inner) Term.normal :=
  follows_chain (follows_comparison h) _ _ (by decide)

theorem follows_conjunction : Follows (conjunction inner) (conjunction inner) Term.normal :=
  follows_chain (follows_equality h) _ _ (by decide)

theorem follows_disjunction : Follows (disjunction inner) (disjunction inner) Term.normal :=
  follows_chain (follows_conjunction h) _ _ (by decide)

theorem follows_place : Follows (place inner) (place inner)
    (Prod.map fold (List.map Term.normal)) :=
  (follows_identifier.bind fun name => Follows.skip.bind fun _ =>
    (follows_index h).many.bind fun positions =>
      .pure (Prod.map fold (List.map Term.normal)) (name, positions)).named _

omit h in
/-- Equals signs have no case. -/
theorem takeSet_normal (s : List Char) :
    takeSet (normal s) = (takeSet s).map fun (op, rest) => (id op, normal rest) := by
  have hsign : ∀ c : Char, c ≠ '=' → ∀ rest, takeSet (c :: rest) = none := by
    intro c hc rest
    rw [takeSet] <;> simp [hc]
  have hlow : ∀ {c : Char}, c ≠ '=' → c.toLower ≠ '=' :=
    fun hc heq => hc ((toLower_eq_iff rfl).1 heq)
  match s with
  | [] => rfl
  | [c] =>
    by_cases hc : c = '='
    · subst hc
      rfl
    · by_cases hquote : c = '"'
      · subst hquote
        rfl
      · rw [normal_cons hquote, hsign _ (hlow hc), hsign c hc]
        rfl
  | c :: d :: rest =>
    by_cases hc : c = '='
    · subst hc
      by_cases hquote : d = '"'
      · subst hquote
        rfl
      · by_cases hd : d = '='
        · subst hd
          rfl
        · rw [normal_cons (by decide), normal_cons hquote]
          have hd' := hlow hd
          simp [show Char.toLower '=' = '=' from rfl, takeSet, hd, hd', normal_cons hquote]
    · by_cases hquote : c = '"'
      · subst hquote
        rfl
      · rw [normal_cons hquote, hsign _ (hlow hc), hsign c hc]
        rfl

omit h in
theorem follows_assignOp : Follows assignOp assignOp id :=
  ((Follows.oneOf (by decide)).or (Follows.take takeSet_normal)).named _

theorem follows_assignment : Follows (assignment inner) (assignment inner) Term.normal := by
  refine ((follows_place h).bind fun (name, positions) => Follows.skip.bind fun _ =>
    follows_assignOp.bind fun op => Follows.skip.bind fun _ => h.map fun value => ?_).named _
  rw [Term.normal, Term.normals_eq, id]

theorem follows_expressionWith : Follows (expressionWith inner) (expressionWith inner) Term.normal :=
  ((follows_assignment h).or (follows_disjunction h)).named _

omit h in
/-- Expressions of any depth are read alike. -/
theorem follows_expression (depth : Nat) :
    Follows (expression depth) (expression depth) Term.normal := by
  induction depth with
  | zero => exact .fail _
  | succ depth ih => exact follows_expressionWith ih

omit h in
theorem follows_statement (depth : Nat) :
    Follows (statement depth) (statement depth) Term.normal :=
  (Follows.skip.bind fun _ => (follows_expression depth).bind fun term => Follows.skip.bind fun _ =>
    (Follows.endOfInput.named _).bind fun _ => .pure _ term).named _

end Grammar

/-- An error stands in the same column. -/
theorem SyntaxError.ofAttempts_normal (source : List Char) (attempts : Attempts) :
    SyntaxError.ofAttempts (Source.normal source) attempts =
      SyntaxError.ofAttempts source attempts := by
  have hcolumn : ∀ s : List Char, ((lower s).takeWhile (· != '\n')).length =
      (s.takeWhile (· != '\n')).length := by
    intro s
    rw [takeWhile_lower (of_toLower (· != '\n') (by decide)), length_lower]
  have hback : lower ((normal source).take attempts.furthest).reverse =
      lower (source.take attempts.furthest).reverse := by
    have hsame : lower (normal source) = lower source := lower_normalFrom .outside source
    rw [lower, lower, List.map_reverse, List.map_reverse, List.map_take, List.map_take]
    exact congrArg (fun s => (s.take attempts.furthest).reverse) hsame
  rw [SyntaxError.ofAttempts, SyntaxError.ofAttempts, ← hcolumn, hback, hcolumn]

/-- The term of a normal form is the normal form of the term, and a syntax error is the same. -/
theorem Term.parse_normal (source : List Char) :
    Term.parse (Source.normal source) = (Term.parse source).map Term.normal := by
  have hrun : Grammar.statement (source.length + 1) ⟨0, Source.normal source⟩ .start =
      Parser.recast Term.normal (Grammar.statement (source.length + 1) ⟨0, source⟩ .start) :=
    Grammar.follows_statement _ ⟨0, source⟩ .start
  unfold Term.parse
  rw [length_normal, hrun]
  rcases Grammar.statement (source.length + 1) ⟨0, source⟩ .start with ⟨_ | ⟨term, last⟩, attempts⟩
  · exact congrArg Except.error (SyntaxError.ofAttempts_normal source attempts)
  · rfl

/-! ## Resolving -/

namespace Literal

/-- Hexadecimal digits have the same value in either case. -/
theorem hexValue_toLower (c : Char) : hexValue c.toLower = hexValue c :=
  of_toLower hexValue (by decide) c

/-- The handle of digits in any letter case. -/
theorem handleOfDigits?_lower (digits : List Char) :
    handleOfDigits? (lower digits) = handleOfDigits? digits := by
  unfold handleOfDigits?
  simp only [lower, List.foldl_map, hexValue_toLower]

end Literal

namespace Resolve

variable {α β : Type}

/-- What a step leaves: its answer without the reason of a failure, and the references. -/
def outcome : EStateM.Result ExprError References α → Option α × References
  | .ok x references => (some x, references)
  | .error _ references => (none, references)

/-- Two steps that differ at most in the reasons of their failures. -/
def Same (step step' : Resolve α) : Prop :=
  ∀ before, outcome (step.run before) = outcome (step'.run before)

namespace Same

theorem refl (step : Resolve α) : Same step step :=
  fun _ => rfl

theorem throw (e e' : ExprError) : Same (throw e : Resolve α) (throw e') :=
  fun _ => rfl

/-- Both steps answer the same, or both fail; the references behind them are the same. -/
theorem answers {step step' : Resolve α} (h : Same step step') (before : References) :
    (∃ x after, step.run before = .ok x after ∧ step'.run before = .ok x after) ∨
      ∃ e e' after, step.run before = .error e after ∧ step'.run before = .error e' after := by
  have houtcome := h before
  cases hrun : step.run before with
  | ok x after =>
    cases hrun' : step'.run before with
    | ok x' after' =>
      rw [hrun, hrun'] at houtcome
      cases houtcome
      exact .inl ⟨x, after, rfl, rfl⟩
    | error e' after' =>
      rw [hrun, hrun'] at houtcome
      cases houtcome
  | error e after =>
    cases hrun' : step'.run before with
    | ok x' after' =>
      rw [hrun, hrun'] at houtcome
      cases houtcome
    | error e' after' =>
      rw [hrun, hrun'] at houtcome
      cases houtcome
      exact .inr ⟨e, e', after, rfl, rfl⟩

theorem bind {step step' : Resolve α} {next next' : α → Resolve β} (h : Same step step')
    (hnext : ∀ x, Same (next x) (next' x)) : Same (step >>= next) (step' >>= next') := by
  intro before
  rw [EStateM.run_bind, EStateM.run_bind]
  rcases h.answers before with ⟨x, after, hrun, hrun'⟩ | ⟨e, e', after, hrun, hrun'⟩
  · rw [hrun, hrun']
    exact hnext x after
  · rw [hrun, hrun']
    rfl

end Same
end Resolve

namespace Expr

open Resolve

variable (scope : Scope)

theorem resolveNumber_lower (digits : List Char) :
    Same (resolveNumber (lower digits)) (resolveNumber digits) := by
  unfold resolveNumber
  rw [Number.parse?_lower]
  cases Number.parse? digits with
  | none => exact .throw _ _
  | some x => exact .refl _

theorem resolveReference_lower (digits : List Char) :
    Same (resolveReference (lower digits)) (resolveReference digits) := by
  unfold resolveReference
  rw [Literal.handleOfDigits?_lower]
  cases Literal.handleOfDigits? digits with
  | none => exact .throw _ _
  | some handle => exact .refl _

theorem resolveName_fold (name : String) :
    Same (resolveName scope (fold name)) (resolveName scope name) := by
  have hslot : scope.slot? (fold name) = scope.slot? name := by
    simp [Scope.slot?, sameName]
  unfold resolveName
  rw [hslot, Globals.contains_fold, fold_fold]
  cases scope.slot? name with
  | some i => exact .refl _
  | none =>
    cases scope.globals.contains name with
    | true => exact .refl _
    | false => exact .throw _ _

theorem resolveCall_fold (name : String) (arguments : List Expr) :
    Same (resolveCall scope (fold name) arguments) (resolveCall scope name arguments) := by
  have hlookup : scope.commands.lookup? (fold name) = scope.commands.lookup? name := by
    simp [CommandTable.lookup?, Signature.answersTo]
  unfold resolveCall
  rw [hlookup]
  cases scope.commands.lookup? name with
  | none => exact .throw _ _
  | some command => exact .refl _

mutual

/-- A term compiles to the same as its normal form. -/
theorem resolve_normal : ∀ term : Term, Same (resolve scope term.normal) (resolve scope term)
  | .number digits => by
    rw [Term.normal, resolve, resolve]
    exact resolveNumber_lower digits
  | .text s => .refl _
  | .reference digits => by
    rw [Term.normal, resolve, resolve]
    exact resolveReference_lower digits
  | .name identifier => by
    rw [Term.normal, resolve, resolve]
    exact (resolveName_fold scope identifier).bind fun _ => .refl _
  | .index target position => by
    rw [Term.normal, resolve, resolve]
    exact (resolve_normal target).bind fun _ => (resolve_normal position).bind fun _ => .refl _
  | .unary op operand => by
    rw [Term.normal, resolve, resolve]
    exact (resolve_normal operand).bind fun _ => .refl _
  | .binary op left right => by
    rw [Term.normal, resolve, resolve]
    exact (resolve_normal left).bind fun _ => (resolve_normal right).bind fun _ => .refl _
  | .assign identifier positions op value => by
    rw [Term.normal, resolve, resolve]
    exact (resolve_normal value).bind fun _ => (resolveName_fold scope identifier).bind fun _ =>
      (resolveList_normal positions).bind fun _ => .refl _
  | .call identifier arguments => by
    rw [Term.normal, resolve, resolve]
    exact (resolveList_normal arguments).bind fun _ => resolveCall_fold scope identifier _

/-- Terms compile to the same as their normal forms. -/
theorem resolveList_normal : ∀ terms : List Term,
    Same (resolveList scope (Term.normals terms)) (resolveList scope terms)
  | [] => .refl _
  | term :: others => by
    rw [Term.normals, resolveList, resolveList]
    exact (resolve_normal term).bind fun _ => (resolveList_normal others).bind fun _ => .refl _

end

/-- A text compiles to the same as its normal form. -/
theorem compile_normal (source : List Char) :
    Same (compile scope (Source.normal source)) (compile scope source) := by
  unfold compile
  rw [Term.parse_normal]
  cases Term.parse source with
  | error e => exact .refl _
  | ok term => exact resolve_normal scope term

/-- Texts with one normal form compile to the same. -/
theorem compile_same {source source' : List Char} (h : Source.normal source = Source.normal source') :
    Same (compile scope source) (compile scope source') := by
  intro before
  rw [← compile_normal scope source before, h, compile_normal scope source' before]

end Expr
end ScriptMachine
