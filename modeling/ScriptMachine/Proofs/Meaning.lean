import ScriptMachine.Expr.Resolve
import ScriptMachine.Proofs.Parsing

/-!
# What written expressions compile to

Where every name is known, every call has a command that takes as many arguments and every reference
fits a handle, each text of a term compiles, and always to the same expression.  Letter case is gone
from it: a name has become the slot of a variable or the folded key of a global, and a call has the
name under which its command is registered.

Main results:

- {lit}`Term.meaning`: the expression that a term stands for in a scope.
- {lit}`Term.Resolvable`: whether a term means something there.
- {lit}`Expr.compile_written`: every text of a term compiles to what the term stands for.
-/

namespace ScriptMachine

open Text

/-! ## Names and literals -/

namespace Scope

/-- Whether a name is a variable or a global, in any letter case. -/
def Knows (scope : Scope) (name : String) : Prop :=
  fold name ∈ scope.locals.map fold ∨ scope.globals.contains name = true

/-- What a name stands for: the variable of that name or else the global. -/
def named (scope : Scope) (name : String) : Expr :=
  if fold name ∈ scope.locals.map fold then .slot ((scope.locals.map fold).idxOf (fold name))
  else .global (fold name)

/-- Whether a command answers to a name and takes so many arguments. -/
def Admits (scope : Scope) (name : String) (count : Nat) : Prop :=
  ∃ command, scope.commands.lookup? name = some command ∧
    ∀ expected, command.signature.arity? = some expected → expected = count

/-- The name under which the command that answers to a name is registered. -/
def registered (scope : Scope) (name : String) : String :=
  ((scope.commands.lookup? name).map fun command => command.signature.name).getD name

end Scope

/-- The number that hexadecimal digits stand for. -/
def Literal.hexNumber (digits : List Char) : Nat :=
  digits.foldl (fun value c => 16 * value + hexValue c) 0

/-! ## Terms -/

/-- A unary operator on an expression; a minus on a number literal is part of the number. -/
def Expr.signed : UnaryOp → Expr → Expr
  | .negate, .number x => .number (-x)
  | op, e => .unary op e

/-- The assignment to an element, found by going down from a base. -/
def Expr.storedAt (op : AssignOp) (value : Expr) : Expr → Expr → List Expr → Expr
  | base, position, [] => .assignElement base position op value
  | base, position, next :: others => storedAt op value (.index base position) next others

/-- The assignment to what a name stands for, or to an element of it. -/
def Expr.stored (op : AssignOp) (value target : Expr) : List Expr → Expr
  | [] =>
    match target with
    | .slot i => .assignSlot i op value
    | .global key => .assignGlobal key op value
    | other => other
  | position :: others => storedAt op value target position others

namespace Term

mutual

/-- What a term stands for in a scope. -/
def meaning (scope : Scope) : Term → Expr
  | .number digits => .number ((Number.parse? digits).getD 0.0)
  | .text s => .text s
  | .reference digits => .reference (UInt32.ofNat (Literal.hexNumber digits))
  | .name identifier => scope.named identifier
  | .index target position => .index (meaning scope target) (meaning scope position)
  | .unary op operand => Expr.signed op (meaning scope operand)
  | .binary op left right => .binary op (meaning scope left) (meaning scope right)
  | .assign identifier positions op value =>
    Expr.stored op (meaning scope value) (scope.named identifier) (meanings scope positions)
  | .call identifier arguments => .call (scope.registered identifier) (meanings scope arguments)

/-- What some terms stand for in a scope. -/
def meanings (scope : Scope) : List Term → List Expr
  | [] => []
  | term :: others => meaning scope term :: meanings scope others

end

mutual

/-- Every name of a term is known, every reference fits, and every call has its command. -/
def Resolvable (scope : Scope) : Term → Prop
  | .number _ | .text _ => True
  | .reference digits => Literal.hexNumber digits < UInt32.size
  | .name identifier => scope.Knows identifier
  | .index target position => Resolvable scope target ∧ Resolvable scope position
  | .unary _ operand => Resolvable scope operand
  | .binary _ left right => Resolvable scope left ∧ Resolvable scope right
  | .assign identifier positions _ value =>
    scope.Knows identifier ∧ AllResolvable scope positions ∧ Resolvable scope value
  | .call identifier arguments =>
    scope.Admits identifier arguments.length ∧ AllResolvable scope arguments

/-- So it is in all of the terms. -/
def AllResolvable (scope : Scope) : List Term → Prop
  | [] => True
  | term :: others => Resolvable scope term ∧ AllResolvable scope others

end

end Term

/-! ## Resolving -/

/-- A compilation step answers, whatever was referred to before. -/
def Resolve.Answers {α : Type} (step : Resolve α) (x : α) : Prop :=
  ∀ before, ∃ after, step.run before = .ok x after

namespace Resolve.Answers

variable {α β : Type} {x : α} {y : β} {step : Resolve α} {next : α → Resolve β}

/-- Answering at once. -/
theorem pure (x : α) : Resolve.Answers (Pure.pure x) x :=
  fun before => ⟨before, rfl⟩

/-- One step behind another. -/
theorem bind (h : Resolve.Answers step x) (hnext : Resolve.Answers (next x) y) :
    Resolve.Answers (step >>= next) y := by
  intro before
  rcases h before with ⟨between, hstep⟩
  rcases hnext between with ⟨after, hrest⟩
  refine ⟨after, ?_⟩
  rw [EStateM.run_bind, hstep]
  exact hrest

/-- The answer of a step is changed. -/
theorem map (h : Resolve.Answers step x) (f : α → β) :
    Resolve.Answers (step >>= fun x => Pure.pure (f x)) (f x) :=
  h.bind (.pure (f x))

end Resolve.Answers

namespace Expr

variable {scope : Scope}

/-- A known name is resolved. -/
theorem resolveName_answers {name : String} (h : scope.Knows name) :
    ∃ target, Resolve.Answers (resolveName scope name) target ∧ ofTarget target = scope.named name := by
  have hslot : scope.slot? name = (scope.locals.map fold).findIdx? (· == fold name) := by
    rw [Scope.slot?, List.findIdx?_map]
    rfl
  by_cases hmem : fold name ∈ scope.locals.map fold
  · have hfound : scope.slot? name = some ((scope.locals.map fold).idxOf (fold name)) := by
      rw [hslot, List.idxOf, List.findIdx?_eq_some_iff_findIdx_eq]
      exact ⟨List.idxOf_lt_length_iff.2 hmem, rfl⟩
    refine ⟨.slot ((scope.locals.map fold).idxOf (fold name)), fun before => ⟨before, ?_⟩, ?_⟩
    · unfold resolveName
      rw [hfound]
      rfl
    · rw [Scope.named, if_pos hmem]
      rfl
  · have hnone : scope.slot? name = none := by
      rw [hslot, List.findIdx?_eq_none_iff]
      intro declared hdeclared
      rw [beq_eq_false_iff_ne]
      rintro rfl
      exact hmem hdeclared
    have hglobal : scope.globals.contains name = true := h.resolve_left hmem
    refine ⟨.global (fold name), fun before => ⟨before.addGlobal (fold name), ?_⟩, ?_⟩
    · unfold resolveName
      rw [hnone]
      simp only [hglobal, if_true]
      rfl
    · rw [Scope.named, if_neg hmem]
      rfl

/-- A call of a command with as many arguments as it takes is resolved. -/
theorem resolveCall_answers {name : String} {arguments : List Expr}
    (h : scope.Admits name arguments.length) :
    Resolve.Answers (resolveCall scope name arguments) (.call (scope.registered name) arguments) := by
  rcases h with ⟨command, hlookup, harity⟩
  intro before
  refine ⟨before.addCommand command.signature.name, ?_⟩
  unfold resolveCall Scope.registered
  simp only [hlookup]
  cases hexpected : command.signature.arity? with
  | none => rfl
  | some expected =>
    have hcount := harity expected hexpected
    simp only [hcount, ne_eq, not_true_eq_false, if_false]
    rfl

/-- A unary operator is applied as written. -/
theorem applyUnary_eq (op : UnaryOp) (e : Expr) : applyUnary op e = signed op e := by
  cases op <;> cases e <;> rfl

/-- The assignment to an element of what some indices lead to. -/
theorem storedAt_eq (op : AssignOp) (value base position : Expr) (others : List Expr) :
    storedAt op value base position others = .assignElement
      ((position :: others).dropLast.foldl .index base)
      ((position :: others).getLast (by simp)) op value := by
  induction others generalizing base position with
  | nil => rfl
  | cons next others ih => simp [storedAt, ih]

/-- A target is assigned to as written. -/
theorem assignTo_eq (target : Target) (positions : List Expr) (op : AssignOp) (value : Expr) :
    assignTo target positions op value = stored op value (ofTarget target) positions := by
  cases positions with
  | nil => cases target <;> rfl
  | cons position others =>
    rw [stored, storedAt_eq]
    simp [assignTo, List.getLast?_eq_some_getLast]

end Expr

namespace Written

open Expr

variable {scope : Scope}

/-- Some terms are resolved, if each of them is. -/
theorem resolveList_answers {terms : List Term}
    (h : ∀ term ∈ terms, term.Resolvable scope →
      Resolve.Answers (resolve scope term) (term.meaning scope))
    (hterms : Term.AllResolvable scope terms) :
    Resolve.Answers (resolveList scope terms) (Term.meanings scope terms) := by
  induction terms with
  | nil => exact .pure []
  | cons term others ih =>
    unfold Term.AllResolvable at hterms
    have hothers := ih (fun other hmem => h other (by simp [hmem])) hterms.2
    unfold resolveList Term.meanings
    exact (h term (by simp) hterms.1).bind (hothers.map (term.meaning scope :: ·))

/-- Nothing is lost on the way from terms to expressions. -/
theorem length_meanings (scope : Scope) (terms : List Term) :
    (Term.meanings scope terms).length = terms.length := by
  induction terms with
  | nil => rfl
  | cons term others ih => simp [Term.meanings, ih]

/-- A written term is resolved to what it stands for. -/
theorem resolve_answers {level : Level} {term : Term} {w : List Char} (h : Written level term w)
    (hterm : term.Resolvable scope) : Resolve.Answers (resolve scope term) (term.meaning scope) := by
  induction h with
  | number h =>
    rcases Option.isSome_iff_exists.1 (Number.isSome_parse? h) with ⟨x, hx⟩
    simp only [resolve, resolveNumber, Term.meaning, hx]
    exact .pure _
  | text h =>
    unfold resolve Term.meaning
    exact .pure _
  | @reference digits h hne =>
    unfold Term.Resolvable at hterm
    have hhandle : Literal.handleOfDigits? digits =
        some (UInt32.ofNat (Literal.hexNumber digits)) := by
      unfold Literal.handleOfDigits?
      exact if_pos hterm
    simp only [resolve, resolveReference, Term.meaning, hhandle]
    exact .pure _
  | name h =>
    unfold Term.Resolvable at hterm
    rcases resolveName_answers hterm with ⟨target, htarget, hnamed⟩
    unfold resolve Term.meaning
    rw [← hnamed]
    exact htarget.map ofTarget
  | callNone h hgap hinside =>
    unfold Term.Resolvable at hterm
    unfold resolve Term.meaning
    exact (resolveList_answers (by simp) hterm.2).bind (resolveCall_answers hterm.1)
  | @call word gap first others h hgap hspaced harguments ih =>
    unfold Term.Resolvable at hterm
    have hall : ∀ term ∈ (first :: others).map Padded.term, term.Resolvable scope →
        Resolve.Answers (resolve scope term) (term.meaning scope) := by
      intro term hmem
      rcases List.mem_map.1 hmem with ⟨argument, hargument, rfl⟩
      exact ih argument hargument
    unfold resolve Term.meaning
    refine (resolveList_answers hall hterm.2).bind (resolveCall_answers ?_)
    rw [length_meanings]
    exact hterm.1
  | group hspaced h ih => exact ih hterm
  | index h hspaced hposition ihtarget ihposition =>
    unfold Term.Resolvable at hterm
    unfold resolve Term.meaning
    exact (ihtarget hterm.1).bind ((ihposition hterm.2).map _)
  | unary op hgap h ih =>
    unfold Term.Resolvable at hterm
    unfold resolve Term.meaning
    rw [← applyUnary_eq]
    exact (ih hterm).map _
  | binary op hleft hgap hgap' hright ihleft ihright =>
    unfold Term.Resolvable at hterm
    unfold resolve Term.meaning
    exact (ihleft hterm.1).bind ((ihright hterm.2).map _)
  | @assign op word positions value gap gap' v h hspaced hpositions hgap hgap' hvalue ihpositions
      ihvalue =>
    unfold Term.Resolvable at hterm
    rcases resolveName_answers hterm.1 with ⟨target, htarget, hnamed⟩
    have hall : ∀ term ∈ positions.map fun position => position.inside.term, term.Resolvable scope →
        Resolve.Answers (resolve scope term) (term.meaning scope) := by
      intro term hmem
      rcases List.mem_map.1 hmem with ⟨position, hposition, rfl⟩
      exact ihpositions position hposition
    unfold resolve Term.meaning
    rw [← hnamed, ← assignTo_eq]
    exact (ihvalue hterm.2.2).bind (htarget.bind ((resolveList_answers hall hterm.2.1).map _))
  | tighter h ih => exact ih hterm

end Written

/-! ## Compiling -/

/-- **Written expressions compile.**  Take any text of a term: with parentheses at least where
precedence and nesting to the left need them, with any spaces and tabs between its tokens and around
it, and with its strings spelled in any way.  If the term is resolvable, the text compiles, and to
what the term stands for. -/
theorem Expr.compile_written {scope : Scope} {term : Term} {before w after : List Char}
    (hbefore : Blanks before) (h : Written .expression term w) (hafter : Blanks after)
    (hterm : term.Resolvable scope) (references : References) : ∃ references',
      (Expr.compile scope (before ++ w ++ after)).run references =
        .ok (term.meaning scope) references' := by
  unfold Expr.compile
  rw [Term.parse_of_written hbefore h hafter]
  exact h.resolve_answers hterm references

/-- A scope with one variable and the built-in commands. -/
def Scope.counting : Scope :=
  ⟨["count"], Globals.empty, CommandTable.standard⟩

/-- Parentheses, blanks and letter case are gone, and the minus is part of the number. -/
theorem Expr.compile_written_counting : ∃ references',
    (Expr.compile Scope.counting "Count = -1*( COUNT\t+2 ) ".toList).run References.empty =
      .ok (.assignSlot 0 .set (.binary .multiply (.number (-Number.ofDecimal ['1'] 0))
        (.binary .add (.slot 0) (.number (Number.ofDecimal ['2'] 0))))) references' := by
  have hnone : Blanks [] := by simp [Blanks]
  have hspace : Blanks [' '] := by simp [Blanks]
  have hnumber (c : Char) (hc : c.isDigit = true) : Written .primary (.number [c]) [c] :=
    .number ⟨[c], [], .whole (by simpa [Digits] using hc) (by simp), .none, rfl⟩
  have hname : Written .primary (.name "COUNT") "COUNT".toList := .name (by decide)
  have hsum : Written .sum (.binary .add (.name "COUNT") (.number ['2']))
      ("COUNT".toList ++ ['\t'] ++ "+".toList ++ [] ++ ['2']) :=
    .binary .add (.tighter (.tighter (.tighter (.tighter hname)))) (by simp [Blanks]) hnone
      (.tighter (.tighter (.tighter (hnumber '2' rfl))))
  let inside : Padded := ⟨[' '], .binary .add (.name "COUNT") (.number ['2']),
    "COUNT".toList ++ ['\t'] ++ "+".toList ++ [] ++ ['2'], [' ']⟩
  have hgroup : Written .primary inside.term inside.grouped :=
    .group ⟨hspace, hspace⟩ (.tighter (.tighter (.tighter (.tighter (.tighter hsum)))))
  have hminus : Written .unary (.unary .negate (.number ['1'])) ("-".toList ++ [] ++ ['1']) :=
    .unary .negate hnone (.tighter (.tighter (hnumber '1' rfl)))
  have hproduct : Written .product (.binary .multiply _ inside.term)
      ("-".toList ++ [] ++ ['1'] ++ [] ++ "*".toList ++ [] ++ inside.grouped) :=
    .binary .multiply (.tighter hminus) hnone hnone (.tighter (.tighter hgroup))
  have hassign : Written .expression (.assign "Count" [] .set _)
      ("Count".toList ++ [] ++ [' '] ++ "=".toList ++ [' '] ++ _) :=
    Written.assign .set (by decide) (List.forall_mem_nil _) (List.forall_mem_nil _) hspace hspace
      (.tighter (.tighter (.tighter (.tighter (.tighter (.tighter hproduct))))))
  have hknown : Scope.counting.Knows "Count" ∧ Scope.counting.Knows "COUNT" := by
    constructor <;> exact .inl (by decide)
  exact compile_written hnone hassign hspace
    (by simp [Term.Resolvable, Term.AllResolvable, inside, hknown]) References.empty

end ScriptMachine
