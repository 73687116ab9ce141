import ScriptMachine.Proofs.Meaning
import ScriptMachine.Proofs.Resolving
import ScriptMachine.Proofs.Yielding

/-!
# The code of a text

A text compiles exactly if it is a text of a term that means something in the scope, and its code is
what the term stands for.  So code depends on the text and the scope alone, and every node of a compiled
tree has the code of its own expression.  An expression without code leaves a diagnostic at its line.

Main results:

- {lit}`Expr.codeOf`: the code of a text.
- {lit}`Expr.codeOf_eq_some_iff`: the texts that have code.
- {lit}`Compilation.translates_foldlM`: compiled nodes have the code of their expressions.
- {lit}`Program.exists_translation`: the nodes of a compiled program.
-/

namespace ScriptMachine

open Source Text

/-! ## Resolving is sound -/

/-- A name stands for a slot or for a global. -/
theorem Scope.named_cases (scope : Scope) (name : String) :
    (∃ slot, scope.named name = .slot slot) ∨ ∃ key, scope.named name = .global key := by
  unfold named
  split
  · exact .inl ⟨_, rfl⟩
  · exact .inr ⟨_, rfl⟩

namespace Expr

variable {scope : Scope}

/-- The slot of a name is the place where it is declared first. -/
theorem slot?_eq (scope : Scope) (name : String) :
    scope.slot? name = if fold name ∈ scope.locals.map fold then
      some ((scope.locals.map fold).idxOf (fold name)) else none := by
  have hslot : scope.slot? name = (scope.locals.map fold).findIdx? (· == fold name) := by
    rw [Scope.slot?, List.findIdx?_map]
    rfl
  rw [hslot]
  split
  · next hmem =>
    rw [List.idxOf, List.findIdx?_eq_some_iff_findIdx_eq]
    exact ⟨List.idxOf_lt_length_iff.2 hmem, rfl⟩
  · next hmem =>
    rw [List.findIdx?_eq_none_iff]
    intro declared hdeclared
    rw [beq_eq_false_iff_ne]
    rintro rfl
    exact hmem hdeclared

/-- A name that is resolved is known, and stands for what it is resolved to. -/
theorem resolveName_gives (name : String) : Resolve.Gives
    (fun target => scope.Knows name ∧ ofTarget target = scope.named name) (resolveName scope name) := by
  unfold resolveName Scope.Knows Scope.named
  rw [slot?_eq]
  by_cases hmem : fold name ∈ scope.locals.map fold
  · simp only [if_pos hmem]
    exact .pure ⟨.inl hmem, rfl⟩
  · simp only [if_neg hmem]
    split
    · next hcontains =>
      exact .bind (P := fun _ => True) (fun _ _ _ _ => trivial) fun _ _ => .pure ⟨.inr hcontains, rfl⟩
    · exact .throw _

/-- A call that is resolved is one of a command that takes as many arguments. -/
theorem resolveCall_gives (name : String) (arguments : List Expr) : Resolve.Gives
    (fun e => scope.Admits name arguments.length ∧ e = .call (scope.registered name) arguments)
    (resolveCall scope name arguments) := by
  unfold resolveCall Scope.Admits Scope.registered
  cases hlookup : scope.commands.lookup? name with
  | none => exact .throw _
  | some command =>
    have hcall : (∀ expected, command.signature.arity? = some expected → expected = arguments.length) →
        Resolve.Gives (fun e : Expr => (∃ found, some command = some found ∧ ∀ expected,
          found.signature.arity? = some expected → expected = arguments.length) ∧
          e = Expr.call (((some command).map fun command => command.signature.name).getD name) arguments) (do
          modify fun references => references.addCommand command.signature.name
          return Expr.call command.signature.name arguments) := fun hcount =>
      .bind (P := fun _ => True) (fun _ _ _ _ => trivial) fun _ _ =>
        .pure ⟨⟨command, rfl, hcount⟩, rfl⟩
    cases harity : command.signature.arity? with
    | none =>
      simp only [harity]
      exact hcall fun expected h => by rw [harity] at h; cases h
    | some expected =>
      simp only [harity]
      by_cases hsame : arguments.length = expected
      · rw [if_neg (not_not_intro hsame)]
        refine hcall fun other hother => ?_
        rw [harity] at hother
        cases hother
        exact hsame.symm
      · rw [if_pos hsame]
        exact .bind (P := fun _ => False) (.throw _) fun _ h => h.elim

mutual

/-- A term that is resolved means something, and it is resolved to that. -/
theorem resolve_gives : (term : Term) → Resolve.Gives
    (fun e => term.Resolvable scope ∧ e = term.meaning scope) (resolve scope term)
  | .number digits => by
    unfold resolve resolveNumber Term.Resolvable Term.meaning
    split
    · next x hx => exact .pure ⟨trivial, by rw [hx]; rfl⟩
    · exact .throw _
  | .text s => by
    unfold resolve Term.Resolvable Term.meaning
    exact .pure ⟨trivial, rfl⟩
  | .reference digits => by
    unfold resolve resolveReference Term.Resolvable Term.meaning
    split
    · next handle hhandle =>
      by_cases hless : Literal.hexNumber digits < UInt32.size
      · refine .pure ⟨hless, ?_⟩
        rw [show Literal.handleOfDigits? digits = some (UInt32.ofNat (Literal.hexNumber digits)) from
          if_pos hless] at hhandle
        cases hhandle
        rfl
      · rw [show Literal.handleOfDigits? digits = none from if_neg hless] at hhandle
        cases hhandle
    · exact .throw _
  | .name identifier => by
    unfold resolve Term.Resolvable Term.meaning
    exact .bind (resolveName_gives identifier) fun _ h => .pure h
  | .index target position => by
    unfold resolve Term.Resolvable Term.meaning
    exact .bind (resolve_gives target) fun _ htarget =>
      .bind (resolve_gives position) fun _ hposition =>
        .pure ⟨⟨htarget.1, hposition.1⟩, by rw [htarget.2, hposition.2]⟩
  | .unary op operand => by
    unfold resolve Term.Resolvable Term.meaning
    exact .bind (resolve_gives operand) fun _ h => .pure ⟨h.1, by rw [h.2, applyUnary_eq]⟩
  | .binary op left right => by
    unfold resolve Term.Resolvable Term.meaning
    exact .bind (resolve_gives left) fun _ hleft => .bind (resolve_gives right) fun _ hright =>
      .pure ⟨⟨hleft.1, hright.1⟩, by rw [hleft.2, hright.2]⟩
  | .assign identifier positions op value => by
    unfold resolve Term.Resolvable Term.meaning
    exact .bind (resolve_gives value) fun _ hvalue =>
      .bind (resolveName_gives identifier) fun _ htarget =>
        .bind (resolveList_gives positions) fun _ hpositions =>
          .pure ⟨⟨htarget.1, hpositions.1, hvalue.1⟩,
            by rw [assignTo_eq, hvalue.2, htarget.2, hpositions.2]⟩
  | .call identifier arguments => by
    unfold resolve Term.Resolvable Term.meaning
    refine .bind (resolveList_gives arguments) fun found h => ?_
    intro before e after hrun
    rcases resolveCall_gives identifier found before e after hrun with ⟨hadmits, he⟩
    rw [h.2, Written.length_meanings] at hadmits
    exact ⟨⟨hadmits, h.1⟩, by rw [he, h.2]⟩

/-- So it is with lists of terms. -/
theorem resolveList_gives : (terms : List Term) → Resolve.Gives
    (fun es => Term.AllResolvable scope terms ∧ es = Term.meanings scope terms)
    (resolveList scope terms)
  | [] => by
    unfold resolveList Term.AllResolvable Term.meanings
    exact .pure ⟨trivial, rfl⟩
  | term :: rest => by
    unfold resolveList Term.AllResolvable Term.meanings
    exact .bind (resolve_gives term) fun _ hfirst => .bind (resolveList_gives rest) fun _ hothers =>
      .pure ⟨⟨hfirst.1, hothers.1⟩, by rw [hfirst.2, hothers.2]⟩

end

/-! ## The code of a text -/

/-- The code of a text, if it compiles. -/
def codeOf (scope : Scope) (source : List Char) : Option Expr :=
  match (compile scope source).run .empty with
  | .ok code _ => some code
  | .error _ _ => none

/-- A text compiles exactly if it is a text of a term that means something, to what the term stands
for, whatever was referred to before. -/
theorem run_compile_iff {source : List Char} {code : Expr} (before : References) :
    (∃ after, (compile scope source).run before = .ok code after) ↔
      ∃ term, Spread .expression term source ∧ term.Resolvable scope ∧ code = term.meaning scope := by
  constructor
  · rintro ⟨after, hrun⟩
    unfold compile at hrun
    split at hrun
    · cases hrun
    · next term hparse =>
      exact ⟨term, Term.parse_eq_ok_iff.1 hparse, resolve_gives term _ _ _ hrun⟩
  · rintro ⟨term, ⟨start, w, last, hstart, hw, hlast, rfl⟩, hterm, rfl⟩
    unfold compile
    rw [Term.parse_of_written hstart hw hlast]
    exact hw.resolve_answers hterm before

/-- The texts that have code. -/
theorem codeOf_eq_some_iff {source : List Char} {code : Expr} : codeOf scope source = some code ↔
    ∃ term, Spread .expression term source ∧ term.Resolvable scope ∧ code = term.meaning scope := by
  rw [← run_compile_iff .empty]
  unfold codeOf
  split
  · next found after hrun =>
    rw [hrun]
    constructor
    · rintro ⟨⟩
      exact ⟨after, rfl⟩
    · rintro ⟨_, ⟨⟩⟩
      rfl
  · next hrun =>
    rw [hrun]
    constructor
    · rintro ⟨⟩
    · rintro ⟨_, ⟨⟩⟩

/-- What compiling a text answers, whatever was referred to before. -/
theorem run_compile (scope : Scope) (source : List Char) (before : References) :
    (∃ code after, codeOf scope source = some code ∧
      (compile scope source).run before = .ok code after) ∨
    ∃ e after, codeOf scope source = none ∧ (compile scope source).run before = .error e after := by
  cases hrun : (compile scope source).run before with
  | ok code after =>
    exact .inl ⟨code, after, codeOf_eq_some_iff.2 ((run_compile_iff before).1 ⟨after, hrun⟩), rfl⟩
  | error e after =>
    refine .inr ⟨e, after, Option.eq_none_iff_forall_ne_some.2 fun code hcode => ?_, rfl⟩
    rcases (run_compile_iff before).2 (codeOf_eq_some_iff.1 hcode) with ⟨last, hok⟩
    rw [hrun] at hok
    cases hok

end Expr

/-! ## The code of nodes -/

/-- The code of the expression of a node. -/
def Node.translation (scope : Scope) (node : Node) : Option Expr :=
  node.expression.bind (Expr.codeOf scope)

/-- A node with an expression has the code of the expression among translated nodes. -/
theorem Node.exists_translated {scope : Scope} {nodes coded : Array Node}
    (h : ∀ id : Nat, coded[id]? = nodes[id]?.map fun node =>
      { node with code := node.translation scope })
    {id : Nat} {node : Node} {text : List Char} (hnode : nodes[id]? = some node)
    (htext : node.expression = some text) : ∃ found, coded[id]? = some found ∧ found.kind = node.kind ∧
      found.line = node.line ∧ found.expression = some text ∧ found.code = Expr.codeOf scope text := by
  refine ⟨{ node with code := node.translation scope }, ?_, rfl, rfl, htext, ?_⟩
  · rw [h, hnode, Option.map_some]
  · dsimp only
    rw [translation, htext, Option.bind_some]

namespace Compilation

variable {scope : Scope}

/-- Nodes have the code of their own expressions if they are among some of them, and none otherwise. -/
structure Translates (scope : Scope) (nodes : Array Node) (ids : List Nat) (after : Compilation) :
    Prop where
  node : ∀ id : Nat, after.nodes[id]? = nodes[id]?.map fun node =>
    { node with code := if id ∈ ids then node.translation scope else none }
  diagnostic : ∀ id ∈ ids, ∀ node, nodes[id]? = some node → node.translation scope = none →
    ∃ e, ⟨node.line, .expression e⟩ ∈ after.diagnostics

variable {nodes : Array Node} {done : List Nat} {before after : Compilation}

/-- Compiling a node changes its code only, to that of its expression, unless it has none. -/
theorem compileNode_changes {id : Nat} (hcompile : compileNode scope before id = .ok after) :
    ∃ node, before.nodes[id]? = some node ∧
      after.nodes[id]? = some { node with code := (node.translation scope).or node.code } ∧
      (∀ other, other ≠ id → after.nodes[other]? = before.nodes[other]?) ∧
      (∀ diagnostic ∈ before.diagnostics, diagnostic ∈ after.diagnostics) ∧
      (node.translation scope = none → ∃ e, ⟨node.line, .expression e⟩ ∈ after.diagnostics) := by
  unfold compileNode at hcompile
  cases hnode : before.nodes[id]? with
  | none =>
    rw [hnode] at hcompile
    cases hcompile
  | some node =>
    rw [hnode] at hcompile
    simp only at hcompile
    have hlt : id < before.nodes.size := (Array.getElem?_eq_some_iff.1 hnode).1
    refine ⟨node, rfl, ?_⟩
    cases hexpression : node.expression with
    | none =>
      rw [hexpression] at hcompile
      cases hcompile
    | some source =>
      rw [hexpression] at hcompile
      simp only at hcompile
      have htranslation : node.translation scope = Expr.codeOf scope source := by
        rw [Node.translation, hexpression, Option.bind_some]
      rw [htranslation]
      rcases Expr.run_compile scope source before.references with
        ⟨code, references, hcode, hrun⟩ | ⟨e, references, hcode, hrun⟩
      · rw [hrun] at hcompile
        cases hcompile
        refine ⟨?_, fun other hother => Array.getElem?_setIfInBounds_ne (Ne.symm hother),
          fun _ hdiagnostic => hdiagnostic, fun hnone => ?_⟩
        · rw [Array.getElem?_setIfInBounds_self_of_lt hlt, hcode]
          simp
        · rw [hcode] at hnone
          cases hnone
      · rw [hrun] at hcompile
        cases hcompile
        refine ⟨?_, fun _ _ => rfl, fun _ hdiagnostic => List.mem_append_left _ hdiagnostic,
          fun _ => ⟨e, by simp⟩⟩
        rw [hnode, hcode, Option.none_or, ← hexpression]

/-- Compiling a node gives it the code of its expression. -/
theorem translates_compileNode (h : Translates scope nodes done before) {id : Nat}
    (hcompile : compileNode scope before id = .ok after) :
    Translates scope nodes (done ++ [id]) after := by
  rcases compileNode_changes hcompile with ⟨found, hfound, hself, hothers, hkept, hdiagnostic⟩
  rw [h.node id] at hfound
  rcases Option.map_eq_some_iff.1 hfound with ⟨node, hnode, rfl⟩
  have hmore : ∀ other, other ≠ id → (other ∈ done ++ [id] ↔ other ∈ done) := by
    intro other hother
    simp [hother]
  constructor
  · intro other
    by_cases hother : other = id
    · rw [hother, hself, hnode]
      cases hcode : node.translation scope <;> simp_all [Node.translation]
    · rw [hothers other hother, h.node other]
      simp only [hmore other hother]
  · intro other hmem node' hnode' hnone
    by_cases hother : other = id
    · rw [hother, hnode] at hnode'
      cases hnode'
      exact hdiagnostic hnone
    · rcases h.diagnostic other ((hmore other hother).1 hmem) node' hnode' hnone with ⟨e, he⟩
      exact ⟨e, hkept _ he⟩

/-- So does compiling one node after the other. -/
theorem translates_foldlM (ids : List Nat) (h : Translates scope nodes done before)
    (hcompile : ids.foldlM (compileNode scope) before = .ok after) :
    Translates scope nodes (done ++ ids) after := by
  induction ids generalizing done before with
  | nil =>
    cases hcompile
    rwa [List.append_nil]
  | cons first rest ih =>
    rw [List.foldlM_cons] at hcompile
    cases hfirst : compileNode scope before first with
    | error fault =>
      rw [hfirst] at hcompile
      cases hcompile
    | ok next =>
      rw [hfirst] at hcompile
      have hrest := ih (translates_compileNode h hfirst) hcompile
      rwa [List.append_assoc] at hrest

/-- Every node of the tree of a script gets the code of its expression. -/
theorem translates_ofTree {globals : Globals} {script : Script} (hscript : script.Conforms globals)
    (hcompile : ofTree scope script.tree = .ok after) :
    (∀ id : Nat, after.nodes[id]? = script.tree.nodes[id]?.map fun node =>
      { node with code := node.translation scope }) ∧
    (∀ (id : Nat) (node : Node), script.tree.nodes[id]? = some node → node.expression.isSome = true →
      node.translation scope = none → ∃ e, ⟨node.line, .expression e⟩ ∈ after.diagnostics) := by
  have hstart : Translates scope script.tree.nodes [] ⟨script.tree.nodes, .empty, []⟩ := by
    refine ⟨fun id => ?_, fun id hid => absurd hid List.not_mem_nil⟩
    cases hnode : script.tree.nodes[id]? with
    | none => rfl
    | some node =>
      have hcode := script.code_tree hnode
      rcases node with ⟨kind, expression, text, line, children, code⟩
      simp only at hcode
      simp [hcode]
  have hall := translates_foldlM _ hstart hcompile
  rw [List.nil_append] at hall
  have hvisited : ∀ (id : Nat) (node : Node), script.tree.nodes[id]? = some node →
      node.expression.isSome = true → id ∈ script.tree.visits := by
    intro id node hnode hexpression
    have hkind := ((Script.tree_sound hscript).nodes id node hnode).expression
    rw [hexpression] at hkind
    exact script.mem_visits ⟨node, hnode, hkind.symm⟩
  refine ⟨fun id => ?_, fun id node hnode hexpression hnone =>
    hall.diagnostic id (hvisited id node hnode hexpression) node hnode hnone⟩
  rw [hall.node id]
  cases hnode : script.tree.nodes[id]? with
  | none => rfl
  | some node =>
    cases hexpression : node.expression with
    | none =>
      have hnone : node.translation scope = none := by
        rw [Node.translation, hexpression, Option.bind_none]
      simp [hnone]
    | some source =>
      rw [Option.map_some, Option.map_some, if_pos (hvisited id node hnode (by simp [hexpression]))]

end Compilation

namespace Program

/-- A program with a tree is compiled from a script.  Its nodes are those of the script, with the code
of their expressions, and an expression without code leaves a diagnostic. -/
theorem exists_translation {globals : Globals} {commands : CommandTable} {id : Nat}
    {path : Option String} {source : List Char} {program : Program}
    (h : compile globals commands id path source = .ok program) {tree : Tree}
    (htree : program.tree = some tree) :
    ∃ script : Script, script.Derives globals (logicalLines source) ∧
      program.declarations = script.declaredVariables ∧ program.parameters = script.parameters ∧
      tree.root = script.tree.root ∧ tree.initializers = script.tree.initializers ∧
      (∀ id : Nat, tree.nodes[id]? = script.tree.nodes[id]?.map fun node =>
        { node with code := node.translation (program.scope globals commands) }) ∧
      ∀ (id : Nat) (node : Node), script.tree.nodes[id]? = some node → node.expression.isSome = true →
        node.translation (program.scope globals commands) = none →
          program.state = .compileError ∧ ∃ e, ⟨node.line, .expression e⟩ ∈ program.diagnostics := by
  rcases exists_ofTree h htree with
    ⟨script, compilation, hscript, hdeclared, hparameters, hcode, rfl, -, hstate, hreported⟩
  rcases Compilation.translates_ofTree hscript.2 hcode with ⟨hnodes, hdiagnostics⟩
  refine ⟨script, hscript, hdeclared, hparameters, rfl, rfl, hnodes, ?_⟩
  intro id node hnode hexpression hnone
  rcases hdiagnostics id node hnode hexpression hnone with ⟨e, he⟩
  refine ⟨?_, e, hreported _ he⟩
  have hsome : compilation.diagnostics.isEmpty = false := by
    cases hempty : compilation.diagnostics with
    | nil =>
      rw [hempty] at he
      cases he
    | cons first rest => rfl
  rw [hstate, hsome]
  rfl

end Program
end ScriptMachine
