import ScriptMachine.Proofs.Balance
import ScriptMachine.Proofs.Linkage
import ScriptMachine.Script.Compile

/-!
# Compilation always answers

Whatever the text, compiling it ends with a program: every cut into a line is made between
two characters of it, the lines can be read, with two stacks as well, every number in the tree
leads to a node, and every node that is visited has an expression.  The code of a node is all
that compiling its expression changes.  The program is valid if and only if nothing was
reported, and then every evaluated node has its code.

Main results:

- {lit}`Source.logicalLines_sayable`: the cuts into the lines of a text succeed.
- {lit}`Compilation.foldlM_compileNode`: nodes with expressions are compiled.
- {lit}`Program.compile_answers`: compilation always answers.
- {lit}`Program.finished_of_compile`: the tree of a valid program is sound and has its code.
-/

namespace ScriptMachine

open Source Text

/-! ## Lines of a text -/

namespace Source

/-- What is cut off a line is there: the tokens and the text behind its keyword and the text from
any of its tokens on.  Its number is that of a physical line. -/
structure Line.Sayable (count : Nat) (line : Line) : Prop where
  number : 1 ≤ line.number ∧ line.number ≤ count
  keyword : ∀ keyword, line.keyword? = some keyword →
    1 ≤ line.tokens.length ∧ ∃ text, keyword.remainder? line.text = some text
  token : ∀ token ∈ line.tokens,
    ∃ text, dropBytes? token.offset (clean .everything line.text) = some text

/-- Physical lines are counted from one. -/
theorem number_of_mem_physicalLines {source : List Char} {line : Line}
    (h : line ∈ physicalLines source) : 1 ≤ line.number ∧ line.number ≤ (lines source).length := by
  rcases List.mem_filterMap.1 h with ⟨⟨text, number⟩, hmem, hline⟩
  simp only at hline
  split at hline
  · cases hline
  · cases hline
    have hbounds := List.mem_zipIdx hmem
    rw [List.length_map] at hbounds
    simp only
    omega

/-- A joined line has the number of one of the lines that were joined. -/
theorem number_of_mem_foldContinuations {unfinished : Option Line} {physical : List Line}
    {line : Line} (h : line ∈ foldContinuations unfinished physical) :
    line.number ∈ (unfinished.toList ++ physical).map Line.number := by
  induction physical generalizing unfinished with
  | nil =>
    rw [List.append_nil]
    exact List.mem_map_of_mem h
  | cons next rest ih =>
    have hjoined : (joinLine unfinished next).number ∈
        (unfinished.toList ++ next :: rest).map Line.number := by
      cases unfinished <;> simp [joinLine]
    have hbehind : line.number ∈ rest.map Line.number →
        line.number ∈ (unfinished.toList ++ next :: rest).map Line.number := by
      intro hrest
      rw [List.map_append]
      exact List.mem_append_right _ (List.mem_cons_of_mem _ hrest)
    unfold foldContinuations at h
    split at h
    · have hmem := ih h
      simp only [Option.toList_some, List.singleton_append, List.map_cons] at hmem
      rcases List.mem_cons.1 hmem with hsame | hrest
      · rw [hsame]
        exact hjoined
      · exact hbehind hrest
    · rcases List.mem_cons.1 h with rfl | hrest
      · exact hjoined
      · exact hbehind (ih hrest)

/-- A line with a keyword has a token to spell it. -/
theorem Line.length_tokens_pos {line : Line} {keyword : Keyword}
    (h : line.keyword? = some keyword) : 1 ≤ line.tokens.length := by
  unfold Line.keyword? at h
  cases htokens : line.tokens with
  | nil =>
    rw [htokens] at h
    cases h
  | cons first rest => exact Nat.le_add_left 1 rest.length

/-- What is cut off the lines of a text is there. -/
theorem logicalLines_sayable (source : List Char) :
    ∀ line ∈ logicalLines source, line.Sayable (lines source).length := by
  intro line hline
  refine ⟨?_, fun _ hkeyword => ⟨Line.length_tokens_pos hkeyword, Line.exists_remainder hkeyword⟩,
    fun _ => Line.exists_fromToken⟩
  rcases List.mem_filterMap.1 hline with ⟨joined, hmem, hexpanded⟩
  have hnumber : line.number = joined.number := by
    split at hexpanded
    · cases hexpanded
    · cases hexpanded
      rfl
  have hphysical := number_of_mem_foldContinuations hmem
  rw [Option.toList_none, List.nil_append, ← hnumber] at hphysical
  rcases List.mem_map.1 hphysical with ⟨physical, hmem, hsame⟩
  rw [← hsame]
  exact number_of_mem_physicalLines hmem

end Source

/-! ## Nodes of the same shape -/

/-- A node apart from its code. -/
def Node.bare (node : Node) : Node :=
  { node with code := none }

/-- Nodes are the same apart from their code. -/
def SameShape (nodes later : Array Node) : Prop :=
  ∀ id : Nat, nodes[id]?.map Node.bare = later[id]?.map Node.bare

/-- A node has code. -/
def HasCode (nodes : Array Node) (id : Nat) : Prop :=
  ∃ node, nodes[id]? = some node ∧ node.code.isSome = true

section Shapes

variable {nodes later : Array Node} {slots : Nat}

/-- A node is found again among nodes of the same shape. -/
theorem SameShape.find (h : SameShape nodes later) {id : Nat} {node : Node}
    (hnode : nodes[id]? = some node) :
    ∃ other, later[id]? = some other ∧ other.kind = node.kind ∧ other.children = node.children ∧
      other.expression = node.expression := by
  have hsame := h id
  rw [hnode] at hsame
  rcases Option.map_eq_some_iff.1 hsame.symm with ⟨other, hother, hbare⟩
  have hkind : other.bare.kind = node.bare.kind := by rw [hbare]
  have hchildren : other.bare.children = node.bare.children := by rw [hbare]
  have hexpression : other.bare.expression = node.bare.expression := by rw [hbare]
  exact ⟨other, hother, hkind, hchildren, hexpression⟩

/-- Numbers lead to the same kinds among nodes of the same shape. -/
theorem Leads.of_sameShape {fits : NodeKind → Prop} {id : Nat} (hid : Leads nodes fits id)
    (h : SameShape nodes later) : Leads later fits id := by
  rcases hid with ⟨node, hnode, hkind⟩
  rcases h.find hnode with ⟨other, hother, hsame, -, -⟩
  exact ⟨other, hother, hsame ▸ hkind⟩

/-- A tree stays sound when only code changes. -/
theorem Tree.Sound.of_sameShape {tree : Tree} (hsound : tree.Sound slots)
    (h : SameShape tree.nodes later) : { tree with nodes := later }.Sound slots where
  root := hsound.root.of_sameShape h
  nodes := by
    intro id node hnode
    have hback : SameShape later tree.nodes := fun id => (h id).symm
    rcases hback.find hnode with ⟨old, hold, hkind, hchildren, hexpression⟩
    rcases hsound.nodes id old hold with ⟨children, elseIfs, elseBranch, slot, expression⟩
    rw [hchildren] at children
    rw [hkind] at elseIfs elseBranch slot expression
    rw [hexpression] at expression
    exact ⟨fun id hid => (children id hid).of_sameShape h,
      fun id hid => (elseIfs id hid).of_sameShape h,
      fun id hid => (elseBranch id hid).of_sameShape h, slot, expression⟩
  initializers := fun id hid => (hsound.initializers id hid).of_sameShape h

/-- The code of a node is changed. -/
theorem SameShape.setCode {id : Nat} {node : Node} (hnode : nodes[id]? = some node) (code : Expr) :
    SameShape nodes (nodes.setIfInBounds id { node with code := some code }) := by
  have hlt : id < nodes.size := (Array.getElem?_eq_some_iff.1 hnode).1
  intro other
  by_cases hself : id = other
  · subst hself
    rw [hnode, Array.getElem?_setIfInBounds_self_of_lt hlt]
    rfl
  · rw [Array.getElem?_setIfInBounds_ne hself]

end Shapes

/-! ## Compiling nodes -/

namespace Compilation

/-- A compilation goes on: only code changes, and neither code nor diagnostics get lost. -/
structure GoesOn (before after : Compilation) : Prop where
  shape : SameShape before.nodes after.nodes
  code : ∀ id, HasCode before.nodes id → HasCode after.nodes id
  diagnostics : after.diagnostics = [] → before.diagnostics = []

/-- A compilation goes on from itself. -/
theorem GoesOn.refl (compilation : Compilation) : compilation.GoesOn compilation :=
  ⟨fun _ => rfl, fun _ => id, id⟩

/-- A compilation that goes on twice goes on. -/
theorem GoesOn.trans {first second third : Compilation} (h : first.GoesOn second)
    (h' : second.GoesOn third) : first.GoesOn third where
  shape := fun id => (h.shape id).trans (h'.shape id)
  code := fun id hid => h'.code id (h.code id hid)
  diagnostics := fun hnone => h.diagnostics (h'.diagnostics hnone)

/-- A node with an expression is compiled: it has code behind it, or there is a diagnostic. -/
theorem compileNode_of_expression (scope : Scope) (before : Compilation) {id : Nat} {node : Node}
    (hnode : before.nodes[id]? = some node) (hexpression : node.expression.isSome = true) :
    ∃ after, compileNode scope before id = .ok after ∧ before.GoesOn after ∧
      (after.diagnostics = [] → HasCode after.nodes id) := by
  rcases node with ⟨kind, text, expression, line, children, code⟩
  cases expression with
  | none => cases hexpression
  | some source =>
    unfold compileNode
    rw [hnode]
    simp only
    cases (Expr.compile scope source).run before.references with
    | ok compiled references =>
      let node : Node := ⟨kind, text, some source, line, children, some compiled⟩
      have hlt : id < before.nodes.size := (Array.getElem?_eq_some_iff.1 hnode).1
      have hcompiled : HasCode (before.nodes.setIfInBounds id node) id :=
        ⟨node, Array.getElem?_setIfInBounds_self_of_lt hlt, rfl⟩
      refine ⟨_, rfl, ⟨.setCode hnode compiled, fun other hother => ?_, fun hnone => hnone⟩,
        fun _ => hcompiled⟩
      by_cases hself : id = other
      · subst hself
        exact hcompiled
      · rcases hother with ⟨found, hfound, hcode⟩
        refine ⟨found, ?_, hcode⟩
        rw [Array.getElem?_setIfInBounds_ne hself]
        exact hfound
    | error e references =>
      have hsome : before.diagnostics ++ [⟨line, .expression e⟩] ≠ [] := by simp
      exact ⟨_, rfl, ⟨fun _ => rfl, fun _ hother => hother, fun hnone => absurd hnone hsome⟩,
        fun hnone => absurd hnone hsome⟩

/-- Nodes with expressions are compiled one after the other: all of them have code behind it, or
there are diagnostics. -/
theorem foldlM_compileNode (scope : Scope) (ids : List Nat) (before : Compilation)
    (h : ∀ id ∈ ids, ∃ node, before.nodes[id]? = some node ∧ node.expression.isSome = true) :
    ∃ after, ids.foldlM (compileNode scope) before = .ok after ∧ before.GoesOn after ∧
      (after.diagnostics = [] → ∀ id ∈ ids, HasCode after.nodes id) := by
  induction ids generalizing before with
  | nil =>
    refine ⟨before, rfl, .refl before, fun _ id hid => ?_⟩
    cases hid
  | cons first rest ih =>
    rcases h first (List.mem_cons_self ..) with ⟨node, hnode, hexpression⟩
    rcases compileNode_of_expression scope before hnode hexpression with
      ⟨next, hnext, hgoes, hfirst⟩
    have hrest : ∀ id ∈ rest,
        ∃ node, next.nodes[id]? = some node ∧ node.expression.isSome = true := by
      intro id hid
      rcases h id (List.mem_cons_of_mem _ hid) with ⟨node, hnode, hexpression⟩
      rcases hgoes.shape.find hnode with ⟨other, hother, -, -, hsame⟩
      exact ⟨other, hother, hsame ▸ hexpression⟩
    rcases ih next hrest with ⟨last, hlast, hgoes', hcompiled⟩
    refine ⟨last, ?_, hgoes.trans hgoes', fun hnone id hid => ?_⟩
    · rw [List.foldlM_cons, hnext]
      exact hlast
    · rcases List.mem_cons.1 hid with rfl | hid
      · exact hgoes'.code id (hfirst (hgoes'.diagnostics hnone))
      · exact hcompiled hnone id hid

/-- A sound tree is compiled. -/
theorem ofTree_of_sound (scope : Scope) {tree : Tree} {slots : Nat} (h : tree.Sound slots) :
    ∃ compilation, ofTree scope tree = .ok compilation ∧
      SameShape tree.nodes compilation.nodes ∧
      (compilation.diagnostics = [] → ∀ id ∈ tree.visits, HasCode compilation.nodes id) := by
  have hexpressions : ∀ id ∈ tree.visits,
      ∃ node, tree.nodes[id]? = some node ∧ node.expression.isSome = true := by
    intro id hid
    rcases h.of_mem_visits id hid with ⟨node, hnode, hkind⟩
    exact ⟨node, hnode, by rw [(h.nodes id node hnode).expression, hkind]⟩
  rcases foldlM_compileNode scope tree.visits ⟨tree.nodes, .empty, []⟩ hexpressions with
    ⟨compilation, hcompiled, hgoes, hcode⟩
  exact ⟨compilation, hcompiled, hgoes.shape, hcode⟩

end Compilation

/-! ## Compiling programs -/

/-- Every evaluated node of a tree has its code. -/
def Tree.IsCompiled (tree : Tree) : Prop :=
  ∀ (id : Nat) (node : Node), tree.nodes[id]? = some node → node.kind.isEvaluated = true →
    node.code.isSome = true

namespace Program

/-- A finished program: it is valid if and only if nothing was reported.  Its tree is sound, and
a valid program has a tree with all its code. -/
structure Finished (program : Program) : Prop where
  state : program.state = if program.diagnostics.isEmpty then .valid else .compileError
  sound : ∀ tree, program.tree = some tree → tree.Sound program.declarations.length
  compiled : program.state = .valid → ∃ tree, program.tree = some tree ∧ tree.IsCompiled

/-- A parsed script is compiled to a finished program. -/
theorem generate_of_conforms {globals : Globals} {script : Script} (h : script.Conforms globals)
    (commands : CommandTable) {program : Program} (hstate : program.state = .parsed)
    (htree : program.tree = some script.tree)
    (hdeclared : program.declarations = script.declaredVariables)
    (hdiagnostics : program.diagnostics = []) :
    ∃ finished, program.generate globals commands = .ok finished ∧ finished.Finished := by
  have hsound := Script.tree_sound h
  rcases Compilation.ofTree_of_sound (program.scope globals commands) hsound with
    ⟨compilation, hcompiled, hshape, hcode⟩
  have hsound' := hsound.of_sameShape hshape
  rw [← hdeclared] at hsound'
  unfold generate
  rw [if_pos hstate, htree]
  simp only [hcompiled, bind, Except.bind]
  refine ⟨_, rfl, ?_, ?_, ?_⟩
  · simp only [hdiagnostics, List.nil_append]
  · intro tree hfound
    cases hfound
    exact hsound'
  · intro hvalid
    refine ⟨_, rfl, ?_⟩
    have hnone : compilation.diagnostics = [] := by
      simp only at hvalid
      split at hvalid
      · next hempty => exact List.isEmpty_iff.1 hempty
      · cases hvalid
    intro id node hnode hkind
    have hback : Leads script.tree.nodes (fun kind => kind.isEvaluated = true) id :=
      Leads.of_sameShape ⟨node, hnode, hkind⟩ fun id => (hshape id).symm
    rcases hcode hnone id (script.mem_visits hback) with ⟨found, hfound, hsome⟩
    rw [hnode] at hfound
    cases hfound
    exact hsome

/-- Compilation always ends with a finished program. -/
theorem exists_compile (globals : Globals) (commands : CommandTable) (id : Nat)
    (path : Option String) (source : List Char) :
    ∃ program, compile globals commands id path source = .ok program ∧ program.Finished := by
  rcases exists_readLines globals (logicalLines source) with ⟨last, hread⟩
  generalize hfinished : last.finish
    (((logicalLines source).getLast?.map Line.number).getD 1) = finished
  rcases parse_of_read (fresh id path) hread hfinished with
    ⟨parsed, hparsed, htree, hstate, hdiagnostics⟩
  rw [show (fresh id path).diagnostics = [] from rfl, List.nil_append] at hdiagnostics
  unfold compile
  simp only [hparsed, bind, Except.bind]
  cases hbroken : finished.isBroken with
  | true =>
    -- What was not parsed stays as it is.
    rw [hbroken] at htree
    have hbad : parsed.state = .compileError := by
      rw [hstate, htree]
      rfl
    have hnotree : parsed.tree = none := Option.not_isSome_iff_eq_none.1 (by rw [htree]; simp)
    unfold generate
    rw [if_neg (by rw [hbad]; simp)]
    refine ⟨parsed, rfl, ?_, ?_, ?_⟩
    · have hsome : finished.diagnostics.isEmpty = false := by
        simpa [Outline.isBroken] using hbroken
      rw [hbad, hdiagnostics, hsome]
      rfl
    · intro tree hfound
      rw [hnotree] at hfound
      cases hfound
    · intro hvalid
      rw [hbad] at hvalid
      cases hvalid
  | false =>
    rw [← hfinished] at hbroken
    rcases of_isBroken_finish hbroken with ⟨_, hfine, hclosed, hroot⟩
    rcases Script.recognise hread hfine hclosed hroot with ⟨script, hscript⟩
    rcases hscript.parse hparsed with ⟨hgood, hfound, -, hdeclared, -⟩
    refine generate_of_conforms hscript.2 commands hgood hfound hdeclared ?_
    rw [hfinished] at hbroken
    rw [hdiagnostics]
    simpa [Outline.isBroken] using hbroken

/-- Compilation always answers.  All cuts into the lines of the text succeed; reading the lines
with two stacks and compiling the tree end without a fault, and all numbers in the tree lead to
nodes.  The program is valid if nothing was reported, and a compile error otherwise. -/
theorem compile_answers (globals : Globals) (commands : CommandTable) (id : Nat)
    (path : Option String) (source : List Char) :
    (∀ line ∈ logicalLines source, line.Sayable (lines source).length) ∧
      ∃ parsed program,
        StackReader.parse globals (fresh id path) (logicalLines source) = .ok parsed ∧
        parsed.generate globals commands = .ok program ∧
        compile globals commands id path source = .ok program ∧
        program.state = (if program.diagnostics.isEmpty then .valid else .compileError) ∧
        ∀ tree, program.tree = some tree → tree.Sound program.declarations.length := by
  refine ⟨logicalLines_sayable source, ?_⟩
  rcases exists_compile globals commands id path source with ⟨program, hcompile, hfinished⟩
  have hsteps := hcompile
  unfold compile at hsteps
  rw [StackReader.parse_eq]
  cases hparsed : (fresh id path).parse globals (logicalLines source) with
  | error fault =>
    rw [hparsed] at hsteps
    cases hsteps
  | ok parsed =>
    rw [hparsed] at hsteps
    exact ⟨parsed, program, rfl, hsteps, hcompile, hfinished.state, hfinished.sound⟩

/-- A program that was compiled is finished. -/
theorem finished_of_compile {globals : Globals} {commands : CommandTable} {id : Nat}
    {path : Option String} {source : List Char} {program : Program}
    (h : compile globals commands id path source = .ok program) : program.Finished := by
  rcases exists_compile globals commands id path source with ⟨found, hfound, hfinished⟩
  rw [h] at hfound
  cases hfound
  exact hfinished

/-- A program with a tree is compiled from a script: the expressions in the tree of the script are
compiled, and the program is valid if nothing was reported about them. -/
theorem exists_ofTree {globals : Globals} {commands : CommandTable} {id : Nat}
    {path : Option String} {source : List Char} {program : Program}
    (h : compile globals commands id path source = .ok program) {tree : Tree}
    (htree : program.tree = some tree) :
    ∃ (script : Script) (compilation : Compilation), script.Derives globals (logicalLines source) ∧
      program.declarations = script.declaredVariables ∧ program.parameters = script.parameters ∧
      Compilation.ofTree (program.scope globals commands) script.tree = .ok compilation ∧
      tree = { script.tree with nodes := compilation.nodes } ∧
      program.references = some compilation.references ∧
      program.state = (if compilation.diagnostics.isEmpty then .valid else .compileError) ∧
      ∀ diagnostic ∈ compilation.diagnostics, diagnostic ∈ program.diagnostics := by
  unfold compile at h
  cases hparsed : (fresh id path).parse globals (logicalLines source) with
  | error fault =>
    rw [hparsed] at h
    cases h
  | ok parsed =>
    rw [hparsed] at h
    simp only [bind, Except.bind, generate] at h
    by_cases hstate : parsed.state = .parsed
    · rcases exists_derives hparsed hstate with ⟨script, hscript⟩
      rcases hscript.parse hparsed with ⟨-, hfound, -, hdeclared, hparameters⟩
      rw [if_pos hstate, hfound] at h
      simp only at h
      cases hcode : Compilation.ofTree (parsed.scope globals commands) script.tree with
      | error fault =>
        rw [hcode] at h
        cases h
      | ok compilation =>
        rw [hcode] at h
        cases h
        cases htree
        exact ⟨script, compilation, hscript, hdeclared, hparameters, hcode, rfl, rfl, rfl,
          fun diagnostic hmem => List.mem_append_right _ hmem⟩
    · rw [if_neg hstate] at h
      cases h
      rw [tree_of_not_parsed hparsed hstate] at htree
      cases htree

/-- A program keeps the number under which it is compiled. -/
theorem id_of_compile {globals : Globals} {commands : CommandTable} {id : Nat} {path : Option String}
    {source : List Char} {program : Program}
    (h : compile globals commands id path source = .ok program) : program.id = id := by
  unfold compile at h
  cases hparsed : (fresh id path).parse globals (logicalLines source) with
  | error fault =>
    rw [hparsed] at h
    cases h
  | ok parsed =>
    have hid : parsed.id = id := by
      unfold parse at hparsed
      cases hread : Outline.readLines globals (logicalLines source) with
      | error fault =>
        rw [hread] at hparsed
        cases hparsed
      | ok outline =>
        rw [hread] at hparsed
        cases hparsed
        rfl
    rw [hparsed] at h
    simp only [bind, Except.bind, generate] at h
    split at h
    · split at h
      · cases h
      · next tree _ =>
        cases hcode : Compilation.ofTree (parsed.scope globals commands) tree with
        | error fault =>
          rw [hcode] at h
          cases h
        | ok compilation =>
          rw [hcode] at h
          cases h
          exact hid
    · cases h
      exact hid

end Program
end ScriptMachine
