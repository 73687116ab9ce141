import ScriptMachine.Proofs.Outlining

/-!
# Letter case makes no difference

Names, keywords, digits and everything else outside of string literals may be written in capitals or
in small letters.  A script compiles to the same program either way: the same variables, parameters
and nodes with the same code, and the same references.

Main results:

- {lit}`Source.Recased`: sources that differ in letter case outside of string literals.
- {lit}`Compilation.ofTree_alike`: trees that are alike compile to the same code.
- {lit}`Program.compile_recased`: recased sources compile to programs that are alike.
-/

namespace ScriptMachine

open Text Source

/-! ## Recased sources -/

/-- Two sources that differ in the case of ASCII letters only, and outside of string literals only: the
string literals in the expressions of their lines are the same. -/
structure Source.Recased (s t : List Char) : Prop where
  letters : lower s = lower t
  literals : (logicalLines s).map (fun line => quoted line.expression) =
    (logicalLines t).map fun line => quoted line.expression

/-- The logical lines of recased sources. -/
theorem Source.Recased.lines {s t : List Char} (h : Recased s t) :
    (logicalLines s).map Line.lower = (logicalLines t).map Line.lower := by
  rw [← logicalLines_lower, h.letters, logicalLines_lower]

/-! ## Trees -/

namespace Tree

/-- A tree without the sources of its nodes, and with the normal forms of their expressions. -/
def normal (tree : Tree) : Tree :=
  { tree with nodes := tree.nodes.map Node.normal }

/-- The order of compilation does not depend on texts. -/
theorem visitsFrom_normal (nodes : Array Node) (depth id : Nat) :
    visitsFrom (nodes.map Node.normal) depth id = visitsFrom nodes depth id := by
  induction depth generalizing id with
  | zero => rfl
  | succ depth ih =>
    have hchildren : visitsFrom (nodes.map Node.normal) depth = visitsFrom nodes depth := funext ih
    rw [visitsFrom, visitsFrom, Array.getElem?_map, hchildren]
    cases nodes[id]? with
    | none => rfl
    | some node => rfl

/-- Trees that are alike are compiled in the same order. -/
theorem visits_normal (tree : Tree) : tree.normal.visits = tree.visits := by
  simp [visits, normal, visitsFrom_normal]

end Tree

namespace Outline

/-- The nodes of initializers depend on the normal forms of the variables only. -/
theorem normal_initializerNodes (outline : Outline) :
    outline.initializerNodes.map Node.normal =
      (outline.declarations.map Variable.normal).zipIdx.filterMap fun (declared, slot) =>
        if outline.parameters.contains slot then none
        else declared.initializer.map fun text =>
          newNode .expression ⟨declared.line, []⟩ (some text) := by
  unfold initializerNodes
  rw [List.map_filterMap, List.zipIdx_map, List.filterMap_map]
  congr 1
  funext (declared, slot)
  simp only [Function.comp_apply, Prod.map, id, Variable.normal]
  split
  · rfl
  · rw [Option.map_map, Option.map_map]
    rfl

/-- Outlines that are alike have trees that are alike. -/
theorem Alike.tree? {first second : Outline} (h : first.Alike second) :
    first.tree?.map Tree.normal = second.tree?.map Tree.normal := by
  have hadded : first.initializerNodes.map Node.normal = second.initializerNodes.map Node.normal := by
    rw [normal_initializerNodes, normal_initializerNodes, h.declarations, h.parameters]
  have hlength := congrArg List.length hadded
  rw [List.length_map, List.length_map] at hlength
  unfold Outline.tree?
  rw [h.isBroken, h.root]
  split
  · rfl
  · cases second.root with
    | none => rfl
    | some root =>
      simp only [Option.map_some, Tree.normal, Array.map_append, List.map_toArray, h.nodes, hadded,
        hlength, h.size]

end Outline

/-! ## Compiling nodes -/

namespace Compilation

/-- Compilations that have come as far: the same code and references, and a diagnostic in both or in
none of them. -/
structure Alike (first second : Compilation) : Prop where
  nodes : first.nodes.map Node.normal = second.nodes.map Node.normal
  references : first.references = second.references
  isEmpty : first.diagnostics.isEmpty = second.diagnostics.isEmpty

/-- A node is compiled to the same code, or to none. -/
theorem compileNode_alike (scope : Scope) {first second : Compilation} (h : first.Alike second)
    (id : Nat) : Together Alike (compileNode scope first id) (compileNode scope second id) := by
  have hfind : first.nodes[id]?.map Node.normal = second.nodes[id]?.map Node.normal := by
    rw [← Array.getElem?_map, h.nodes, Array.getElem?_map]
  unfold compileNode
  rcases both_of_map_eq hfind with ⟨hnone, hnone'⟩ | ⟨node, node', hnode, hnode', hsame⟩
  · rw [hnone, hnone']
    exact .error _ _
  rw [hnode, hnode']
  simp only [Node.normal, Node.mk.injEq] at hsame
  rcases hsame with ⟨hkind, -, hexpression, hline, hchildren, hcode⟩
  rcases both_of_map_eq hexpression with ⟨hnone, hnone'⟩ | ⟨text, text', htext, htext', hsame⟩
  · simp only [hnone, hnone']
    exact .error _ _
  simp only [htext, htext', h.references]
  rcases (Expr.compile_same scope hsame).answers second.references with
    ⟨code, references, hrun, hrun'⟩ | ⟨e, e', references, hrun, hrun'⟩
  · rw [hrun, hrun']
    refine .ok { h with nodes := ?_, references := rfl }
    simp only [Array.map_setIfInBounds, h.nodes, Node.normal, hkind, hline, hchildren, Option.map_some,
      hsame]
  · have hsome : ∀ (found : List Diagnostic) (d : Diagnostic), (found ++ [d]).isEmpty = false := by
      intro found d
      simp
    rw [hrun, hrun']
    refine .ok { h with references := rfl, isEmpty := ?_ }
    rw [hsome, hsome]

/-- Trees that are alike compile to the same code. -/
theorem ofTree_alike (scope : Scope) {tree tree' : Tree} (h : tree.normal = tree'.normal) :
    Together Alike (ofTree scope tree) (ofTree scope tree') := by
  have hnodes : tree.nodes.map Node.normal = tree'.nodes.map Node.normal := by
    have hnodes := congrArg Tree.nodes h
    exact hnodes
  have hvisits : tree.visits = tree'.visits := by
    rw [← Tree.visits_normal, h, Tree.visits_normal]
  unfold ofTree
  refine Together.foldlM (k := id) (fun first second visited visited' halike hvisited => ?_)
    (by rw [hvisits]) ⟨hnodes, rfl, rfl⟩
  have hsame : visited = visited' := hvisited
  rw [hsame]
  exact compileNode_alike scope halike visited'

end Compilation

/-! ## Compiling programs -/

namespace Program

/-- Two programs that are the same but for their names, the texts they were made from and what was said
about mistakes in them: they have come as far, with the same variables, parameters, interval and
references, and with trees of the same nodes, kind by kind and code by code. -/
structure Alike (p q : Program) : Prop where
  state : p.state = q.state
  interval : p.interval = q.interval
  declarations : p.declarations.map Variable.normal = q.declarations.map Variable.normal
  parameters : p.parameters = q.parameters
  tree : p.tree.map Tree.normal = q.tree.map Tree.normal
  references : p.references = q.references

/-- Lines that are alike are parsed alike. -/
theorem parse_alike (globals : Globals) (program : Program) {lines lines' : List Line}
    (hlower : lines.map Line.lower = lines'.map Line.lower)
    (hliterals : lines.map (fun line => quoted line.expression) =
      lines'.map fun line => quoted line.expression) :
    Together Alike (program.parse globals lines) (program.parse globals lines') := by
  unfold parse
  refine (Outline.readLines_alike globals hlower hliterals).bind fun first second h => ?_
  have hfinished := h.finish ((lines.getLast?.map Line.number).getD 1)
    ((lines'.getLast?.map Line.number).getD 1)
  have hsome : ∀ outline : Outline,
      outline.tree?.isSome = (outline.tree?.map Tree.normal).isSome := by
    intro outline
    cases outline.tree? <;> rfl
  refine .ok ⟨?_, hfinished.interval, hfinished.declarations, hfinished.parameters,
    hfinished.tree?, rfl⟩
  simp only [hsome, hfinished.tree?]

/-- Programs that are alike compile alike. -/
theorem generate_alike (globals : Globals) (commands : CommandTable) {p q : Program} (h : p.Alike q) :
    Together Alike (p.generate globals commands) (q.generate globals commands) := by
  have hscope : p.scope globals commands = q.scope globals commands := by
    have hnames : ∀ program : Program, program.declarations.map Variable.name =
        (program.declarations.map Variable.normal).map Variable.name := by
      intro program
      simp [Variable.normal, Function.comp_def]
    rw [scope, scope, hnames, h.declarations, ← hnames]
  unfold generate
  rw [h.state]
  split
  · rcases both_of_map_eq h.tree with ⟨hnone, hnone'⟩ | ⟨tree, tree', htree, htree', hsame⟩
    · rw [hnone, hnone']
      exact .error _ _
    · rw [htree, htree', hscope]
      refine (Compilation.ofTree_alike _ hsame).bind fun first second halike => ?_
      refine .ok { h with state := ?_, tree := ?_, references := ?_ }
      · rw [halike.isEmpty]
      · simp only [Tree.normal, Tree.mk.injEq] at hsame
        simp only [Option.map_some, Tree.normal, halike.nodes, hsame]
      · rw [halike.references]
  · exact .ok h

/-- Sources that differ in letter case outside of string literals compile to programs that are alike,
and compilation always answers. -/
theorem compile_recased (globals : Globals) (commands : CommandTable) (id : Nat)
    (path : Option String) {s t : List Char} (h : Recased s t) :
    ∃ p q, compile globals commands id path s = .ok p ∧ compile globals commands id path t = .ok q ∧
      p.Alike q := by
  rcases exists_compile globals commands id path s with ⟨p, hp, -⟩
  rcases exists_compile globals commands id path t with ⟨q, hq, -⟩
  have hboth : Together Alike (compile globals commands id path s)
      (compile globals commands id path t) :=
    (parse_alike globals (fresh id path) h.lines h.literals).bind fun _ _ =>
      generate_alike globals commands
  rw [hp, hq] at hboth
  cases hboth with
  | ok halike => exact ⟨p, q, hp, hq, halike⟩

/-- A script with a parameter, a loop and a string literal. -/
def spelled : List Char :=
  "ScriptName A\nVariable Key\nBegin KEY\nForEach key In ArrayCreate(#FF)\nPrintC(\"Gold\")\nLoop\nEnd".toList

/-- The same script in other letter case, with the same literal. -/
def respelled : List Char :=
  "SCRIPTNAME A\nvariable KEY\nBEGIN key\nforeach Key IN arraycreate(#ff)\nPRINTC(\"Gold\")\nLOOP\nend".toList

/-- Whether the script is valid. -/
def isSpelled : Bool :=
  match compile .empty .standard 1 none spelled with
  | .ok program => decide (program.state = .valid)
  | .error _ => false

/-- Both spellings of a script are valid and compile to programs that are alike. -/
theorem compile_recased_spelled : Recased spelled respelled ∧ ∃ p q,
    compile .empty .standard 1 none spelled = .ok p ∧
      compile .empty .standard 1 none respelled = .ok q ∧ p.state = .valid ∧ p.Alike q := by
  have hrecased : Recased spelled respelled := ⟨by decide +kernel, by decide +kernel⟩
  rcases compile_recased .empty .standard 1 none hrecased with ⟨p, q, hp, hq, halike⟩
  have hvalid : isSpelled = true := by decide +kernel
  unfold isSpelled at hvalid
  rw [hp] at hvalid
  exact ⟨hrecased, p, q, hp, hq, of_decide_eq_true hvalid, halike⟩

end Program
end ScriptMachine
