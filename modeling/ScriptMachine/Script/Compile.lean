import ScriptMachine.Script.Outline

/-!
# Compiling a script

A parsed program is compiled node by node: initializers first, then the entry block from
the root.  An expression that does not compile is reported and leaves its node without
code, and the others are compiled all the same.

Main results:

- {lit}`Program.generate`: the program with compiled expressions.
- {lit}`Program.compile`: from source text to the finished program.
-/

namespace ScriptMachine

open Source

/-- The state of a compilation: nodes with their code so far, the references met and the
expressions that failed. -/
structure Compilation where
  nodes : Array Node
  references : References
  diagnostics : List Diagnostic

namespace Compilation

/-- Compiles the expression of one node. -/
def compileNode (scope : Scope) (compilation : Compilation) (id : Nat) : Except Fault Compilation :=
  match compilation.nodes[id]? with
  | none => .error (.missingNode id)
  | some node =>
    match node.expression with
    | none => .error (.noExpression node.line)
    | some source =>
      match (Expr.compile scope source).run compilation.references with
      | .ok code references =>
        .ok { compilation with
          nodes := compilation.nodes.setIfInBounds id { node with code := some code }
          references }
      | .error e references =>
        .ok { compilation with
          references
          diagnostics := compilation.diagnostics ++ [⟨node.line, .expression e⟩] }

/-- Compiles every node of a tree that has an expression. -/
def ofTree (scope : Scope) (tree : Tree) : Except Fault Compilation :=
  tree.visits.foldlM (compileNode scope) ⟨tree.nodes, .empty, []⟩

end Compilation

namespace Program

/-- The names that expressions of a program may use. -/
def scope (globals : Globals) (commands : CommandTable) (program : Program) : Scope where
  locals := program.declarations.map Variable.name
  globals := globals
  commands := commands

/-- Compiles the expressions of a parsed program; any other program stays as it is. -/
def generate (globals : Globals) (commands : CommandTable) (program : Program) :
    Except Fault Program :=
  if program.state = .parsed then
    match program.tree with
    | none => .error .noTree
    | some tree => do
      let compilation ← Compilation.ofTree (program.scope globals commands) tree
      return { program with
        tree := some { tree with nodes := compilation.nodes }
        references := some compilation.references
        diagnostics := program.diagnostics ++ compilation.diagnostics
        state := if compilation.diagnostics.isEmpty then .valid else .compileError }
  else .ok program

/-- Compiles a source text from the start. -/
def compile (globals : Globals) (commands : CommandTable) (id : Nat) (path : Option String)
    (source : List Char) : Except Fault Program := do
  let parsed ← (fresh id path).parse globals (logicalLines source)
  parsed.generate globals commands

/-- The program of a file that could not be read. -/
def unreadable (id : Nat) (path : String) (e : ReadError) : Program :=
  { fresh id (some path) with diagnostics := [⟨0, .unreadable path e⟩] }

end Program
end ScriptMachine
