import ScriptMachine.Expr.Syntax

/-!
# The syntax tree of a script

The nodes of a script lie in one sequence and refer to each other by their position in it,
so that a parked execution needs no more than numbers to find its place.  The root is the
entry block; the initializers of variables stand beside it.

Main results:

- {lit}`Tree.visits`: the nodes with an expression, in the order in which they are
  compiled.
-/

namespace ScriptMachine

/-! ## Nodes -/

/-- The kind of a node with its structural links. -/
inductive NodeKind where
  /-- The entry block. -/
  | entry
  /-- A statement without parts. -/
  | expression
  /-- A conditional; its children are the body of its own condition. -/
  | conditional (elseIfs : List Nat) (elseBranch : Option Nat)
  | elseIf
  | otherwise
  | whileLoop
  /-- A loop over an array that binds each element to a variable. -/
  | forEach (iterator : String) (slot : Nat)
deriving Repr, DecidableEq

/-- A node of the tree. -/
structure Node where
  kind : NodeKind
  /-- The source line that made the node. -/
  source : List Char
  /-- The expression text, for nodes that have one. -/
  expression : Option (List Char)
  line : Nat
  children : List Nat
  /-- The compiled expression. -/
  code : Option Expr

/-- The nodes of a script, the entry block and the initializers in order of declaration. -/
structure Tree where
  nodes : Array Node
  root : Nat
  initializers : List Nat

namespace Tree

/-- The node with the given number. -/
def node? (tree : Tree) (id : Nat) : Option Node :=
  tree.nodes[id]?

/-! ## Order of compilation -/

/-- The nodes with an expression at and below a node, down to the given depth.  A conditional
comes before its else branch, that before the other branches, and the body last. -/
def visitsFrom (nodes : Array Node) : Nat → Nat → List Nat
  | 0, _ => []
  | depth + 1, id =>
    match nodes[id]? with
    | none => [id]
    | some node =>
      let body := node.children.flatMap (visitsFrom nodes depth)
      match node.kind with
      | .entry | .otherwise => body
      | .expression => [id]
      | .whileLoop | .forEach _ _ | .elseIf => id :: body
      | .conditional elseIfs elseBranch =>
        id :: (elseBranch.toList ++ elseIfs).flatMap (visitsFrom nodes depth) ++ body

/-- The nodes with an expression, in the order in which they are compiled: initializers, then
the entry block.  No path through the tree is longer than its number of nodes. -/
def visits (tree : Tree) : List Nat :=
  tree.initializers ++ visitsFrom tree.nodes tree.nodes.size tree.root

end Tree
end ScriptMachine
