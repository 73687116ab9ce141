/-!
# Engine faults

A fault means that the machine itself is broken, not a script: a node that does not exist, a
frame that does not fit its node, a cut inside a character.  Every place that could go
wrong in this way answers with a fault, so that their absence can be stated.

Main results:

- {lit}`Fault.message`: the text of a fault.
-/

namespace ScriptMachine

/-- A violated invariant of the compiler or the machine. -/
inductive Fault where
  /-- A statement has no enclosing node. -/
  | noParent (line : Nat)
  /-- A statement would go under an expression. -/
  | leafParent (line : Nat)
  /-- A branch has no conditional to belong to. -/
  | noConditional (line : Nat)
  /-- A branch would go under a node that is no conditional. -/
  | notConditional (line : Nat)
  /-- A block is still open at the end of a script without errors. -/
  | unbalanced
  /-- A text is cut inside a character or behind its end. -/
  | cutCharacter (line : Nat)
  /-- A parsed program has no tree. -/
  | noTree
  /-- A node does not exist. -/
  | missingNode (id : Nat)
  /-- A node has no expression to compile. -/
  | noExpression (line : Nat)
  /-- A node was never compiled. -/
  | notCompiled (line : Nat)
  /-- A frame does not fit its node. -/
  | frameMismatch (line : Nat)
  /-- A parameter has no variable slot. -/
  | parameterSlot (slot : Nat)
  /-- A loop variable has no variable slot. -/
  | iteratorSlot (slot : Nat)
deriving Repr, DecidableEq

/-- The text of a fault. -/
def Fault.message : Fault → String
  | .noParent line => "engine fault: line " ++ toString line ++ ": no node to attach to"
  | .leafParent line => "engine fault: line " ++ toString line ++ ": cannot attach to an expression node"
  | .noConditional line => "engine fault: line " ++ toString line ++ ": branch has no If node"
  | .notConditional line => "engine fault: line " ++ toString line ++ ": branch parent is not an If node"
  | .unbalanced => "engine fault: code stack unbalanced at end of input"
  | .cutCharacter line => "engine fault: line " ++ toString line ++ ": text cut inside a character"
  | .noTree => "engine fault: program has no syntax tree"
  | .missingNode id => "engine fault: node " ++ toString id ++ " does not exist"
  | .noExpression line => "engine fault: line " ++ toString line ++ ": node has no expression to compile"
  | .notCompiled line => "engine fault: line " ++ toString line ++ ": node was never compiled"
  | .frameMismatch line => "engine fault: frame does not match node at line " ++ toString line
  | .parameterSlot slot => "engine fault: parameter slot " ++ toString slot ++ " out of range"
  | .iteratorSlot slot => "engine fault: iterator slot " ++ toString slot ++ " out of range"

end ScriptMachine
