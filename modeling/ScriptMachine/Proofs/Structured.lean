import ScriptMachine.Proofs.Unseen
import ScriptMachine.Proofs.Turns

/-!
# Structured execution

A script can be run without frames, phases and pending jumps, by recursion over its tree: a
body runs its children in order, a conditional runs the body of its first true branch, a loop
tests or binds before each pass, and a jump is the way in which a statement completes.  Every
expression is evaluated as a step evaluates it, and a raised global exception ends the run
right behind the evaluation that raised it.

Fuel bounds the recursion and never shows in an answer.

Main results:

- {lit}`Structured.statement`, {lit}`Structured.children`, {lit}`Structured.conditional`,
  {lit}`Structured.whileLoop` and {lit}`Structured.forEach`: the parts of a script.
- {lit}`Structured.run`: a whole run.
-/

namespace ScriptMachine

open Execution

/-! ## Completions -/

/-- How a statement completes. -/
inductive Completion where
  | normal
  /-- A jump was requested right under the node at the given line. -/
  | jumped (jump : Jump) (line : Nat)
deriving DecidableEq

/-- Whether nodes of a kind have children that run once, in order. -/
def NodeKind.hasBody : NodeKind → Bool
  | .entry | .conditional _ _ | .elseIf | .otherwise => true
  | .expression | .whileLoop | .forEach _ _ => false

namespace Structured

/-! ## Parts of statements -/

/-- A raised global exception ends the run. -/
def settle : Stepping Unit := do
  let execution ← Action.get
  if execution.machine.raised then
    Action.fail (.globalException execution.context.program.name)

/-- Takes the jump that a statement right under the node at a line has requested. -/
def takeJump (line : Nat) : Stepping Completion := do
  let execution ← Action.get
  match execution.context.pending with
  | none => return .normal
  | some jump =>
    Action.put (execution.onContext fun context => { context with pending := none })
    return .jumped jump line

/-- A statement without parts, right under the node at a line. -/
def leaf (callee : Callee) (line : Nat) (node : Node) : Stepping Completion := do
  let _ ← evaluate callee node
  settle
  takeJump line

/-- The body of a node whose children run in order. -/
def body (run : Nat → List Nat → Stepping Completion) (node : Node) : Stepping Completion :=
  if node.kind.hasBody then run node.line node.children
  else Action.fail (.fault (.frameMismatch node.line))

/-- Goes on behind a pass of a loop: a break ends the loop, a continue starts its next pass, and
a return leaves it. -/
def behindPass (again : Stepping Completion) : Completion → Stepping Completion
  | .normal | .jumped .continueLoop _ => again
  | .jumped .breakLoop _ => return .normal
  | .jumped .returnValue line => return .jumped .returnValue line

/-! ## Statements -/

section Statements

variable (callee : Callee) (tree : Tree)

mutual

/-- A statement right under the node at a line. -/
def statement : Nat → Nat → Nat → Node → Stepping Completion
  | 0, _, _, _ => Action.starve
  | fuel + 1, line, id, node =>
    match node.kind with
    | .expression => leaf callee line node
    | .entry | .elseIf | .otherwise => children fuel node.line node.children
    | .conditional elseIfs elseBranch => conditional fuel elseBranch (id :: elseIfs)
    | .whileLoop => whileLoop fuel node
    | .forEach _ slot => do
      let collection ← evaluateCollection callee node
      settle
      forEach fuel slot node collection 0
termination_by structural fuel => fuel

/-- Children of the node at a line, in order, until one of them jumps. -/
def children : Nat → Nat → List Nat → Stepping Completion
  | 0, _, _ => Action.starve
  | _ + 1, _, [] => return .normal
  | fuel + 1, line, child :: rest => do
    let node ← Action.ofExcept (nodeOf tree child)
    match ← statement fuel line child node with
    | .normal => children fuel line rest
    | .jumped jump line => return .jumped jump line
termination_by structural fuel => fuel

/-- The branches of a conditional that are left: the body of the first true one, or else the
branch without a condition. -/
def conditional : Nat → Option Nat → List Nat → Stepping Completion
  | 0, _, _ => Action.starve
  | fuel + 1, elseBranch, branch :: rest => do
    let node ← Action.ofExcept (nodeOf tree branch)
    let holds ← evaluateCondition callee node
    settle
    if holds then body (children fuel) node else conditional fuel elseBranch rest
  | fuel + 1, some branch, [] => do
    let node ← Action.ofExcept (nodeOf tree branch)
    body (children fuel) node
  | _ + 1, none, [] => return .normal
termination_by structural fuel => fuel

/-- A loop that tests its condition before each pass. -/
def whileLoop : Nat → Node → Stepping Completion
  | 0, _ => Action.starve
  | fuel + 1, node => do
    let holds ← evaluateCondition callee node
    settle
    if holds then
      let completion ← children fuel node.line node.children
      behindPass (whileLoop fuel node) completion
    else return .normal
termination_by structural fuel => fuel

/-- A loop over an array from a position on: each pass binds the element that is at its
position by then, and the loop ends behind the last one. -/
def forEach : Nat → Nat → Node → ArrayId → Nat → Stepping Completion
  | 0, _, _, _, _ => Action.starve
  | fuel + 1, slot, node, collection, position => do
    let execution ← Action.get
    match execution.machine.arrays.at? collection position with
    | none => return .normal
    | some element =>
      bindElement slot element
      let completion ← children fuel node.line node.children
      behindPass (forEach fuel slot node collection (position + 1)) completion
termination_by structural fuel => fuel

end

/-! ## Runs -/

/-- The entry block.  A jump out of it returns or is an error. -/
def entry (fuel : Nat) : Stepping RunState := do
  settle
  let node ← Action.ofExcept (nodeOf tree tree.root)
  match ← body (children callee tree fuel) node with
  | .normal | .jumped .returnValue _ => return .finished
  | .jumped .breakLoop line => do
    let execution ← Action.get
    Action.fail (execution.context.errorAt line .breakOutsideLoop)
  | .jumped .continueLoop line => do
    let execution ← Action.get
    Action.fail (execution.context.errorAt line .continueOutsideLoop)

end Statements

/-- Runs a context from its entry block to the end. -/
def run (callee : Callee) (fuel : Nat) : Stepping RunState := fun execution =>
  match execution.context.program.tree with
  | none => .failed (.fault .noTree) execution
  | some tree =>
    match entry callee tree fuel
        (execution.onContext fun context => (context.beginRun tree.root).endRun) with
    | .done state execution => .done state (execution.onContext Context.endRun)
    | .failed e execution => .failed e (execution.onContext Context.endRun)
    | .exhausted => .exhausted

end Structured
end ScriptMachine
