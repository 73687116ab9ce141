import ScriptMachine.Machine.Invoke

/-!
# Single steps

One step of a run evaluates at most one expression.  The innermost frame says what comes
next: it starts a child, tests a condition, binds an element or is done.  A pending jump is
made before anything else, and a raised global exception comes even before that.

Main results:

- {lit}`Execution.step`: one step.
- {lit}`Execution.step_of_raised`: nothing is evaluated while the global exception is raised.
- {lit}`Context.unwind_return`: a return leaves no frame.
-/

namespace ScriptMachine

/-- Whether a run goes on. -/
inductive Status where
  | running
  | finished
deriving Repr, DecidableEq

/-- An operation on a machine and one of its contexts. -/
abbrev Stepping (α : Type) : Type := Action Execution MachineError α

/-! ## Expressions of nodes -/

namespace Context

/-- A script error at a line of the program of a context. -/
def errorAt (context : Context) (line : Nat) (cause : RuntimeCause) : MachineError :=
  .runtime context.program.name ⟨line, cause⟩

end Context

namespace Execution

/-- The node of a tree with the given number. -/
def nodeOf (tree : Tree) (id : Nat) : Except MachineError Node :=
  match tree.node? id with
  | some node => .ok node
  | none => .error (.fault (.missingNode id))

/-- Fails with a script error at the line of a node. -/
def failAt {α : Type} (node : Node) (cause : RuntimeCause) : Stepping α := do
  let execution ← Action.get
  Action.fail (execution.context.errorAt node.line cause)

/-- The value of the expression of a node. -/
def evaluate (callee : Callee) (node : Node) : Stepping Value :=
  match node.code with
  | none => Action.fail (.fault (.notCompiled node.line))
  | some code => fun execution =>
    Action.mapError (execution.context.errorAt node.line) (code.eval (invoke callee node.line))
      execution

/-- The condition of a node. -/
def evaluateCondition (callee : Callee) (node : Node) : Stepping Bool := do
  let v ← evaluate callee node
  match v.truth? with
  | some b => return b
  | none => failAt node (.conditionNotNumeric v.dataType)

/-- The array of a loop. -/
def evaluateCollection (callee : Callee) (node : Node) : Stepping ArrayId := do
  let v ← evaluate callee node
  match v.array? with
  | some id => return id
  | none => failAt node (.notIterable v.dataType)

/-! ## Frames -/

/-- Puts the frame of a node on top. -/
def startNode (tree : Tree) (id : Nat) (below : List Frame) : Except MachineError (List Frame) := do
  let node ← nodeOf tree id
  return ⟨id, .start node.kind⟩ :: below

/-- Starts a child of a body, if there is one left. -/
def startChild (tree : Tree) (node : Node) (next : Nat) (more last : List Frame) :
    Except MachineError (List Frame) :=
  match node.children[next]? with
  | some child => startNode tree child more
  | none => .ok last

/-- Tests the branch of a conditional that comes next; the first true one takes the place of
the conditional, and the else branch comes when none is left. -/
def stepBranch (callee : Callee) (tree : Tree) (id tested : Nat) (elseIfs : List Nat)
    (elseBranch : Option Nat) (rest : List Frame) : Stepping (List Frame) :=
  match (id :: elseIfs)[tested]? with
  | none => return (elseBranch.map fun branch => ⟨branch, .block 0⟩).toList ++ rest
  | some branch => do
    let node ← Action.ofExcept (nodeOf tree branch)
    if (← evaluateCondition callee node) then return ⟨branch, .block 0⟩ :: rest
    else return ⟨id, .branch (tested + 1)⟩ :: rest

/-- Binds the element at a position to the variable of a loop. -/
def bindElement (slot : Nat) (element : Value) : Stepping Unit := do
  let execution ← Action.get
  if slot < execution.context.locals.length then
    Action.put (execution.onContext fun context =>
      { context with locals := context.locals.set slot element })
  else Action.fail (.fault (.iteratorSlot slot))

/-- Starts the pass of a loop over an array at a position, unless the array ends there. -/
def stepBind (id slot : Nat) (collection : ArrayId) (position : Nat) (rest : List Frame) :
    Stepping (List Frame) := do
  let execution ← Action.get
  match execution.machine.arrays.at? collection position with
  | none => return rest
  | some element =>
    bindElement slot element
    return ⟨id, .forEachBody 0 collection (position + 1)⟩ :: rest

/-- The frames after a step of the innermost frame. -/
def stepFrame (callee : Callee) (tree : Tree) (node : Node) (frame : Frame) (rest : List Frame) :
    Stepping (List Frame) :=
  let as (phase : Phase) : List Frame := ⟨frame.node, phase⟩ :: rest
  let body (next : Nat) : Stepping (List Frame) :=
    Action.ofExcept (startChild tree node next (as (.block (next + 1))) rest)
  match frame.phase, node.kind with
  | .block next, .entry => body next
  | .block next, .conditional _ _ => body next
  | .block next, .elseIf => body next
  | .block next, .otherwise => body next
  | .expression, .expression => do
    let _ ← evaluate callee node
    return rest
  | .branch tested, .conditional elseIfs elseBranch =>
    stepBranch callee tree frame.node tested elseIfs elseBranch rest
  | .loopTest, .whileLoop => do
    if (← evaluateCondition callee node) then return as (.loopBody 0) else return rest
  | .loopBody next, .whileLoop =>
    Action.ofExcept (startChild tree node next (as (.loopBody (next + 1))) (as .loopTest))
  | .forEachStart, .forEach _ _ => do
    let collection ← evaluateCollection callee node
    return as (.forEachBind collection 0)
  | .forEachBind collection position, .forEach _ slot =>
    stepBind frame.node slot collection position rest
  | .forEachBody next collection position, .forEach _ _ =>
    Action.ofExcept (startChild tree node next (as (.forEachBody (next + 1) collection position))
      (as (.forEachBind collection position)))
  | _, _ => Action.fail (.fault (.frameMismatch node.line))

end Execution

/-! ## Jumps -/

namespace Context

/-- The line of the innermost frame; zero when there is none. -/
def currentLine (tree : Tree) (context : Context) : Nat :=
  ((context.frames.head?.bind fun frame => tree.node? frame.node).map Node.line).getD 0

/-- The frames from the innermost loop on. -/
def fromLoop (context : Context) : List Frame :=
  context.frames.dropWhile fun frame => !frame.phase.isLoop

/-- Makes a pending jump: a return ends the run, a break ends the innermost loop and a
continue starts its next pass. -/
def unwind (tree : Tree) (context : Context) (jump : Jump) : Except MachineError (Context × Status) :=
  match jump with
  | .returnValue => .ok ({ context with frames := [] }, .finished)
  | .breakLoop =>
    match context.fromLoop with
    | [] => .error (context.errorAt (context.currentLine tree) .breakOutsideLoop)
    | _ :: rest => .ok ({ context with frames := rest, pending := none }, .running)
  | .continueLoop =>
    match context.fromLoop with
    | [] => .error (context.errorAt (context.currentLine tree) .continueOutsideLoop)
    | loop :: rest =>
      .ok ({ context with
        frames := { loop with phase := loop.phase.nextPass } :: rest
        pending := none }, .running)

/-- A return leaves no frame. -/
theorem unwind_return (tree : Tree) (context : Context) :
    context.unwind tree .returnValue = .ok ({ context with frames := [] }, .finished) := rfl

end Context

/-! ## Steps -/

namespace Execution

/-- A step without a pending jump. -/
def stepStatement (callee : Callee) (tree : Tree) : Stepping Status := do
  let execution ← Action.get
  match execution.context.frames with
  | [] => return .finished
  | frame :: rest =>
    let node ← Action.ofExcept (nodeOf tree frame.node)
    let frames ← stepFrame callee tree node frame rest
    Action.change (onContext fun context => { context with frames := frames })
    return .running

/-- Makes a pending jump. -/
def stepJump (tree : Tree) (jump : Jump) : Stepping Status := do
  let execution ← Action.get
  let (context, status) ← Action.ofExcept (execution.context.unwind tree jump)
  Action.put { execution with context := context }
  return status

/-- One step of a run. -/
def step (callee : Callee) : Stepping Status := do
  let execution ← Action.get
  let program := execution.context.program
  if execution.machine.raised then Action.fail (.globalException program.name)
  else
    match program.tree with
    | none => Action.fail (.fault .noTree)
    | some tree =>
      match execution.context.pending with
      | some jump => stepJump tree jump
      | none => stepStatement callee tree

/-- Nothing is evaluated while the global exception is raised. -/
theorem step_of_raised (callee : Callee) (execution : Execution)
    (h : execution.machine.raised = true) :
    step callee execution =
      .failed (.globalException execution.context.program.name) execution := by
  simp [step, Action.bind_run, h]

end Execution
end ScriptMachine
