import ScriptMachine.Machine.Error

/-!
# Execution contexts

A context is one execution of a program: its variables, the frames of the statements that
are under way, and what the last run left behind.  A run can stop between any two steps,
because everything it needs in order to go on lies in its context.

Main results:

- {lit}`Context.bindArguments`: the variables of a new context.
- {lit}`Context.length_bindArguments`: there is one local per variable.
- {lit}`Context.beginRun`: how every run starts.
-/

namespace ScriptMachine

/-! ## Frames -/

/-- A request to leave the normal order of statements. -/
inductive Jump where
  | breakLoop
  | continueLoop
  | returnValue
deriving Repr, DecidableEq

/-- What the next step of a frame does. -/
inductive Phase where
  /-- Starts the next child of a body. -/
  | block (next : Nat)
  /-- Evaluates a statement. -/
  | expression
  /-- Tests a branch of a conditional after so many false ones. -/
  | branch (tested : Nat)
  /-- Tests the condition of a loop. -/
  | loopTest
  /-- Starts the next child of a loop body. -/
  | loopBody (next : Nat)
  /-- Evaluates the array of a loop. -/
  | forEachStart
  /-- Binds the element at a position. -/
  | forEachBind (collection : ArrayId) (position : Nat)
  /-- Starts the next child of a loop body; the position is that of the next element. -/
  | forEachBody (next : Nat) (collection : ArrayId) (position : Nat)
deriving Repr, DecidableEq

/-- Whether a frame in this phase belongs to a loop. -/
def Phase.isLoop : Phase → Bool
  | .loopTest | .loopBody _ | .forEachStart | .forEachBind _ _ | .forEachBody _ _ _ => true
  | .block _ | .expression | .branch _ => false

/-- The array that a loop goes through. -/
def Phase.collection? : Phase → Option ArrayId
  | .forEachBind collection _ | .forEachBody _ collection _ => some collection
  | .block _ | .expression | .branch _ | .loopTest | .loopBody _ | .forEachStart => none

/-- The phase in which a loop starts its next pass. -/
def Phase.nextPass : Phase → Phase
  | .loopBody _ => .loopTest
  | .forEachBody _ collection position => .forEachBind collection position
  | phase => phase

/-- The phase in which a node of the given kind starts. -/
def Phase.start : NodeKind → Phase
  | .entry | .elseIf | .otherwise => .block 0
  | .expression => .expression
  | .conditional _ _ => .branch 0
  | .whileLoop => .loopTest
  | .forEach _ _ => .forEachStart

/-- A statement under way. -/
structure Frame where
  node : Nat
  phase : Phase
deriving Repr, DecidableEq

/-! ## Contexts -/

/-- An execution of a program. -/
structure Context where
  id : Nat
  program : Program
  /-- The values of the variables, by slot. -/
  locals : List Value
  /-- The statements under way, innermost first. -/
  frames : List Frame
  /-- The jump to be made before anything else happens. -/
  pending : Option Jump
  result : Option Value
  /-- Whether a run asked to be the last one. -/
  halt : Bool
  backgrounded : Bool
  /-- Seconds since the current or last run started. -/
  elapsed : Float
  /-- Seconds between the start of the run before and that of this one. -/
  secondsPassed : Float
  runs : Nat

namespace Context

/-- Binds an argument to the variable of a slot. -/
def bindArgument (locals : List Value) (binding : Nat × Value) : Except Fault (List Value) :=
  if binding.1 < locals.length then .ok (locals.set binding.1 binding.2)
  else .error (.parameterSlot binding.1)

/-- The variables of a program before initializers, with the arguments bound to its
parameters. -/
def bindArguments (program : Program) (arguments : List Value) : Except Fault (List Value) :=
  (program.parameters.zip arguments).foldlM bindArgument
    (List.replicate program.declarations.length (.number 0.0))

/-- A context that has not run yet. -/
def create (id : Nat) (program : Program) (locals : List Value) : Context where
  id := id
  program := program
  locals := locals
  frames := []
  pending := none
  result := none
  halt := false
  backgrounded := false
  elapsed := 0.0
  secondsPassed := 0.0
  runs := 0

/-- The value of a named variable. -/
def valueOf? (context : Context) (name : String) : Option Value :=
  (context.program.slot? name).bind fun slot => context.locals[slot]?

/-- Whether a run is under way. -/
def isRunning (context : Context) : Bool :=
  !context.frames.isEmpty

/-! ## Runs -/

/-- Starts a run at the given entry block. -/
def beginRun (context : Context) (root : Nat) : Context :=
  { context with
    frames := [⟨root, .block 0⟩]
    pending := none
    result := none
    secondsPassed := context.elapsed
    elapsed := 0.0
    runs := context.runs + 1 }

/-- Ends a run and leaves its result. -/
def endRun (context : Context) : Context :=
  { context with frames := [], pending := none }

/-- Requests a jump. -/
def request (context : Context) (jump : Jump) : Context :=
  { context with pending := some jump }

/-- Requests the end of the run with a result. -/
def requestReturn (context : Context) (result : Option Value) (halt : Bool) : Context :=
  { context with
    pending := some .returnValue
    result := result
    halt := context.halt || halt }

/-- Lets time pass. -/
def wait (context : Context) (seconds : Float) : Context :=
  { context with elapsed := context.elapsed + seconds }

/-- Whether a context between two runs starts the next one: at once for the first, and then
after the interval of its program. -/
def isDue (context : Context) : Bool :=
  context.runs == 0 || context.program.interval <= context.elapsed

/-! ## Variables -/

/-- Binding arguments keeps the number of variables. -/
theorem length_foldlM_bindArgument (bindings : List (Nat × Value)) (start locals : List Value)
    (h : bindings.foldlM bindArgument start = .ok locals) : locals.length = start.length := by
  induction bindings generalizing start with
  | nil =>
    cases h
    rfl
  | cons binding rest ih =>
    rw [List.foldlM_cons] at h
    unfold bindArgument at h
    split at h
    · simpa using ih _ h
    · simp [bind, Except.bind] at h

/-- There is one local per variable. -/
theorem length_bindArguments (program : Program) (arguments locals : List Value)
    (h : bindArguments program arguments = .ok locals) :
    locals.length = program.declarations.length := by
  simpa using length_foldlM_bindArgument _ _ _ h

end Context
end ScriptMachine
