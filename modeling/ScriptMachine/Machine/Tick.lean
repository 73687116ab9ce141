import ScriptMachine.Machine.Run

/-!
# Background ticks

A tick lets time pass for every context in the background and gives a turn to those whose
run is under way or due.  In its turn a context takes at most as many steps as the budget
allows; it leaves the background when its run fails, when it asked to, or when its program
has become stale.

Main results:

- {lit}`Machine.takeTurn`: the turn of one context.
- {lit}`Machine.tick`: a tick of all of them.
- {lit}`TickReport.add_waiting`: a context that waits is in no list of the report.
-/

namespace ScriptMachine

/-! ## Reports -/

/-- Why a context leaves the background. -/
inductive RetireReason where
  /-- The run returned with its halt flag set. -/
  | halted
  /-- The program has become stale. -/
  | stale
  | failed (e : MachineError)

namespace RetireReason

/-- What is said about a reason; there is nothing more to say about a halt. -/
def message : RetireReason → String
  | .halted => ""
  | .stale => "program is no longer valid"
  | .failed e => e.message

/-- A reason in one line. -/
def text : RetireReason → String
  | .halted => "Halted"
  | reason => "Failed(" ++ Text.escaped reason.message ++ ")"

end RetireReason

/-- The outcome of a turn. -/
inductive Turn where
  /-- No run is due. -/
  | waiting
  | parked
  | completed (result : Option Value)
  | retired (reason : RetireReason)

/-- Whether a context stays in the background after its turn. -/
def Turn.stays : Turn → Bool
  | .retired _ => false
  | .waiting | .parked | .completed _ => true

/-- What happened in a tick, by context. -/
structure TickReport where
  completed : List (Nat × Option Value)
  parked : List Nat
  retired : List (Nat × RetireReason)

namespace TickReport

/-- Nothing happened. -/
def empty : TickReport := ⟨[], [], []⟩

/-- Whether nothing happened. -/
def isIdle (report : TickReport) : Bool :=
  report.completed.isEmpty && report.parked.isEmpty && report.retired.isEmpty

/-- Puts the outcome of a turn in front of those of later turns. -/
def add (report : TickReport) (context : Nat) : Turn → TickReport
  | .waiting => report
  | .parked => { report with parked := context :: report.parked }
  | .completed result => { report with completed := (context, result) :: report.completed }
  | .retired reason => { report with retired := (context, reason) :: report.retired }

/-- A context that waits is in no list of the report. -/
theorem add_waiting (report : TickReport) (context : Nat) : report.add context .waiting = report :=
  rfl

end TickReport

/-! ## Turns -/

namespace Context

/-- A context whose run is under way: one between two runs starts the next. -/
def resume (context : Context) : Except Fault Context :=
  if context.isRunning then .ok context
  else
    match context.program.tree with
    | some tree => .ok (context.beginRun tree.root)
    | none => .error .noTree

/-- The outcome of the turn in which a run finished. -/
def finishedTurn (context : Context) : Turn :=
  if context.halt then .retired .halted else .completed context.result

end Context

namespace Machine

/-- Takes a context out of the background with a reason. -/
def retire (context : Context) (reason : RetireReason) : Operation (Context × Turn) := do
  Action.change fun machine => machine.endExecution context.program.id
  return (context, .retired reason)

/-- Runs a context that is under way within the budget of a turn. -/
def runTurn (fuel : Nat) (context : Context) : Operation (Context × Turn) := fun machine =>
  match Execution.run (callee fuel) machine.settings.stepBudget fuel 0 ⟨machine.enter, context⟩ with
  | .exhausted => .exhausted
  | .failed e execution => retire execution.context (.failed e) execution.machine.leave
  | .done .parked execution => .done (execution.context, .parked) execution.machine.leave
  | .done .finished execution =>
    let context := { execution.context with result := none }
    match execution.context.finishedTurn with
    | .retired reason => retire context reason execution.machine.leave
    | turn => .done (context, turn) execution.machine.leave

/-- The turn of a context after some seconds have passed. -/
def takeTurn (fuel : Nat) (seconds : Float) (context : Context) : Operation (Context × Turn) :=
  fun machine =>
    let context := context.wait seconds
    if !context.isRunning && !context.isDue then .done (context, .waiting) machine
    else if !machine.isValid context.program then retire context .stale machine
    else
      match context.resume with
      | .error e => retire context (.failed (.fault e)) machine
      | .ok context => runTurn fuel context machine

/-- The turns of a list of contexts: those that stay, and what happened. -/
def takeTurns (fuel : Nat) (seconds : Float) : List Context → Operation (List Context × TickReport)
  | [] => return ([], .empty)
  | context :: rest => do
    let (context, turn) ← takeTurn fuel seconds context
    let (others, report) ← takeTurns fuel seconds rest
    return ((if turn.stays then [context] else []) ++ others, report.add context.id turn)

/-- A tick of some seconds.  Contexts that are added on the way come behind the older ones and
have no turn yet. -/
def tick (fuel : Nat) (seconds : Float) : Operation TickReport := do
  let machine ← Action.get
  Action.put { machine with background := [] }
  let (kept, report) ← takeTurns fuel seconds machine.background
  Action.change fun machine => { machine with background := kept ++ machine.background }
  return report

/-- Seconds from whole seconds and nanoseconds. -/
def secondsOf (nanoseconds : Nat) : Float :=
  Float.ofNat (nanoseconds / 1000000000) + Float.ofNat (nanoseconds % 1000000000) / 1000000000.0

/-- Takes a context out of the background; the answer is whether it was there. -/
def stop (id : Nat) : Operation Bool := do
  let machine ← Action.get
  match machine.background.find? fun context => context.id == id with
  | none => return false
  | some context =>
    Action.put { machine.endExecution context.program.id with
      background := machine.background.eraseP fun context => context.id == id }
    return true

end Machine
end ScriptMachine
