import ScriptMachine.Proofs.Requesting

/-!
# Runs that end with a return

A run is followed together with all requests that its expressions have made so far.  Its
result is always that of the last return among them, and none without a return.  Behind an
expression whose last request is a return the run is over: nothing more is evaluated, and the
result is the one that was given.  When the last request is a break or a continue, that jump
is pending instead, even if the same expression called a return before.

Main results:

- {lit}`Execution.Underway`: a run with the requests that it has made.
- {lit}`Execution.Underway.result`: the result is that of the last return.
- {lit}`Execution.Underway.last_request`: what the last request of a step does to the run.
-/

namespace ScriptMachine
namespace Execution

/-! ## Runs with their requests -/

/-- What may happen between two steps of a run: the machine changes in any way, and in the
context time passes and variables change. -/
structure Meanwhile (e later : Execution) : Prop where
  program : later.context.program = e.context.program
  frames : later.context.frames = e.context.frames
  pending : later.context.pending = e.context.pending
  result : later.context.result = e.context.result

/-- A run is under way, and its expressions have made the given requests. -/
inductive Underway : List JumpRequest → Execution → Prop
  | begun {machine : Machine} {context : Context} {tree : Tree}
      (htree : context.program.tree = some tree) :
      Underway [] ⟨machine, context.beginRun tree.root⟩
  | stepped {log : List JumpRequest} {e e' : Execution} {callee : Callee} (h : Underway log e)
      (hcallee : callee.Keeps) (hstep : step callee e = .done .running e') :
      Underway (log ++ e.requests callee) e'
  | meanwhile {log : List JumpRequest} {e later : Execution} (h : Underway log e)
      (hlater : e.Meanwhile later) : Underway log later

/-- The program of a run has a tree. -/
theorem Underway.exists_tree {log : List JumpRequest} {e : Execution} (h : Underway log e) :
    ∃ tree, e.context.program.tree = some tree := by
  induction h with
  | begun htree => exact ⟨_, htree⟩
  | stepped h hcallee hstep ih =>
    rcases ih with ⟨tree, htree⟩
    rw [← ((step_continues hcallee).of_done hstep).context.program] at htree
    exact ⟨tree, htree⟩
  | meanwhile h hlater ih =>
    rcases ih with ⟨tree, htree⟩
    rw [← hlater.program] at htree
    exact ⟨tree, htree⟩

/-! ## Results -/

/-- A jump leaves the result alone. -/
theorem unwind_result {tree : Tree} {context context' : Context} {jump : Jump} {status : Status}
    (h : context.unwind tree jump = .ok (context', status)) : context'.result = context.result := by
  cases Context.Unwinds.of_unwind h <;> rfl

/-- A step with a pending jump makes it. -/
theorem step_of_pending {callee : Callee} {e : Execution} {jump : Jump} {tree : Tree}
    (hcalm : e.machine.raised = false) (htree : e.context.program.tree = some tree)
    (hpending : e.context.pending = some jump) : step callee e = stepJump tree jump e := by
  unfold step
  rw [Action.bind_run, Action.get_run]
  simp only [hcalm, htree, hpending, Bool.false_eq_true, if_false]

/-- A step that answers does so without the global exception, in a program with a tree. -/
theorem of_step_done {callee : Callee} {e e' : Execution} {status : Status}
    (hstep : step callee e = .done status e') :
    e.machine.raised = false ∧ ∃ tree, e.context.program.tree = some tree := by
  cases hraised : e.machine.raised with
  | true =>
    rw [step_of_raised callee e hraised] at hstep
    cases hstep
  | false =>
    refine ⟨rfl, ?_⟩
    cases htree : e.context.program.tree with
    | some tree => exact ⟨tree, rfl⟩
    | none =>
      unfold step at hstep
      rw [Action.bind_run, Action.get_run] at hstep
      simp only [hraised, htree, Bool.false_eq_true, if_false] at hstep
      cases hstep

/-- A step that answers to a pending jump has made it. -/
theorem unwind_of_step_done {callee : Callee} {e e' : Execution} {status : Status} {jump : Jump}
    (hpending : e.context.pending = some jump) (hstep : step callee e = .done status e') :
    ∃ tree, e.context.program.tree = some tree ∧
      e.context.unwind tree jump = .ok (e'.context, status) := by
  rcases of_step_done hstep with ⟨hcalm, tree, htree⟩
  rw [step_of_pending hcalm htree hpending] at hstep
  simp only [stepJump, Action.bind_run, Action.get_run] at hstep
  cases hunwind : e.context.unwind tree jump with
  | error error =>
    rw [hunwind] at hstep
    cases hstep
  | ok answer =>
    rw [hunwind] at hstep
    cases hstep
    exact ⟨tree, htree, hunwind⟩

/-- The result behind a step is that of the last return that the step calls. -/
theorem step_result {callee : Callee} (hcallee : callee.Keeps) {e e' : Execution} {status : Status}
    (hstep : step callee e = .done status e') :
    e'.context.result = (lastResult? (e.requests callee)).getD e.context.result := by
  cases hpending : e.context.pending with
  | none => exact (step_requests hcallee hpending hstep).result
  | some jump =>
    rcases unwind_of_step_done hpending hstep with ⟨tree, -, hunwind⟩
    have hnone : e.requests callee = [] := by
      unfold requests
      rw [evaluated?_of_pending hpending]
    rw [hnone]
    exact unwind_result hunwind

/-- The result of a run is that of the last return that it has called. -/
theorem Underway.result {log : List JumpRequest} {e : Execution} (h : Underway log e) :
    e.context.result = (lastResult? log).getD none := by
  induction h with
  | begun htree => rfl
  | stepped h hcallee hstep ih =>
    rw [step_result hcallee hstep, ih, lastResult?_append]
    cases lastResult? _ <;> rfl
  | meanwhile h hlater ih => rw [hlater.result, ih]

/-! ## The end of a run -/

/-- Behind a return a run is over, whatever its budget. -/
theorem run_of_return {e : Execution} {tree : Tree} (hcalm : e.machine.raised = false)
    (htree : e.context.program.tree = some tree) (hpending : e.context.pending = some .returnValue)
    (callee : Callee) (budget fuel taken : Nat) :
    run callee budget (fuel + 1) taken e =
      .done .finished (e.onContext fun context => { context with frames := [] }.endRun) := by
  unfold run
  rw [step_of_pending hcalm htree hpending]
  rfl

/-- The last of some requests is a return. -/
theorem lastResult?_of_getLast? {requests : List JumpRequest} {result : Option Value}
    {halt : Bool} (h : requests.getLast? = some (.returnValue result halt)) :
    lastResult? requests = some result := by
  rcases List.getLast?_eq_some_iff.1 h with ⟨earlier, rfl⟩
  rw [lastResult?_append]
  rfl

/-- What the last request of a step does to a run.  When it is a return, nothing more is
evaluated, the run ends and its result is the one that was given, whatever else the step has
requested.  When it is another jump, that jump is pending, also behind a return.  The result is
always that of the last return in the whole run, and none without a return. -/
theorem Underway.last_request {log : List JumpRequest} {e e' : Execution} {callee : Callee}
    {status : Status} (h : Underway log e) (hcallee : callee.Keeps)
    (hstep : step callee e = .done status e') :
    (∀ result halt, (e.requests callee).getLast? = some (.returnValue result halt) →
      status = .running ∧
      ∀ later, e'.Meanwhile later → later.machine.raised = false →
        later.evaluated? = none ∧
          ∀ callee' budget fuel taken, ∃ last,
            run callee' budget (fuel + 1) taken later = .done .finished last ∧
              last.context.frames = [] ∧ last.context.result = result) ∧
    (∀ request, (e.requests callee).getLast? = some request →
      e'.context.pending = some request.jump) ∧
    e'.context.result = (lastResult? (log ++ e.requests callee)).getD none := by
  -- A step that requests something evaluates something, so no jump was pending before.
  have hidle : ∀ request, (e.requests callee).getLast? = some request →
      ∃ node, e.evaluated? = some node ∧ e.context.pending = none := by
    intro request hlast
    cases hevaluated : e.evaluated? with
    | none =>
      unfold requests at hlast
      rw [hevaluated] at hlast
      cases hlast
    | some node =>
      refine ⟨node, rfl, ?_⟩
      cases hpending : e.context.pending with
      | none => rfl
      | some jump =>
        rw [evaluated?_of_pending hpending] at hevaluated
        cases hevaluated
  have hpending : ∀ request, (e.requests callee).getLast? = some request →
      e'.context.pending = some request.jump := by
    intro request hlast
    rcases hidle request hlast with ⟨node, hevaluated, hnone⟩
    rw [(step_requests hcallee hnone hstep).pending, hlast]
    rfl
  refine ⟨?_, hpending, ?_⟩
  · intro result halt hlast
    rcases hidle _ hlast with ⟨node, hevaluated, hnone⟩
    refine ⟨step_running hevaluated hstep, fun later hlater hcalm => ?_⟩
    have hreturn : later.context.pending = some .returnValue := by
      rw [hlater.pending]
      exact hpending _ hlast
    have hresult : later.context.result = result := by
      rw [hlater.result, step_result hcallee hstep, lastResult?_of_getLast? hlast]
      rfl
    rcases h.exists_tree with ⟨tree, htree⟩
    have htree' : later.context.program.tree = some tree := by
      rw [hlater.program, ((step_continues hcallee).of_done hstep).context.program, htree]
    refine ⟨evaluated?_of_pending hreturn, fun callee' budget fuel taken => ?_⟩
    exact ⟨_, run_of_return hcalm htree' hreturn callee' budget fuel taken, rfl, hresult⟩
  · rw [step_result hcallee hstep, h.result, lastResult?_append]
    cases lastResult? (e.requests callee) <;> rfl

/-- A tree with a loop whose body requests a break and then a return in one expression. -/
def departing : Tree :=
  ⟨#[⟨.entry, [], none, 2, [1], none⟩,
    ⟨.forEach "name" 0, [], none, 3, [2], some (.call "ArrayCreate" [.text "one"])⟩,
    ⟨.expression, [], none, 4, [],
      some (.call "ArrayCreate" [.call "Break" [], .call "Return" [.text "left"]])⟩], 0, []⟩

/-- The return comes behind the break, so the run ends with its result. -/
theorem Underway.last_request_departing : ∃ log e e' halt,
    Underway log e ∧ step (Machine.callee 0) e = .done .running e' ∧
      e.requests (Machine.callee 0) =
        [.breakLoop, .returnValue (some (.text "left")) halt] ∧
      ∃ last, run (Machine.callee 0) 0 1 0 e' = .done .finished last ∧
        last.context.result = some (.text "left") := by
  let program : Program := { Program.fresh 1 none with tree := some departing, state := .valid }
  let context : Context := .create 1 program [.text ""]
  have hcallee := Machine.callee_keeps 0
  have hbegun : Underway [] ⟨.start .standard .empty, context.beginRun departing.root⟩ :=
    .begun rfl
  have hloop := hbegun.stepped hcallee rfl
  have harray := hloop.stepped hcallee rfl
  have hbound := harray.stepped hcallee rfl
  have hbody := hbound.stepped hcallee rfl
  refine ⟨_, _, _, _, hbody, rfl, rfl, ?_⟩
  rcases (hbody.last_request hcallee rfl).1 _ _ rfl with ⟨-, hends⟩
  rcases hends _ ⟨rfl, rfl, rfl, rfl⟩ rfl with ⟨-, hrun⟩
  rcases hrun (Machine.callee 0) 0 0 0 with ⟨last, hlast, -, hresult⟩
  exact ⟨last, hlast, hresult⟩

end Execution
end ScriptMachine
