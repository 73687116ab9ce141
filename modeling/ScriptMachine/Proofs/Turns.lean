import ScriptMachine.Machine.Tick
import ScriptMachine.Proofs.Stepping

/-!
# Turns, one by one

A tick gives each context in the background one turn, and its report only says how the
turns ended.  Here the turns themselves are kept: the context before and behind each of
them, and the machine in which it was taken.

Main results:

- {lit}`Execution.run_ends`: a run is a number of steps and an ending.
- {lit}`Machine.tick_eq`: a tick reports its turns.
- {lit}`Machine.takeTurn_continues`: what a turn can change.
-/

namespace ScriptMachine

/-! ## Counting steps -/

namespace Execution

/-- One execution lies a number of steps behind another, and the run went on in all of
them. -/
inductive Steps (callee : Callee) : Nat → Execution → Execution → Prop where
  | refl (e : Execution) : Steps callee 0 e e
  | step {n : Nat} {e e' e'' : Execution} (hstep : step callee e = .done .running e')
      (hrest : Steps callee n e' e'') : Steps callee (n + 1) e e''

/-- What some steps can change. -/
theorem Steps.continues {callee : Callee} (hcallee : callee.Keeps) {n : Nat} {e e' : Execution}
    (h : Steps callee n e e') : e.Continues e' := by
  induction h with
  | refl e => exact Lasting.refl e
  | step hstep _ ih => exact Lasting.trans ((step_continues hcallee).of_done hstep) ih

/-- Steps behind steps. -/
theorem Steps.append {n m : Nat} {e e' e'' : Execution} (h : Steps callee n e e')
    (h' : Steps callee m e' e'') : Steps callee (n + m) e e'' := by
  induction h with
  | refl e =>
    rw [Nat.zero_add]
    exact h'
  | step hstep _ ih =>
    rw [Nat.add_right_comm]
    exact .step hstep (ih h')

/-- Some of the steps come first. -/
theorem Steps.split {callee : Callee} {n k : Nat} {e e'' : Execution}
    (h : Steps callee (n + k) e e'') : ∃ e', Steps callee n e e' ∧ Steps callee k e' e'' := by
  induction n generalizing e with
  | zero =>
    rw [Nat.zero_add] at h
    exact ⟨e, .refl e, h⟩
  | succ n ih =>
    rw [Nat.add_right_comm] at h
    cases h with
    | step hstep hrest =>
      rcases ih hrest with ⟨e', hfirst, hlast⟩
      exact ⟨e', .step hstep hfirst, hlast⟩

/-- Steps are determined by where they start. -/
theorem Steps.unique {callee : Callee} {n : Nat} {e e' e'' : Execution}
    (h : Steps callee n e e') (h' : Steps callee n e e'') : e' = e'' := by
  induction h with
  | refl e =>
    cases h'
    rfl
  | step hstep _ ih =>
    cases h' with
    | step hstep' hrest' =>
      rw [hstep] at hstep'
      cases hstep'
      exact ih hrest'

/-- How a run with a budget ends after so many steps. -/
inductive Ending (callee : Callee) (budget : Nat) :
    Nat → Execution → Outcome Execution MachineError RunState → Prop where
  | failed {n : Nat} {e e' : Execution} {error : MachineError}
      (hroom : budget = 0 ∨ n < budget) (hstep : step callee e = .failed error e') :
      Ending callee budget n e (.failed error (e'.onContext Context.endRun))
  | finished {n : Nat} {e e' : Execution}
      (hroom : budget = 0 ∨ n < budget) (hstep : step callee e = .done .finished e') :
      Ending callee budget n e (.done .finished (e'.onContext Context.endRun))
  | parked {e : Execution} (hbudget : 0 < budget) : Ending callee budget budget e (.done .parked e)

/-- A budget that is not used up. -/
theorem usedUp_eq_false {budget taken : Nat} :
    usedUp budget taken = false ↔ budget = 0 ∨ taken < budget := by
  simp only [usedUp, Bool.and_eq_false_iff, decide_eq_false_iff_not]
  omega

/-- A run goes on behind its steps while they leave room in the budget. -/
theorem run_behind_steps {callee : Callee} {budget n taken : Nat} {e e' : Execution}
    (h : Steps callee n e e') (hroom : budget = 0 ∨ taken + n < budget) (fuel : Nat) :
    run callee budget (n + fuel) taken e = run callee budget fuel (taken + n) e' := by
  induction h generalizing taken with
  | refl e => rw [Nat.zero_add, Nat.add_zero]
  | @step n e e₁ e₂ hstep hrest ih =>
    have hunused : usedUp budget (taken + 1) = false := usedUp_eq_false.2 (by omega)
    rw [Nat.add_right_comm, run]
    simp only [hstep, hunused, Bool.false_eq_true, if_false]
    rw [ih (by omega)]
    congr 1
    omega

/-- A run is parked behind as many steps as its budget allows. -/
theorem run_parked_of_steps {callee : Callee} {budget fuel : Nat} {e e' : Execution}
    (h : Steps callee budget e e') (hbudget : 0 < budget) (hfuel : budget ≤ fuel) :
    run callee budget fuel 0 e = .done .parked e' := by
  rcases Nat.exists_eq_add_of_lt hbudget with ⟨n, rfl⟩
  rcases Nat.exists_eq_add_of_le hfuel with ⟨more, rfl⟩
  rw [Nat.zero_add] at h ⊢
  rcases h.split with ⟨last, hsteps, hlast⟩
  have hused : usedUp (n + 1) (n + 1) = true := by simp [usedUp]
  cases hlast with
  | step hstep hrest =>
    cases hrest
    rw [Nat.add_assoc, run_behind_steps hsteps (.inr (by omega)), Nat.zero_add, Nat.add_comm 1, run]
    simp only [hstep, hused, if_true]

/-- A run is finished behind its last step. -/
theorem run_finished_of_steps {callee : Callee} {budget n fuel : Nat} {e e' last : Execution}
    (h : Steps callee n e e') (hroom : budget = 0 ∨ n < budget) (hfuel : n < fuel)
    (hstep : step callee e' = .done .finished last) :
    run callee budget fuel 0 e = .done .finished (last.onContext Context.endRun) := by
  rcases Nat.exists_eq_add_of_lt hfuel with ⟨more, rfl⟩
  rw [Nat.add_assoc, run_behind_steps h (by omega), run]
  simp only [hstep]

/-- A run is a number of steps and an ending, wherever it starts to count. -/
theorem run_ends_from {callee : Callee} {budget fuel taken : Nat} {e : Execution}
    {outcome : Outcome Execution MachineError RunState}
    (hrun : run callee budget fuel taken e = outcome) (hdone : outcome ≠ .exhausted)
    (hroom : budget = 0 ∨ taken < budget) :
    ∃ n e', Steps callee n e e' ∧ Ending callee budget (taken + n) e' outcome := by
  induction fuel generalizing taken e with
  | zero => exact absurd hrun.symm hdone
  | succ fuel ih =>
    unfold run at hrun
    cases hstep : step callee e with
    | exhausted =>
      rw [hstep] at hrun
      exact absurd hrun.symm hdone
    | failed error t =>
      rw [hstep] at hrun
      subst hrun
      exact ⟨0, e, .refl e, .failed hroom hstep⟩
    | done status t =>
      rw [hstep] at hrun
      cases status with
      | finished =>
        subst hrun
        exact ⟨0, e, .refl e, .finished hroom hstep⟩
      | running =>
        simp only at hrun
        by_cases hused : usedUp budget (taken + 1) = true
        · rw [if_pos hused] at hrun
          subst hrun
          have hlast : taken + 1 = budget := by
            have hout : ¬ (budget = 0 ∨ taken + 1 < budget) := by
              rw [← usedUp_eq_false, hused]
              simp
            omega
          refine ⟨1, t, .step hstep (.refl t), ?_⟩
          rw [hlast]
          exact .parked (by omega)
        · rw [if_neg hused] at hrun
          have hmore := usedUp_eq_false.1 (by simpa using hused)
          rcases ih hrun hmore with ⟨n, e', hsteps, hend⟩
          refine ⟨n + 1, e', .step hstep hsteps, ?_⟩
          rw [show taken + (n + 1) = taken + 1 + n by omega]
          exact hend

/-- A run is a number of steps and an ending. -/
theorem run_ends {callee : Callee} {budget fuel : Nat} {e : Execution}
    {outcome : Outcome Execution MachineError RunState}
    (hrun : run callee budget fuel 0 e = outcome) (hdone : outcome ≠ .exhausted) :
    ∃ n e', Steps callee n e e' ∧ Ending callee budget n e' outcome := by
  rcases run_ends_from hrun hdone (by omega) with ⟨n, e', hsteps, hend⟩
  rw [Nat.zero_add] at hend
  exact ⟨n, e', hsteps, hend⟩

end Execution

/-! ## Turns that were taken -/

/-- A turn: the seconds that had passed, the machine in which it was taken, its context before
and behind it, and how it ended. -/
structure TakenTurn where
  seconds : Float
  machine : Machine
  before : Context
  after : Context
  turn : Turn

/-- The report on some turns. -/
def TickReport.ofTurns (turns : List TakenTurn) : TickReport :=
  turns.foldr (fun taken report => report.add taken.after.id taken.turn) .empty

namespace Machine

/-- The turns of a list of contexts. -/
def takeAll (fuel : Nat) (seconds : Float) : List Context → Operation (List TakenTurn)
  | [] => return []
  | context :: rest => do
    let machine ← Action.get
    let (after, turn) ← takeTurn fuel seconds context
    let others ← takeAll fuel seconds rest
    return ⟨seconds, machine, context, after, turn⟩ :: others

/-- The contexts that stay in the background. -/
def kept (turns : List TakenTurn) : List Context :=
  turns.flatMap fun taken => if taken.turn.stays then [taken.after] else []

/-- A tick that answers with its turns. -/
def tickTurns (fuel : Nat) (seconds : Float) : Operation (List TakenTurn) := do
  let machine ← Action.get
  Action.put { machine with background := [] }
  let turns ← takeAll fuel seconds machine.background
  Action.change fun machine => { machine with background := kept turns ++ machine.background }
  return turns

/-- What the turns of some contexts come to. -/
theorem takeTurns_eq (fuel : Nat) (seconds : Float) (contexts : List Context) :
    takeTurns fuel seconds contexts = (do
      let turns ← takeAll fuel seconds contexts
      return (kept turns, .ofTurns turns)) := by
  induction contexts with
  | nil => rfl
  | cons context rest ih =>
    funext m
    simp only [takeTurns, takeAll, ih, Action.bind_run, Action.get_run]
    cases takeTurn fuel seconds context m with
    | done pair n =>
      rcases pair with ⟨after, turn⟩
      simp only
      cases takeAll fuel seconds rest n with
      | done turns k => rfl
      | failed e k => rfl
      | exhausted => rfl
    | failed e n => rfl
    | exhausted => rfl

/-- A tick reports its turns. -/
theorem tick_eq (fuel : Nat) (seconds : Float) :
    tick fuel seconds = (do
      let turns ← tickTurns fuel seconds
      return .ofTurns turns) := by
  funext m
  simp only [tick, tickTurns, takeTurns_eq, Action.bind_run, Action.get_run, Action.put_run]
  cases takeAll fuel seconds m.background { m with background := [] } with
  | done turns n => rfl
  | failed e n => rfl
  | exhausted => rfl

/-- Ticks of the given lengths, one after the other. -/
def ticks (fuel : Nat) : List Float → Operation (List TickReport)
  | [] => return []
  | seconds :: rest => do
    let report ← tick fuel seconds
    let others ← ticks fuel rest
    return report :: others

/-- Ticks of the given lengths, with their turns. -/
def tickLog (fuel : Nat) : List Float → Operation (List (List TakenTurn))
  | [] => return []
  | seconds :: rest => do
    let turns ← tickTurns fuel seconds
    let others ← tickLog fuel rest
    return turns :: others

/-- The reports of some ticks say how their turns ended. -/
theorem ticks_eq (fuel : Nat) (seconds : List Float) :
    ticks fuel seconds = (do
      let log ← tickLog fuel seconds
      return log.map .ofTurns) := by
  induction seconds with
  | nil => rfl
  | cons first rest ih =>
    funext m
    simp only [ticks, tickLog, tick_eq, ih, Action.bind_run]
    cases tickTurns fuel first m with
    | done turns n =>
      simp only [Action.pure_run]
      cases tickLog fuel rest n with
      | done log k => rfl
      | failed e k => rfl
      | exhausted => rfl
    | failed e n => rfl
    | exhausted => rfl

/-! ## What a turn does -/

/-- The execution from which the run of a turn goes on, if there is one. -/
def turnStart (seconds : Float) (context : Context) (machine : Machine) : Option Execution :=
  let context := context.wait seconds
  if !context.isRunning && !context.isDue then none
  else if !machine.isValid context.program then none
  else
    match context.resume with
    | .error _ => none
    | .ok context => some ⟨machine.enter, context⟩

/-- How a turn ends, and in which context and machine. -/
inductive TurnEnds (fuel : Nat) (seconds : Float) (context : Context) (m : Machine) :
    Context → Turn → Machine → Prop where
  /-- No run is under way or due. -/
  | waiting (hstart : turnStart seconds context m = none) (hidle : context.isRunning = false) :
      TurnEnds fuel seconds context m (context.wait seconds) .waiting m
  /-- The program has become stale. -/
  | stale (hstart : turnStart seconds context m = none) :
      TurnEnds fuel seconds context m (context.wait seconds) (.retired .stale)
        (m.endExecution context.program.id)
  /-- The program has no tree. -/
  | treeless (hstart : turnStart seconds context m = none) (hidle : context.isRunning = false)
      (error : Fault) :
      TurnEnds fuel seconds context m (context.wait seconds) (.retired (.failed (.fault error)))
        (m.endExecution context.program.id)
  | failed {e e' : Execution} {error : MachineError} (hstart : turnStart seconds context m = some e)
      (hrun : Execution.run (callee fuel) m.settings.stepBudget fuel 0 e = .failed error e') :
      TurnEnds fuel seconds context m e'.context (.retired (.failed error))
        (e'.machine.leave.endExecution e'.context.program.id)
  | parked {e e' : Execution} (hstart : turnStart seconds context m = some e)
      (hrun : Execution.run (callee fuel) m.settings.stepBudget fuel 0 e = .done .parked e') :
      TurnEnds fuel seconds context m e'.context .parked e'.machine.leave
  | halted {e e' : Execution} (hstart : turnStart seconds context m = some e)
      (hrun : Execution.run (callee fuel) m.settings.stepBudget fuel 0 e = .done .finished e') :
      TurnEnds fuel seconds context m { e'.context with result := none } (.retired .halted)
        (e'.machine.leave.endExecution e'.context.program.id)
  | completed {e e' : Execution} (hstart : turnStart seconds context m = some e)
      (hrun : Execution.run (callee fuel) m.settings.stepBudget fuel 0 e = .done .finished e') :
      TurnEnds fuel seconds context m { e'.context with result := none }
        (.completed e'.context.result) e'.machine.leave

/-- A turn with a run ends in one of these ways. -/
theorem runTurn_ends {fuel : Nat} {seconds : Float} {context resumed after : Context}
    {m m' : Machine} {turn : Turn} (hstart : turnStart seconds context m = some ⟨m.enter, resumed⟩)
    (h : runTurn fuel resumed m = .done (after, turn) m') :
    TurnEnds fuel seconds context m after turn m' := by
  simp only [runTurn] at h
  cases hrun : Execution.run (callee fuel) m.settings.stepBudget fuel 0 ⟨m.enter, resumed⟩ with
  | exhausted =>
    rw [hrun] at h
    cases h
  | failed error e' =>
    rw [hrun] at h
    cases h
    exact .failed hstart hrun
  | done state e' =>
    rw [hrun] at h
    cases state with
    | parked =>
      cases h
      exact .parked hstart hrun
    | finished =>
      simp only [Context.finishedTurn] at h
      by_cases hhalt : e'.context.halt = true
      · rw [if_pos hhalt] at h
        cases h
        exact .halted hstart hrun
      · rw [if_neg hhalt] at h
        cases h
        exact .completed hstart hrun

/-- Every turn ends in one of these ways. -/
theorem takeTurn_ends {fuel : Nat} {seconds : Float} {context after : Context} {m m' : Machine}
    {turn : Turn} (h : takeTurn fuel seconds context m = .done (after, turn) m') :
    TurnEnds fuel seconds context m after turn m' := by
  have hwait : (context.wait seconds).isRunning = context.isRunning := rfl
  unfold takeTurn at h
  simp only at h
  by_cases hidle : (!(context.wait seconds).isRunning && !(context.wait seconds).isDue) = true
  · rw [if_pos hidle] at h
    cases h
    have hstart : turnStart seconds context m = none := by
      unfold turnStart
      simp only
      rw [if_pos hidle]
    rw [Bool.and_eq_true, hwait] at hidle
    exact .waiting hstart (by simpa using hidle.1)
  · rw [if_neg hidle] at h
    by_cases hvalid : (!m.isValid (context.wait seconds).program) = true
    · rw [if_pos hvalid] at h
      cases h
      refine .stale ?_
      unfold turnStart
      simp only
      rw [if_neg hidle, if_pos hvalid]
    · rw [if_neg hvalid] at h
      cases hresume : (context.wait seconds).resume with
      | error error =>
        rw [hresume] at h
        cases h
        have hstart : turnStart seconds context m = none := by
          unfold turnStart
          simp only
          rw [if_neg hidle, if_neg hvalid, hresume]
        refine .treeless hstart ?_ error
        unfold Context.resume at hresume
        rw [hwait] at hresume
        cases hrunning : context.isRunning with
        | false => rfl
        | true =>
          rw [hrunning] at hresume
          cases hresume
      | ok resumed =>
        rw [hresume] at h
        have hstart : turnStart seconds context m = some ⟨m.enter, resumed⟩ := by
          unfold turnStart
          simp only
          rw [if_neg hidle, if_neg hvalid, hresume]
        exact runTurn_ends hstart h

/-- The run of a turn is that of the context: the one under way, or a new one. -/
theorem turnStart_eq_some {seconds : Float} {context : Context} {m : Machine} {e : Execution}
    (h : turnStart seconds context m = some e) :
    e.machine = m.enter ∧ e.context.id = context.id ∧ e.context.program = context.program ∧
      e.context.runs = context.runs + (if context.isRunning then 0 else 1) := by
  have hwait : (context.wait seconds).isRunning = context.isRunning := rfl
  unfold turnStart at h
  simp only at h
  split at h
  · cases h
  · split at h
    · cases h
    · split at h
      · cases h
      · next resumed hresume =>
        cases h
        unfold Context.resume at hresume
        rw [hwait] at hresume
        split at hresume
        · next hrunning =>
          cases hresume
          rw [if_pos hrunning]
          exact ⟨rfl, rfl, rfl, rfl⟩
        · next hidle =>
          split at hresume
          · cases hresume
            rw [if_neg hidle]
            exact ⟨rfl, rfl, rfl, rfl⟩
          · cases hresume

/-- A turn keeps the number of its context and lets the machine grow. -/
theorem takeTurn_continues {fuel : Nat} {seconds : Float} {context after : Context}
    {m m' : Machine} {turn : Turn} (h : takeTurn fuel seconds context m = .done (after, turn) m') :
    after.id = context.id ∧ m.Grows m' := by
  have hrun : ∀ {e e' : Execution}, turnStart seconds context m = some e → e.Continues e' →
      e'.context.id = context.id ∧ m.Grows e'.machine.leave := by
    intro e e' hstart hcontinues
    rcases turnStart_eq_some hstart with ⟨hmachine, hid, -, -⟩
    have hgrows := hcontinues.machine
    rw [hmachine] at hgrows
    exact ⟨hcontinues.context.id.trans hid, hgrows.nested⟩
  have hend : ∀ {n : Machine} (program : Nat), m.Grows n → m.Grows (n.endExecution program) :=
    fun _ hgrows => ⟨hgrows.settings, hgrows.depth, hgrows.raised, hgrows.commands,
      hgrows.background⟩
  have hkeeps := Execution.run_continues (callee_keeps fuel) m.settings.stepBudget fuel 0
  cases takeTurn_ends h with
  | waiting => exact ⟨rfl, Lasting.refl _⟩
  | stale => exact ⟨rfl, hend _ (Lasting.refl _)⟩
  | treeless => exact ⟨rfl, hend _ (Lasting.refl _)⟩
  | failed hstart hlast =>
    have hdone := hrun hstart (hkeeps.of_failed hlast)
    exact ⟨hdone.1, hend _ hdone.2⟩
  | parked hstart hlast => exact hrun hstart (hkeeps.of_done hlast)
  | halted hstart hlast =>
    have hdone := hrun hstart (hkeeps.of_done hlast)
    exact ⟨hdone.1, hend _ hdone.2⟩
  | completed hstart hlast => exact hrun hstart (hkeeps.of_done hlast)

/-- A turn does not fail. -/
theorem takeTurn_ne_failed (fuel : Nat) (seconds : Float) (context : Context) (m m' : Machine)
    (error : MachineError) : takeTurn fuel seconds context m ≠ .failed error m' := by
  intro h
  simp only [takeTurn] at h
  split at h
  · cases h
  · split at h
    · cases h
    · split at h
      · cases h
      · unfold runTurn at h
        split at h
        · cases h
        · cases h
        · cases h
        · simp only [Context.finishedTurn] at h
          split at h <;> cases h

/-- The turns of some contexts are that of the first one and those of the others. -/
theorem exists_of_takeAll_cons {fuel : Nat} {seconds : Float} {context : Context}
    {rest : List Context} {m m' : Machine} {turns : List TakenTurn}
    (h : takeAll fuel seconds (context :: rest) m = .done turns m') :
    ∃ after turn n others, takeTurn fuel seconds context m = .done (after, turn) n ∧
      takeAll fuel seconds rest n = .done others m' ∧
        turns = ⟨seconds, m, context, after, turn⟩ :: others := by
  rw [takeAll, Action.bind_run, Action.get_run] at h
  rcases Action.exists_of_bind_done h with ⟨⟨after, turn⟩, n, hturn, hbehind⟩
  rcases Action.exists_of_bind_done hbehind with ⟨others, k, hrest, hdone⟩
  cases hdone
  exact ⟨after, turn, n, others, hturn, hrest, rfl⟩

/-- The turns of a tick are those of the contexts in the background, which are out of it
meanwhile. -/
theorem exists_of_tickTurns {fuel : Nat} {seconds : Float} {m m' : Machine}
    {turns : List TakenTurn} (h : tickTurns fuel seconds m = .done turns m') :
    ∃ n, takeAll fuel seconds m.background { m with background := [] } = .done turns n ∧
      m' = { n with background := kept turns ++ n.background } := by
  rw [tickTurns, Action.bind_run, Action.get_run] at h
  rcases Action.exists_of_bind_done h with ⟨_, k, hput, hbehind⟩
  cases hput
  rcases Action.exists_of_bind_done hbehind with ⟨others, n, hall, hdone⟩
  cases hdone
  exact ⟨n, hall, rfl⟩

/-- No turn of a tick fails. -/
theorem takeAll_ne_failed (fuel : Nat) (seconds : Float) (contexts : List Context) (m m' : Machine)
    (error : MachineError) : takeAll fuel seconds contexts m ≠ .failed error m' := by
  induction contexts generalizing m with
  | nil => exact fun h => by cases h
  | cons context rest ih =>
    intro h
    rw [takeAll, Action.bind_run, Action.get_run] at h
    rcases Action.of_bind_failed h with hturn | ⟨⟨after, turn⟩, n, -, hbehind⟩
    · exact takeTurn_ne_failed fuel seconds context m m' error hturn
    · rcases Action.of_bind_failed hbehind with hrest | ⟨others, k, -, hdone⟩
      · exact ih n hrest
      · cases hdone

/-- A tick does not fail. -/
theorem tick_ne_failed (fuel : Nat) (seconds : Float) (m m' : Machine) (error : MachineError) :
    tick fuel seconds m ≠ .failed error m' := by
  intro h
  rw [tick_eq] at h
  rcases Action.of_bind_failed h with hturns | ⟨turns, n, -, hdone⟩
  · rw [tickTurns, Action.bind_run, Action.get_run] at hturns
    rcases Action.of_bind_failed hturns with hput | ⟨_, k, hput, hbehind⟩
    · cases hput
    · rcases Action.of_bind_failed hbehind with hall | ⟨others, n, -, hdone⟩
      · exact takeAll_ne_failed _ _ _ _ _ _ hall
      · cases hdone
  · cases hdone

/-- Ticks do not fail. -/
theorem ticks_ne_failed (fuel : Nat) (seconds : List Float) (m m' : Machine) (error : MachineError) :
    ticks fuel seconds m ≠ .failed error m' := by
  induction seconds generalizing m with
  | nil => exact fun h => by cases h
  | cons first rest ih =>
    intro h
    rw [ticks] at h
    rcases Action.of_bind_failed h with htick | ⟨report, n, -, hbehind⟩
    · exact tick_ne_failed _ _ _ _ _ htick
    · rcases Action.of_bind_failed hbehind with hrest | ⟨others, k, -, hdone⟩
      · exact ih n hrest
      · cases hdone

/-- The turns of some contexts, in order. -/
theorem takeAll_spec {fuel : Nat} {seconds : Float} {contexts : List Context} {m m' : Machine}
    {turns : List TakenTurn} (h : takeAll fuel seconds contexts m = .done turns m') :
    turns.map TakenTurn.before = contexts ∧ m.Grows m' ∧ ∀ taken ∈ turns,
      taken.seconds = seconds ∧ m.Grows taken.machine ∧ ∃ n,
        takeTurn fuel seconds taken.before taken.machine = .done (taken.after, taken.turn) n := by
  induction contexts generalizing m turns with
  | nil =>
    cases h
    exact ⟨rfl, Lasting.refl _, by simp⟩
  | cons context rest ih =>
    rcases exists_of_takeAll_cons h with ⟨after, turn, n, others, hturn, hrest, rfl⟩
    rcases ih hrest with ⟨hbefore, hgrows, hothers⟩
    have hfirst := (takeTurn_continues hturn).2
    refine ⟨by simp [hbefore], Lasting.trans hfirst hgrows, ?_⟩
    intro taken hmem
    rcases List.mem_cons.1 hmem with rfl | hmem
    · exact ⟨rfl, Lasting.refl m, n, hturn⟩
    · rcases hothers taken hmem with ⟨hseconds, hmachine, htaken⟩
      exact ⟨hseconds, Lasting.trans hfirst hmachine, htaken⟩

/-- A tick gives one turn to each context in the background, keeps those that stay, and puts
new contexts behind them. -/
theorem tickTurns_spec {fuel : Nat} {seconds : Float} {m m' : Machine} {turns : List TakenTurn}
    (h : tickTurns fuel seconds m = .done turns m') :
    turns.map TakenTurn.before = m.background ∧
      (∃ n added, Grows { m with background := [] } n ∧ n.background = added ∧
        m' = { n with background := kept turns ++ added }) ∧
      ∀ taken ∈ turns, taken.seconds = seconds ∧ Grows { m with background := [] } taken.machine ∧
        ∃ n, takeTurn fuel seconds taken.before taken.machine =
          .done (taken.after, taken.turn) n := by
  rcases exists_of_tickTurns h with ⟨n, hall, rfl⟩
  rcases takeAll_spec hall with ⟨hbefore, hgrows, hothers⟩
  exact ⟨hbefore, ⟨n, n.background, hgrows, rfl, rfl⟩, hothers⟩

end Machine
end ScriptMachine
