import ScriptMachine.Proofs.Alarm

/-!
# Ticks of a single context

With a single context in the background, a tick is a part of one run.  It starts where the
tick before has set the run aside, passes through the executions behind each of its steps, and
either parks the run again or settles it.

Main results:

- {lit}`Machine.Passes`: the executions that a tick passes through.
- {lit}`Machine.Passes.tick_parked` and {lit}`Machine.Passes.tick_finished`: how the tick ends.
- {lit}`Machine.passes_setAside`: a tick goes on where the one before has set the run aside.
-/

namespace ScriptMachine

/-! ## Between two turns -/

namespace Execution

/-- The machine in which a run is set aside at the end of a turn. -/
def setAside (e : Execution) : Machine :=
  { e.machine.leave with background := e.context :: e.machine.background }

/-- The report of the tick in which a run has ended, and the machine behind it. -/
def settled (e : Execution) : TickReport × Machine :=
  if e.context.halt then
    (⟨[], [], [(e.context.id, .halted)]⟩,
      { e.machine.leave.endExecution e.context.program.id with background := e.machine.background })
  else
    (⟨[(e.context.id, e.context.result)], [], []⟩,
      { e.machine.leave with
        background := { e.context with result := none } :: e.machine.background })

/-- Nothing keeps a run from being resumed: the global exception is not raised, no other context
is in the background, and the program is valid. -/
structure Undisturbed (e : Execution) : Prop where
  calm : e.machine.raised = false
  single : e.machine.background = []
  valid : e.machine.isValid e.context.program = true

/-- A run goes on behind a step only while there are frames. -/
theorem isRunning_of_step {callee : Callee} {e e' : Execution}
    (h : step callee e = .done .running e') : e.context.isRunning = true := by
  cases hframes : e.context.frames with
  | cons frame rest => simp [Context.isRunning, hframes]
  | nil =>
    exfalso
    unfold step at h
    rw [Action.bind_run, Action.get_run] at h
    simp only at h
    by_cases hraised : e.machine.raised = true
    · rw [if_pos hraised] at h
      cases h
    · rw [if_neg hraised] at h
      cases htree : e.context.program.tree with
      | none =>
        rw [htree] at h
        cases h
      | some tree =>
        rw [htree] at h
        cases hpending : e.context.pending with
        | none =>
          rw [hpending] at h
          simp only [stepStatement, Action.bind_run, Action.get_run, hframes] at h
          cases h
        | some jump =>
          rw [hpending] at h
          have hloop : e.context.fromLoop = [] := by simp [Context.fromLoop, hframes]
          simp only [stepJump, Action.bind_run, Action.get_run] at h
          cases jump <;> simp [Context.unwind, hloop] at h

end Execution

/-! ## One tick -/

namespace Machine

open Execution

variable {fuel : Nat} {seconds : Float} {context : Context} {m : Machine}

/-- A turn with a run makes that run. -/
theorem takeTurn_of_start (fuel : Nat) {start : Execution} (h : turnStart seconds context m = some start) :
    start = ⟨m.enter, start.context⟩ ∧
      takeTurn fuel seconds context m = runTurn fuel start.context m := by
  unfold turnStart at h
  unfold takeTurn
  simp only at h ⊢
  split at h
  · cases h
  · next hdue =>
    rw [if_neg hdue]
    split at h
    · cases h
    · next hvalid =>
      rw [if_neg hvalid]
      cases hresume : (context.wait seconds).resume with
      | error e =>
        rw [hresume] at h
        cases h
      | ok resumed =>
        rw [hresume] at h
        cases h
        exact ⟨rfl, rfl⟩

/-- The tick of a single context gives it a turn. -/
theorem tick_of_single (h : m.background = [context]) :
    tick fuel seconds m =
      match takeTurn fuel seconds context { m with background := [] } with
      | .done (after, turn) n =>
        .done (TickReport.empty.add after.id turn)
          { n with background := (if turn.stays then [after] else []) ++ n.background }
      | .failed error n => .failed error n
      | .exhausted => .exhausted := by
  simp only [tick, Action.bind_run, Action.get_run, Action.put_run, h, takeTurns]
  cases takeTurn fuel seconds context { m with background := [] } with
  | failed error n => rfl
  | exhausted => rfl
  | done answer n =>
    rcases answer with ⟨after, turn⟩
    simp

/-- The tick of a machine with a single context in the background comes to an execution when
its run has taken so many steps. -/
structure Passes (fuel : Nat) (seconds : Float) (m : Machine) (n : Nat) (e : Execution) : Prop where
  room : m.settings.stepBudget = 0 ∨ n ≤ m.settings.stepBudget
  run : ∃ context start, m.background = [context] ∧
    turnStart seconds context { m with background := [] } = some start ∧
    Steps (callee fuel) n start e

/-- A tick parks a run that takes as many steps as its budget allows. -/
theorem Passes.tick_parked {e : Execution} (h : m.Passes fuel seconds m.settings.stepBudget e)
    (hbudget : 0 < m.settings.stepBudget) (hfuel : m.settings.stepBudget ≤ fuel) :
    tick fuel seconds m = .done (TickReport.empty.add e.context.id .parked) e.setAside := by
  rcases h with ⟨-, context, start, hsingle, hstart, hsteps⟩
  rcases takeTurn_of_start fuel hstart with ⟨hsame, hturn⟩
  have hrun := run_parked_of_steps hsteps hbudget hfuel
  rw [hsame] at hrun
  rw [tick_of_single hsingle, hturn]
  simp only [runTurn, hrun]
  rfl

/-- A tick settles a run that ends within its budget. -/
theorem Passes.tick_finished {e last : Execution} {n : Nat} (h : m.Passes fuel seconds n e)
    (hroom : m.settings.stepBudget = 0 ∨ n < m.settings.stepBudget) (hfuel : n < fuel)
    (hstep : step (callee fuel) e = .done .finished last) :
    tick fuel seconds m = .done (last.onContext Context.endRun).settled.1
      (last.onContext Context.endRun).settled.2 := by
  rcases h with ⟨-, context, start, hsingle, hstart, hsteps⟩
  rcases takeTurn_of_start fuel hstart with ⟨hsame, hturn⟩
  have hrun := run_finished_of_steps hsteps hroom hfuel hstep
  rw [hsame] at hrun
  rw [tick_of_single hsingle, hturn]
  simp only [runTurn, hrun]
  generalize last.onContext Context.endRun = ended
  unfold settled Context.finishedTurn
  by_cases hhalt : ended.context.halt = true
  · simp only [if_pos hhalt]
    rfl
  · simp only [if_neg hhalt]
    rfl

/-- Leaving a call and entering it again leads back to a machine without a raised exception. -/
theorem enter_leave (hcalm : m.raised = false) (hdepth : 0 < m.depth) : m.leave.enter = m := by
  have hback : m.depth - 1 + 1 = m.depth := by omega
  unfold enter leave
  simp only [hcalm, hback, ite_self]
  rw [← hcalm]

/-- The tick behind the one in which a run is set aside goes on from there. -/
theorem passes_setAside {e : Execution} (h : e.Undisturbed) (hrunning : e.context.isRunning = true)
    (hdepth : 0 < e.machine.depth) :
    e.setAside.Passes fuel seconds 0 ⟨e.machine, e.context.wait seconds⟩ := by
  have hmachine : ({ e.setAside with background := [] } : Machine) = e.machine.leave := by
    have hbackground : e.machine.leave.background = [] := h.single
    unfold setAside
    rw [← hbackground]
  have hvalid : e.machine.leave.isValid (e.context.wait seconds).program = true := h.valid
  have hwait : (e.context.wait seconds).isRunning = true := hrunning
  refine ⟨.inr (Nat.zero_le _), e.context, _, ?_, ?_, .refl _⟩
  · unfold setAside
    rw [h.single]
  · unfold turnStart Context.resume
    rw [hmachine]
    simp only [hwait, hvalid, Bool.not_true, Bool.false_and, Bool.false_eq_true, if_false, if_true]
    rw [enter_leave h.calm hdepth]

/-! ## What a tick passes through -/

/-- Some of the steps of a tick come first. -/
theorem Passes.split {n k : Nat} {e : Execution} (h : m.Passes fuel seconds (n + k) e) :
    ∃ e', m.Passes fuel seconds n e' ∧ Steps (callee fuel) k e' e := by
  rcases h with ⟨hroom, context, start, hsingle, hstart, hsteps⟩
  rcases hsteps.split with ⟨e', hfirst, hlast⟩
  exact ⟨e', ⟨by omega, context, start, hsingle, hstart, hfirst⟩, hlast⟩

/-- More steps of a tick. -/
theorem Passes.append {n k : Nat} {e e' : Execution} (h : m.Passes fuel seconds n e)
    (hsteps : Steps (callee fuel) k e e')
    (hroom : m.settings.stepBudget = 0 ∨ n + k ≤ m.settings.stepBudget) :
    m.Passes fuel seconds (n + k) e' := by
  rcases h with ⟨-, context, start, hsingle, hstart, hfirst⟩
  exact ⟨hroom, context, start, hsingle, hstart, hfirst.append hsteps⟩

/-- A tick passes through one execution behind so many steps. -/
theorem Passes.unique {n : Nat} {e e' : Execution} (h : m.Passes fuel seconds n e)
    (h' : m.Passes fuel seconds n e') : e = e' := by
  rcases h with ⟨-, context, start, hsingle, hstart, hsteps⟩
  rcases h' with ⟨-, context', start', hsingle', hstart', hsteps'⟩
  rw [hsingle] at hsingle'
  cases hsingle'
  rw [hstart] at hstart'
  cases hstart'
  exact hsteps.unique hsteps'

/-- Inside of a tick a call is under way. -/
theorem Passes.depth_pos {n : Nat} {e : Execution} (h : m.Passes fuel seconds n e) :
    0 < e.machine.depth := by
  rcases h with ⟨-, context, start, -, hstart, hsteps⟩
  rw [(hsteps.continues (callee_keeps fuel)).machine.depth, (turnStart_eq_some hstart).1]
  exact Nat.succ_pos _

/-- A tick leaves the settings alone. -/
theorem Passes.settings {n : Nat} {e : Execution} (h : m.Passes fuel seconds n e) :
    e.machine.settings = m.settings := by
  rcases h with ⟨-, context, start, -, hstart, hsteps⟩
  rw [(hsteps.continues (callee_keeps fuel)).machine.settings, (turnStart_eq_some hstart).1]
  rfl

/-- All steps of a tick belong to one context. -/
theorem Passes.id {n n' : Nat} {e e' : Execution} (h : m.Passes fuel seconds n e)
    (h' : m.Passes fuel seconds n' e') : e.context.id = e'.context.id := by
  rcases h with ⟨-, context, start, hsingle, hstart, hsteps⟩
  rcases h' with ⟨-, context', start', hsingle', hstart', hsteps'⟩
  rw [hsingle] at hsingle'
  cases hsingle'
  rw [(hsteps.continues (callee_keeps fuel)).context.id, (turnStart_eq_some hstart).2.1,
    (hsteps'.continues (callee_keeps fuel)).context.id, (turnStart_eq_some hstart').2.1]

/-- What is not so behind more steps was not so before. -/
theorem Passes.earlier {n k : Nat} {e e' : Execution} (h : m.Passes fuel seconds k e')
    (hearlier : m.Passes fuel seconds n e) (hle : n ≤ k) :
    (e'.machine.raised = false → e.machine.raised = false) ∧
      (e'.machine.background = [] → e.machine.background = []) := by
  rcases Nat.exists_eq_add_of_le hle with ⟨rest, rfl⟩
  rcases h.split with ⟨t, ht, hsteps⟩
  rw [hearlier.unique ht]
  have hgrows := (hsteps.continues (callee_keeps fuel)).machine
  constructor
  · intro hcalm
    cases hraised : t.machine.raised with
    | false => rfl
    | true =>
      rw [hgrows.raised ht.depth_pos hraised] at hcalm
      cases hcalm
  · intro hempty
    rcases hgrows.background with ⟨-, added, hadded, -⟩
    rw [hempty] at hadded
    exact (List.append_eq_nil_iff.1 hadded.symm).1

/-- A run that takes more steps is under way. -/
theorem Passes.isRunning {n k : Nat} {e e' : Execution} (h : m.Passes fuel seconds n e)
    (hmore : m.Passes fuel seconds k e') (hlt : n < k) : e.context.isRunning = true := by
  rcases Nat.exists_eq_add_of_lt hlt with ⟨rest, rfl⟩
  rw [Nat.add_assoc, Nat.add_comm rest] at hmore
  rcases hmore.split with ⟨t, ht, hsteps⟩
  rcases hsteps.split with ⟨u, hfirst, -⟩
  rw [h.unique ht]
  cases hfirst with
  | step hstep hrest => exact isRunning_of_step hstep

/-! ## Ticks one after the other -/

/-- The machine with another step budget. -/
def withBudget (budget : Nat) (m : Machine) : Machine :=
  { m with settings := { m.settings with stepBudget := budget } }

/-- With the given budget a number of ticks park their context and lead to a machine. -/
def Parks (fuel : Nat) (clock : Nat → Float) (budget : Nat) (m : Machine) (k id : Nat)
    (m' : Machine) : Prop :=
  ticks fuel ((List.range k).map clock) (m.withBudget budget) =
    .done (List.replicate k (TickReport.empty.add id .parked)) m'

/-- Ticks behind ticks. -/
theorem ticks_concat (lengths : List Float) (last : Float) :
    ticks fuel (lengths ++ [last]) = (do
      let reports ← ticks fuel lengths
      let report ← tick fuel last
      return reports ++ [report]) := by
  induction lengths with
  | nil =>
    funext m
    simp only [List.nil_append, ticks, Action.bind_run, Action.pure_run]
  | cons first rest ih =>
    funext m
    simp only [List.cons_append, ticks, ih, Action.bind_run, Action.pure_run]
    cases tick fuel first m with
    | failed e n => rfl
    | exhausted => rfl
    | done report n =>
      simp only
      cases ticks fuel rest n with
      | failed e k => rfl
      | exhausted => rfl
      | done reports k =>
        simp only
        cases tick fuel last k <;> rfl

/-- The run from which a turn goes on does not depend on the budget. -/
theorem turnStart_withBudget (budget : Nat) :
    turnStart seconds context (m.withBudget budget) =
      (turnStart seconds context m).map fun e => ⟨e.machine.withBudget budget, e.context⟩ := by
  have hvalid : ∀ program, (m.withBudget budget).isValid program = m.isValid program :=
    fun _ => rfl
  unfold turnStart
  simp only [hvalid]
  split
  · rfl
  · split
    · rfl
    · split <;> rfl

end Machine
end ScriptMachine
