import ScriptMachine.Proofs.Ticking
import ScriptMachine.Proofs.Timing

/-!
# Parked runs go on where they stopped

A budget cuts a run into turns.  All that the run needs in order to go on lies in its context,
so the ticks of a machine with a budget pass through the same executions as a single tick
without one, as long as the run is the only one in the background and its program stays valid.

Main results:

- {lit}`Execution.Agrees.steps`: executions that agree take the same steps.
- {lit}`Machine.exists_resumed`: a run that is still under way is resumed.
- {lit}`Machine.ticks_resume`: the ticks of a machine with a budget make the run that one
  tick would make without it.
-/

namespace ScriptMachine

/-! ## The same run at another time -/

/-- No budget and no clock. -/
def Disguise.timeless : Disguise := .ofTime (fun _ => 0) (fun _ => 0.0)

/-- Other scripts run as they would without a budget. -/
theorem Machine.callee_ignores_timeless (fuel : Nat) : (callee fuel).Ignores .timeless :=
  ⟨(callee_ignores (fun _ => 0) fuel).run, (callee_ignores (fun _ => 0) fuel).create⟩

/-- A machine between two ticks without its budget and the clocks of its contexts. -/
def Machine.timeless (m : Machine) : Machine :=
  { m.withBudget 0 with background := m.background.map Disguise.timeless.context }

namespace Execution

/-- Two executions differ in the step budget of the machine and in the clock of the context
only. -/
def Agrees (e other : Execution) : Prop :=
  Disguise.timeless.execution e = Disguise.timeless.execution other

namespace Agrees

variable {e other : Execution}

theorem machine (h : e.Agrees other) :
    Disguise.timeless.machine e.machine = Disguise.timeless.machine other.machine :=
  congrArg Execution.machine h

theorem context (h : e.Agrees other) :
    Disguise.timeless.context e.context = Disguise.timeless.context other.context :=
  congrArg Execution.context h

/-- Time may pass. -/
theorem wait (e : Execution) (seconds : Float) :
    Agrees ⟨e.machine, e.context.wait seconds⟩ e := rfl

/-- The end of a run. -/
theorem endRun (h : e.Agrees other) :
    (e.onContext Context.endRun).Agrees (other.onContext Context.endRun) :=
  congrArg (fun t : Execution => t.onContext Context.endRun) h

/-- Executions that agree take the same step. -/
theorem step {callee : Callee} (hcallee : callee.Ignores .timeless) {e' : Execution}
    {status : Status} (h : e.Agrees other) (hstep : Execution.step callee e = .done status e') :
    ∃ other', Execution.step callee other = .done status other' ∧ e'.Agrees other' := by
  have hignores : (Execution.step callee).Ignores Disguise.timeless.execution :=
    step_ignores hcallee
  have hsame : (Execution.step callee e).after Disguise.timeless.execution =
      (Execution.step callee other).after Disguise.timeless.execution := by
    rw [← hignores e, ← hignores other, show _ = _ from h]
  rw [hstep] at hsame
  cases hother : Execution.step callee other with
  | done answer t =>
    rw [hother] at hsame
    simp only [Outcome.after, Outcome.done.injEq] at hsame
    rcases hsame with ⟨rfl, hagrees⟩
    exact ⟨t, rfl, hagrees⟩
  | failed error t =>
    rw [hother] at hsame
    cases hsame
  | exhausted =>
    rw [hother] at hsame
    cases hsame

/-- Executions that agree take the same steps. -/
theorem steps {callee : Callee} (hcallee : callee.Ignores .timeless) {n : Nat} {e' : Execution}
    (h : e.Agrees other) (hsteps : Steps callee n e e') :
    ∃ other', Steps callee n other other' ∧ e'.Agrees other' := by
  induction hsteps generalizing other with
  | refl e => exact ⟨other, .refl other, h⟩
  | step hstep _ ih =>
    rcases h.step hcallee hstep with ⟨t, hfirst, hagrees⟩
    rcases ih hagrees with ⟨other', hrest, hlast⟩
    exact ⟨other', .step hfirst hrest, hlast⟩

/-- Whether a run is under way does not depend on the budget and the clock. -/
theorem isRunning (h : e.Agrees other) : e.context.isRunning = other.context.isRunning :=
  (congrArg Context.isRunning h.context :)

/-- The number of a context is its own. -/
theorem id (h : e.Agrees other) : e.context.id = other.context.id :=
  (congrArg Context.id h.context :)

/-- What keeps a run from being resumed does not depend on the budget and the clock. -/
theorem undisturbed (h : e.Agrees other) (hother : other.Undisturbed) : e.Undisturbed where
  calm := (congrArg Machine.raised h.machine).trans hother.calm
  single := (congrArg Machine.background h.machine).trans hother.single
  valid := (congrArg (fun t : Execution => t.machine.isValid t.context.program) h).trans hother.valid

/-- Runs that agree are set aside in the same way. -/
theorem setAside (h : e.Agrees other) :
    e.setAside.timeless = other.setAside.timeless :=
  (congrArg (fun t : Execution => t.setAside.timeless) (show _ = _ from h) :)

/-- Runs that agree are settled in the same way. -/
theorem settled (h : e.Agrees other) :
    e.settled.1 = other.settled.1 ∧ e.settled.2.timeless = other.settled.2.timeless := by
  have hsame : ∀ t : Execution, (Disguise.timeless.execution t).settled.1 = t.settled.1 ∧
      (Disguise.timeless.execution t).settled.2.timeless = t.settled.2.timeless := by
    intro t
    have hhalt : (Disguise.timeless.execution t).context.halt = t.context.halt := rfl
    unfold Execution.settled
    rw [hhalt]
    by_cases h : t.context.halt = true
    · rw [if_pos h, if_pos h]
      exact ⟨rfl, rfl⟩
    · rw [if_neg h, if_neg h]
      exact ⟨rfl, rfl⟩
  rw [← (hsame e).1, ← (hsame e).2, show _ = _ from h]
  exact hsame other

end Agrees
end Execution

/-! ## Resuming -/

namespace Machine

open Execution

variable {fuel : Nat} {seconds : Float} {m : Machine}

/-- With another budget the first tick starts the same run. -/
theorem Passes.first {e : Execution} (h : (m.withBudget 0).Passes fuel seconds 0 e)
    (budget : Nat) : ∃ x, (m.withBudget budget).Passes fuel seconds 0 x ∧ x.Agrees e := by
  rcases h with ⟨-, context, start, hsingle, hstart, hsteps⟩
  cases hsteps
  have hstart' : turnStart seconds context (withBudget 0 { m with background := [] }) = some e :=
    hstart
  rw [turnStart_withBudget] at hstart'
  rcases Option.map_eq_some_iff.1 hstart' with ⟨begun, hbegun, rfl⟩
  refine ⟨⟨begun.machine.withBudget budget, begun.context⟩,
    ⟨.inr (Nat.zero_le _), context, _, hsingle, ?_, .refl _⟩, rfl⟩
  show turnStart seconds context (withBudget budget { m with background := [] }) = _
  rw [turnStart_withBudget, hbegun]
  rfl

/-- With a budget, so many ticks are parked, and the next one starts from an execution that
agrees with the given one. -/
structure Resumed (fuel : Nat) (clock : Nat → Float) (budget : Nat) (m : Machine) (k : Nat)
    (m' : Machine) (x y : Execution) : Prop where
  parks : m.Parks fuel clock budget k y.context.id m'
  budget : m'.settings.stepBudget = budget
  starts : m'.Passes fuel (clock k) 0 x
  agrees : x.Agrees y

section Driving

variable {clock : Nat → Float} {budget k : Nat} {m' : Machine} {x y y' : Execution}

/-- A tick comes to what the run without a budget comes to. -/
theorem Resumed.passes (h : m.Resumed fuel clock budget k m' x y) {j : Nat} (hj : j ≤ budget)
    (hsteps : Steps (callee fuel) j y y') :
    ∃ x', m'.Passes fuel (clock k) j x' ∧ x'.Agrees y' := by
  rcases Agrees.steps (callee_ignores_timeless fuel) h.agrees.symm hsteps with
    ⟨x', hsteps', hagrees⟩
  have hbudget := h.budget
  have hpasses := h.starts.append hsteps' (by omega)
  rw [Nat.zero_add] at hpasses
  exact ⟨x', hpasses, hagrees.symm⟩

/-- A tick that uses up its budget is parked. -/
theorem Resumed.next (h : m.Resumed fuel clock budget k m' x y) (hbudget : 0 < budget)
    (hfuel : budget ≤ fuel) (hsteps : Steps (callee fuel) budget y y') :
    ∃ x', m'.Passes fuel (clock k) budget x' ∧ x'.Agrees y' ∧
      m.Parks fuel clock budget (k + 1) y'.context.id x'.setAside := by
  rcases h.passes (Nat.le_refl budget) hsteps with ⟨x', hpasses, hagrees⟩
  have hid : y'.context.id = y.context.id :=
    (hsteps.continues (callee_keeps fuel)).context.id
  have hsame : x'.context.id = y'.context.id := hagrees.id
  have hsettings := h.budget
  subst hsettings
  have htick := hpasses.tick_parked hbudget hfuel
  refine ⟨x', hpasses, hagrees, ?_⟩
  have hparks := h.parks
  unfold Parks at hparks ⊢
  rw [List.range_succ, List.map_append, List.map_singleton, ticks_concat, Action.bind_run, hparks]
  simp only [Action.bind_run, htick, Action.pure_run, hsame, hid]
  rw [List.replicate_succ']

/-- A run that can be resumed is resumed by the next tick. -/
theorem Resumed.again {j : Nat} (hpasses : m'.Passes fuel seconds j x)
    (hagrees : x.Agrees y) (hready : y.Undisturbed) (hrunning : y.context.isRunning = true)
    (hparks : m.Parks fuel clock m'.settings.stepBudget k y.context.id x.setAside) :
    m.Resumed fuel clock m'.settings.stepBudget k x.setAside
      ⟨x.machine, x.context.wait (clock k)⟩ y where
  parks := hparks
  budget := congrArg Settings.stepBudget hpasses.settings
  starts := passes_setAside (hagrees.undisturbed hready) (hagrees.isRunning.trans hrunning)
    hpasses.depth_pos
  agrees := (Agrees.wait x (clock k)).trans hagrees

end Driving

/-- With a budget, the ticks of a machine make the run that its first tick makes without one;
the run comes to the given execution in so many steps. -/
structure SameRun (fuel : Nat) (clock : Nat → Float) (budget : Nat) (m : Machine) (n : Nat)
    (e : Execution) : Prop where
  /-- While the run goes on, each tick passes through the executions that come next in it. -/
  passes : ∀ k, (k = 0 ∨ k * budget < n) → ∃ m', m.Parks fuel clock budget k e.context.id m' ∧
    ∀ j, j ≤ budget → k * budget + j ≤ n → ∃ x y, m'.Passes fuel (clock k) j x ∧
      (m.withBudget 0).Passes fuel (clock 0) (k * budget + j) y ∧ x.Agrees y
  /-- Between two ticks the run is set aside as it is behind all of their steps. -/
  parked : ∀ k, 0 < k → k * budget ≤ n → ∃ m' y, m.Parks fuel clock budget k e.context.id m' ∧
    (m.withBudget 0).Passes fuel (clock 0) (k * budget) y ∧ m'.timeless = y.setAside.timeless
  /-- The tick in which the run ends reports and leaves what the tick without a budget does,
  unless the run has ended with the last step of the tick before. -/
  ends : ∀ last, step (callee fuel) e = .done .finished last → n < fuel →
    (n % budget ≠ 0 ∨ e.context.isRunning = true) →
    ∃ m' report behind after, m.Parks fuel clock budget (n / budget) e.context.id m' ∧
      tick fuel (clock (n / budget)) m' = .done report behind ∧
      tick fuel (clock 0) (m.withBudget 0) = .done report after ∧
      behind.timeless = after.timeless

/-- Behind any number of parked ticks the run is resumed, if it is still under way. -/
theorem exists_resumed {clock : Nat → Float} {budget n : Nat} (hbudget : 0 < budget)
    (hfuel : budget ≤ fuel)
    (hready : ∀ k y, k * budget ≤ n → (m.withBudget 0).Passes fuel (clock 0) (k * budget) y →
      y.Undisturbed) (k : Nat) {y : Execution} (hle : k * budget ≤ n)
    (hy : (m.withBudget 0).Passes fuel (clock 0) (k * budget) y)
    (hrunning : k = 0 ∨ y.context.isRunning = true) :
    ∃ m' x, m.Resumed fuel clock budget k m' x y := by
  induction k generalizing y with
  | zero =>
    rw [Nat.zero_mul] at hy
    rcases hy.first budget with ⟨x, hx, hagrees⟩
    exact ⟨m.withBudget budget, x, rfl, rfl, hx, hagrees⟩
  | succ k ih =>
    have hundisturbed := hready (k + 1) y hle hy
    rw [Nat.succ_mul] at hy hle
    rcases hy.split with ⟨z, hz, hsteps⟩
    have hzrunning := hz.isRunning hy (by omega)
    rcases ih (by omega) hz (.inr hzrunning) with ⟨m', x, hresumed⟩
    rcases hresumed.next hbudget hfuel hsteps with ⟨x', hx', hagrees, hparks⟩
    have hsettings := hresumed.budget
    subst hsettings
    exact ⟨_, _, .again hx' hagrees hundisturbed (by simpa using hrunning) hparks⟩

/-- With a budget, the ticks of a machine make the run that its first tick makes without one, as
long as the global exception is not raised, no other context comes into the background and the
program is still valid whenever the budget is used up. -/
theorem ticks_resume {clock : Nat → Float} {budget n : Nat} {e : Execution} (hbudget : 0 < budget)
    (hfuel : budget ≤ fuel) (hfree : (m.withBudget 0).Passes fuel (clock 0) n e)
    (hcalm : e.machine.raised = false) (hsingle : e.machine.background = [])
    (hvalid : ∀ k y, k * budget ≤ n → (m.withBudget 0).Passes fuel (clock 0) (k * budget) y →
      y.machine.isValid y.context.program = true) :
    m.SameRun fuel clock budget n e := by
  have hready : ∀ k y, k * budget ≤ n → (m.withBudget 0).Passes fuel (clock 0) (k * budget) y →
      y.Undisturbed := by
    intro k y hle hy
    have hearlier := hfree.earlier hy hle
    exact ⟨hearlier.1 hcalm, hearlier.2 hsingle, hvalid k y hle hy⟩
  constructor
  case passes =>
    intro k hk
    -- The run is resumed behind the ticks before, since it takes more steps than they do.
    have hle : k * budget ≤ n := by rcases hk with rfl | hlt <;> omega
    rcases Nat.exists_eq_add_of_le hle with ⟨rest, rfl⟩
    rcases hfree.split with ⟨y, hy, -⟩
    have hrunning : k = 0 ∨ y.context.isRunning = true := hk.imp id fun hlt => hy.isRunning hfree hlt
    rcases exists_resumed hbudget hfuel hready k hle hy hrunning with ⟨m', x, hresumed⟩
    refine ⟨m', by rw [hfree.id hy]; exact hresumed.parks, fun j hj hjle => ?_⟩
    rcases Nat.exists_eq_add_of_le hjle with ⟨more, hmore⟩
    rw [hmore] at hfree
    rcases hfree.split with ⟨y', hy', -⟩
    rcases hy'.split with ⟨z, hz, hsteps⟩
    rw [← hy.unique hz] at hsteps
    rcases hresumed.passes hj hsteps with ⟨x', hx', hagrees⟩
    exact ⟨x', y', hx', hy', hagrees⟩
  case parked =>
    intro k hk hle
    rcases Nat.exists_eq_add_of_lt hk with ⟨k, rfl⟩
    rw [Nat.zero_add, Nat.succ_mul] at hle ⊢
    rcases Nat.exists_eq_add_of_le hle with ⟨rest, rfl⟩
    rcases hfree.split with ⟨y', hy', -⟩
    rcases hy'.split with ⟨y, hy, hsteps⟩
    have hrunning := hy.isRunning hfree (by omega)
    rcases exists_resumed hbudget hfuel hready k (by omega) hy (.inr hrunning) with
      ⟨m', x, hresumed⟩
    rcases hresumed.next hbudget hfuel hsteps with ⟨x', -, hagrees, hparks⟩
    exact ⟨x'.setAside, y', by rw [hfree.id hy']; exact hparks, hy', hagrees.setAside⟩
  case ends =>
    intro last hstep hroom hrest
    have hsplit : n / budget * budget + n % budget = n := Nat.div_add_mod' n budget
    have hlt : n % budget < budget := Nat.mod_lt n hbudget
    have hwhole := hfree
    rw [← hsplit] at hwhole
    rcases hwhole.split with ⟨y, hy, hsteps⟩
    have hrunning : y.context.isRunning = true := by
      by_cases hzero : n % budget = 0
      · rw [hzero] at hsteps
        cases hsteps
        exact hrest.resolve_left (fun h => h hzero)
      · exact hy.isRunning hfree (by omega)
    rcases exists_resumed hbudget hfuel hready _ (by omega) hy (.inr hrunning) with
      ⟨m', x, hresumed⟩
    rcases hresumed.passes (Nat.le_of_lt hlt) hsteps with ⟨x', hx', hagrees⟩
    rcases Agrees.step (callee_ignores_timeless fuel) hagrees.symm hstep with
      ⟨last', hstep', hlast⟩
    have hbound := hresumed.budget
    have htick := hx'.tick_finished (by omega) (by omega) hstep'
    have hfreeTick := hfree.tick_finished (.inl rfl) hroom hstep
    have hsettled := hlast.endRun.settled
    refine ⟨m', _, _, _, by rw [hfree.id hy]; exact hresumed.parks, htick, ?_, hsettled.2.symm⟩
    rw [hfreeTick, hsettled.1]

/-- A machine with a program in the background. -/
def hosting (program : Program) (commands : CommandTable) (globals : Globals) : Machine :=
  { Machine.start .standard .empty with
    commands := commands
    globals := globals
    cache := [⟨"scripts/Hosted.lute".toList, program⟩]
    background := [{ Context.create 1 program [] with backgrounded := true }]
    contextCount := 1
    programCount := 1
    executing := [1] }

/-- A machine with a script that writes one line. -/
def writing : Machine :=
  hosting { Program.fresh 1 none with
    tree := some ⟨#[⟨.entry, [], none, 2, [1], none⟩,
      ⟨.expression, [], none, 3, [], some (.call "PrintToConsole" [.text "once"])⟩], 0, []⟩
    state := .valid } .standard .empty

/-- Without a budget, the script of that machine takes three steps. -/
theorem writing_passes : ∃ begun parked ended last,
    (writing.withBudget 0).Passes 4 0.0 0 begun ∧
      begun.machine.isValid begun.context.program = true ∧
    (writing.withBudget 0).Passes 4 0.0 2 parked ∧
      parked.machine.isValid parked.context.program = true ∧
    (writing.withBudget 0).Passes 4 0.0 3 ended ∧ ended.context.id = 1 ∧
      ended.machine.raised = false ∧ ended.machine.background = [] ∧
      step (callee 4) ended = .done .finished last := by
  have hbegun : (writing.withBudget 0).Passes 4 0.0 0 _ := ⟨.inl rfl, _, _, rfl, rfl, .refl _⟩
  have hparked := hbegun.append (.step rfl (.step rfl (.refl _))) (.inl rfl)
  have hended := hparked.append (.step rfl (.refl _)) (.inl rfl)
  exact ⟨_, _, _, _, hbegun, rfl, hparked, rfl, hended, rfl, rfl, rfl, rfl⟩

/-- With a budget of two steps, the second tick ends the run, and one line has been written. -/
theorem ticks_resume_writing : ∃ e m' report behind, writing.SameRun 4 (fun _ => 0.0) 2 3 e ∧
    writing.Parks 4 (fun _ => 0.0) 2 1 1 m' ∧ tick 4 0.0 m' = .done report behind ∧
    report.completed = [(1, none)] ∧ behind.console.size = 1 := by
  rcases writing_passes with ⟨begun, parked, ended, last, hbegun, hbegunValid, hparked,
    hparkedValid, hended, hid, hcalm, hsingle, hlast⟩
  have hvalid : ∀ k y, k * 2 ≤ 3 → (writing.withBudget 0).Passes 4 0.0 (k * 2) y →
      y.machine.isValid y.context.program = true := by
    intro k y hle hy
    have hk : k = 0 ∨ k = 1 := by omega
    rcases hk with rfl | rfl
    · rw [hy.unique hbegun]
      exact hbegunValid
    · rw [hy.unique hparked]
      exact hparkedValid
  have hsame := @ticks_resume 4 writing (fun _ => 0.0) 2 3 _ (by decide) (by decide) hended hcalm
    hsingle hvalid
  rcases hsame.ends last hlast (by decide) (.inl (by decide)) with
    ⟨m', report, behind, after, hparks, htick, hafter, htimeless⟩
  have hfree : ∃ done, tick 4 0.0 (writing.withBudget 0) = .done ⟨[(1, none)], [], []⟩ done ∧
      done.timeless.console.size = 1 := ⟨_, rfl, rfl⟩
  rcases hfree with ⟨done, hdone, hconsole⟩
  rw [hdone] at hafter
  cases hafter
  rw [hid] at hparks
  rw [← htimeless] at hconsole
  exact ⟨ended, m', _, behind, hsame, hparks, htick, rfl, hconsole⟩

/-- A machine with a script that removes a global to which it refers itself. -/
def fading : Machine :=
  let forget : Command :=
    ⟨⟨"Forget", none, "", "", [⟨"what", .multi⟩], .numeric, false⟩, .host (.removeGlobal "limit")⟩
  let program : Program := { Program.fresh 1 none with
    tree := some ⟨#[⟨.entry, [], none, 2, [1, 2], none⟩,
      ⟨.expression, [], none, 3, [], some (.call "Forget" [.global "limit"])⟩,
      ⟨.expression, [], none, 4, [], some (.call "PrintToConsole" [.text "after"])⟩], 0, []⟩
    state := .valid
    references := some ⟨["forget", "printtoconsole"], ["limit"]⟩ }
  hosting program ⟨CommandTable.standard.commands ++ [forget]⟩
    (Globals.empty.set "limit" (.text "on"))

/-- A script that makes its own program stale ends normally in a tick without a budget, but with
a budget the next tick does not resume it. -/
theorem not_sameRun_fading : ∃ context e last, fading.background = [context] ∧
    fading.isValid context.program = true ∧ (fading.withBudget 0).Passes 6 0.0 5 e ∧
    e.machine.raised = false ∧ e.machine.background = [] ∧
    step (callee 6) e = .done .finished last ∧ ¬fading.SameRun 6 (fun _ => 0.0) 2 5 e := by
  have hsteps : (fading.withBudget 0).Passes 6 0.0 5 _ := ⟨.inl rfl, _, _, rfl, rfl,
    .step rfl (.step rfl (.step rfl (.step rfl (.step rfl (.refl _)))))⟩
  have hticks : ∃ behind, ticks 6 ((List.range 2).map fun _ => 0.0) (fading.withBudget 2) =
      .done [⟨[], [1], []⟩, ⟨[], [], [(1, .stale)]⟩] behind := ⟨_, rfl⟩
  refine ⟨_, _, _, rfl, rfl, hsteps, rfl, rfl, rfl, fun hsame => ?_⟩
  rcases hsame.parked 2 (by decide) (by decide) with ⟨m', y, hparks, -⟩
  rcases hticks with ⟨behind, hbehind⟩
  unfold Parks at hparks
  rw [hbehind] at hparks
  cases hparks

end Machine
end ScriptMachine
