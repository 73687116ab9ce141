import ScriptMachine.Proofs.Alarm

/-!
# Retirement after an error

A context that comes to the error command in its turn is retired in the same tick and never
has a turn again, with one exception: when the step that executes the command is the last one
that the budget allows, the turn is parked, the alarm is lost with the end of the call, and
the run goes on in the next tick.

Main results:

- {lit}`TakenTurn.IsTaken.of_reachesError`: how a turn ends that comes to the error command.
- {lit}`Session.History.error_retires`: what follows for all later ticks.
-/

namespace ScriptMachine

open Execution

namespace TickReport

/-- A report lists the retired contexts. -/
theorem mem_retired {turns : List TakenTurn} {id : Nat} {reason : RetireReason} :
    (id, reason) ∈ (ofTurns turns).retired ↔
      ∃ taken ∈ turns, taken.after.id = id ∧ taken.turn = .retired reason := by
  induction turns with
  | nil => simp [ofTurns, empty]
  | cons taken rest ih =>
    have hadd : ofTurns (taken :: rest) = (ofTurns rest).add taken.after.id taken.turn := rfl
    simp only [hadd, List.mem_cons, exists_eq_or_imp, ← ih]
    cases taken.turn with
    | waiting => simp [add]
    | parked => simp [add]
    | completed result => simp [add]
    | retired other => simp [add, eq_comm]

end TickReport

namespace TakenTurn

/-- In a turn, the step behind a number of others comes to the error command. -/
def ReachesError (fuel : Nat) (taken : TakenTurn) (k : Nat) (e : Execution) : Prop :=
  (taken.machine.settings.stepBudget = 0 ∨ k < taken.machine.settings.stepBudget) ∧
    ∃ first, Machine.turnStart taken.seconds taken.before taken.machine = some first ∧
      Steps (Machine.callee fuel) k first e ∧
      e.StepReachesError (Machine.callee fuel) (Machine.errorReach fuel)

/-- The budget ends with the step behind a number of others, and the run would go on. -/
def EndsWith (fuel : Nat) (taken : TakenTurn) (k : Nat) (e : Execution) : Prop :=
  taken.machine.settings.stepBudget = k + 1 ∧
    ∃ t, step (Machine.callee fuel) e = .done .running t

/-- A turn that comes to the error command retires its context, unless its budget ends with
the step that does. -/
theorem IsTaken.of_reachesError {fuel k : Nat} {taken : TakenTurn} {e : Execution}
    (h : taken.IsTaken fuel) (hreach : taken.ReachesError fuel k e) :
    (¬ taken.EndsWith fuel k e → ∃ error, taken.turn = .retired (.failed error)) ∧
      (taken.EndsWith fuel k e → taken.turn = .parked ∧
        ∃ t, step (Machine.callee fuel) e = .done .running t ∧ taken.after = t.context) := by
  rcases h with ⟨m, hturn⟩
  rcases taken with ⟨seconds, machine, before, after, turn⟩
  rcases hreach with ⟨hroom, first, hstart, hsteps, hreach⟩
  simp only at hturn hroom hstart
  have hdepth : 0 < first.machine.depth := by
    rw [(Machine.turnStart_eq_some hstart).1]
    exact Nat.succ_pos _
  have hkeeps := Machine.callee_keeps fuel
  have halarms := Machine.errorReach_alarms fuel
  cases Machine.takeTurn_ends hturn with
  | waiting hnone hidle =>
    rw [hstart] at hnone
    cases hnone
  | stale hnone =>
    rw [hstart] at hnone
    cases hnone
  | treeless hnone hidle error =>
    rw [hstart] at hnone
    cases hnone
  | failed hsome hrun =>
    rw [hstart] at hsome
    cases hsome
    refine ⟨fun _ => ⟨_, rfl⟩, fun ⟨hbudget, t, hstep⟩ => ?_⟩
    rcases run_of_reachesError hkeeps halarms hdepth hsteps hreach hroom hrun (by simp) with
      ⟨error, u, _, hfails, _⟩ | ⟨u, _, _, ⟨_, hend⟩ | ⟨hne, _⟩⟩
    · rw [hstep] at hfails
      cases hfails
    · cases hend
    · exact absurd hbudget hne
  | parked hsome hrun =>
    rw [hstart] at hsome
    cases hsome
    rcases run_of_reachesError hkeeps halarms hdepth hsteps hreach hroom hrun (by simp) with
      ⟨error, u, _, _, hend⟩ | ⟨u, _, hstep, ⟨hbudget, hend⟩ | ⟨_, hend⟩⟩
    · cases hend
    · cases hend
      exact ⟨fun hnot => absurd ⟨hbudget, _, hstep⟩ hnot, fun _ => ⟨rfl, _, hstep, rfl⟩⟩
    · cases hend
  | halted hsome hrun =>
    rw [hstart] at hsome
    cases hsome
    exact (not_finished_of_reachesError hkeeps halarms hdepth hsteps hreach hroom hrun).elim
  | completed hsome hrun =>
    rw [hstart] at hsome
    cases hsome
    exact (not_finished_of_reachesError hkeeps halarms hdepth hsteps hreach hroom hrun).elim

end TakenTurn

/-! ## Later ticks -/

namespace Session

/-- A context that comes to the error command in its turn, itself or in a script that it calls,
is retired as failed in the same tick, is not in the background any more and has no turn in any
later tick, unless the budget ends with the step that executes the command and that step does
not fail by itself.  In this one case the turn is parked, and the context stays behind that
step. -/
theorem History.error_retires {fuel : Nat} {first last : Session} {log : List (List TakenTurn)}
    (hempty : first.machine.background = []) (h : History fuel first log last)
    {earlier later : List (List TakenTurn)} {turns : List TakenTurn}
    (hlog : log = earlier ++ turns :: later) {taken : TakenTurn} (hmem : taken ∈ turns)
    {k : Nat} {e : Execution} (hreach : taken.ReachesError fuel k e) :
    (¬ taken.EndsWith fuel k e → ∃ error,
      (taken.after.id, .failed error) ∈ (TickReport.ofTurns turns).retired ∧
      (∀ context ∈ last.machine.background, context.id ≠ taken.after.id) ∧
      ∀ other ∈ later.flatten, other.after.id ≠ taken.after.id) ∧
    (taken.EndsWith fuel k e → taken.after.id ∈ (TickReport.ofTurns turns).parked ∧
      taken.turn.stays = true ∧
      ∃ t, step (Machine.callee fuel) e = .done .running t ∧ taken.after = t.context) := by
  have hledger := h.ledger hempty
  rcases hledger.turns earlier turns later hlog taken hmem with ⟨htaken, _, hlast⟩
  rcases htaken.of_reachesError hreach with ⟨hretires, hparks⟩
  constructor
  · intro hnot
    rcases hretires hnot with ⟨error, hturn⟩
    have hgone : taken.turn.stays = false := by
      rw [hturn]
      rfl
    have hlogged : taken ∈ log.flatten := by
      rw [hlog]
      exact List.mem_flatten.2 ⟨turns, by simp, hmem⟩
    exact ⟨error, TickReport.mem_retired.2 ⟨taken, hmem, rfl, hturn⟩,
      hledger.gone taken hlogged hgone, hlast hgone⟩
  · intro hends
    rcases hparks hends with ⟨hturn, hstep⟩
    refine ⟨TickReport.mem_parked.2 ⟨taken, hmem, rfl, hturn⟩, ?_, hstep⟩
    rw [hturn]
    rfl

/-- A session with a program whose first statement reports an error, and in which a turn is as
long as it takes to come there. -/
def alarming : Session :=
  let failing : Program := { Program.fresh 1 none with
    tree := some ⟨#[⟨.entry, [], none, 2, [1], none⟩,
      ⟨.expression, [], none, 3, [], some (.call "Error" [.text "boom"])⟩], 0, []⟩
    state := .valid }
  { start (.start { Settings.standard with stepBudget := 2 } .empty) with
    programs := Names.empty.set "failing" failing }

/-- An error in the last step of the budget does not retire its context. -/
theorem History.error_retires_alarming : ∃ turns last, History 3 alarming [turns] last ∧
    ∃ taken ∈ turns, ∃ e, taken.ReachesError 3 1 e ∧ taken.EndsWith 3 1 e ∧
      taken.after.id ∈ (TickReport.ofTurns turns).parked ∧ taken.turn.stays = true := by
  have hstart : History 3 alarming [] alarming := .start
  have hsent := hstart.answered (.background "failing" []) (by simp) rfl
  have hticked := hsent.tick 10000000 rfl
  have hboth : ∀ {p q r : Prop}, p → q → (p → q → r) → p ∧ q ∧ r :=
    fun hp hq h => ⟨hp, hq, h hp hq⟩
  refine ⟨_, _, hticked, _, List.mem_singleton.2 rfl, ?_⟩
  apply Exists.intro
  refine hboth ?_ ?_ fun hreach hends => ?_
  · refine ⟨.inr (by decide), _, rfl, .step rfl (.refl _), ?_⟩
    refine ⟨_, rfl, _, rfl, ?_⟩
    exact Or.inr ⟨_, _, rfl, _, rfl, rfl, _, rfl⟩
  · exact ⟨rfl, _, rfl⟩
  · have hretires := hticked.error_retires rfl (show [_] = [] ++ _ :: [] from rfl)
      (List.mem_singleton.2 rfl) hreach
    rcases hretires.2 hends with ⟨hparked, hstays, _⟩
    exact ⟨hparked, hstays⟩

end Session
end ScriptMachine
