import ScriptMachine.Proofs.Hosting

/-!
# The account of the background

Every run that a context in the background starts should be reported as completed, unless it
is still under way or the context was retired from it.  One kind of run is missing in the
reports: when the last statement of a run takes the last step of the budget, the turn is
parked although nothing of the run is left, and no later turn completes it.

Main results:

- {lit}`TakenTurn.balance`: what a single turn adds to the account.
- {lit}`TakenTurn.lapses_iff`: which turns are parked with nothing left to do.
- {lit}`Machine.Ledger.tick`: a tick keeps the account.
- {lit}`Session.History.accounts`: the account after any sequence of requests.
-/

namespace ScriptMachine

/-! ## Single turns -/

/-- Nothing is under way in a context without frames. -/
theorem Context.isRunning_of_frames {context : Context} (h : context.frames = []) :
    context.isRunning = false := by
  simp [Context.isRunning, h]

namespace Execution

/-- More steps go on where fewer ended. -/
theorem Steps.next {callee : Callee} {n k : Nat} {e e' e'' : Execution}
    (h : Steps callee n e e') (hmore : Steps callee k e e'') (hlt : n < k) :
    ∃ t, Execution.step callee e' = .done .running t := by
  induction h generalizing k with
  | refl e =>
    cases hmore with
    | refl _ => omega
    | step hstep _ => exact ⟨_, hstep⟩
  | step hstep _ ih =>
    cases hmore with
    | refl _ => omega
    | step hstep' hrest' =>
      rw [hstep] at hstep'
      cases hstep'
      exact ih hrest' (by omega)

/-- A run is parked exactly when it goes on for as many steps as the budget allows. -/
theorem run_parked_iff {callee : Callee} {budget fuel : Nat} {e e' : Execution}
    (hdone : run callee budget fuel 0 e ≠ .exhausted) :
    run callee budget fuel 0 e = .done .parked e' ↔ 0 < budget ∧ Steps callee budget e e' := by
  rcases run_ends rfl hdone with ⟨n, last, hsteps, hend⟩
  constructor
  · intro hparked
    rw [hparked] at hend
    cases hend with
    | parked hbudget => exact ⟨hbudget, hsteps⟩
  · intro ⟨hbudget, hfull⟩
    generalize run callee budget fuel 0 e = outcome at hend
    cases hend with
    | parked _ => rw [hsteps.unique hfull]
    | failed hroom hstep =>
      rcases hsteps.next hfull (by omega) with ⟨t, hnext⟩
      rw [hstep] at hnext
      cases hnext
    | finished hroom hstep =>
      rcases hsteps.next hfull (by omega) with ⟨t, hnext⟩
      rw [hstep] at hnext
      cases hnext

/-- A finished run leaves no frame. -/
theorem run_finished_frames {callee : Callee} {budget fuel : Nat} {e e' : Execution}
    (hrun : run callee budget fuel 0 e = .done .finished e') : e'.context.frames = [] := by
  rcases run_ends hrun (by simp) with ⟨n, last, _, hend⟩
  cases hend
  rfl

end Execution

namespace TakenTurn

open Execution

/-- Whether a turn completed a run. -/
def completes (taken : TakenTurn) : Bool :=
  match taken.turn with
  | .completed _ => true
  | _ => false

/-- Whether a turn was parked although nothing of the run is left. -/
def lapses (taken : TakenTurn) : Bool :=
  match taken.turn with
  | .parked => !taken.after.isRunning
  | _ => false

/-- Whether a turn left a run under way, or retired its context from a run that had started. -/
def leavesRun (taken : TakenTurn) : Bool :=
  if taken.turn.stays then taken.after.isRunning
  else taken.before.isRunning || decide (taken.before.runs < taken.after.runs)

/-- A turn as the machine takes it. -/
def IsTaken (fuel : Nat) (taken : TakenTurn) : Prop :=
  ∃ m, Machine.takeTurn fuel taken.seconds taken.before taken.machine =
    .done (taken.after, taken.turn) m

/-- The last step of the budget leaves nothing of the run. -/
def SpentAtEnd (fuel : Nat) (taken : TakenTurn) : Prop :=
  let budget := taken.machine.settings.stepBudget
  0 < budget ∧ ∃ e e', Machine.turnStart taken.seconds taken.before taken.machine = some e ∧
    Steps (Machine.callee fuel) budget e e' ∧ e'.context.frames = []

/-- A turn keeps the number of its context. -/
theorem IsTaken.id {fuel : Nat} {taken : TakenTurn} (h : taken.IsTaken fuel) :
    taken.after.id = taken.before.id := by
  rcases h with ⟨m, hturn⟩
  exact (Machine.takeTurn_continues hturn).1

/-- What a turn adds to the account: the run that was under way before it, or the one that it
started, is completed, lapses or is left. -/
theorem balance {fuel : Nat} {taken : TakenTurn} (h : taken.IsTaken fuel) :
    taken.after.runs + taken.before.isRunning.toNat =
      taken.before.runs + taken.completes.toNat + taken.lapses.toNat + taken.leavesRun.toNat := by
  rcases h with ⟨m, hturn⟩
  rcases taken with ⟨seconds, machine, before, after, turn⟩
  simp only at hturn
  have hruns : ∀ {e e' : Execution}, Machine.turnStart seconds before machine = some e →
      e.Continues e' → e'.context.runs = before.runs + (if before.isRunning then 0 else 1) := by
    intro e e' hstart hcontinues
    rw [hcontinues.context.runs]
    exact (Machine.turnStart_eq_some hstart).2.2.2
  have hkeeps := run_continues (Machine.callee_keeps fuel) machine.settings.stepBudget fuel 0
  cases Machine.takeTurn_ends hturn with
  | waiting hstart hidle =>
    have hrunning : (before.wait seconds).isRunning = before.isRunning := rfl
    have hsame : (before.wait seconds).runs = before.runs := rfl
    simp [completes, lapses, leavesRun, Turn.stays, hrunning, hidle, hsame]
  | stale hstart =>
    simp [completes, lapses, leavesRun, Turn.stays, Context.wait]
  | treeless hstart hidle error =>
    simp [completes, lapses, leavesRun, Turn.stays, hidle, Context.wait]
  | failed hstart hrun =>
    have hlast := hruns hstart (hkeeps.of_failed hrun)
    cases hrunning : before.isRunning <;>
      simp [completes, lapses, leavesRun, Turn.stays, hlast, hrunning]
  | parked hstart hrun =>
    have hlast := hruns hstart (hkeeps.of_done hrun)
    have hone : ∀ b : Bool, (!b).toNat + b.toNat = 1 := by decide
    cases hrunning : before.isRunning <;>
      simp [completes, lapses, leavesRun, Turn.stays, hlast, hrunning, Nat.add_assoc, hone]
  | halted hstart hrun =>
    have hlast := hruns hstart (hkeeps.of_done hrun)
    cases hrunning : before.isRunning <;>
      simp [completes, lapses, leavesRun, Turn.stays, hlast, hrunning]
  | completed hstart hrun =>
    have hlast := hruns hstart (hkeeps.of_done hrun)
    have hidle := Context.isRunning_of_frames (run_finished_frames hrun)
    cases hrunning : before.isRunning
    · simp only [leavesRun, Turn.stays, completes, lapses, hlast, hrunning]
      exact congrArg (fun b : Bool => before.runs + 1 + b.toNat) hidle.symm
    · simp only [leavesRun, Turn.stays, completes, lapses, hlast, hrunning]
      exact congrArg (fun b : Bool => before.runs + 1 + b.toNat) hidle.symm

/-- A turn is parked with nothing left to do exactly when the last step of the budget leaves
nothing of the run. -/
theorem lapses_iff {fuel : Nat} {taken : TakenTurn} (h : taken.IsTaken fuel) :
    taken.lapses = true ↔ taken.SpentAtEnd fuel := by
  rcases h with ⟨m, hturn⟩
  rcases taken with ⟨seconds, machine, before, after, turn⟩
  simp only at hturn
  -- No run, or a run that ends in another way, takes no more steps than the budget allows.
  have hnone : Machine.turnStart seconds before machine = none →
      ¬ SpentAtEnd fuel ⟨seconds, machine, before, after, turn⟩ := by
    intro hstart ⟨_, e, e', hsome, _⟩
    rw [hstart] at hsome
    cases hsome
  have hended : ∀ {e : Execution} {outcome : Outcome Execution MachineError RunState},
      Machine.turnStart seconds before machine = some e →
      run (Machine.callee fuel) machine.settings.stepBudget fuel 0 e = outcome →
      outcome ≠ .exhausted → (∀ e', outcome ≠ .done .parked e') →
      ¬ SpentAtEnd fuel ⟨seconds, machine, before, after, turn⟩ := by
    intro e outcome hstart hrun hdone hparked ⟨hbudget, first, last, hsome, hsteps, _⟩
    rw [hstart] at hsome
    cases hsome
    subst hrun
    exact hparked last ((run_parked_iff hdone).2 ⟨hbudget, hsteps⟩)
  cases Machine.takeTurn_ends hturn with
  | waiting hstart hidle => simp [lapses, hnone hstart]
  | stale hstart => simp [lapses, hnone hstart]
  | treeless hstart hidle error => simp [lapses, hnone hstart]
  | failed hstart hrun => simp [lapses, hended hstart hrun]
  | halted hstart hrun => simp [lapses, hended hstart hrun]
  | completed hstart hrun => simp [lapses, hended hstart hrun]
  | parked hstart hrun =>
    rename_i e e'
    have hparked := (run_parked_iff (by simp [hrun])).1 hrun
    constructor
    · intro hlapses
      have hframes : e'.context.frames = [] := by simpa [lapses, Context.isRunning] using hlapses
      exact ⟨hparked.1, e, e', hstart, hparked.2, hframes⟩
    · intro ⟨_, first, last, hsome, hsteps, hframes⟩
      simp only at hsome
      rw [hstart] at hsome
      cases hsome
      rw [← hparked.2.unique hsteps] at hframes
      simp [lapses, Context.isRunning, hframes]

end TakenTurn

/-! ## Reports -/

/-- How often some reports list a context as completed. -/
def completions (id : Nat) (reports : List TickReport) : Nat :=
  (reports.flatMap TickReport.completed).countP fun entry => entry.1 == id

/-- How often the turns of a context lapsed. -/
def lapsesOf (id : Nat) (log : List (List TakenTurn)) : Nat :=
  log.flatten.countP fun taken => taken.after.id == id && taken.lapses

namespace TickReport

/-- A report lists the completed turns. -/
theorem countP_completed (turns : List TakenTurn) (id : Nat) :
    (ofTurns turns).completed.countP (fun entry => entry.1 == id) =
      turns.countP fun taken => taken.after.id == id && taken.completes := by
  induction turns with
  | nil => rfl
  | cons taken rest ih =>
    have hadd : ofTurns (taken :: rest) = (ofTurns rest).add taken.after.id taken.turn := rfl
    rw [List.countP_cons, ← ih, hadd]
    unfold TakenTurn.completes
    cases taken.turn with
    | waiting => simp [add]
    | parked => simp [add]
    | completed result => simp [add, List.countP_cons]
    | retired reason => simp [add]

/-- A report lists the parked turns. -/
theorem mem_parked {turns : List TakenTurn} {id : Nat} :
    id ∈ (ofTurns turns).parked ↔ ∃ taken ∈ turns, taken.after.id = id ∧ taken.turn = .parked := by
  induction turns with
  | nil => simp [ofTurns, empty]
  | cons taken rest ih =>
    have hadd : ofTurns (taken :: rest) = (ofTurns rest).add taken.after.id taken.turn := rfl
    simp only [hadd, List.mem_cons, exists_eq_or_imp, ← ih]
    cases taken.turn with
    | waiting => simp [add]
    | parked => simp [add, eq_comm]
    | completed result => simp [add]
    | retired reason => simp [add]

end TickReport

/-- Completions are counted turn by turn. -/
theorem completions_ofTurns (id : Nat) (log : List (List TakenTurn)) :
    completions id (log.map .ofTurns) =
      log.flatten.countP fun taken => taken.after.id == id && taken.completes := by
  induction log with
  | nil => rfl
  | cons turns rest ih =>
    rw [List.flatten_cons, List.countP_append, ← ih, ← TickReport.countP_completed]
    simp [completions]

/-- Completions are counted tick by tick. -/
theorem completions_append (id : Nat) (log : List (List TakenTurn)) (turns : List TakenTurn) :
    completions id ((log ++ [turns]).map .ofTurns) = completions id (log.map .ofTurns) +
      turns.countP fun taken => taken.after.id == id && taken.completes := by
  rw [completions_ofTurns, completions_ofTurns]
  simp

/-- Lapses are counted tick by tick. -/
theorem lapsesOf_append (id : Nat) (log : List (List TakenTurn)) (turns : List TakenTurn) :
    lapsesOf id (log ++ [turns]) =
      lapsesOf id log + turns.countP fun taken => taken.after.id == id && taken.lapses := by
  simp [lapsesOf]

/-- Nothing is counted for a number that no turn has. -/
theorem countP_of_absent {turns : List TakenTurn} {id : Nat} (p : TakenTurn → Bool)
    (h : ∀ taken ∈ turns, taken.after.id ≠ id) :
    turns.countP (fun taken => taken.after.id == id && p taken) = 0 := by
  rw [List.countP_eq_zero]
  intro taken hmem
  simp [h taken hmem]

/-- At most one turn of a tick is counted for a number. -/
theorem countP_of_mem {turns : List TakenTurn} (p : TakenTurn → Bool)
    (hnodup : (turns.map fun taken => taken.after.id).Nodup) {taken : TakenTurn}
    (hmem : taken ∈ turns) :
    turns.countP (fun other => other.after.id == taken.after.id && p other) =
      (p taken).toNat := by
  induction turns with
  | nil => cases hmem
  | cons first rest ih =>
    rw [List.map_cons, List.nodup_cons] at hnodup
    rw [List.countP_cons]
    rcases List.mem_cons.1 hmem with rfl | hrest
    · have habsent : ∀ other ∈ rest, other.after.id ≠ taken.after.id := by
        intro other hother heq
        exact hnodup.1 (List.mem_map.2 ⟨other, hother, heq⟩)
      rw [countP_of_absent p habsent]
      cases p taken <;> simp
    · have hne : first.after.id ≠ taken.after.id := by
        intro heq
        exact hnodup.1 (List.mem_map.2 ⟨taken, hrest, heq.symm⟩)
      rw [ih hnodup.2 hrest]
      simp [hne]

/-- Distinct numbers tell the turns of a tick apart. -/
theorem eq_of_id_eq {turns : List TakenTurn}
    (hnodup : (turns.map fun taken => taken.after.id).Nodup) {taken other : TakenTurn}
    (hmem : taken ∈ turns) (hother : other ∈ turns) (heq : taken.after.id = other.after.id) :
    taken = other := by
  induction turns with
  | nil => cases hmem
  | cons first rest ih =>
    rw [List.map_cons, List.nodup_cons, List.mem_map, not_exists] at hnodup
    rcases List.mem_cons.1 hmem with rfl | hin
    · rcases List.mem_cons.1 hother with rfl | hin
      · rfl
      · exact absurd ⟨hin, heq.symm⟩ (hnodup.1 other)
    · rcases List.mem_cons.1 hother with rfl | hin'
      · exact absurd ⟨hin, heq⟩ (hnodup.1 taken)
      · exact ih hnodup.2 hin hin'

/-- The turns of some ticks and one more. -/
theorem mem_flatten_concat {log : List (List TakenTurn)} {turns : List TakenTurn}
    {taken : TakenTurn} (h : taken ∈ (log ++ [turns]).flatten) :
    taken ∈ log.flatten ∨ taken ∈ turns := by
  simpa using h

/-- A context that is kept had a turn after which it stays. -/
theorem Machine.mem_kept {turns : List TakenTurn} {context : Context}
    (h : context ∈ kept turns) :
    ∃ taken ∈ turns, taken.turn.stays = true ∧ taken.after = context := by
  rcases List.mem_flatMap.1 h with ⟨taken, hmem, hcontext⟩
  by_cases hstays : taken.turn.stays = true
  · rw [if_pos hstays, List.mem_singleton] at hcontext
    exact ⟨taken, hmem, hstays, hcontext.symm⟩
  · rw [if_neg hstays] at hcontext
    cases hcontext

/-- Contexts are kept in the order of their turns. -/
theorem Machine.kept_ids_sublist (turns : List TakenTurn) :
    ((kept turns).map Context.id).Sublist (turns.map fun taken => taken.after.id) := by
  induction turns with
  | nil => exact .slnil
  | cons taken rest ih =>
    have hkept : kept (taken :: rest) =
        (if taken.turn.stays then [taken.after] else []) ++ kept rest := rfl
    rw [hkept, List.map_append, List.map_cons]
    by_cases hstays : taken.turn.stays = true
    · rw [if_pos hstays]
      exact ih.cons_cons _
    · rw [if_neg hstays]
      exact ih.cons _

/-! ## The ledger -/

/-- What the reports up to a tick say about a context that had a turn in it, and what they
leave out. -/
structure TakenTurn.Accounted (fuel : Nat) (earlier : List (List TakenTurn))
    (turns : List TakenTurn) (later : List (List TakenTurn)) (taken : TakenTurn) : Prop where
  isTaken : taken.IsTaken fuel
  runs : taken.after.runs =
    completions taken.after.id ((earlier ++ [turns]).map .ofTurns) +
      lapsesOf taken.after.id (earlier ++ [turns]) + taken.leavesRun.toNat
  /-- A retired context has no turn in later ticks. -/
  last : taken.turn.stays = false → ∀ other ∈ later.flatten, other.after.id ≠ taken.after.id

namespace Machine

/-- The account of the contexts in the background after some ticks. -/
structure Ledger (fuel : Nat) (log : List (List TakenTurn)) (m : Machine) : Prop where
  numbered : ∀ context ∈ m.background, context.id ≤ m.contextCount
  distinct : (m.background.map Context.id).Nodup
  logged : ∀ taken ∈ log.flatten, taken.after.id ≤ m.contextCount
  balance : ∀ context ∈ m.background, context.runs =
    completions context.id (log.map .ofTurns) + lapsesOf context.id log + context.isRunning.toNat
  gone : ∀ taken ∈ log.flatten, taken.turn.stays = false →
    ∀ context ∈ m.background, context.id ≠ taken.after.id
  turns : ∀ earlier turns later, log = earlier ++ turns :: later →
    ∀ taken ∈ turns, taken.Accounted fuel earlier turns later

namespace Ledger

variable {fuel : Nat} {log : List (List TakenTurn)} {m m' : Machine}

/-- The account of an empty background. -/
theorem empty (h : m.background = []) : Ledger fuel [] m where
  numbered := by simp [h]
  distinct := by simp [h]
  logged := by simp
  balance := by simp [h]
  gone := by simp
  turns := by simp

/-- Taking contexts out of the background keeps the account. -/
theorem sublist (h : Ledger fuel log m) (hcount : m'.contextCount = m.contextCount)
    (hsub : m'.background.Sublist m.background) : Ledger fuel log m' where
  numbered context hmem := by
    rw [hcount]
    exact h.numbered context (hsub.subset hmem)
  distinct := (hsub.map Context.id).nodup h.distinct
  logged taken hmem := by
    rw [hcount]
    exact h.logged taken hmem
  balance context hmem := h.balance context (hsub.subset hmem)
  gone taken hmem hretired context hcontext :=
  h.gone taken hmem hretired context (hsub.subset hcontext)
  turns := h.turns

/-- A context that was given no turn has nothing on its account. -/
theorem counts_eq_zero {id : Nat} (h : ∀ taken ∈ log.flatten, taken.after.id ≠ id) :
    completions id (log.map .ofTurns) = 0 ∧ lapsesOf id log = 0 := by
  rw [completions_ofTurns, lapsesOf]
  exact ⟨countP_of_absent _ h, countP_of_absent _ h⟩

/-- New contexts start with nothing on their account. -/
theorem enlists (h : Ledger fuel log m) (hnew : Enlists m.contextCount m m') :
    Ledger fuel log m' := by
  rcases hnew with ⟨hcount, added, hadded, hnew, hnodup⟩
  have hfresh : ∀ context ∈ added, ∀ taken ∈ log.flatten, taken.after.id ≠ context.id := by
    intro context hmem taken htaken
    have habove := (hnew context hmem).2.1
    have hbelow := h.logged taken htaken
    omega
  refine ⟨?_, ?_, ?_, ?_, ?_, h.turns⟩
  · intro context hmem
    rw [hadded] at hmem
    rcases List.mem_append.1 hmem with hmem | hmem
    · exact Nat.le_trans (h.numbered context hmem) hcount
    · exact (hnew context hmem).2.2
  · rw [hadded, List.map_append, List.nodup_append]
    refine ⟨h.distinct, hnodup, ?_⟩
    intro i hi j hj hij
    rcases List.mem_map.1 hi with ⟨old, hold, rfl⟩
    rcases List.mem_map.1 hj with ⟨context, hcontext, rfl⟩
    have hbelow := h.numbered old hold
    have habove := (hnew context hcontext).2.1
    omega
  · intro taken hmem
    exact Nat.le_trans (h.logged taken hmem) hcount
  · intro context hmem
    rw [hadded] at hmem
    rcases List.mem_append.1 hmem with hmem | hmem
    · exact h.balance context hmem
    · have hstart := (hnew context hmem).1
      have hzero := counts_eq_zero (hfresh context hmem)
      rw [hzero.1, hzero.2, hstart.runs, Context.isRunning_of_frames hstart.frames]
      rfl
  · intro taken htaken hretired context hmem
    rw [hadded] at hmem
    rcases List.mem_append.1 hmem with hmem | hmem
    · exact h.gone taken htaken hretired context hmem
    · exact (hfresh context hmem taken htaken).symm

/-- A tick settles what every context that had a turn owes. -/
theorem settle (h : Ledger fuel log m) {turns : List TakenTurn}
    (hbefore : turns.map TakenTurn.before = m.background)
    (htaken : ∀ taken ∈ turns, taken.IsTaken fuel) :
    (turns.map fun taken => taken.after.id).Nodup ∧ ∀ taken ∈ turns,
      taken.before ∈ m.background ∧ taken.after.runs =
        completions taken.after.id ((log ++ [turns]).map .ofTurns) +
          lapsesOf taken.after.id (log ++ [turns]) + taken.leavesRun.toNat := by
  have hids : turns.map (fun taken => taken.after.id) = m.background.map Context.id := by
    rw [← hbefore, List.map_map]
    exact List.map_congr_left fun taken hmem => (htaken taken hmem).id
  have hnodup : (turns.map fun taken => taken.after.id).Nodup := by
    rw [hids]
    exact h.distinct
  refine ⟨hnodup, fun taken hmem => ?_⟩
  have hmember : taken.before ∈ m.background := by
    rw [← hbefore]
    exact List.mem_map_of_mem hmem
  refine ⟨hmember, ?_⟩
  have hturn := TakenTurn.balance (htaken taken hmem)
  have hold := h.balance taken.before hmember
  rw [completions_append, lapsesOf_append, countP_of_mem _ hnodup hmem,
    countP_of_mem _ hnodup hmem, (htaken taken hmem).id]
  omega

/-- The account of the contexts that stay. -/
theorem turned (h : Ledger fuel log m) {turns : List TakenTurn}
    (hbefore : turns.map TakenTurn.before = m.background)
    (htaken : ∀ taken ∈ turns, taken.IsTaken fuel) :
    Ledger fuel (log ++ [turns]) { m with background := kept turns } := by
  rcases h.settle hbefore htaken with ⟨hnodup, hsettled⟩
  have hbelow : ∀ taken ∈ turns, taken.after.id ≤ m.contextCount := by
    intro taken hmem
    rw [(htaken taken hmem).id]
    exact h.numbered _ (hsettled taken hmem).1
  refine ⟨?_, (kept_ids_sublist turns).nodup hnodup, ?_, ?_, ?_, ?_⟩
  · intro context hmem
    rcases mem_kept hmem with ⟨taken, htaken, _, rfl⟩
    exact hbelow taken htaken
  · intro taken hmem
    rcases mem_flatten_concat hmem with hmem | hmem
    · exact h.logged taken hmem
    · exact hbelow taken hmem
  · intro context hmem
    rcases mem_kept hmem with ⟨taken, htaken, hstays, rfl⟩
    have hruns := (hsettled taken htaken).2
    rw [TakenTurn.leavesRun, if_pos hstays] at hruns
    exact hruns
  · intro taken hmem hretired context hcontext
    rcases mem_kept hcontext with ⟨other, hother, hstays, rfl⟩
    rcases mem_flatten_concat hmem with hmem | hmem
    · rw [(htaken other hother).id]
      exact h.gone taken hmem hretired _ (hsettled other hother).1
    · intro heq
      have hsame := eq_of_id_eq hnodup hother hmem heq
      rw [hsame, hretired] at hstays
      cases hstays
  · intro earlier these later hsplit taken hmem
    rcases later.eq_nil_or_concat with rfl | ⟨init, last, rfl⟩
    · rcases List.append_inj' hsplit rfl with ⟨rfl, hlast⟩
      cases hlast
      exact ⟨htaken taken hmem, (hsettled taken hmem).2, by simp⟩
    · rw [List.concat_eq_append, ← List.cons_append, ← List.append_assoc] at hsplit
      rcases List.append_inj' hsplit rfl with ⟨hlog, hlast⟩
      cases hlast
      rcases h.turns earlier these init hlog taken hmem with ⟨hold, hruns, hnever⟩
      refine ⟨hold, hruns, fun hretired other hother => ?_⟩
      rw [List.concat_eq_append] at hother
      rcases mem_flatten_concat hother with hother | hother
      · exact hnever hretired other hother
      · have hin : taken ∈ log.flatten := by
          rw [hlog]
          exact List.mem_flatten.2 ⟨these, by simp, hmem⟩
        rw [(htaken other hother).id]
        exact h.gone taken hin hretired _ (hsettled other hother).1

/-- A tick keeps the account. -/
theorem tick (h : Ledger fuel log m) {seconds : Float} {turns : List TakenTurn}
    (htick : tickTurns fuel seconds m = .done turns m') : Ledger fuel (log ++ [turns]) m' := by
  rcases tickTurns_spec htick with ⟨hbefore, ⟨n, added, hgrows, hadded, rfl⟩, hturns⟩
  have htaken : ∀ taken ∈ turns, taken.IsTaken fuel := by
    intro taken hmem
    rcases hturns taken hmem with ⟨hseconds, _, hturn⟩
    rw [TakenTurn.IsTaken, hseconds]
    exact hturn
  rcases hgrows.background with ⟨hcount, others, hothers, hnew⟩
  rw [hadded] at hothers
  subst hothers
  exact (h.turned hbefore htaken).enlists ⟨hcount, added, rfl, hnew⟩

end Ledger
end Machine

/-! ## Histories -/

namespace Session

/-- A request other than a tick keeps the account. -/
theorem perform_ledger {fuel : Nat} {log : List (List TakenTurn)} {request : Request}
    (hother : ∀ nanoseconds, request ≠ .tick nanoseconds) :
    (perform fuel request).Keeps fun s s' =>
      Machine.Ledger fuel log s.machine → Machine.Ledger fuel log s'.machine := by
  cases htouches : request.touchesBackground with
  | false => exact (perform_enlists fuel request htouches).mono fun _ _ hnew h => h.enlists hnew
  | true =>
    cases request with
    | tick nanoseconds => exact absurd rfl (hother nanoseconds)
    | stop id => exact (perform_stop fuel id).mono fun _ _ hthins h => h.sublist hthins.1 hthins.2
    | _ => cases htouches

/-- Every history from an empty background keeps the account. -/
theorem History.ledger {fuel : Nat} {first last : Session} {log : List (List TakenTurn)}
    (hempty : first.machine.background = []) (h : History fuel first log last) :
    Machine.Ledger fuel log last.machine := by
  induction h with
  | start => exact .empty hempty
  | tick nanoseconds _ hturns ih => exact ih.tick hturns
  | answered request _ hother hperform ih => exact (perform_ledger hother).of_done hperform ih
  | refused request _ hother hperform ih => exact (perform_ledger hother).of_failed hperform ih

/-- After every tick, a context that had a turn has started as many runs as the reports so far
list it as completed, one more if a run is under way or it was retired from one, and one more
for every time that the last step of the budget left nothing of its run.  Such a turn is listed
as parked although no run is under way, and every other parked context is in the middle of a
run.  Hence the reports account for every run exactly if that never happened. -/
theorem History.accounts {fuel : Nat} {first last : Session} {log : List (List TakenTurn)}
    (hempty : first.machine.background = []) (h : History fuel first log last) :
    (∀ earlier turns later, log = earlier ++ turns :: later → ∀ taken ∈ turns,
      let id := taken.after.id
      let reports := (earlier ++ [turns]).map TickReport.ofTurns
      taken.after.runs = completions id reports + taken.leavesRun.toNat +
          lapsesOf id (earlier ++ [turns]) ∧
        (taken.lapses = true ↔ taken.SpentAtEnd fuel) ∧
        (taken.after.runs = completions id reports + taken.leavesRun.toNat ↔
          ∀ other ∈ (earlier ++ [turns]).flatten, other.after.id = id →
            ¬ other.SpentAtEnd fuel)) ∧
    (∀ turns ∈ log, ∀ id ∈ (TickReport.ofTurns turns).parked, ∃ taken ∈ turns,
      taken.after.id = id ∧ (taken.after.isRunning = true ↔ ¬ taken.SpentAtEnd fuel)) ∧
    (∀ context ∈ last.machine.background, context.runs =
      completions context.id (log.map .ofTurns) + context.isRunning.toNat +
        lapsesOf context.id log) := by
  have hledger := h.ledger hempty
  have htaken : ∀ turns ∈ log, ∀ taken ∈ turns, taken.IsTaken fuel := by
    intro turns hturns taken hmem
    rcases List.append_of_mem hturns with ⟨earlier, later, hsplit⟩
    exact (hledger.turns earlier turns later hsplit taken hmem).isTaken
  refine ⟨?_, ?_, ?_⟩
  · intro earlier turns later hsplit taken hmem id reports
    have hruns : taken.after.runs =
        completions id reports + lapsesOf id (earlier ++ [turns]) + taken.leavesRun.toNat :=
      (hledger.turns earlier turns later hsplit taken hmem).runs
    have hlapses := TakenTurn.lapses_iff (htaken turns (by simp [hsplit]) taken hmem)
    have hnone : lapsesOf id (earlier ++ [turns]) = 0 ↔
        ∀ other ∈ (earlier ++ [turns]).flatten, other.after.id = id → ¬ other.SpentAtEnd fuel := by
      rw [lapsesOf, List.countP_eq_zero]
      refine forall_congr' fun other => forall_congr' fun hother => ?_
      rcases List.mem_flatten.1 hother with ⟨these, hthese, hin⟩
      have hlog : these ∈ log := by
        rw [hsplit, List.append_cons]
        exact List.mem_append_left _ hthese
      rw [← TakenTurn.lapses_iff (htaken these hlog other hin)]
      simp
    refine ⟨by omega, hlapses, ?_⟩
    rw [← hnone]
    omega
  · intro turns hturns id hid
    rcases TickReport.mem_parked.1 hid with ⟨taken, hmem, hsame, hparked⟩
    refine ⟨taken, hmem, hsame, ?_⟩
    rw [← TakenTurn.lapses_iff (htaken turns hturns taken hmem)]
    simp [TakenTurn.lapses, hparked]
  · intro context hmem
    have hbalance := hledger.balance context hmem
    omega

/-- A session with a program without statements, in which a turn is a single step. -/
def hasty : Session :=
  let idle : Program := { Program.fresh 1 none with
    tree := some ⟨#[⟨.entry, [], none, 2, [], none⟩], 0, []⟩
    state := .valid }
  { start (.start { Settings.standard with stepBudget := 1 } .empty) with
    programs := Names.empty.set "idle" idle }

/-- A run of a single step is parked and never completed. -/
theorem History.accounts_hasty : ∃ turns last, History 3 hasty [turns] last ∧
    (TickReport.ofTurns turns).completed = [] ∧ (TickReport.ofTurns turns).parked = [1] ∧
    ∃ taken ∈ turns, taken.after.id = 1 ∧ taken.after.runs = 1 ∧ taken.leavesRun = false ∧
      taken.SpentAtEnd 3 := by
  have hstart : History 3 hasty [] hasty := .start
  have hsent := hstart.answered (.background "idle" []) (by simp) rfl
  have hticked := hsent.tick 10000000 rfl
  have haccounts := hticked.accounts rfl
  rcases (haccounts.1 [] _ [] rfl _ (List.mem_singleton.2 rfl)).2 with ⟨hlapses, _⟩
  exact ⟨_, _, hticked, rfl, rfl, _, List.mem_singleton.2 rfl, rfl, rfl, rfl, hlapses.1 rfl⟩

end Session
end ScriptMachine
