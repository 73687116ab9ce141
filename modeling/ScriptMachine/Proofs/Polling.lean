import ScriptMachine.Proofs.Account
import ScriptMachine.Proofs.Calling

/-!
# The polling interval

A context in the background has one turn in every tick.  When no run is under way, the turn starts
one if there was none before or if the interval of the program has passed since the last start.
What has passed is not read off a clock: every tick adds its length to what the context has waited,
a start sets this back to zero, and while the run goes on it grows again.  The run itself sees how
long its context had waited when it started, however many ticks it takes.

Main results:

- {lit}`waited`: the time between the last start and the end of a turn, added up tick by tick.
- {lit}`Context.Clocks`: what the two clocks of a context say about its turns.
- {lit}`Session.History.polls`: when runs start, that they are resumed, and what they see of the
  time.
-/

namespace ScriptMachine

/-! ## Turns of a context -/

/-- A turn that starts a run. -/
def TakenTurn.startsRun (taken : TakenTurn) : Bool :=
  decide (taken.before.runs < taken.after.runs)

/-- The turns of a context in some ticks, in order. -/
def turnsOf (id : Nat) (log : List (List TakenTurn)) : List TakenTurn :=
  log.flatten.filter fun taken => taken.before.id == id

/-- The turns behind the last one that starts a run; all of them when there is none. -/
def sinceStart (turns : List TakenTurn) : List TakenTurn :=
  (turns.reverse.takeWhile fun taken => !taken.startsRun).reverse

/-- The length of some ticks, from left to right. -/
def passed (turns : List TakenTurn) : Float :=
  (turns.map TakenTurn.seconds).foldl (fun sum seconds => sum + seconds) 0.0

/-- How long a context has waited at the end of the time that a turn lets pass: since the last of
its earlier turns that started a run. -/
def waited (past : List TakenTurn) (taken : TakenTurn) : Float :=
  passed (sinceStart past ++ [taken])

/-- One more turn. -/
theorem sinceStart_concat (turns : List TakenTurn) (taken : TakenTurn) :
    sinceStart (turns ++ [taken]) = if taken.startsRun then [] else sinceStart turns ++ [taken] := by
  unfold sinceStart
  rw [List.reverse_append, List.reverse_singleton, List.singleton_append, List.takeWhile_cons]
  cases taken.startsRun <;> simp

/-- One more tick. -/
theorem passed_concat (turns : List TakenTurn) (taken : TakenTurn) :
    passed (turns ++ [taken]) = passed turns + taken.seconds := by
  simp [passed, List.foldl_append]

/-- The turns of a context in one more tick. -/
theorem turnsOf_concat (id : Nat) (log : List (List TakenTurn)) (turns : List TakenTurn) :
    turnsOf id (log ++ [turns]) = turnsOf id log ++ turns.filter fun taken => taken.before.id == id := by
  simp [turnsOf]

/-! ## What a turn does to the clocks -/

namespace Machine

variable {seconds : Float} {context : Context} {m : Machine}

/-- The execution with which a turn goes on: that of the run under way, or that of a new one. -/
theorem context_of_turnStart {e : Execution} (h : turnStart seconds context m = some e) :
    (context.isRunning = true ∧ e = ⟨m.enter, context.wait seconds⟩) ∨
      (context.isRunning = false ∧ ∃ tree, context.program.tree = some tree ∧
        e = ⟨m.enter, (context.wait seconds).beginRun tree.root⟩) := by
  have hwait : (context.wait seconds).isRunning = context.isRunning := rfl
  unfold turnStart at h
  simp only at h
  split at h
  · cases h
  · split at h
    · cases h
    · unfold Context.resume at h
      rw [hwait] at h
      cases hrunning : context.isRunning with
      | true =>
        rw [hrunning] at h
        cases h
        exact .inl ⟨rfl, rfl⟩
      | false =>
        rw [hrunning] at h
        cases htree : (context.wait seconds).program.tree with
        | none => simp [htree] at h
        | some tree =>
          simp only [htree] at h
          cases h
          exact .inr ⟨rfl, tree, htree, rfl⟩

/-- With a valid program, a run that is under way goes on, and a new one starts if it is due. -/
theorem turnStart_of_valid {tree : Tree} (hvalid : m.isValid context.program = true)
    (htree : context.program.tree = some tree) :
    turnStart seconds context m =
      if context.isRunning then some ⟨m.enter, context.wait seconds⟩
      else if (context.wait seconds).isDue then
        some ⟨m.enter, (context.wait seconds).beginRun tree.root⟩
      else none := by
  have hwait : (context.wait seconds).isRunning = context.isRunning := rfl
  have hsame : (context.wait seconds).program = context.program := rfl
  unfold turnStart
  simp only [Context.resume, hwait, hsame, hvalid, htree]
  cases context.isRunning <;> cases (context.wait seconds).isDue <;> rfl

/-- A turn that goes on with the run under way is the run of that context. -/
theorem takeTurn_of_running {fuel : Nat} (hvalid : m.isValid context.program = true)
    (hrunning : context.isRunning = true) :
    takeTurn fuel seconds context m = runTurn fuel (context.wait seconds) m := by
  have hwait : (context.wait seconds).isRunning = true := hrunning
  have hsame : (context.wait seconds).program = context.program := rfl
  unfold takeTurn
  simp only [Context.resume, hwait, hsame, hvalid]
  rfl

end Machine

namespace TakenTurn

open Execution

variable {fuel : Nat} {taken : TakenTurn}

/-- The calls that a context makes from its own expressions in a turn. -/
def calls (fuel : Nat) (taken : TakenTurn) : List Calling :=
  match Machine.turnStart taken.seconds taken.before taken.machine with
  | none => []
  | some e => runCalls (Machine.callee fuel) taken.machine.settings.stepBudget fuel 0 e

/-- A context behind a turn without a run, and behind one with a run. -/
theorem IsTaken.after_of_start (h : taken.IsTaken fuel) :
    (Machine.turnStart taken.seconds taken.before taken.machine = none ∧
      taken.after = taken.before.wait taken.seconds) ∨
    ∃ e, Machine.turnStart taken.seconds taken.before taken.machine = some e ∧
      taken.after.program = e.context.program ∧ taken.after.elapsed = e.context.elapsed ∧
      taken.after.secondsPassed = e.context.secondsPassed ∧ taken.after.runs = e.context.runs := by
  rcases h with ⟨m, hturn⟩
  rcases taken with ⟨seconds, machine, before, after, turn⟩
  simp only at hturn ⊢
  have hkeeps := run_continues (Machine.callee_keeps fuel) machine.settings.stepBudget fuel 0
  have hrun : ∀ {e e' : Execution}, Machine.turnStart seconds before machine = some e →
      e.Continues e' → ∃ e, Machine.turnStart seconds before machine = some e ∧
        e'.context.program = e.context.program ∧ e'.context.elapsed = e.context.elapsed ∧
        e'.context.secondsPassed = e.context.secondsPassed ∧ e'.context.runs = e.context.runs :=
    fun hstart hcontinues => ⟨_, hstart, hcontinues.context.program, hcontinues.context.elapsed,
      hcontinues.context.secondsPassed, hcontinues.context.runs⟩
  cases Machine.takeTurn_ends hturn with
  | waiting hstart _ => exact .inl ⟨hstart, rfl⟩
  | stale hstart => exact .inl ⟨hstart, rfl⟩
  | treeless hstart _ _ => exact .inl ⟨hstart, rfl⟩
  | failed hstart hlast => exact .inr (hrun hstart (hkeeps.of_failed hlast))
  | parked hstart hlast => exact .inr (hrun hstart (hkeeps.of_done hlast))
  | halted hstart hlast => exact .inr (hrun hstart (hkeeps.of_done hlast))
  | completed hstart hlast => exact .inr (hrun hstart (hkeeps.of_done hlast))

/-- A turn starts a run if it goes on with one and none was under way. -/
theorem IsTaken.startsRun_iff (h : taken.IsTaken fuel) :
    taken.startsRun = true ↔ taken.before.isRunning = false ∧
      (Machine.turnStart taken.seconds taken.before taken.machine).isSome = true := by
  unfold startsRun
  rw [decide_eq_true_iff]
  rcases h.after_of_start with ⟨hnone, hafter⟩ | ⟨e, hstart, -, -, -, hruns⟩
  · have hsame : taken.after.runs = taken.before.runs := by rw [hafter]; rfl
    simp [hnone, hsame]
  · rw [hstart, hruns]
    rcases Machine.context_of_turnStart hstart with ⟨hrunning, rfl⟩ | ⟨hidle, tree, -, rfl⟩
    · simp [hrunning, Context.wait]
    · simp [hidle, Context.beginRun, Context.wait]

/-- A turn that starts a run notes what the context has waited, and sets it back. -/
theorem IsTaken.clocks_of_start (h : taken.IsTaken fuel) (hstarts : taken.startsRun = true) :
    taken.after.elapsed = 0.0 ∧
      taken.after.secondsPassed = taken.before.elapsed + taken.seconds := by
  rcases (h.startsRun_iff).1 hstarts with ⟨hidle, hsome⟩
  rcases h.after_of_start with ⟨hnone, -⟩ | ⟨e, hstart, -, helapsed, hseconds, -⟩
  · rw [hnone] at hsome
    cases hsome
  · rcases Machine.context_of_turnStart hstart with ⟨hrunning, -⟩ | ⟨-, tree, -, rfl⟩
    · rw [hidle] at hrunning
      cases hrunning
    · exact ⟨helapsed, hseconds⟩

/-- Any other turn adds its time to what the context has waited. -/
theorem IsTaken.clocks_of_not_start (h : taken.IsTaken fuel) (hstarts : taken.startsRun = false) :
    taken.after.elapsed = taken.before.elapsed + taken.seconds ∧
      taken.after.secondsPassed = taken.before.secondsPassed ∧
        taken.after.runs = taken.before.runs := by
  rcases h.after_of_start with ⟨-, hafter⟩ | ⟨e, hstart, -, helapsed, hseconds, hruns⟩
  · rw [hafter]
    exact ⟨rfl, rfl, rfl⟩
  · rcases Machine.context_of_turnStart hstart with ⟨-, rfl⟩ | ⟨hidle, tree, -, rfl⟩
    · exact ⟨helapsed, hseconds, hruns⟩
    · have hnot : taken.startsRun = true :=
        h.startsRun_iff.2 ⟨hidle, by rw [hstart]; rfl⟩
      rw [hstarts] at hnot
      cases hnot

/-- A turn keeps the program of its context. -/
theorem IsTaken.program (h : taken.IsTaken fuel) : taken.after.program = taken.before.program := by
  rcases h.after_of_start with ⟨-, hafter⟩ | ⟨e, hstart, hprogram, -, -, -⟩
  · rw [hafter]
    rfl
  · exact hprogram.trans (Machine.turnStart_eq_some hstart).2.2.1

/-- A context that never ran stays without a run unless the turn starts one. -/
theorem IsTaken.idle (h : taken.IsTaken fuel) (hstarts : taken.startsRun = false)
    (hidle : taken.before.frames = []) : taken.after.frames = [] := by
  rcases h.after_of_start with ⟨-, hafter⟩ | ⟨e, hstart, -, -, -, -⟩
  · rw [hafter]
    exact hidle
  · have hnot : taken.startsRun = true :=
      h.startsRun_iff.2 ⟨Context.isRunning_of_frames hidle, by rw [hstart]; rfl⟩
    rw [hstarts] at hnot
    cases hnot

end TakenTurn

/-! ## The clocks of a context -/

/-- What a context knows of its turns: it has waited since the last start, and it knows how long it
had waited then. -/
structure Context.Clocks (turns : List TakenTurn) (context : Context) : Prop where
  elapsed : context.elapsed = passed (sinceStart turns)
  runs : context.runs = 0 ↔ ∀ taken ∈ turns, taken.startsRun = false
  idle : context.runs = 0 → context.frames = []
  secondsPassed : ∀ before start behind, turns = before ++ start :: behind →
    start.startsRun = true → (∀ taken ∈ behind, taken.startsRun = false) →
      context.secondsPassed = waited before start
  tree : context.program.tree.isSome = true

namespace Context.Clocks

variable {turns : List TakenTurn} {context : Context}

/-- A new context has had no turns. -/
theorem of_isNew (h : context.IsNew) : context.Clocks [] where
  elapsed := h.elapsed
  runs := by simp [h.runs]
  idle := fun _ => h.frames
  secondsPassed := by simp
  tree := h.tree

/-- Behind one more turn. -/
theorem concat {fuel : Nat} {taken : TakenTurn} (h : taken.before.Clocks turns)
    (htaken : taken.IsTaken fuel) : taken.after.Clocks (turns ++ [taken]) := by
  have hsum : taken.before.elapsed + taken.seconds = waited turns taken := by
    rw [waited, passed_concat, h.elapsed]
  cases hstarts : taken.startsRun with
  | true =>
    rcases htaken.clocks_of_start hstarts with ⟨helapsed, hseconds⟩
    have hran : taken.after.runs ≠ 0 := by
      have hlt : taken.before.runs < taken.after.runs := of_decide_eq_true hstarts
      omega
    refine ⟨?_, ⟨fun hnone => absurd hnone hran, fun hnone => ?_⟩, fun hnone => absurd hnone hran,
      fun before start behind hsplit hstart hbehind => ?_, by rw [htaken.program]; exact h.tree⟩
    · rw [helapsed, sinceStart_concat, if_pos hstarts]
      rfl
    · have hfalse := hnone taken (by simp)
      rw [hstarts] at hfalse
      cases hfalse
    · -- The last start is this turn.
      rcases behind.eq_nil_or_concat with rfl | ⟨init, last, rfl⟩
      · rcases List.append_inj' hsplit rfl with ⟨rfl, hlast⟩
        cases hlast
        rw [hseconds, hsum]
      · rw [List.concat_eq_append, ← List.cons_append, ← List.append_assoc] at hsplit
        rcases List.append_inj' hsplit rfl with ⟨-, hlast⟩
        cases hlast
        have hfalse := hbehind taken (by simp)
        rw [hstarts] at hfalse
        cases hfalse
  | false =>
    rcases htaken.clocks_of_not_start hstarts with ⟨helapsed, hseconds, hruns⟩
    refine ⟨?_, ?_, fun hnone => ?_, fun before start behind hsplit hstart hbehind => ?_,
      by rw [htaken.program]; exact h.tree⟩
    · rw [helapsed, sinceStart_concat, hstarts, hsum]
      rfl
    · rw [hruns, h.runs]
      simp only [List.mem_append, List.mem_singleton, or_imp, forall_and, forall_eq, hstarts, and_true]
    · rw [hruns] at hnone
      exact htaken.idle hstarts (h.idle hnone)
    · rcases behind.eq_nil_or_concat with rfl | ⟨init, last, rfl⟩
      · rcases List.append_inj' hsplit rfl with ⟨-, hlast⟩
        cases hlast
        rw [hstarts] at hstart
        cases hstart
      · rw [List.concat_eq_append, ← List.cons_append, ← List.append_assoc] at hsplit
        rcases List.append_inj' hsplit rfl with ⟨hturns, -⟩
        rw [hseconds]
        exact h.secondsPassed before start init hturns hstart fun other hmem =>
          hbehind other (by simp [hmem])

end Context.Clocks

/-! ## Ticks -/

/-- A context has had no turn in some ticks, and one turn in every tick since. -/
def Attends (id : Nat) (log : List (List TakenTurn)) : Prop :=
  ∃ absent attended, log = absent ++ attended ∧
    (∀ turns ∈ absent, turns.countP (fun taken => taken.before.id == id) = 0) ∧
      ∀ turns ∈ attended, turns.countP (fun taken => taken.before.id == id) = 1

/-- One more tick with a turn of the context. -/
theorem Attends.concat {id : Nat} {log : List (List TakenTurn)} {turns : List TakenTurn}
    (h : Attends id log) (hturns : turns.countP (fun taken => taken.before.id == id) = 1) :
    Attends id (log ++ [turns]) := by
  rcases h with ⟨absent, attended, rfl, habsent, hattended⟩
  refine ⟨absent, attended ++ [turns], List.append_assoc .., habsent, fun others hmem => ?_⟩
  rcases List.mem_append.1 hmem with hmem | hmem
  · exact hattended others hmem
  · rw [List.mem_singleton.1 hmem]
    exact hturns

namespace Machine

/-- Every context in the background has had one turn in every tick since it was put there, and its
clocks are right. -/
def Clocked (log : List (List TakenTurn)) (m : Machine) : Prop :=
  ∀ context ∈ m.background, context.Clocks (turnsOf context.id log) ∧ Attends context.id log

namespace Clocked

variable {fuel : Nat} {log : List (List TakenTurn)} {m m' : Machine}

/-- Taking contexts out of the background. -/
theorem sublist (h : Clocked log m) (hsub : m'.background.Sublist m.background) : Clocked log m' :=
  fun context hmem => h context (hsub.subset hmem)

/-- New contexts have had no turn. -/
theorem enlists (h : Clocked log m) (hledger : Ledger fuel log m)
    (hlogged : ∀ taken ∈ log.flatten, taken.after.id = taken.before.id)
    (hnew : Enlists m.contextCount m m') : Clocked log m' := by
  rcases hnew with ⟨-, added, hadded, hnew, -⟩
  intro context hmem
  rw [hadded] at hmem
  rcases List.mem_append.1 hmem with hmem | hmem
  · exact h context hmem
  · have habsent : ∀ taken ∈ log.flatten, (taken.before.id == context.id) = false := by
      intro taken htaken
      have habove := (hnew context hmem).2.1
      have hbelow := hledger.logged taken htaken
      rw [hlogged taken htaken] at hbelow
      simp only [beq_eq_false_iff_ne]
      omega
    have hnone : turnsOf context.id log = [] :=
      List.filter_eq_nil_iff.2 fun taken htaken => by simp [habsent taken htaken]
    rw [hnone]
    refine ⟨.of_isNew (hnew context hmem).1, log, [], (List.append_nil _).symm, fun turns hturns => ?_,
      by simp⟩
    rw [List.countP_eq_zero]
    intro taken htaken
    simp [habsent taken (List.mem_flatten.2 ⟨turns, hturns, htaken⟩)]

end Clocked

/-- Every turn that is logged was taken. -/
theorem Ledger.isTaken {fuel : Nat} {log : List (List TakenTurn)} {m : Machine} (h : Ledger fuel log m)
    {taken : TakenTurn} (hmem : taken ∈ log.flatten) : taken.IsTaken fuel := by
  rcases List.mem_flatten.1 hmem with ⟨turns, hturns, hin⟩
  rcases List.append_of_mem hturns with ⟨earlier, later, hsplit⟩
  exact (h.turns earlier turns later hsplit taken hin).isTaken

/-- A context has one turn in a tick. -/
theorem filter_of_mem {turns : List TakenTurn} (hnodup : (turns.map fun taken => taken.before.id).Nodup)
    {taken : TakenTurn} (hmem : taken ∈ turns) :
    (turns.filter fun other => other.before.id == taken.before.id) = [taken] := by
  induction turns with
  | nil => cases hmem
  | cons first rest ih =>
    rw [List.map_cons, List.nodup_cons] at hnodup
    rcases List.mem_cons.1 hmem with rfl | hrest
    · have hnone : rest.filter (fun other => other.before.id == taken.before.id) = [] := by
        refine List.filter_eq_nil_iff.2 fun other hother heq => hnodup.1 ?_
        rw [← eq_of_beq heq]
        exact List.mem_map_of_mem hother
      simp [hnone]
    · have hne : first.before.id ≠ taken.before.id := fun heq =>
        hnodup.1 (by rw [heq]; exact List.mem_map_of_mem hrest)
      simpa [hne] using ih hnodup.2 hrest

/-- A tick keeps the clocks. -/
theorem Clocked.tick {fuel : Nat} {log : List (List TakenTurn)} {m m' : Machine} {seconds : Float}
    {turns : List TakenTurn} (h : Clocked log m) (hledger : Ledger fuel log m)
    (htick : tickTurns fuel seconds m = .done turns m') : Clocked (log ++ [turns]) m' := by
  rcases tickTurns_spec htick with ⟨hbefore, ⟨n, added, hgrows, hadded, rfl⟩, hturns⟩
  have htaken : ∀ taken ∈ turns, taken.IsTaken fuel := by
    intro taken hmem
    rcases hturns taken hmem with ⟨hseconds, _, hturn⟩
    rw [TakenTurn.IsTaken, hseconds]
    exact hturn
  have hdistinct : (turns.map fun taken => taken.before.id).Nodup := by
    have hids := hledger.distinct
    rw [← hbefore, List.map_map] at hids
    exact hids
  -- The contexts that stay have had one more turn.
  have hkept : Clocked (log ++ [turns]) { m with background := kept turns } := by
    intro context hmem
    rcases mem_kept hmem with ⟨taken, hin, -, rfl⟩
    have hold : taken.before ∈ m.background := by
      rw [← hbefore]
      exact List.mem_map_of_mem hin
    have hone := filter_of_mem hdistinct hin
    rcases h taken.before hold with ⟨hclocks, hattends⟩
    rw [(htaken taken hin).id, turnsOf_concat, hone]
    refine ⟨hclocks.concat (htaken taken hin), hattends.concat ?_⟩
    rw [List.countP_eq_length_filter, hone]
    rfl
  have hturned := hledger.turned hbefore htaken
  rcases hgrows.background with ⟨hcount, others, hothers, hnew⟩
  rw [hadded] at hothers
  subst hothers
  exact hkept.enlists hturned (fun taken hmem => (hturned.isTaken hmem).id) ⟨hcount, added, rfl, hnew⟩

end Machine

/-! ## Histories -/

namespace Session

/-- A request other than a tick keeps the clocks. -/
theorem perform_clocked {fuel : Nat} {log : List (List TakenTurn)} {request : Request}
    (hother : ∀ nanoseconds, request ≠ .tick nanoseconds) :
    (perform fuel request).Keeps fun s s' => Machine.Ledger fuel log s.machine →
      Machine.Clocked log s.machine → Machine.Clocked log s'.machine := by
  cases htouches : request.touchesBackground with
  | false =>
    exact (perform_enlists fuel request htouches).mono fun _ _ hnew hledger h =>
      h.enlists hledger (fun _ hmem => (hledger.isTaken hmem).id) hnew
  | true =>
    cases request with
    | tick nanoseconds => exact absurd rfl (hother nanoseconds)
    | stop id => exact (perform_stop fuel id).mono fun _ _ hthins _ h => h.sublist hthins.2
    | _ => cases htouches

/-- In every history from an empty background the clocks are right. -/
theorem History.clocked {fuel : Nat} {first last : Session} {log : List (List TakenTurn)}
    (hempty : first.machine.background = []) (h : History fuel first log last) :
    Machine.Clocked log last.machine := by
  induction h with
  | start =>
    intro context hmem
    rw [hempty] at hmem
    cases hmem
  | tick nanoseconds h hturns ih => exact ih.tick (h.ledger hempty) hturns
  | answered request h hother hperform ih =>
    exact (perform_clocked hother).of_done hperform (h.ledger hempty) ih
  | refused request h hother hperform ih =>
    exact (perform_clocked hother).of_failed hperform (h.ledger hempty) ih

/-- A tick of a history has a history before it. -/
theorem History.exists_tick {fuel : Nat} {first last : Session} {log : List (List TakenTurn)}
    (h : History fuel first log last) {earlier later : List (List TakenTurn)} {turns : List TakenTurn}
    (hlog : log = earlier ++ turns :: later) : ∃ s nanoseconds machine, History fuel first earlier s ∧
      Machine.tickTurns fuel (Machine.secondsOf nanoseconds) s.machine = .done turns machine := by
  induction h generalizing later with
  | start => simp at hlog
  | @tick log s these machine nanoseconds h hturns ih =>
    rcases later.eq_nil_or_concat with rfl | ⟨init, others, rfl⟩
    · rcases List.append_inj' hlog rfl with ⟨rfl, hlast⟩
      cases hlast
      exact ⟨s, nanoseconds, machine, h, hturns⟩
    · rw [List.concat_eq_append, ← List.cons_append, ← List.append_assoc] at hlog
      exact ih (List.append_inj' hlog rfl).1
  | answered request h hother hperform ih => exact ih hlog
  | refused request h hother hperform ih => exact ih hlog

end Session

/-! ## What runs see of the time -/

/-- Somebody asks how much time has passed. -/
def Calling.AsksForSeconds (call : Calling) : Prop :=
  call.arguments = [] ∧
    call.execution.machine.commands.lookup? call.name = some Builtin.secondsPassed.command

/-- The answer is what the context noted when its run started. -/
theorem Calling.AsksForSeconds.outcome {call : Calling} (h : call.AsksForSeconds) (callee : Callee) :
    call.outcome callee = .done (.number call.execution.context.secondsPassed) call.execution := by
  rcases h with ⟨harguments, hlookup⟩
  unfold Calling.outcome invoke
  rw [Action.bind_run, Action.get_run, harguments]
  simp only [hlookup]
  rfl

/-- What a run is told in a turn is what its context knows behind the turn. -/
theorem TakenTurn.IsTaken.secondsPassed_of_mem_calls {fuel : Nat} {taken : TakenTurn}
    (h : taken.IsTaken fuel) {call : Calling} (hmem : call ∈ taken.calls fuel) :
    call.execution.context.secondsPassed = taken.after.secondsPassed := by
  unfold calls at hmem
  rcases h.after_of_start with ⟨hnone, -⟩ | ⟨e, hstart, -, -, hseconds, -⟩
  · rw [hnone] at hmem
    cases hmem
  · rw [hstart] at hmem
    rw [hseconds]
    exact (Execution.continues_of_mem_runCalls (Machine.callee_keeps fuel) hmem).context.secondsPassed

namespace Session

/-- **The polling interval.**  A context in the background has one turn in every tick since it was
put there.  As long as its program is valid, a turn without a run under way starts one exactly if
none was started before or if the ticks since the last start, this one included, add up to the
interval of the program; and a run that is under way goes on, whatever the interval.  In every turn
of a run, the time that it is told to have passed is what had added up when it started. -/
theorem History.polls {fuel : Nat} {first last : Session} {log earlier later : List (List TakenTurn)}
    {turns : List TakenTurn} {taken : TakenTurn} (hempty : first.machine.background = [])
    (h : History fuel first log last) (hlog : log = earlier ++ turns :: later) (hmem : taken ∈ turns) :
    let past := turnsOf taken.before.id earlier
    Attends taken.before.id (earlier ++ [turns]) ∧
    (taken.machine.isValid taken.before.program = true →
      (taken.before.isRunning = false →
        (taken.startsRun = true ↔ (∀ other ∈ past, other.startsRun = false) ∨
          taken.before.program.interval ≤ waited past taken)) ∧
      (taken.before.isRunning = true →
        taken.startsRun = false ∧ (∃ other ∈ past, other.startsRun = true) ∧
          ∃ m, Machine.runTurn fuel (taken.before.wait taken.seconds) taken.machine =
            .done (taken.after, taken.turn) m)) ∧
    ∀ before start behind, past ++ [taken] = before ++ start :: behind → start.startsRun = true →
      (∀ other ∈ behind, other.startsRun = false) →
        ∀ call ∈ taken.calls fuel, call.AsksForSeconds →
          call.outcome (Machine.callee fuel) =
            .done (.number (waited before start)) call.execution := by
  intro past
  rcases h.exists_tick hlog with ⟨s, nanoseconds, machine, hs, htick⟩
  have hledger := hs.ledger hempty
  have hturns := Machine.tickTurns_spec htick
  have htaken : taken.IsTaken fuel := (hledger.tick htick).isTaken (by simp [hmem])
  have hbackground : taken.before ∈ s.machine.background := by
    rw [← hturns.1]
    exact List.mem_map_of_mem hmem
  have hdistinct : (turns.map fun other => other.before.id).Nodup := by
    have hids := hledger.distinct
    rw [← hturns.1, List.map_map] at hids
    exact hids
  rcases hs.clocked hempty taken.before hbackground with ⟨hclocks, hattends⟩
  refine ⟨hattends.concat ?_, fun hvalid => ⟨fun hidle => ?_, fun hrunning => ?_⟩, ?_⟩
  · rw [List.countP_eq_length_filter, Machine.filter_of_mem hdistinct hmem]
    rfl
  · rcases Option.isSome_iff_exists.1 hclocks.tree with ⟨tree, htree⟩
    have hsum : (taken.before.wait taken.seconds).elapsed = waited past taken := by
      rw [waited, passed_concat, ← hclocks.elapsed]
      rfl
    rw [htaken.startsRun_iff, Machine.turnStart_of_valid hvalid htree, hidle, ← hclocks.runs, ← hsum]
    have hdue : (taken.before.wait taken.seconds).isDue = true ↔ taken.before.runs = 0 ∨
        taken.before.program.interval ≤ (taken.before.wait taken.seconds).elapsed := by
      unfold Context.isDue
      rw [Bool.or_eq_true, beq_iff_eq, decide_eq_true_iff]
      rfl
    rw [← hdue]
    cases (taken.before.wait taken.seconds).isDue <;> simp
  · refine ⟨Bool.eq_false_iff.2 fun hstarts => ?_, ?_, ?_⟩
    · have hidle := (htaken.startsRun_iff.1 hstarts).1
      rw [hrunning] at hidle
      cases hidle
    · -- A context that never ran has no run under way.
      refine Decidable.byContradiction fun hnone => ?_
      have hnever : ∀ other ∈ past, other.startsRun = false := fun other hother =>
        Bool.eq_false_iff.2 fun hstarts => hnone ⟨other, hother, hstarts⟩
      have hidle := Context.isRunning_of_frames (hclocks.idle (hclocks.runs.2 hnever))
      rw [hrunning] at hidle
      cases hidle
    · rcases htaken with ⟨m, hturn⟩
      rw [Machine.takeTurn_of_running hvalid hrunning] at hturn
      exact ⟨m, hturn⟩
  · intro before start behind hsplit hstart hbehind call hcall hasks
    rw [hasks.outcome, htaken.secondsPassed_of_mem_calls hcall,
      (hclocks.concat htaken).secondsPassed before start behind hsplit hstart hbehind]

/-- A session with a script that asks how much time has passed. -/
def asking : Session :=
  let script : Program := { Program.fresh 1 none with
    tree := some ⟨#[⟨.entry, [], none, 2, [1], none⟩,
      ⟨.expression, [], none, 3, [], some (.call "GetSecondsPassed" [])⟩], 0, []⟩
    state := .valid }
  { start (.start { Settings.standard with stepBudget := 2 } .empty) with
    programs := Names.empty.set "asker" script }

/-- The first run of a context is told the length of the tick that starts it. -/
theorem History.polls_asking : ∃ taken last, History 4 asking [[taken]] last ∧
    taken.startsRun = true ∧ ∃ call ∈ taken.calls 4, call.outcome (Machine.callee 4) =
      .done (.number (0.0 + taken.seconds)) call.execution := by
  have hstart : History 4 asking [] asking := .start
  have hsent := hstart.answered (.background "asker" []) (by simp) rfl
  have hticked := hsent.tick 10000000 rfl
  have hpolls := hticked.polls rfl (show [_] = [] ++ _ :: [] from rfl) (List.mem_singleton_self _)
  have hdue := (hpolls.2.1 rfl).1 rfl
  refine ⟨_, _, hticked, hdue.2 (.inl (by simp [turnsOf])), _, List.mem_singleton_self _, ?_⟩
  exact hpolls.2.2 [] _ [] rfl (hdue.2 (.inl (by simp [turnsOf]))) (by simp) _
    (List.mem_singleton_self _) ⟨rfl, rfl⟩

end Session
end ScriptMachine
