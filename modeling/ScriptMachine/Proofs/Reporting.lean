import ScriptMachine.Proofs.Bearing
import ScriptMachine.Proofs.Depth
import ScriptMachine.Proofs.Retirement

/-!
# What a report leaves out

A tick gives each context in the background a turn, and the report lists those turns that did
something.  No context is listed twice.  Those that are listed as retired are gone, all others stay
in their order, and whatever came into the background on the way stands behind them.  A context that
is not listed at all has only waited.

Main results:

- {lit}`TickReport.mentioned_perm`: a report lists every turn once, unless its context waits.
- {lit}`Machine.takeTurnsMoments_of_waiting`: nothing is evaluated in a context that waits.
- {lit}`Session.History.tick_reports`: the report, the background and the contexts that are not
  listed.
-/

namespace ScriptMachine

/-! ## Reports -/

/-- Whether there was no run in a turn, and none of its context is retired. -/
def Turn.waits : Turn → Bool
  | .waiting => true
  | .parked | .completed _ | .retired _ => false

/-- A context that waits stays. -/
theorem Turn.stays_of_waits {turn : Turn} (h : turn.waits = true) : turn.stays = true := by
  cases turn <;> first | rfl | cases h

namespace TickReport

/-- The contexts that a report lists: as completed, as parked and as retired. -/
def mentioned (report : TickReport) : List Nat :=
  report.completed.map Prod.fst ++ report.parked ++ report.retired.map Prod.fst

/-- A turn is listed once, unless its context waits. -/
theorem mentioned_add (report : TickReport) (id : Nat) (turn : Turn) :
    (report.add id turn).mentioned.Perm ((if turn.waits then [] else [id]) ++ report.mentioned) := by
  unfold mentioned
  cases turn with
  | waiting => exact .refl _
  | completed result => exact .refl _
  | parked =>
    simp only [add, Turn.waits, List.append_assoc, Bool.false_eq_true, if_false]
    exact List.perm_middle
  | retired reason =>
    simp only [add, Turn.waits, List.map_cons, Bool.false_eq_true, if_false]
    exact List.perm_middle

/-- A report lists every turn once, unless its context waits. -/
theorem mentioned_perm (turns : List TakenTurn) : (ofTurns turns).mentioned.Perm
    ((turns.filter fun taken => !taken.turn.waits).map fun taken => taken.after.id) := by
  induction turns with
  | nil => exact .refl _
  | cons taken rest ih =>
    have hadd : ofTurns (taken :: rest) = (ofTurns rest).add taken.after.id taken.turn := rfl
    rw [hadd]
    refine ((ofTurns rest).mentioned_add taken.after.id taken.turn).trans ?_
    refine (ih.append_left _).trans (.of_eq ?_)
    cases hwaits : taken.turn.waits <;> simp [hwaits]

end TickReport

/-! ## Contexts that stay -/

namespace Machine

/-- The contexts that stay are those that no turn retires, in the same order. -/
theorem kept_eq (turns : List TakenTurn) :
    kept turns = (turns.filter fun taken => taken.turn.stays).map TakenTurn.after := by
  induction turns with
  | nil => rfl
  | cons taken rest ih =>
    have hkept : kept (taken :: rest) =
        (if taken.turn.stays then [taken.after] else []) ++ kept rest := rfl
    rw [hkept, ih]
    cases hstays : taken.turn.stays <;> simp [hstays]

/-- Among distinct contexts, those whose turn retires them are the ones that are listed so. -/
theorem mem_retired_iff {turns : List TakenTurn}
    (hnodup : (turns.map fun taken => taken.after.id).Nodup) {taken : TakenTurn} (hmem : taken ∈ turns) :
    taken.after.id ∈ (TickReport.ofTurns turns).retired.map Prod.fst ↔ taken.turn.stays = false := by
  constructor
  · intro hlisted
    rcases List.mem_map.1 hlisted with ⟨⟨id, reason⟩, hentry, hid⟩
    rcases TickReport.mem_retired.1 hentry with ⟨other, hother, hsame, hturn⟩
    have heq := eq_of_id_eq hnodup hmem hother (by rw [hsame]; exact hid.symm)
    rw [heq, hturn]
    rfl
  · intro hleaves
    cases hturn : taken.turn with
    | retired reason =>
      exact List.mem_map.2 ⟨(taken.after.id, reason), TickReport.mem_retired.2 ⟨taken, hmem, rfl, hturn⟩, rfl⟩
    | waiting | parked | completed _ => simp [hturn, Turn.stays] at hleaves

/-- The contexts that stay are those that were there and are not listed as retired, in the same
order. -/
theorem kept_of_taken {fuel : Nat} {turns : List TakenTurn} (htaken : ∀ taken ∈ turns, taken.IsTaken fuel)
    (hnodup : (turns.map fun taken => taken.after.id).Nodup) :
    ((kept turns).map fun context => (context.id, context.program)) =
      ((turns.map TakenTurn.before).filter fun context =>
        context.id ∉ (TickReport.ofTurns turns).retired.map Prod.fst).map
          fun context => (context.id, context.program) := by
  have hstays : ∀ taken ∈ turns, taken.turn.stays =
      decide (taken.before.id ∉ (TickReport.ofTurns turns).retired.map Prod.fst) := by
    intro taken hmem
    have hiff := mem_retired_iff hnodup hmem
    rw [(htaken taken hmem).id] at hiff
    cases hstays : taken.turn.stays <;> simp [hiff, hstays]
  rw [kept_eq, List.filter_map, List.map_map, List.map_map, List.filter_congr hstays]
  refine List.map_congr_left fun taken hmem => ?_
  have hin := (List.mem_filter.1 hmem).1
  simp only [Function.comp, (htaken taken hin).id, (htaken taken hin).program]

/-! ## Contexts that wait -/

/-- A turn in which a context waits only lets time pass. -/
theorem takeTurn_waits {fuel : Nat} {seconds : Float} {context after : Context} {m m' : Machine}
    {turn : Turn} (h : takeTurn fuel seconds context m = .done (after, turn) m')
    (hwaits : turn.waits = true) :
    after = context.wait seconds ∧ turnStart seconds context m = none := by
  cases takeTurn_ends h with
  | waiting hstart _ => exact ⟨rfl, hstart⟩
  | _ => cases hwaits

/-- The chronicle of a turn is that of its run. -/
theorem takeTurnMoments_eq (fuel : Nat) (seconds : Float) (context : Context) (m : Machine) :
    takeTurnMoments fuel seconds context m =
      match turnStart seconds context m with
      | none => []
      | some e => runTurnMoments fuel e.context m := by
  unfold takeTurnMoments turnStart
  simp only
  split
  · rfl
  · split
    · rfl
    · cases (context.wait seconds).resume <;> rfl

/-- In a turn, something is evaluated in the context that has the turn, or in newer ones. -/
theorem evaluates_of_turn {fuel : Nat} {seconds : Float} {context : Context} {m : Machine} {x : Moment}
    (hmem : x ∈ takeTurnMoments fuel seconds context m) {id : Nat} (heval : x.Evaluates id) :
    (turnStart seconds context m).isSome = true ∧ id = context.id ∨ m.contextCount < id := by
  rw [takeTurnMoments_eq] at hmem
  cases hstart : turnStart seconds context m with
  | none =>
    rw [hstart] at hmem
    cases hmem
  | some e =>
    simp only [hstart] at hmem
    rcases runTurn_tale fuel e.context m with ⟨told, n, htale, htold⟩
    rw [htold] at hmem
    rcases List.mem_cons.1 hmem with rfl | hmem
    · rcases heval with ⟨node, hevent⟩
      cases hevent
    · refine (htale.evaluates_fresh hmem heval).imp (fun hown => ⟨rfl, ?_⟩) fun hnew => hnew
      rw [← (turnStart_eq_some hstart).2.1]
      exact (Option.some.inj hown).symm

/-- The moments of a tick are those of its turns. -/
theorem exists_turn_of_mem {fuel : Nat} {seconds : Float} {contexts : List Context} {m m' : Machine}
    {turns : List TakenTurn} (h : takeAll fuel seconds contexts m = .done turns m') {x : Moment}
    (hmem : x ∈ takeTurnsMoments fuel seconds contexts m) :
    ∃ taken ∈ turns, x ∈ takeTurnMoments fuel seconds taken.before taken.machine := by
  induction contexts generalizing m turns with
  | nil => cases hmem
  | cons context rest ih =>
    rcases exists_of_takeAll_cons h with ⟨after, turn, n, others, hturn, hrest, rfl⟩
    unfold takeTurnsMoments Action.followed at hmem
    rw [hturn] at hmem
    rcases List.mem_append.1 hmem with hmem | hmem
    · exact ⟨_, List.mem_cons_self .., hmem⟩
    · rcases ih hrest hmem with ⟨taken, hin, hx⟩
      exact ⟨taken, List.mem_cons_of_mem _ hin, hx⟩

/-- Nothing is evaluated in a context that waits. -/
theorem takeTurnsMoments_of_waiting {fuel : Nat} {seconds : Float} {m m' : Machine}
    {turns : List TakenTurn} (h : tickTurns fuel seconds m = .done turns m')
    (hnodup : (turns.map fun taken => taken.after.id).Nodup) {taken : TakenTurn} (hmem : taken ∈ turns)
    (hwaits : taken.turn.waits = true) (hnumbered : taken.before.id ≤ m.contextCount) {x : Moment}
    (hx : x ∈ (Task.tick seconds).moments fuel m) : ¬x.Evaluates taken.before.id := by
  intro heval
  have hturns := (tickTurns_spec h).2.2
  rcases exists_of_tickTurns h with ⟨n, hall, -⟩
  rcases exists_turn_of_mem hall hx with ⟨other, hother, hin⟩
  rcases hturns other hother with ⟨-, hgrows, -⟩
  rcases evaluates_of_turn hin heval with ⟨hruns, hid⟩ | hnew
  · -- The context has no other turn than the one in which it waits.
    have hsame : other = taken := eq_of_id_eq hnodup hother hmem (by
      rw [(isTaken_of_tickTurns h hother).id, (isTaken_of_tickTurns h hmem).id, hid])
    rcases hturns taken hmem with ⟨-, -, k, hturn⟩
    rw [hsame, (takeTurn_waits hturn hwaits).2] at hruns
    cases hruns
  · have hcount := hgrows.background.1
    exact absurd (Nat.le_trans hnumbered hcount) (Nat.not_le.2 hnew)

end Machine

/-! ## Ticks -/

namespace Session

open Machine (kept tickTurns)

/-- **What a tick reports.**  Take a tick of a machine that requests have led to.  No context is
listed twice in the report, in one list or in two, and only contexts of the background are listed.
Behind the tick the background holds the contexts that it held before, but not those that are listed
as retired, in the same order, and behind them new ones that were created on the way; without a
command that creates contexts by itself there are none of these.  A context that is not listed is
still there and has only waited, and no expression was evaluated in it. -/
theorem History.tick_reports {fuel calls : Nat} {first last : Session} {log : List (List TakenTurn)}
    (hempty : first.machine.background = []) (h : History fuel first log last) {seconds : Float}
    {report : TickReport} {m : Machine}
    (htick : Machine.tick calls seconds last.machine = .done report m) :
    let before := last.machine.background
    report.mentioned.Nodup ∧ (∀ id ∈ report.mentioned, id ∈ before.map Context.id) ∧
    ∃ stayed added, m.background = stayed ++ added ∧
      (stayed.map fun context => (context.id, context.program)) =
        ((before.filter fun context => context.id ∉ report.retired.map Prod.fst).map
          fun context => (context.id, context.program)) ∧
      (∀ context ∈ added, last.machine.BackgroundsItself ∧ context.IsNew ∧
        last.machine.contextCount < context.id) ∧
      ∀ context ∈ before, context.id ∉ report.mentioned →
        context.wait seconds ∈ stayed ∧
          ∀ x ∈ (Task.tick seconds).moments calls last.machine, ¬x.Evaluates context.id := by
  intro before
  rw [Machine.tick_eq] at htick
  rcases Action.exists_of_bind_done htick with ⟨turns, n, hturns, hreport⟩
  cases hreport
  have hledger := h.ledger hempty
  have hspec := Machine.tickTurns_spec hturns
  have htaken : ∀ taken ∈ turns, taken.IsTaken calls := fun _ => Machine.isTaken_of_tickTurns hturns
  have hbefore : turns.map TakenTurn.before = before := hspec.1
  have hafter : (turns.map fun taken => taken.after.id) = before.map Context.id := by
    rw [← hbefore, List.map_map]
    exact List.map_congr_left fun taken hmem => (htaken taken hmem).id
  have hnodup : (turns.map fun taken => taken.after.id).Nodup := hafter ▸ hledger.distinct
  have hperm := TickReport.mentioned_perm turns
  have hsublist : ((turns.filter fun taken => !taken.turn.waits).map fun taken => taken.after.id).Sublist
      (turns.map fun taken => taken.after.id) := List.filter_sublist.map _
  rcases Machine.tickTurns_adds hturns with ⟨added, hadded, hborn⟩
  refine ⟨hperm.nodup_iff.2 (hsublist.nodup hnodup), fun id hid => ?_, kept turns, added, hadded,
    hbefore ▸ Machine.kept_of_taken htaken hnodup,
    fun context hmem => ?_, fun context hmem hunlisted => ?_⟩
  · rw [← hafter]
    exact hsublist.subset (hperm.mem_iff.1 hid)
  · rcases hborn context hmem with ⟨hbackgrounds, habove, hnew, -⟩
    exact ⟨hbackgrounds, hnew, habove⟩
  · rw [← hbefore] at hmem
    rcases List.mem_map.1 hmem with ⟨taken, hin, rfl⟩
    have hwaits : taken.turn.waits = true := by
      rcases Bool.eq_false_or_eq_true taken.turn.waits with hwaits | hruns
      · exact hwaits
      · refine absurd (hperm.mem_iff.2 (List.mem_map.2 ⟨taken, List.mem_filter.2 ⟨hin, ?_⟩, ?_⟩)) hunlisted
        · simp [hruns]
        · exact (htaken taken hin).id
    rcases hspec.2.2 taken hin with ⟨hseconds, -, k, hturn⟩
    have hold : taken.before ∈ before := by
      rw [← hbefore]
      exact List.mem_map_of_mem hin
    refine ⟨?_, fun x => Machine.takeTurnsMoments_of_waiting hturns hnodup hin hwaits
      (hledger.numbered _ hold)⟩
    rw [← (Machine.takeTurn_waits hturn hwaits).1, Machine.kept_eq]
    exact List.mem_map_of_mem (List.mem_filter.2 ⟨hin, Turn.stays_of_waits hwaits⟩)

/-- A session with a command that creates contexts by itself, and a script that calls it. -/
def spawning : Session :=
  let script : Program := { Program.fresh 1 none with
    tree := some ⟨#[⟨.entry, [], none, 2, [1], none⟩,
      ⟨.expression, [], none, 3, [], some (.call "Spawn" [])⟩], 0, []⟩
    state := .valid }
  let command : Command := ⟨⟨"Spawn", none, "", "", [], .numeric, false⟩, .host .backgroundSelf⟩
  let s := start (.start { Settings.standard with stepBudget := 2 } .empty)
  { s with
    machine := { s.machine with commands := ⟨s.machine.commands.commands ++ [command]⟩ }
    programs := Names.empty.set "spawner" script }

/-- Every context of the script adds another one, and all of them stay in order. -/
theorem History.tick_reports_spawning : ∃ last report m, History 4 spawning [] last ∧
    Machine.tick 4 1.0 last.machine = .done report m ∧ report.mentioned.Nodup ∧
      ∃ stayed added, m.background = stayed ++ added ∧ stayed.map Context.id = [1] ∧
        ∀ context ∈ added, context.IsNew ∧ last.machine.contextCount < context.id := by
  have hstart : History 4 spawning [] spawning := .start
  have hsent := hstart.answered (.background "spawner" []) (by simp) rfl
  rcases hsent.tick_reports rfl (show Machine.tick 4 1.0 _ = .done _ _ from rfl) with
    ⟨hnodup, -, stayed, added, hadded, hstayed, hnew, -⟩
  refine ⟨_, _, _, hsent, rfl, hnodup, stayed, added, hadded, ?_, fun context hmem =>
    (hnew context hmem).2⟩
  have hids := congrArg (List.map Prod.fst) hstayed
  rw [List.map_map] at hids
  exact hids

/-- Behind a tick, the background may hold more than the contexts that were there before. -/
theorem History.not_only_kept_spawning : ∃ last report m, History 4 spawning [] last ∧
    Machine.tick 4 1.0 last.machine = .done report m ∧ report.retired = [] ∧
      last.machine.background.map Context.id = [1] ∧ m.background.map Context.id = [1, 2] := by
  have hstart : History 4 spawning [] spawning := .start
  have hsent := hstart.answered (.background "spawner" []) (by simp) rfl
  exact ⟨_, _, _, hsent, rfl, rfl, rfl, rfl⟩

end Session
end ScriptMachine
