import ScriptMachine.Proofs.Hosting
import ScriptMachine.Proofs.Telling

/-!
# The call depth

The call depth is counted up at three places: when a run begins, when the initializers of a
context are evaluated and when a context has its turn.  Only a run checks the limit.  At every
moment of what a host asks for, the depth is the number of activations that are under way;
afterwards it is what it was before, whatever failed on the way.

Main results:

- {lit}`Task.perform_level`: the depth is the same again at the end of a task.
- {lit}`Task.inside_of_mem`: every moment of a task lies inside of nothing or of a turn.
- {lit}`Task.depth_of_mem`: at every moment the depth counts what is under way.
- {lit}`Task.admissible_of_mem`: and only what the limit admits is under way.
-/

namespace ScriptMachine

/-! ## The depth at the end -/

namespace Machine

/-- The call depth is the same. -/
def Level (m m' : Machine) : Prop :=
  m'.depth = m.depth

instance : Lasting Level where
  refl _ := rfl
  trans h h' := Eq.trans h' h

/-- Growth does not change the call depth. -/
theorem level_of_keeps {α : Type} {operation : Operation α} (h : operation.Keeps Grows) :
    operation.Keeps Level :=
  h.mono fun _ _ hgrows => hgrows.depth

/-- A turn ends at the depth at which it began. -/
theorem takeTurn_level (fuel : Nat) (seconds : Float) (context : Context) :
    (takeTurn fuel seconds context).Keeps Level := by
  intro m
  cases hturn : takeTurn fuel seconds context m with
  | done pair n => exact (takeTurn_continues hturn).2.depth
  | failed error n => exact absurd hturn (takeTurn_ne_failed fuel seconds context m n error)
  | exhausted => trivial

/-- The turns of a tick end at the depth at which they began. -/
theorem takeTurns_level (fuel : Nat) (seconds : Float) (contexts : List Context) :
    (takeTurns fuel seconds contexts).Keeps Level := by
  induction contexts with
  | nil => exact .pure _
  | cons context rest ih =>
    exact .bind (takeTurn_level fuel seconds context) fun _ => .bind ih fun _ => .pure _

/-- A tick ends at the depth at which it began. -/
theorem tick_level (fuel : Nat) (seconds : Float) : (tick fuel seconds).Keeps Level := by
  have hrestore (kept : List Context) : (Action.change fun m : Machine =>
      { m with background := kept ++ m.background } : Operation Unit).Keeps Level :=
    .change fun _ => rfl
  refine .get_bind fun m => Action.ends_bind (P := Level m) rfl fun _ n hn => ?_
  have hrest := Action.Keeps.bind (takeTurns_level fuel seconds m.background) fun answer =>
    Action.Keeps.bind (hrestore answer.1) fun _ => .pure answer.2
  exact (hrest n).mono fun k hk => Eq.trans hk hn

end Machine

/-- The depth at the end of a task is what it was at its beginning, whatever happens. -/
theorem Task.perform_level (fuel : Nat) (task : Task) : (task.perform fuel).Keeps Machine.Level := by
  have hcallee := Machine.callee_keeps fuel
  cases task with
  | create program arguments =>
    exact .bind (Machine.level_of_keeps (hcallee.create program arguments)) fun _ => .pure _
  | run program arguments =>
    exact .bind (Machine.level_of_keeps (hcallee.run program arguments)) fun _ => .pure _
  | background program arguments =>
    exact .bind (Machine.level_of_keeps (Machine.sendToBackground_keeps fuel program arguments))
      fun _ => .pure _
  | tick seconds => exact .bind (Machine.tick_level fuel seconds) fun _ => .pure _
  | load name => exact .bind (Machine.level_of_keeps (Machine.load_keeps name)) fun _ => .pure _

/-! ## The depth on the way -/

namespace Machine

open Execution

/-- The moments of a tick are those of its turns. -/
theorem mem_takeTurnsMoments {fuel : Nat} {seconds : Float} {contexts : List Context} {m : Machine}
    {x : Moment} (hmem : x ∈ takeTurnsMoments fuel seconds contexts m) :
    ∃ context n, m.Grows n ∧ x ∈ runTurnMoments fuel context n := by
  induction contexts generalizing m with
  | nil => cases hmem
  | cons context rest ih =>
    unfold takeTurnsMoments Action.followed at hmem
    rcases List.mem_append.1 hmem with hmem | hmem
    · unfold takeTurnMoments at hmem
      simp only at hmem
      split at hmem
      · cases hmem
      · split at hmem
        · cases hmem
        · split at hmem
          · cases hmem
          · exact ⟨_, m, Lasting.refl m, hmem⟩
    · split at hmem
      · next pair n hturn =>
        rcases ih hmem with ⟨context', k, hgrows, hmem⟩
        exact ⟨context', k, Lasting.trans (takeTurn_continues hturn).2 hgrows, hmem⟩
      · cases hmem
      · cases hmem

/-- The run of a turn has its tale. -/
theorem runTurn_tale (fuel : Nat) (context : Context) (m : Machine) :
    ∃ told n, Tale [.turn] (some context.id) m.enter told n ∧
      runTurnMoments fuel context m = ⟨[.turn], m.enter, .entered⟩ :: told := by
  have htells := run_tells (callee_keeps fuel) (observer_tells fuel) [.turn] m.settings.stepBudget
    fuel 0 ⟨m.enter, context⟩ fun hpatient => hpatient.fuel_pos
  rcases htells.exists_tale with ⟨n, htale⟩
  exact ⟨_, n, htale, rfl⟩

end Machine

namespace Task

variable {fuel : Nat} {task : Task} {m : Machine} {x : Moment}

/-- Every moment of a task lies inside of nothing or inside of a turn. -/
theorem inside_of_mem (hmem : x ∈ task.moments fuel m) (hdepth : m.depth = 0) :
    ∃ underway start, (∀ limit, Admissible limit underway) ∧ start.depth = underway.length ∧
      m.Follows start ∧ Inside underway start x.underway x.machine := by
  have hobserver := Machine.observer_tells fuel
  -- Everything but a tick begins with nothing under way.
  have hnothing : ∀ {told n}, Tale [] none m told n → x ∈ told →
      ∃ underway start, (∀ limit, Admissible limit underway) ∧ start.depth = underway.length ∧
        m.Follows start ∧ Inside underway start x.underway x.machine :=
    fun htale hmem => ⟨[], m, fun _ => .nothing, hdepth, Lasting.refl m, htale.inside hmem⟩
  cases task with
  | create program arguments =>
    rcases (hobserver.create program arguments [] m (.inl (.inl rfl))).exists_tale with ⟨n, htale⟩
    exact hnothing htale hmem
  | run program arguments =>
    rcases (hobserver.run program arguments [] m).exists_tale with ⟨n, htale⟩
    exact hnothing htale hmem
  | background program arguments =>
    rcases (hobserver.create program arguments [] m (.inl (.inl rfl))).exists_tale with ⟨n, htale⟩
    exact hnothing htale hmem
  | tick seconds =>
    rcases Machine.mem_takeTurnsMoments hmem with ⟨context, n, hgrows, hturn⟩
    rcases Machine.runTurn_tale fuel context n with ⟨told, k, htale, htold⟩
    have hfollows : m.Follows n.enter :=
      ⟨hgrows.settings, hgrows.commands, hgrows.background.1⟩
    have hdeep : n.enter.depth = 1 := congrArg Nat.succ (hgrows.depth.trans hdepth)
    rw [htold] at hturn
    refine ⟨[.turn], n.enter, fun _ => .turn, hdeep, hfollows, ?_⟩
    rcases List.mem_cons.1 hturn with rfl | hturn
    · exact .here _
    · exact htale.inside hturn
  | load name => cases hmem

/-- At every moment of a task, the depth counts what is under way. -/
theorem depth_of_mem (hmem : x ∈ task.moments fuel m) (hdepth : m.depth = 0) :
    x.machine.depth = x.underway.length := by
  rcases inside_of_mem hmem hdepth with ⟨underway, start, -, hstart, -, hinside⟩
  exact hinside.depth hstart

/-- No moment of a task has other settings or more commands. -/
theorem follows_of_mem (hmem : x ∈ task.moments fuel m) (hdepth : m.depth = 0) :
    m.Follows x.machine := by
  rcases inside_of_mem hmem hdepth with ⟨underway, start, -, -, hfollows, hinside⟩
  exact Lasting.trans hfollows hinside.follows

/-- At every moment of a task, only what the limit admits is under way, unless a command creates
contexts by itself. -/
theorem admissible_of_mem (hmem : x ∈ task.moments fuel m) (hdepth : m.depth = 0)
    (hcounted : ¬m.BackgroundsItself) : Admissible m.settings.maxCallDepth x.underway := by
  rcases inside_of_mem hmem hdepth with ⟨underway, start, hadmissible, hstart, hfollows, hinside⟩
  exact hinside.admissible (Nat.le_of_eq hstart.symm) (by rw [hfollows.settings])
    (fun h => hcounted (h.of_follows hfollows)) (hadmissible _)

end Task
end ScriptMachine
