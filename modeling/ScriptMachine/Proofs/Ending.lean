import ScriptMachine.Proofs.Converging
import ScriptMachine.Proofs.Depth
import ScriptMachine.Proofs.Shelving
import ScriptMachine.Proofs.Straight

/-!
# Scripts without loops come to an end

A run of a script without loops takes finitely many steps, each of which ends if the scripts do that
it calls.  Those run one call deeper, and the limit of the call depth bounds how deep that can go:
at the limit a call fails at once.  So a run of such scripts ends, however often they call each other
or themselves, in statements, in conditions or in initializers.  Only a command of the host that
creates contexts by itself is not counted, and can go on creating them inside of each other.

Main results:

- {lit}`Execution.run_converges`: a run whose steps come to an end converges.
- {lit}`Machine.callee_converges`: so do calls, when what is under way is bounded.
- {lit}`Machine.run_terminates`: a run that only requests scripts without loops ends.
-/

namespace ScriptMachine

open Filter

/-! ## Runs -/

section Runs

variable {P : Moment → Prop} {observers : Nat → Observer} {callees : Nat → Callee}
  {underway : List Activation}

namespace Execution

/-- A run whose steps come to an end converges, with as much less fuel as steps were taken. -/
theorem run_converges (hcallees : Callee.Converge P observers underway callees)
    (hkeeps : ∀ fuel, (callees fuel).Keeps) {e : Execution}
    (hacc : Acc (fun later earlier => StepsTo earlier later) e) (taken : Nat)
    (htold : Assured P fun fuel =>
      runMoments (callees fuel) (observers fuel) underway 0 (fuel - taken) taken e) :
    Outcome.Converges fun fuel => run (callees fuel) 0 (fuel - taken) taken e := by
  induction hacc generalizing taken with
  | intro e _ ih =>
    -- With two units of fuel or more, the chronicle is that of a step and of the run behind it.
    have hmore : ∀ᶠ fuel in atTop, ∃ k, fuel - taken = k + 2 ∧ fuel - (taken + 1) = k + 1 := by
      filter_upwards [eventually_ge_atTop (taken + 2)] with fuel hle
      exact ⟨fuel - taken - 2, by omega, by omega⟩
    have hstart : Assured P fun fuel =>
        stepMoments (callees fuel) (observers fuel) underway e := by
      filter_upwards [htold, hmore] with fuel hall hfuel x hmem
      rcases hfuel with ⟨k, hk, -⟩
      rw [hk] at hall
      exact hall x (List.mem_append_left _ hmem)
    rcases step_converges hcallees e hstart with ⟨outcome, hends, hstep⟩
    cases outcome with
    | exhausted => exact absurd rfl hends
    | failed error t =>
      refine ⟨.failed error (t.onContext Context.endRun), (fun heq => by cases heq), ?_⟩
      filter_upwards [hstep, hmore] with fuel hrun hfuel
      rcases hfuel with ⟨k, hk, -⟩
      simp only [hk, run, hrun]
    | done status t =>
      cases status with
      | finished =>
        refine ⟨.done .finished (t.onContext Context.endRun), (fun heq => by cases heq), ?_⟩
        filter_upwards [hstep, hmore] with fuel hrun hfuel
        rcases hfuel with ⟨k, hk, -⟩
        simp only [hk, run, hrun]
      | running =>
        have hbehind : Assured P fun fuel => runMoments (callees fuel) (observers fuel) underway 0
            (fuel - (taken + 1)) (taken + 1) t := by
          filter_upwards [htold, hmore, hstep] with fuel hall hfuel hrun x hmem
          rcases hfuel with ⟨k, hk, hnext⟩
          rw [hk] at hall
          refine hall x (List.mem_append_right _ ?_)
          rw [hrun]
          exact hnext ▸ hmem
        rcases hstep.exists with ⟨fuel, hrun⟩
        have hrest := ih t ⟨callees fuel, hkeeps fuel, hrun⟩ (taken + 1) hbehind
        refine hrest.congr ?_
        filter_upwards [hstep, hmore] with fuel hrun hfuel
        rcases hfuel with ⟨k, hk, hnext⟩
        rw [hk, hnext]
        conv_lhs => unfold run
        simp only [hrun]
        rfl

end Execution

/-! ## Contexts and programs -/

/-- Some moment inside of what is under way satisfies a condition. -/
def Admits (P : Moment → Prop) (underway : List Activation) : Prop :=
  ∃ x, P x ∧ x.underway = underway

namespace Machine

open Execution

/-- An initializer converges. -/
theorem prepareOne_converges (hcallees : Callee.Converge P observers underway callees) (tree : Tree)
    (id : Nat) : Action.Converges P
      (fun fuel => prepareOneMoments (callees fuel) (observers fuel) underway tree id)
      fun fuel => prepareOne (callees fuel) tree id := by
  unfold prepareOne prepareOneMoments nodeOf
  cases tree.node? id with
  | none => exact fun e _ => .failed _ e
  | some node =>
    refine (evaluate_converges hcallees node).bind_settles (R := Execution.Undecided) fun _ => ?_
    refine .get_bind_all fun e => ?_
    split
    · exact .fail _
    · exact .pure _

/-- A list of initializers converges. -/
theorem prepareAll_converges (hcallees : Callee.Converge P observers underway callees) (tree : Tree)
    (ids : List Nat) : Action.Converges P
      (fun fuel => prepareMoments (callees fuel) (observers fuel) underway tree ids)
      fun fuel => prepareAll (callees fuel) tree ids := by
  induction ids with
  | nil => exact fun e _ => .done () e
  | cons id rest ih => exact .bind (prepareOne_converges hcallees tree id) fun _ => ih

/-- The creation of a context converges if the calls of its initializers do. -/
theorem createContext_converges
    (hcallees : Admits P (.creation :: underway) →
      Callee.Converge P observers (.creation :: underway) callees)
    (program : Program) (arguments : List Value) : Action.Converges P
      (fun fuel => createMoments (callees fuel) (observers fuel) underway program arguments)
      fun fuel => createContext (callees fuel) program arguments := by
  intro m htold
  unfold createMoments at htold
  unfold createContext
  simp only at htold ⊢
  cases hbind : bindChecked { m with contextCount := m.contextCount + 1 } program arguments with
  | error error => exact .failed _ _
  | ok locals =>
    simp only [hbind] at htold
    simp only
    rcases htold.exists with ⟨_, hall⟩
    have hinner := hcallees ⟨_, hall _ List.mem_cons_self, rfl⟩
    generalize hstart : Execution.mk _ _ = start
    have hprepare : Outcome.Converges fun fuel => prepare (callees fuel) program start := by
      unfold prepare
      cases htree : program.tree with
      | none => exact .failed _ start
      | some tree =>
        refine prepareAll_converges hinner tree tree.initializers start ?_
        refine htold.mono fun fuel hall x hmem => hall x (List.mem_cons_of_mem _ ?_)
        rw [htree, hstart]
        exact hmem
    refine hprepare.determines (fun n k hsame => ?_) fun n hends => ?_
    · simp only [hsame]
    · cases hrun : prepare (callees n) program start with
      | done answer e => simp
      | failed error e => simp
      | exhausted => exact absurd hrun hends

/-- A run to the end of a script without loops converges. -/
theorem runToEnd_converges (hcallees : Callee.Converge P observers underway callees)
    (hkeeps : ∀ fuel, (callees fuel).Keeps) {context : Context}
    (hstraight : context.program.IsStraight) (m : Machine)
    (htold : Assured P fun fuel =>
      runToEndMoments (callees fuel) (observers fuel) underway fuel context m) :
    Outcome.Converges fun fuel => runToEnd (callees fuel) fuel ⟨m, context⟩ := by
  unfold runToEndMoments at htold
  unfold runToEnd
  cases htree : context.program.tree with
  | none => exact .failed _ (Execution.mk m context)
  | some tree =>
    simp only [htree] at htold ⊢
    have hacc := (straight_beginRun m htree tree.root).acc (hstraight.tree htree)
    exact run_converges hcallees hkeeps hacc 0 htold

/-- A script without loops converges in a new context. -/
theorem runFresh_converges (hcallees : Callee.Converge P observers underway callees)
    (hinner : Admits P (.creation :: underway) →
      Callee.Converge P observers (.creation :: underway) callees)
    (hkeeps : ∀ fuel, (callees fuel).Keeps) {program : Program} (hstraight : program.IsStraight)
    (arguments : List Value) : Action.Converges P
      (fun fuel => freshMoments (callees fuel) (observers fuel) underway fuel program arguments)
      fun fuel => runFresh (callees fuel) fuel program arguments := by
  intro m htold
  unfold runFresh
  rcases createContext_converges hinner program arguments m htold.start with
    ⟨outcome, hends, hcreate⟩
  cases outcome with
  | exhausted => exact absurd rfl hends
  | failed error n =>
    refine ⟨.failed error n, (fun heq => by cases heq), hcreate.mono fun fuel hrun => ?_⟩
    simp only [hrun]
  | done context n =>
    rcases hcreate.exists with ⟨some, hcreated⟩
    have hprogram := program_of_created (hkeeps some) hcreated
    have hloopless : context.program.IsStraight := hprogram.symm ▸ hstraight
    have hrest := runToEnd_converges hcallees hkeeps hloopless n (htold.behind hcreate)
    refine hrest.eventually_determines hcreate (fun j k hj hk hsame => ?_) fun j hj hends => ?_
    · simp only [hj, hk, hsame]
    · simp only [hj]
      cases hrun : runToEnd (callees j) j ⟨n, context⟩ with
      | done answer e => simp
      | failed error e => simp
      | exhausted => exact absurd hrun hends

/-- A run of a script converges if the script has no loop and the calls in it converge. -/
theorem runProgram_converges
    (hP : ∀ x, P x → ∀ program arguments, x.event = .request program arguments → program.IsStraight)
    (hcallees : Admits P (.run :: underway) →
      Callee.Converge P observers (.run :: underway) callees)
    (hinner : Admits P (.creation :: .run :: underway) →
      Callee.Converge P observers (.creation :: .run :: underway) callees)
    (hkeeps : ∀ fuel, (callees fuel).Keeps) (program : Program) (arguments : List Value) :
    Action.Converges P
      (fun fuel => programMoments (callees fuel) (observers fuel) underway fuel program arguments)
      fun fuel => runProgram (callees fuel) fuel program arguments := by
  intro m htold
  unfold programMoments at htold
  unfold runProgram
  rcases htold.exists with ⟨_, hall⟩
  have hstraight := hP _ (hall _ List.mem_cons_self) program arguments rfl
  by_cases hlimit : m.settings.maxCallDepth ≤ m.depth
  · simp only [if_pos hlimit]
    exact .failed _ _
  · simp only [if_neg hlimit] at htold hall ⊢
    have hinside := hcallees ⟨_, hall _ (List.mem_cons_of_mem _ List.mem_cons_self), rfl⟩
    have hfresh := runFresh_converges hinside hinner hkeeps hstraight arguments m.enter
      (htold.mono fun fuel hall x hmem =>
        hall x (List.mem_cons_of_mem _ (List.mem_cons_of_mem _ hmem)))
    unfold nested
    refine hfresh.determines (fun n k hsame => ?_) fun n hends => ?_
    · simp only [hsame]
    · split <;> simp_all

end Machine
end Runs

/-! ## Calls -/

namespace Machine

/-- Calls converge where only scripts without loops are requested and no more than so many
activations are ever under way. -/
theorem callee_converges {P : Moment → Prop}
    (hP : ∀ x, P x → ∀ program arguments, x.event = .request program arguments → program.IsStraight)
    {bound : Nat} (hbound : ∀ x, P x → x.underway.length ≤ bound) (underway : List Activation) :
    Callee.Converge P observer underway callee := by
  generalize hroom : bound - underway.length = room
  induction room using Nat.strongRecOn generalizing underway with
  | ind room ih =>
    have hinner : ∀ inner, underway.length < inner.length → Admits P inner →
        Callee.Converge P observer inner callee := by
      rintro inner hlength ⟨x, hx, rfl⟩
      have hdeep := hbound x hx
      exact ih _ (by omega) _ rfl
    refine ⟨fun program arguments m htold => .of_succ ?_,
      fun program arguments m htold => .of_succ ?_⟩
    · exact runProgram_converges hP (hinner _ (by simp))
        (hinner _ (by simp only [List.length_cons]; omega)) callee_keeps program arguments m
        (eventually_succ htold)
    · exact createContext_converges (hinner _ (by simp)) program arguments m (eventually_succ htold)

/-! ## Ends of runs -/

/-- Unless a command of the host creates contexts by itself, the limit of the call depth bounds what
is under way. -/
theorem exists_bound {m : Machine} (hcounted : ¬m.BackgroundsItself) (program : Program)
    (arguments : List Value) : ∃ bound, ∀ fuel, ∀ x ∈ (Task.run program arguments).moments fuel m,
      x.underway.length ≤ bound := by
  refine ⟨m.settings.maxCallDepth + 1, fun fuel x hmem => ?_⟩
  rcases ((observer_tells fuel).run program arguments [] m).exists_tale with ⟨n, htale⟩
  exact ((htale.inside hmem).admissible (Nat.zero_le _) rfl hcounted .nothing).length_le

/-- A script that calls itself in an initializer, in a condition and in statements. -/
def recursing : List Char :=
  ("scriptname Recursing\nvariable x = Call(\"SELF\")\nbegin\nif Call(\"SELF\")\n" ++
    "x = Call(\"SELF\")\nelse\nCall(\"SELF\")\nendif\nend").toList

/-- Whether that script is valid and its tree has no loop. -/
def recurses : Bool :=
  match Program.compile .empty .standard 1 none recursing with
  | .ok program => program.state == .valid &&
    program.tree.all fun tree => tree.nodes.toList.all fun node => !node.kind.isLoop
  | .error _ => false

end Machine
end ScriptMachine
