import ScriptMachine.Proofs.Calling
import ScriptMachine.Proofs.Telling

/-!
# What begins while the global exception is raised

The global exception is raised in the middle of an expression, and the rest of the expression is
still evaluated.  It may begin steps, runs and creations of contexts while the exception is raised.
A step looks at the exception before it evaluates anything.  The creation of a context looks at it
behind each initializer only, so that the first initializer is evaluated all the same, and with it
whatever that calls.

Main results:

- {lit}`Program.firstInitializer?`: the node that is evaluated first in a new context.
- {lit}`Machine.Stifled.observer`: nothing but first initializers is evaluated.
- {lit}`Machine.Alarmed.stifles`: steps and runs fail without any evaluation, and so does
  everything else as long as no first initializer comes in between.
-/

namespace ScriptMachine

/-! ## First initializers -/

/-- The node of the first initializer of a program. -/
def Program.firstInitializer? (program : Program) : Option Node :=
  program.tree.bind fun tree => tree.initializers.head?.bind tree.node?

/-- If something is about to be evaluated, it is the first initializer of a program, in the newest
context, which is being created. -/
def Moment.Stifled (x : Moment) : Prop :=
  ∀ context node, x.event = .evaluation context node →
    x.underway.head? = some .creation ∧ context = x.machine.contextCount ∧
      ∃ program : Program, program.firstInitializer? = some node

/-- What is no evaluation is stifled. -/
theorem Moment.stifled_of_ne {x : Moment} (h : ∀ context node, x.event ≠ .evaluation context node) :
    x.Stifled :=
  fun context node hevent => absurd hevent (h context node)

/-- Runs and creations of contexts that begin while the exception is raised evaluate nothing but
first initializers. -/
def Observer.Stifled (observer : Observer) : Prop :=
  ∀ program arguments underway m, m.Alarmed →
    (∀ x ∈ observer.run program arguments underway m, x.Stifled) ∧
      ∀ x ∈ observer.create program arguments underway m, x.Stifled

/-- Within the limit, any number of runs can be under way. -/
theorem Admissible.replicate {limit n : Nat} (h : n ≤ limit) :
    Admissible limit (List.replicate n .run) := by
  induction n with
  | zero => exact .nothing
  | succ n ih =>
    rw [List.replicate_succ]
    exact (ih (by omega)).run (by rw [List.length_replicate]; omega)

/-! ## Commands and expressions -/

section Calls

variable {observer : Observer} (hobserver : observer.Stifled) {underway : List Activation}
include hobserver

/-- A built-in command that is performed while the exception is raised. -/
theorem Builtin.moments_stifled {builtin : Builtin} {arguments : List Value} {e : Execution}
    (halarmed : e.Alarmed) {x : Moment} (hmem : x ∈ builtin.moments observer underway arguments e) :
    x.Stifled := by
  cases builtin with
  | callScript =>
    rcases Action.mem_checked hmem with ⟨name, -, hcall⟩
    simp only at hcall
    split at hcall
    · cases hcall
    · rcases Action.mem_followed hcall with hnone | ⟨found, t, htarget, hrun⟩
      · cases hnone
      · have hlater := Machine.Alarmed.of_grows halarmed ((target_quiet name).of_done htarget).machine
        cases found with
        | ok program => exact (hobserver program _ underway t.machine hlater).1 x hrun
        | error cause => cases hrun
  | raiseError =>
    rcases Action.mem_checked hmem with ⟨message, -, halarm⟩
    cases List.mem_singleton.1 halarm
    exact Moment.stifled_of_ne fun _ _ h => by cases h
  | _ => cases hmem

/-- An action of the host that is performed while the exception is raised. -/
theorem HostAction.moments_stifled {action : HostAction} {arguments : List Value} {e : Execution}
    (halarmed : e.Alarmed) {x : Moment} (hmem : x ∈ action.moments observer underway arguments e) :
    x.Stifled := by
  cases action with
  | raise =>
    cases List.mem_singleton.1 hmem
    exact Moment.stifled_of_ne fun _ _ h => by cases h
  | backgroundSelf => exact (hobserver _ _ underway e.machine halarmed).2 x hmem
  | _ => cases hmem

/-- A command that is called while the exception is raised. -/
theorem invokeMoments_stifled {name : String} {arguments : List Value} {e : Execution}
    (halarmed : e.Alarmed) {x : Moment}
    (hmem : x ∈ invokeMoments observer underway name arguments e) : x.Stifled := by
  unfold invokeMoments at hmem
  split at hmem
  · cases hmem
  · next command _ =>
    rcases Action.mem_checked hmem with ⟨_, -, hperform⟩
    simp only [Command.moments] at hperform
    cases haction : command.action with
    | builtin builtin =>
      rw [haction] at hperform
      exact Builtin.moments_stifled hobserver halarmed hperform
    | host action =>
      rw [haction] at hperform
      exact HostAction.moments_stifled hobserver halarmed hperform

end Calls

/-! ## Creations and runs -/

namespace Machine

open Execution

section Runs

variable {callee : Callee} (hcallee : callee.Keeps) {observer : Observer}
  (hobserver : observer.Stifled) {underway : List Activation} {m : Machine}

include hcallee hobserver in
/-- An initializer of a new context that is evaluated while the exception is raised. -/
theorem nodeMoments_stifled {program : Program} {node : Node}
    (hfirst : program.firstInitializer? = some node) {e : Execution} (halarmed : e.Alarmed)
    (hnewest : e.context.id = e.machine.contextCount) {x : Moment}
    (hmem : x ∈ nodeMoments callee observer (.creation :: underway) node e) : x.Stifled := by
  unfold nodeMoments at hmem
  split at hmem
  · cases hmem
  · next code _ =>
    rcases List.mem_cons.1 hmem with rfl | hmem
    · intro context node' hevent
      cases hevent
      exact ⟨rfl, hnewest, program, hfirst⟩
    · rcases Expr.exists_of_mem_listed (R := Evolves) (fun _ _ hplain => hplain.quiet.toEvolves)
        (fun name values => invoke_evolves hcallee node.line name values) code hmem with
        ⟨name, values, t, hevolves, hcall⟩
      exact invokeMoments_stifled hobserver (halarmed.of_grows hevolves.machine) hcall

include hcallee in
/-- While the exception is raised, an initializer does not succeed. -/
theorem prepareOne_ne_done (tree : Tree) (id : Nat) {e t : Execution} (halarmed : e.Alarmed) :
    prepareOne callee tree id e ≠ .done () t := by
  intro hrun
  have hraised := (halarmed.of_grows ((prepareOne_evolves hcallee tree id).of_done hrun).machine).2
  rw [calm_of_prepareOne hrun] at hraised
  cases hraised

include hcallee in
/-- While the exception is raised, only the first of some initializers has its turn. -/
theorem prepareMoments_of_alarmed (tree : Tree) (id : Nat) (rest : List Nat) {e : Execution}
    (halarmed : e.Alarmed) :
    prepareMoments callee observer underway tree (id :: rest) e =
      prepareOneMoments callee observer underway tree id e := by
  rw [prepareMoments, Action.followed]
  cases hrun : prepareOne callee tree id e with
  | done _ t => exact absurd hrun (prepareOne_ne_done hcallee tree id halarmed)
  | failed error t => exact List.append_nil _
  | exhausted => exact List.append_nil _

/-- An alarm lasts for the creation of a context. -/
theorem Alarmed.preparing (h : m.Alarmed) (program : Program) : (m.preparing program).Alarmed :=
  ⟨Nat.succ_pos _, h.2⟩

include hcallee in
/-- What happens while a context is created and the exception is raised: its first initializer is
evaluated, if it comes to that. -/
theorem createMoments_of_alarmed (h : m.Alarmed) (program : Program) (arguments : List Value) :
    createMoments callee observer underway program arguments m =
      match m.bindChecked program arguments with
      | .error _ => []
      | .ok locals => ⟨.creation :: underway, m.preparing program, .entered⟩ ::
          match program.firstInitializer? with
          | none => []
          | some node => nodeMoments callee observer (.creation :: underway) node
              ⟨m.preparing program, .create (m.contextCount + 1) program locals⟩ := by
  unfold createMoments
  simp only
  show (match m.bindChecked program arguments with | .error _ => _ | .ok locals => _) = _
  cases m.bindChecked program arguments with
  | error e => rfl
  | ok locals =>
    simp only [Program.firstInitializer?]
    congr 1
    cases program.tree with
    | none => rfl
    | some tree =>
      rw [Option.bind_some]
      cases hids : tree.initializers with
      | nil => simp only [hids, List.head?_nil, Option.bind_none]; rfl
      | cons id rest =>
        simp only [hids, List.head?_cons, Option.bind_some]
        refine (prepareMoments_of_alarmed hcallee tree id rest (e := ⟨m.preparing program, _⟩)
          (h.preparing program)).trans ?_
        unfold prepareOneMoments
        cases tree.node? id <;> rfl

include hcallee in
/-- While the exception is raised, a run that begins in a new context has nothing to tell but the
creation of the context. -/
theorem programMoments_of_alarmed (h : m.Alarmed) (fuel : Nat) (program : Program)
    (arguments : List Value) :
    programMoments callee observer underway fuel program arguments m =
      ⟨underway, m, .request program arguments⟩ ::
        if m.settings.maxCallDepth ≤ m.depth then []
        else ⟨.run :: underway, m.enter, .entered⟩ ::
          createMoments callee observer (.run :: underway) program arguments m.enter := by
  unfold programMoments
  congr 2
  unfold freshMoments Action.followed
  have hinside : m.enter.Alarmed := ⟨Nat.succ_pos _, h.2⟩
  have hkeeps := createContext_keeps hcallee program arguments
  cases hcreate : createContext callee program arguments m.enter with
  | done context n =>
    simp only
    rw [runToEndMoments_of_raised _ _ _ (hinside.of_grows (hkeeps.of_done hcreate)).2, List.append_nil]
  | failed error n => simp only [List.append_nil]
  | exhausted => simp only [List.append_nil]

include hcallee hobserver in
/-- The creation of a context that begins while the exception is raised. -/
theorem createMoments_stifled {m : Machine} {underway : List Activation} (h : m.Alarmed)
    (program : Program) (arguments : List Value) {x : Moment}
    (hmem : x ∈ createMoments callee observer underway program arguments m) : x.Stifled := by
  rw [createMoments_of_alarmed hcallee h] at hmem
  split at hmem
  · cases hmem
  · rcases List.mem_cons.1 hmem with rfl | hmem
    · exact Moment.stifled_of_ne fun _ _ h => by cases h
    · split at hmem
      · cases hmem
      · next hfirst =>
        exact nodeMoments_stifled hcallee hobserver hfirst (e := ⟨m.preparing program, _⟩)
          (h.preparing program) rfl hmem

include hcallee hobserver in
/-- The run of a program that begins while the exception is raised. -/
theorem programMoments_stifled (h : m.Alarmed) (fuel : Nat) (program : Program)
    (arguments : List Value) {x : Moment}
    (hmem : x ∈ programMoments callee observer underway fuel program arguments m) : x.Stifled := by
  rw [programMoments_of_alarmed hcallee h] at hmem
  rcases List.mem_cons.1 hmem with rfl | hmem
  · exact Moment.stifled_of_ne fun _ _ h => by cases h
  · split at hmem
    · cases hmem
    · rcases List.mem_cons.1 hmem with rfl | hmem
      · exact Moment.stifled_of_ne fun _ _ h => by cases h
      · exact createMoments_stifled hcallee hobserver (m := m.enter) ⟨Nat.succ_pos _, h.2⟩ program
          arguments hmem

end Runs

/-- Whatever scripts and hosts begin while the exception is raised evaluates nothing but first
initializers. -/
theorem Stifled.observer (fuel : Nat) : (observer fuel).Stifled := by
  induction fuel with
  | zero =>
    intro program arguments underway m h
    exact ⟨fun x hmem => (List.not_mem_nil hmem).elim, fun x hmem => (List.not_mem_nil hmem).elim⟩
  | succ fuel ih =>
    intro program arguments underway m h
    exact ⟨fun x hmem => programMoments_stifled (callee_keeps fuel) ih h fuel program arguments hmem,
      fun x hmem => createMoments_stifled (callee_keeps fuel) ih h program arguments hmem⟩


/-! ## Outcomes -/

/-- What scripts share in a machine is as it was. -/
structure Untouched (m m' : Machine) : Prop where
  globals : m'.globals = m.globals
  arrays : m'.arrays = m.arrays
  console : m'.console = m.console
  cache : m'.cache = m.cache

/-- In a new context of a program with these arguments no initializer is evaluated: there is none,
or the program cannot be executed with them. -/
def EvaluatesNothing (m : Machine) (program : Program) (arguments : List Value) : Prop :=
  program.firstInitializer? = none ∨ ∃ error, m.bindChecked program arguments = .error error

section Outcomes

variable {callee : Callee} {m : Machine} {program : Program} {arguments : List Value}

/-- If the program can be executed with the arguments, it has no initializer. -/
theorem EvaluatesNothing.firstInitializer?_eq (h : m.EvaluatesNothing program arguments)
    {locals : List Value} (hbind : m.bindChecked program arguments = .ok locals) :
    program.firstInitializer? = none := by
  rcases h with hnone | ⟨error, herror⟩
  · exact hnone
  · rw [hbind] at herror
    cases herror

/-- Without an initializer to evaluate, the creation of a context touches nothing. -/
theorem createContext_untouched (callee : Callee) (h : m.EvaluatesNothing program arguments) :
    (createContext callee program arguments m).Ends m.Untouched := by
  have hprepared : ∀ {locals : List Value}, m.bindChecked program arguments = .ok locals →
      (prepare callee program ⟨m.preparing program, .create (m.contextCount + 1) program locals⟩).Ends
        fun e => m.Untouched e.machine := by
    intro locals hbind
    have hnone := h.firstInitializer?_eq hbind
    unfold Program.firstInitializer? at hnone
    unfold prepare
    cases htree : program.tree with
    | none => exact ⟨rfl, rfl, rfl, rfl⟩
    | some tree =>
      rw [htree, Option.bind_some] at hnone
      cases hids : tree.initializers with
      | nil =>
        simp only [hids]
        exact ⟨rfl, rfl, rfl, rfl⟩
      | cons id rest =>
        rw [hids, List.head?_cons, Option.bind_some] at hnone
        simp only [hids, prepareAll, prepareOne, nodeOf, hnone]
        exact ⟨rfl, rfl, rfl, rfl⟩
  cases hrun : createContext callee program arguments m with
  | exhausted => trivial
  | failed error n =>
    cases Creates.of_createContext hrun with
    | unbound => exact ⟨rfl, rfl, rfl, rfl⟩
    | failed hbind hfailed =>
      have hend := hprepared hbind
      rw [hfailed] at hend
      exact ⟨hend.globals, hend.arrays, hend.console, hend.cache⟩
  | done context n =>
    cases Creates.of_createContext hrun with
    | done hbind hdone =>
      have hend := hprepared hbind
      rw [hdone] at hend
      exact ⟨hend.globals, hend.arrays, hend.console, hend.cache⟩

/-- Without an initializer to evaluate, nothing is evaluated while a context is created. -/
theorem Alarmed.not_evaluates_of_create (h : m.Alarmed) (hcallee : callee.Keeps)
    (hnothing : m.EvaluatesNothing program arguments) {observer : Observer}
    {underway : List Activation} {x : Moment}
    (hmem : x ∈ createMoments callee observer underway program arguments m) (context : Nat) :
    ¬x.Evaluates context := by
  rw [createMoments_of_alarmed hcallee h] at hmem
  rintro ⟨node, hevent⟩
  split at hmem
  · cases hmem
  · next locals hbind =>
    rw [hnothing.firstInitializer?_eq hbind] at hmem
    cases List.mem_singleton.1 hmem
    cases hevent

/-- Without an initializer to evaluate, nothing is evaluated while a program is run. -/
theorem Alarmed.not_evaluates_of_run (h : m.Alarmed) (hcallee : callee.Keeps)
    (hnothing : m.EvaluatesNothing program arguments) {observer : Observer}
    {underway : List Activation} {fuel : Nat} {x : Moment}
    (hmem : x ∈ programMoments callee observer underway fuel program arguments m) (context : Nat) :
    ¬x.Evaluates context := by
  rw [programMoments_of_alarmed hcallee h] at hmem
  rcases List.mem_cons.1 hmem with rfl | hmem
  · exact fun ⟨node, hevent⟩ => by cases hevent
  · split at hmem
    · cases hmem
    · rcases List.mem_cons.1 hmem with rfl | hmem
      · exact fun ⟨node, hevent⟩ => by cases hevent
      · have hinside : m.enter.Alarmed := ⟨Nat.succ_pos _, h.2⟩
        exact hinside.not_evaluates_of_create hcallee hnothing hmem context

/-- While the exception is raised, no context of a program with an initializer is created. -/
theorem Alarmed.createContext_ne_done (h : m.Alarmed) (hcallee : callee.Keeps) {node : Node}
    (hfirst : program.firstInitializer? = some node) (context : Context) (n : Machine) :
    createContext callee program arguments m ≠ .done context n := by
  intro hdone
  cases Creates.of_createContext hdone with
  | done _ hprepare =>
    unfold Program.firstInitializer? at hfirst
    unfold prepare at hprepare
    cases htree : program.tree with
    | none =>
      rw [htree] at hfirst
      cases hfirst
    | some tree =>
      rw [htree, Option.bind_some] at hfirst
      cases hids : tree.initializers with
      | nil =>
        rw [hids] at hfirst
        cases hfirst
      | cons id rest =>
        simp only [htree, hids, prepareAll] at hprepare
        rcases Action.exists_of_bind_done hprepare with ⟨_, t, hone, -⟩
        exact prepareOne_ne_done hcallee tree id (e := ⟨m.preparing program, _⟩) (h.preparing program) hone

/-- While the exception is raised, a run to the end does nothing and does not come to an end. -/
theorem runToEnd_of_raised (callee : Callee) (hraised : m.raised = true) (fuel : Nat)
    (context : Context) :
    runToEnd callee fuel ⟨m, context⟩ = .exhausted ∨
      ∃ error e, runToEnd callee fuel ⟨m, context⟩ = .failed error e ∧ e.machine = m := by
  unfold runToEnd
  simp only
  cases context.program.tree with
  | none => exact .inr ⟨_, _, rfl, rfl⟩
  | some tree =>
    cases fuel with
    | zero => exact .inl rfl
    | succ fuel =>
      simp only [Execution.run]
      rw [step_of_raised callee _ hraised]
      exact .inr ⟨_, _, rfl, rfl⟩

/-- While the exception is raised, a program in a new context has no answer, and it touches nothing
that the creation of the context does not touch. -/
theorem Alarmed.runFresh (h : m.Alarmed) (hcallee : callee.Keeps) (fuel : Nat) (program : Program)
    (arguments : List Value) :
    (∀ result n, runFresh callee fuel program arguments m ≠ .done result n) ∧
      (m.EvaluatesNothing program arguments →
        (runFresh callee fuel program arguments m).Ends m.Untouched) := by
  have hkeeps := createContext_keeps hcallee program arguments
  have hend : ∀ {context : Context} {n : Machine},
      createContext callee program arguments m = .done context n →
        runToEnd callee fuel ⟨n, context⟩ = .exhausted ∨
          ∃ error e, runToEnd callee fuel ⟨n, context⟩ = .failed error e ∧ e.machine = n :=
    fun hcreate => runToEnd_of_raised callee (h.of_grows (hkeeps.of_done hcreate)).2 fuel _
  cases hrun : Machine.runFresh callee fuel program arguments m with
  | exhausted => exact ⟨nofun, fun _ => trivial⟩
  | done result n =>
    cases RunsFresh.of_runFresh hrun with
    | done hcreate hlast =>
      rcases hend hcreate with hstarved | ⟨error, e, hfailed, -⟩
      · cases hstarved.symm.trans hlast
      · cases hfailed.symm.trans hlast
  | failed error n =>
    refine ⟨nofun, fun hnothing => ?_⟩
    have huntouched := createContext_untouched callee hnothing
    cases RunsFresh.of_runFresh hrun with
    | uncreated hcreate =>
      rw [hcreate] at huntouched
      exact huntouched
    | failed hcreate hlast =>
      rw [hcreate] at huntouched
      rcases hend hcreate with hstarved | ⟨other, e, hfailed, hmachine⟩
      · cases hstarved.symm.trans hlast
      · cases hfailed.symm.trans hlast
        rw [← hmachine] at huntouched
        exact ⟨huntouched.globals, huntouched.arrays, huntouched.console, huntouched.cache⟩

/-- While the exception is raised, the run of a program has no answer, and it touches nothing that
the creation of its context does not touch. -/
theorem Alarmed.runProgram (h : m.Alarmed) (hcallee : callee.Keeps) (fuel : Nat)
    (program : Program) (arguments : List Value) :
    (∀ result n, runProgram callee fuel program arguments m ≠ .done result n) ∧
      (m.EvaluatesNothing program arguments →
        (runProgram callee fuel program arguments m).Ends m.Untouched) := by
  have hinside : m.enter.Alarmed := ⟨Nat.succ_pos _, h.2⟩
  rcases hinside.runFresh hcallee fuel program arguments with ⟨hnever, huntouched⟩
  cases hrun : Machine.runProgram callee fuel program arguments m with
  | exhausted => exact ⟨nofun, fun _ => trivial⟩
  | done result n =>
    cases RunsProgram.of_runProgram hrun with
    | done _ hfresh => exact absurd hfresh (hnever _ _)
  | failed error n =>
    refine ⟨nofun, fun hnothing => ?_⟩
    cases RunsProgram.of_runProgram hrun with
    | refused => exact ⟨rfl, rfl, rfl, rfl⟩
    | failed _ hfresh =>
      have hend := huntouched hnothing
      rw [hfresh] at hend
      exact ⟨hend.globals, hend.arrays, hend.console, hend.cache⟩

end Outcomes

/-- While the exception is raised, the run of a program fails, with fuel enough for the depth that
calls can reach. -/
theorem Alarmed.exists_runProgram_failed {m : Machine} (h : m.Alarmed)
    (hcounted : ¬m.BackgroundsItself) {fuel : Nat} (henough : m.settings.maxCallDepth + 1 ≤ m.depth + fuel)
    (program : Program) (arguments : List Value) :
    ∃ error n, Machine.runProgram (callee fuel) fuel program arguments m = .failed error n := by
  by_cases hlimit : m.settings.maxCallDepth ≤ m.depth
  · exact ⟨_, _, runProgram_of_limit _ _ _ _ _ hlimit⟩
  · have hpatient : m.Patient (List.replicate m.depth .run) (fuel + 1) :=
      { inside := by
          rw [Ne, List.replicate_eq_nil_iff]
          exact Nat.ne_of_gt h.1
        depth := (List.length_replicate ..).symm
        admissible := .replicate (by omega)
        counted := hcounted
        enough := by omega }
    have htells := runProgram_tells (callee_keeps fuel) (observer_tells fuel)
      (List.replicate m.depth .run) program arguments m
    cases hrun : Machine.runProgram (callee fuel) fuel program arguments m with
    | done result n => exact absurd hrun ((h.runProgram (callee_keeps fuel) fuel _ _).1 result n)
    | failed error n => exact ⟨error, n, rfl⟩
    | exhausted =>
      -- Fuel does not run out while the exception is raised.
      rw [hrun] at htells
      have hcalm := (htells.2 hpatient).1
      rw [h.2] at hcalm
      cases hcalm

/-! ## What is left to happen -/

/-- **Behind an alarm.**  While the global exception is raised inside of a call, every step and every
run of every context fails at once, evaluates nothing and changes nothing but the end of that run.
The run of a program has no answer, and with fuel enough it fails.  If no initializer is
to be evaluated in the new context, then neither the creation of a context nor the run of a program
evaluates anything or touches globals, arrays, console or cache.  Otherwise the creation of the
context evaluates the first initializer, and no other one, before it fails.  Whatever else is evaluated
on the way, in scripts that an initializer calls, is the first initializer of a context that is being
created, too. -/
theorem Alarmed.stifles {m : Machine} (h : m.Alarmed) (fuel : Nat) (underway : List Activation) :
    (∀ context : Context,
      step (callee fuel) ⟨m, context⟩ =
          .failed (.globalException context.program.name) ⟨m, context⟩ ∧
        stepMoments (callee fuel) (observer fuel) underway ⟨m, context⟩ = [] ∧
        ∀ budget steps,
          Execution.run (callee fuel) budget (steps + 1) 0 ⟨m, context⟩ =
              .failed (.globalException context.program.name) ⟨m, context.endRun⟩ ∧
            runMoments (callee fuel) (observer fuel) underway budget (steps + 1) 0 ⟨m, context⟩ = []) ∧
    ∀ (program : Program) (arguments : List Value),
      let created := createMoments (callee fuel) (observer fuel) underway program arguments m
      let ran := programMoments (callee fuel) (observer fuel) underway fuel program arguments m
      (∀ x ∈ created ++ ran, x.Stifled) ∧
      (m.EvaluatesNothing program arguments →
        (∀ x ∈ created ++ ran, ∀ context, ¬x.Evaluates context) ∧
        (createContext (callee fuel) program arguments m).Ends m.Untouched ∧
        (Machine.runProgram (callee fuel) fuel program arguments m).Ends m.Untouched) ∧
      (∀ node locals, program.firstInitializer? = some node →
        m.bindChecked program arguments = .ok locals →
          created = ⟨.creation :: underway, m.preparing program, .entered⟩ ::
            nodeMoments (callee fuel) (observer fuel) (.creation :: underway) node
              ⟨m.preparing program, .create (m.contextCount + 1) program locals⟩ ∧
          ∀ context n, createContext (callee fuel) program arguments m ≠ .done context n) ∧
      (∀ result n, Machine.runProgram (callee fuel) fuel program arguments m ≠ .done result n) ∧
      (¬m.BackgroundsItself → m.settings.maxCallDepth + 1 ≤ m.depth + fuel →
        ∃ error n, Machine.runProgram (callee fuel) fuel program arguments m = .failed error n) := by
  have hcallee := callee_keeps fuel
  have hobserver := Stifled.observer fuel
  refine ⟨fun context => ⟨step_of_raised _ _ h.2, stepMoments_of_raised _ _ _ h.2, fun budget steps => ?_⟩,
    fun program arguments => ?_⟩
  · refine ⟨?_, runMoments_of_raised _ _ _ _ _ _ h.2⟩
    simp only [Execution.run, step_of_raised (callee fuel) ⟨m, context⟩ h.2]
    rfl
  intro created ran
  have hrun := h.runProgram hcallee fuel program arguments
  refine ⟨fun x hmem => ?_, fun hnothing => ⟨fun x hmem => ?_, createContext_untouched _ hnothing,
    hrun.2 hnothing⟩, fun node locals hfirst hbind => ⟨?_, h.createContext_ne_done hcallee hfirst⟩,
    hrun.1, fun hcounted henough => h.exists_runProgram_failed hcounted henough program arguments⟩
  · rcases List.mem_append.1 hmem with hmem | hmem
    · exact createMoments_stifled hcallee hobserver h program arguments hmem
    · exact programMoments_stifled hcallee hobserver h fuel program arguments hmem
  · rcases List.mem_append.1 hmem with hmem | hmem
    · exact h.not_evaluates_of_create hcallee hnothing hmem
    · exact h.not_evaluates_of_run hcallee hnothing hmem
  · show createMoments _ _ _ _ _ _ = _
    rw [createMoments_of_alarmed hcallee h, hbind]
    simp only [hfirst]

/-- The first of two initializers prints a line although the exception is raised, and the second one
does not. -/
theorem Alarmed.stifles_printing : ∃ (m : Machine) (program : Program), m.Alarmed ∧ m.console.size = 0 ∧
    (∀ context n, createContext (callee 1) program [] m ≠ .done context n) ∧
    ∃ error n, Machine.runProgram (callee 6) 6 program [] m = .failed error n ∧
      n.console.size = 1 := by
  let program : Program := { Program.fresh 1 none with
    tree := some ⟨#[⟨.entry, [], none, 4, [], none⟩,
      ⟨.expression, [], none, 2, [], some (.call "PrintToConsole" [.text "first"])⟩,
      ⟨.expression, [], none, 3, [], some (.call "PrintToConsole" [.text "second"])⟩], 0, [1, 2]⟩
    state := .valid }
  let m : Machine := { start { Settings.standard with maxCallDepth := 4 } .empty with
    depth := 1
    raised := true }
  have halarmed : m.Alarmed := ⟨Nat.one_pos, rfl⟩
  have hcreate := (halarmed.stifles 1 []).2 program []
  have hrun := (halarmed.stifles 6 []).2 program []
  refine ⟨m, program, halarmed, rfl, (hcreate.2.2.1 _ _ rfl rfl).2, ?_⟩
  have hcounted : ¬m.BackgroundsItself := by
    rintro ⟨command, hcommand, haction⟩
    rcases List.mem_map.1 hcommand with ⟨builtin, -, rfl⟩
    cases haction
  rcases hrun.2.2.2.2 hcounted (by decide) with ⟨error, n, hfailed⟩
  refine ⟨error, n, hfailed, ?_⟩
  cases hfailed
  rfl

end Machine
end ScriptMachine
