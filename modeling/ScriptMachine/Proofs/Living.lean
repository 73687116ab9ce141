import ScriptMachine.Proofs.Tallying

/-!
# Live contexts of a session

A context that is created joins the live ones before its initializers are evaluated, and whoever
drops it ends its execution: a creation that fails, a run that is over, a turn that retires its
context, a host that stops or forgets one.  So however a session goes on, the machine counts
right in all scenes of its record, and a program is released exactly when nothing alive runs it.

Main results:

- {lit}`Machine.census_covers`: the census lists the scenes of runs and creations.
- {lit}`Machine.takeTurns_passes`: the scenes of a tick.
- {lit}`Session.perform_passes`: the scenes of a request.
- {lit}`Session.executions_tally`: what holds in all scenes of a session.
-/

namespace ScriptMachine

variable {ε α : Type}

namespace Machine

/-! ## Creations and runs -/

section Runs

open Execution

variable {company : Company}

/-- Whoever drops a context ends its execution. -/
theorem leads_endExecution (company : Company) (m : Machine) (context : Context) :
    Scene.Leads ⟨company.join context, m⟩ ⟨company, m.endExecution context.program.id⟩ :=
  Scene.leads_of_death context (.refl _) rfl rfl rfl rfl rfl

/-- Leaving a call changes nothing that is alive. -/
theorem leave_onward (company : Company) (m : Machine) : Onward (Scene.mk company) m m.leave :=
  onward_of_roll rfl

/-- Entering a call changes nothing that is alive. -/
theorem enter_onward (company : Company) (m : Machine) : Onward (Scene.mk company) m m.enter :=
  onward_of_roll rfl

/-- A context that is created is alive before its initializers are evaluated. -/
theorem leads_create {program : Program} {m : Machine}
    (hknown : program ∈ (Scene.mk company m).known) (locals : List Value) :
    Scene.Leads ⟨company, m⟩ (company.scene
      ⟨(beginExecution { m with contextCount := m.contextCount + 1 } program.id).enter,
        Context.create (m.contextCount + 1) program locals⟩) :=
  Scene.leads_of_birth (Context.create (m.contextCount + 1) program locals) (.refl _) rfl
    rfl rfl rfl hknown rfl rfl

variable {census : Census} {callee : Callee} (hcensus : census.Covers callee) (hcallee : callee.Keeps)
include hcensus

/-- An initializer. -/
theorem prepareOne_passes (company : Company) (tree : Tree) (id : Nat) :
    (prepareOne callee tree id).Passes company.scene
      (prepareOneScenes callee census company tree id) := by
  intro e
  unfold prepareOneScenes
  refine Outcome.Passes.cons ?_
  unfold prepareOne nodeOf
  cases tree.node? id with
  | none => exact .direct (Lasting.refl _)
  | some node =>
    have hnode : (do
        let _ ← evaluate callee node
        let execution ← Action.get
        if execution.machine.raised then
          Action.fail (.globalException execution.context.program.name) : Stepping Unit).Passes
          company.scene (nodeScenes callee census company node) := by
      refine .bind_keeps (evaluate_passes hcensus company node) fun _ => .bind .get fun t => ?_
      split
      · exact .fail _
      · exact .pure _
    exact hnode e

/-- A list of initializers. -/
theorem prepareAll_passes (company : Company) (tree : Tree) (ids : List Nat) :
    (prepareAll callee tree ids).Passes company.scene
      (prepareScenes callee census company tree ids) := by
  induction ids with
  | nil => exact .of_keeps (.pure _)
  | cons id rest ih => exact .bind (prepareOne_passes hcensus company tree id) fun _ => ih

/-- The initializers of a program. -/
theorem prepare_passes (company : Company) (program : Program) :
    (prepare callee program).Passes company.scene
      (initializerScenes callee census company program) := by
  unfold prepare initializerScenes
  cases program.tree with
  | none => exact .of_keeps (.fail _)
  | some tree => exact prepareAll_passes hcensus company tree tree.initializers

include hcallee

/-- The creation of a context ends with the context among the live ones, or without it. -/
theorem createContext_passes {program : Program} (arguments : List Value) {m : Machine}
    (hknown : program ∈ (Scene.mk company m).known) :
    (createContext callee program arguments m).Passes (fun context n => ⟨company.join context, n⟩)
      (Scene.mk company) ⟨company, m⟩ (createScenes callee census company program arguments m) := by
  unfold createContext createScenes
  simp only
  cases bindChecked { m with contextCount := m.contextCount + 1 } program arguments with
  | error e =>
    -- The number of the context that did not come to be is lost.
    exact .direct (Scene.Resembles.leads none ⟨.refl _, rfl, Nat.le_succ _, Nat.le_refl _,
      fun other hmem => .inl (Scene.mem_known.2 (.inl hmem)),
      fun entry hmem => .inl (Scene.mem_known.2 (.inr (.inr ⟨entry, hmem, rfl⟩)))⟩)
  | ok locals =>
    have hbirth := leads_create hknown locals
    simp only
    generalize hstart : Execution.mk _ _ = start at hbirth ⊢
    have hprogram : start.context.program = program := by rw [← hstart]; rfl
    have hprepare := prepare_passes hcensus company program start
    have hevolves := prepare_evolves hcallee program start
    cases hrun : prepare callee program start with
    | exhausted =>
      rw [hrun] at hprepare
      rcases hprepare with ⟨y, htrail⟩
      exact ⟨y, htrail.before hbirth⟩
    | failed error e =>
      rw [hrun] at hprepare hevolves
      have hsame : e.context.program = program := hevolves.context.program.trans hprogram
      have hdeath := leads_endExecution company e.machine.leave e.context
      rw [hsame] at hdeath
      exact (Trail.before hbirth hprepare).behind
        (Lasting.trans (leave_onward (company.join e.context) e.machine) hdeath)
    | done answer e =>
      rw [hrun] at hprepare
      exact (Trail.before hbirth hprepare).behind
        (leave_onward (company.join e.context) e.machine)

/-- A program in a new context: whatever happens, the context is gone afterwards. -/
theorem runFresh_passes (horderly : callee.StaysOrderly) (fuel : Nat) {program : Program}
    (arguments : List Value) {m : Machine} (hknown : program ∈ (Scene.mk company m).known) :
    (runFresh callee fuel program arguments m).Passes (fun _ => Scene.mk company)
      (Scene.mk company) ⟨company, m⟩ (freshScenes callee census company fuel program arguments m) := by
  have hcreate := createContext_passes hcensus hcallee arguments hknown
  unfold runFresh freshScenes Action.followed
  cases hcreated : createContext callee program arguments m with
  | exhausted =>
    rw [hcreated] at hcreate
    simp only [List.append_nil]
    exact hcreate
  | failed error n =>
    rw [hcreated] at hcreate
    simp only [List.append_nil]
    exact hcreate
  | done context n =>
    rw [hcreated] at hcreate
    have hprogram := program_of_createContext horderly hcreated
    refine Outcome.Passes.prepend ?_ hcreate
    simp only
    unfold runToEnd runToEndScenes
    simp only
    cases htree : context.program.tree with
    | none =>
      have hdeath := leads_endExecution company n context
      rw [hprogram] at hdeath
      exact .direct hdeath
    | some tree =>
      simp only [Execution.onContext]
      have hbegins : Onward company.scene ⟨n, context⟩ ⟨n, context.beginRun tree.root⟩ :=
        onward_of_context ⟨n, context⟩ _ rfl rfl
      have hrun := run_passes hcensus company 0 fuel 0 ⟨n, context.beginRun tree.root⟩
      have hcontinues := run_continues hcallee 0 fuel 0 ⟨n, context.beginRun tree.root⟩
      have hdeath : ∀ e : Execution, e.context.program = context.program →
          (company.scene e).Leads ⟨company, e.machine.endExecution program.id⟩ := by
        intro e hsame
        have hdeath := leads_endExecution company e.machine e.context
        rw [hsame, hprogram] at hdeath
        exact hdeath
      cases hlast : Execution.run callee 0 fuel 0 ⟨n, context.beginRun tree.root⟩ with
      | exhausted =>
        rw [hlast] at hrun
        rcases hrun with ⟨y, htrail⟩
        exact ⟨y, htrail.before hbegins⟩
      | failed error e =>
        rw [hlast] at hrun hcontinues
        exact (Trail.before hbegins hrun).behind (hdeath e hcontinues.context.program)
      | done state e =>
        rw [hlast] at hrun hcontinues
        exact (Trail.before hbegins hrun).behind (hdeath e hcontinues.context.program)

/-- The run of a program. -/
theorem runProgram_passes (horderly : callee.StaysOrderly) (fuel : Nat) {program : Program}
    (arguments : List Value) {m : Machine} (hknown : program ∈ (Scene.mk company m).known) :
    (runProgram callee fuel program arguments m).Passes (fun _ => Scene.mk company)
      (Scene.mk company) ⟨company, m⟩
      (programScenes callee census company fuel program arguments m) := by
  unfold runProgram programScenes
  by_cases hlimit : m.settings.maxCallDepth ≤ m.depth
  · simp only [if_pos hlimit]
    exact .direct (Lasting.refl _)
  · simp only [if_neg hlimit]
    have hfresh := runFresh_passes hcensus hcallee horderly fuel arguments (m := m.enter) hknown
    unfold nested
    cases hrun : runFresh callee fuel program arguments m.enter with
    | exhausted =>
      rw [hrun] at hfresh
      rcases hfresh with ⟨y, htrail⟩
      exact ⟨y, htrail.before (enter_onward company m)⟩
    | failed error n =>
      rw [hrun] at hfresh
      exact (Trail.before (enter_onward company m) hfresh).behind (leave_onward company n)
    | done result n =>
      rw [hrun] at hfresh
      exact (Trail.before (enter_onward company m) hfresh).behind (leave_onward company n)

end Runs

/-- The census lists the scenes of runs and of creations, whatever the fuel. -/
theorem census_covers (fuel : Nat) : (census fuel).Covers (callee fuel) := by
  induction fuel with
  | zero =>
    exact ⟨fun company _ _ m _ => ⟨⟨company, m⟩, .direct (Lasting.refl _)⟩,
      fun company _ _ m _ => ⟨⟨company, m⟩, .direct (Lasting.refl _)⟩⟩
  | succ fuel ih =>
    exact ⟨fun company program arguments m hknown =>
        runProgram_passes ih (callee_keeps fuel) (callee_staysOrderly fuel) fuel arguments hknown,
      fun company program arguments m hknown =>
        createContext_passes ih (callee_keeps fuel) arguments hknown⟩

/-! ## Turns and ticks -/

section Turns

open Execution

variable {fuel : Nat} {seconds : Float}

/-- The turn of a context: it stays alive, or it is retired. -/
theorem takeTurn_passes (fuel : Nat) (seconds : Float) (company : Company) (context : Context)
    (m : Machine) :
    (takeTurn fuel seconds context m).Passes
      (fun taken n => ⟨if taken.2.stays then company.join taken.1 else company, n⟩) (Scene.mk company)
      ⟨company.join context, m⟩ (takeTurnScenes fuel seconds company context m) := by
  have hcensus := census_covers fuel
  -- What the run of the turn goes through.
  have hrun : ∀ e, turnStart seconds context m = some e →
      (Execution.run (callee fuel) m.settings.stepBudget fuel 0 e).Passes (fun _ => company.scene)
        company.scene ⟨company.join context, m⟩ (takeTurnScenes fuel seconds company context m) := by
    intro e hstart
    have hpasses := run_passes hcensus company m.settings.stepBudget fuel 0 e
    rcases turnStart_eq_some hstart with ⟨hmachine, hid, hprogram, -⟩
    have hbegins : Scene.Leads ⟨company.join context, m⟩ (company.scene e) :=
      Scene.leads_of_roll rfl (by simp [Company.scene, Company.join, Context.face, hid, hprogram])
        (by rw [show (company.scene e).machine = e.machine from rfl, hmachine]; rfl)
    have hall := hpasses.prepend (.direct hbegins)
    unfold takeTurnScenes
    rw [hstart]
    exact hall
  have hnone : turnStart seconds context m = none → takeTurnScenes fuel seconds company context m = [] := by
    intro hstart
    unfold takeTurnScenes
    rw [hstart]
  cases hturn : takeTurn fuel seconds context m with
  | failed error n => exact absurd hturn (takeTurn_ne_failed fuel seconds context m n error)
  | exhausted =>
    cases hstart : turnStart seconds context m with
    | none =>
      rw [hnone hstart]
      exact ⟨_, .direct (Lasting.refl _)⟩
    | some e => exact (hrun e hstart).exists_trail
  | done taken n =>
    rcases taken with ⟨after, turn⟩
    have hends := takeTurn_ends hturn
    have hwait : Onward company.scene ⟨m, context⟩ ⟨m, context.wait seconds⟩ :=
      onward_of_context ⟨m, context⟩ _ rfl rfl
    -- A context that is retired is dropped behind its run.
    have hdeath : ∀ e : Execution, (company.scene e).Leads
        ⟨company, e.machine.leave.endExecution e.context.program.id⟩ := fun e =>
      Lasting.trans (leave_onward (company.join e.context) e.machine)
        (leads_endExecution company e.machine.leave e.context)
    have hstays : ∀ e : Execution, (company.scene e).Leads
        ⟨company.join { e.context with result := none }, e.machine.leave⟩ := fun e =>
      Scene.leads_of_roll rfl (.refl _) rfl
    cases hends with
    | waiting hstart _ =>
      rw [hnone hstart]
      exact .direct hwait
    | stale hstart =>
      rw [hnone hstart]
      exact .direct (leads_endExecution company m context)
    | treeless hstart _ _ =>
      rw [hnone hstart]
      exact .direct (leads_endExecution company m context)
    | @failed e e' error hstart hlast =>
      have hpasses := hrun e hstart
      rw [hlast] at hpasses
      exact Trail.behind hpasses (hdeath e')
    | @parked e e' hstart hlast =>
      have hpasses := hrun e hstart
      rw [hlast] at hpasses
      exact Trail.behind hpasses (leave_onward (company.join e'.context) e'.machine)
    | @halted e e' hstart hlast =>
      have hpasses := hrun e hstart
      rw [hlast] at hpasses
      exact Trail.behind hpasses (hdeath e')
    | @completed e e' hstart hlast =>
      have hpasses := hrun e hstart
      rw [hlast] at hpasses
      exact Trail.behind hpasses (hstays e')

/-- The turns of a list of contexts do not fail. -/
theorem takeTurns_ne_failed (fuel : Nat) (seconds : Float) (contexts : List Context) (m m' : Machine)
    (error : MachineError) : takeTurns fuel seconds contexts m ≠ .failed error m' := by
  intro h
  rw [takeTurns_eq] at h
  rcases Action.of_bind_failed h with hall | ⟨turns, n, -, hdone⟩
  · exact takeAll_ne_failed fuel seconds contexts m m' error hall
  · cases hdone

/-- The turns of a list of contexts: those that have had theirs and those that wait are alive. -/
theorem takeTurns_passes (fuel : Nat) (seconds : Float) (company : Company)
    (stayed contexts : List Context) (m : Machine) :
    (takeTurns fuel seconds contexts m).Passes
      (fun taken n => ⟨{ company with contexts := stayed ++ taken.1 ++ company.contexts }, n⟩)
      (Scene.mk { company with contexts := stayed ++ company.contexts })
      ⟨{ company with contexts := stayed ++ contexts ++ company.contexts }, m⟩
      (takeTurnsScenes fuel seconds company stayed contexts m) := by
  induction contexts generalizing stayed m with
  | nil => exact .direct (Lasting.refl _)
  | cons context rest ih =>
    have hturn := takeTurn_passes fuel seconds
      { company with contexts := stayed ++ rest ++ company.contexts } context m
    have hfaces : (context :: (stayed ++ (rest ++ company.contexts))).Perm
        (stayed ++ context :: (rest ++ company.contexts)) := List.perm_middle.symm
    have hfirst : Scene.Leads
        ⟨{ company with contexts := stayed ++ context :: rest ++ company.contexts }, m⟩
        ⟨Company.join { company with contexts := stayed ++ rest ++ company.contexts } context, m⟩ := by
      refine Scene.leads_of_roll rfl ?_ rfl
      simp only [Company.join, List.append_assoc, List.cons_append]
      exact hfaces.map _
    simp only [takeTurns, takeTurnsScenes, Action.bind_run, Action.followed]
    cases hrun : takeTurn fuel seconds context m with
    | failed error n => exact absurd hrun (takeTurn_ne_failed fuel seconds context m n error)
    | exhausted =>
      rw [hrun] at hturn
      rcases hturn with ⟨y, htrail⟩
      simp only [List.append_nil]
      exact ⟨y, htrail.before hfirst⟩
    | done taken n =>
      rw [hrun] at hturn
      rcases taken with ⟨after, turn⟩
      have hrest := ih (stayed ++ if turn.stays then [after] else []) n
      have hnext : Scene.Leads
          ⟨if turn.stays then
              Company.join { company with contexts := stayed ++ rest ++ company.contexts } after
            else { company with contexts := stayed ++ rest ++ company.contexts }, n⟩
          ⟨{ company with
              contexts := (stayed ++ if turn.stays then [after] else []) ++ rest ++ company.contexts },
            n⟩ := by
        cases turn.stays with
        | true => exact Scene.leads_of_roll rfl (by simp [Company.join]) rfl
        | false => exact Scene.leads_of_roll rfl (by simp) rfl
      simp only
      cases hlast : takeTurns fuel seconds rest n with
      | failed error k => exact absurd hlast (takeTurns_ne_failed fuel seconds rest n k error)
      | exhausted =>
        rw [hlast] at hrest
        rcases hrest with ⟨y, htrail⟩
        exact ⟨y, (Trail.before hfirst hturn).append (htrail.before hnext)⟩
      | done others k =>
        rw [hlast] at hrest
        have hkept : stayed ++ ((if turn.stays then [after] else []) ++ others.1) ++ company.contexts =
            (stayed ++ if turn.stays then [after] else []) ++ others.1 ++ company.contexts := by
          simp only [List.append_assoc]
        simp only [Action.pure_run, Outcome.Passes, hkept]
        exact (Trail.before hfirst hturn).append (Trail.before hnext hrest)

/-- A tick: the contexts of the background are out of it while they have their turns. -/
theorem tick_passes (fuel : Nat) (seconds : Float) (company : Company) (m : Machine) :
    (tick fuel seconds m).Passes (fun _ => Scene.mk company) (Scene.mk company) ⟨company, m⟩
      (takeTurnsScenes fuel seconds company [] m.background { m with background := [] }) := by
  have hturns := takeTurns_passes fuel seconds company [] m.background { m with background := [] }
  have hout : Scene.Leads ⟨company, m⟩
      ⟨{ company with contexts := [] ++ m.background ++ company.contexts },
        { m with background := [] }⟩ := by
    refine Scene.leads_of_live rfl ?_ rfl rfl rfl rfl
    simp only [Scene.live, List.nil_append, List.append_nil]
    exact List.perm_append_comm.map _
  have hback : ∀ (n : Machine) (kept : List Context), Scene.Leads
      ⟨{ company with contexts := [] ++ kept ++ company.contexts }, n⟩
      ⟨company, { n with background := kept ++ n.background }⟩ := by
    intro n kept
    refine Scene.leads_of_live rfl ?_ rfl rfl rfl rfl
    simp only [Scene.live, List.nil_append]
    rw [← List.append_assoc]
    exact (List.perm_append_comm.append_right _).map _
  simp only [tick, Action.bind_run, Action.get_run, Action.put_run, Action.change_run]
  cases hrun : takeTurns fuel seconds m.background { m with background := [] } with
  | failed error n => exact absurd hrun (takeTurns_ne_failed _ _ _ _ _ _)
  | exhausted =>
    rw [hrun] at hturns
    rcases hturns with ⟨y, htrail⟩
    exact ⟨y, htrail.before hout⟩
  | done taken n =>
    rw [hrun] at hturns
    exact (Trail.before hout hturns).behind (hback n taken.1)

end Turns

/-! ## Other operations -/

section Others

variable {company : Company}

/-- Putting a new context into the background. -/
theorem sendToBackground_passes (fuel : Nat) {program : Program} (arguments : List Value)
    {m : Machine} (hknown : program ∈ (Scene.mk company m).known) :
    (sendToBackground fuel program arguments m).Passes (fun _ => Scene.mk company) (Scene.mk company)
      ⟨company, m⟩ ((census fuel).create program arguments company m) := by
  have hcreate := (census_covers fuel).create company program arguments m hknown
  simp only [sendToBackground, create, Action.bind_run]
  cases hrun : (callee fuel).create program arguments m with
  | exhausted =>
    rw [hrun] at hcreate
    exact hcreate
  | failed error n =>
    rw [hrun] at hcreate
    exact hcreate
  | done context n =>
    rw [hrun] at hcreate
    exact Trail.behind hcreate (n.leads_addBackground company context)

/-- Making the cache let go of a program. -/
theorem release_onward (program : Program) :
    (release program).Keeps (Onward (Scene.mk company)) := by
  refine .get_bind fun m => ?_
  split
  · exact Lasting.refl (R := Onward (Scene.mk company)) m
  · exact Scene.Resembles.leads none ⟨.refl _, rfl, Nat.le_refl _, Nat.le_refl _,
      fun other hmem => .inl (Scene.mem_known.2 (.inl hmem)),
      fun entry hmem => .inl (Scene.mem_known.2 (.inr (.inr ⟨entry, (List.mem_filter.1 hmem).1, rfl⟩)))⟩

/-- Taking a context out of the background. -/
theorem stop_onward (id : Nat) : (stop id).Keeps (Onward (Scene.mk company)) := by
  refine .get_bind fun m => ?_
  cases hfound : m.background.find? fun context => context.id == id with
  | none => exact Lasting.refl (R := Onward (Scene.mk company)) m
  | some context =>
    have hperm : m.background.Perm
        (context :: m.background.eraseP fun context => context.id == id) := by
      rcases List.find?_eq_some_iff_append.1 hfound with ⟨hid, before, behind, heq, hbefore⟩
      rw [heq, List.eraseP_append_right _ (by simpa using hbefore), List.eraseP_cons, hid]
      exact List.perm_middle
    refine Scene.leads_of_death context ?_ rfl rfl rfl rfl rfl
    exact (hperm.append_left company.contexts).trans List.perm_middle

/-- A new program that the host may hold. -/
theorem resembles_countProgram {program : Program} {m : Machine} {programs : List Program}
    (hid : program.id = m.programCount + 1)
    (hprograms : ∀ other ∈ programs, other = program ∨ other ∈ company.programs) :
    Scene.Resembles (some program) ⟨company, m⟩
      ⟨{ company with programs := programs }, m.countProgram⟩ := by
  refine ⟨.refl _, rfl, Nat.le_refl _, Nat.le_succ _, fun other hmem => ?_,
    fun entry hmem => .inl (Scene.mem_known.2 (.inr (.inr ⟨entry, hmem, rfl⟩)))⟩
  rcases hprograms other hmem with rfl | hold
  · exact .inr ⟨rfl, by rw [hid]; exact Nat.lt_succ_self _, by rw [hid]; exact Nat.le_refl _⟩
  · exact .inl (Scene.mem_known.2 (.inl hold))

/-- The host may hold the program with which an operation answers. -/
structure Delivers (operation : Operation Program) : Prop where
  done : ∀ (company : Company) (programs : List Program) program m m',
    operation m = .done program m' →
      (∀ other ∈ programs, other = program ∨ other ∈ company.programs) →
        Scene.Leads ⟨company, m⟩ ⟨{ company with programs := programs }, m'⟩
  failed : ∀ (company : Company) e m m', operation m = .failed e m' →
    Scene.Leads ⟨company, m⟩ ⟨company, m'⟩

/-- Compiling a source text. -/
theorem compile_delivers (path : Option String) (source : String) : Delivers (compile path source) := by
  refine ⟨fun company programs program m m' hdone hprograms => ?_,
    fun company e m m' hfailed => (compile_onward path source).of_failed hfailed⟩
  rcases exists_compile_run path source m with ⟨found, hrun, hcompile⟩
  rw [hrun] at hdone
  cases hdone
  exact (resembles_countProgram (Program.id_of_compile hcompile) hprograms).leads

/-- Compiling a file, even if it cannot be read. -/
theorem compileFile_delivers (path : String) : Delivers (compileFile path) := by
  refine ⟨fun company programs program m m' hdone hprograms => ?_, fun company e m m' hfailed => ?_⟩
  · unfold compileFile at hdone
    split at hdone
    · exact (compile_delivers _ _).done company programs program m m' hdone hprograms
    · cases hdone
      exact (resembles_countProgram rfl hprograms).leads
  · unfold compileFile at hfailed
    split at hfailed
    · exact (compile_delivers _ _).failed company e m m' hfailed
    · cases hfailed

/-- Loading a script. -/
theorem load_delivers (name : String) : Delivers (load name) := by
  refine ⟨fun company programs program m m' hdone hprograms => ?_,
    fun company e m m' hfailed => (load_onward name).of_failed hfailed⟩
  have hcached : program ∈ (Scene.mk company m').known :=
    Scene.mem_known.2 (.inr (.inr (exists_entry_of_load hdone)))
  refine Lasting.trans ((load_onward name).of_done hdone) (Scene.Resembles.leads none
    ⟨.refl _, rfl, Nat.le_refl _, Nat.le_refl _, fun other hmem => .inl ?_,
      fun entry hmem => .inl (Scene.mem_known.2 (.inr (.inr ⟨entry, hmem, rfl⟩)))⟩)
  rcases hprograms other hmem with rfl | hold
  · exact hcached
  · exact Scene.mem_known.2 (.inl hold)

end Others
end Machine

/-! ## Requests -/

/-- Whether a request neither runs anything nor lets time pass. -/
def Request.isIdle : Request → Bool
  | .run _ _ _ | .createContext _ _ _ | .background _ _ | .evaluate _ _ _ | .invoke _ _ _ _
  | .tick _ => false
  | _ => true

namespace Session

open Machine

/-- A session with tidy names leads to another one. -/
def Advances (s t : Session) : Prop :=
  s.contexts.Tidy → t.contexts.Tidy ∧ s.scene.Leads t.scene

instance : Lasting Advances where
  refl s h := ⟨h, Lasting.refl s.scene⟩
  trans h h' htidy :=
    have hfirst := h htidy
    have hsecond := h' hfirst.1
    ⟨hsecond.1, Lasting.trans (R := Scene.Leads) hfirst.2 hsecond.2⟩

variable {s t : Session}

/-- A change that leaves the contexts of the host alone. -/
theorem Advances.of_scene (hcontexts : t.contexts = s.contexts) (h : s.scene.Leads t.scene) :
    s.Advances t :=
  fun htidy => ⟨by rw [hcontexts]; exact htidy, h⟩

/-- A change of the machine of which it notes nothing. -/
theorem onMachine_advances {f : Machine → Machine} (h : ∀ m : Machine, (f m).roll = m.roll) :
    (onMachine f).Keeps Advances :=
  .change fun s => .of_scene rfl (onward_of_roll (h s.machine))

/-- An operation of the machine. -/
theorem operate_advances {operation : Operation α}
    (h : ∀ company, operation.Keeps (Onward (Scene.mk company))) : (operate operation).Keeps Advances := by
  intro s
  have hend := h s.company s.machine
  rw [operate_run]
  cases hrun : operation s.machine with
  | done answer m =>
    rw [hrun] at hend
    exact .of_scene rfl hend
  | failed e m =>
    rw [hrun] at hend
    exact .of_scene rfl hend
  | exhausted => trivial

theorem program_advances (name : String) : (program name).Keeps Advances := by
  unfold program
  refine .bind .get fun s => ?_
  split
  · exact .pure _
  · exact .fail _

theorem keepValue_advances (name : String) (v : Value) : (keepValue name v).Keeps Advances :=
  .change fun s => .of_scene rfl (Lasting.refl s.scene)

/-- Keeping a program that an operation delivers. -/
theorem keepProgram_advances {operation : Operation Program} (h : Delivers operation) (name : String) :
    (do keepProgram name (← operate operation)).Keeps Advances := by
  intro s
  rw [Action.bind_run, operate_run]
  cases hrun : operation s.machine with
  | done program m =>
    exact .of_scene rfl (h.done s.company _ program s.machine m hrun fun other hmem =>
      Names.mem_held_set hmem)
  | failed e m => exact .of_scene rfl (h.failed s.company e s.machine m hrun)
  | exhausted => trivial

/-- Forgetting a context ends its execution. -/
theorem endContext_advances (s : Session) (name : String) : s.Advances (s.endContext name) := by
  intro htidy
  unfold endContext
  cases hget : s.contexts.get? name with
  | none => exact ⟨htidy, Lasting.refl s.scene⟩
  | some context =>
    refine ⟨htidy.drop name, Scene.leads_of_death context ?_ rfl rfl rfl rfl rfl⟩
    exact (htidy.held_perm hget).append_right s.machine.background

/-- Keeping a new context ends the one before it under the name. -/
theorem leads_keepContext (name : String) (context : Context) (htidy : s.contexts.Tidy) :
    Scene.Leads ⟨s.company.join context, s.machine⟩
      (Session.scene { s.endContext name with
        contexts := (s.endContext name).contexts.set name context }) := by
  unfold endContext
  cases hget : s.contexts.get? name with
  | none =>
    have hheld : (s.contexts.set name context).held = context :: s.contexts.held := by
      rw [Names.set, Names.drop_of_get?_eq_none hget]
      rfl
    simp only [Session.scene, company, hheld]
    exact Lasting.refl (R := Scene.Leads) _
  | some old =>
    have hheld : ((s.contexts.drop name).set name context).held =
        context :: (s.contexts.drop name).held := by
      rw [Names.set, Names.drop_of_get?_eq_none (Names.get?_drop ..)]
      rfl
    refine Scene.leads_of_death old ?_ rfl rfl rfl rfl rfl
    simp only [Scene.live, Session.scene, company, Company.join, hheld, List.cons_append]
    refine (List.Perm.cons context ((htidy.held_perm hget).append_right s.machine.background)).trans ?_
    exact .swap ..

/-! ### Scenes of requests -/

/-- Behind a session with tidy names comes an outcome with tidy names, and scenes in between. -/
def Passes (s : Session) (scenes : List Scene) (outcome : Outcome Session ε α) : Prop :=
  s.contexts.Tidy → outcome.Passes (fun _ => Session.scene) Session.scene s.scene scenes ∧
    outcome.Ends fun t => t.contexts.Tidy

variable {β : Type}

/-- An action on the way of which there is nothing to see. -/
theorem Passes.of_keeps {action : Action Session ε α} (h : action.Keeps Advances) (s : Session) :
    s.Passes [] (action s) := by
  intro htidy
  have hs := h s
  cases hrun : action s with
  | done answer t =>
    rw [hrun] at hs
    exact ⟨.direct (hs htidy).2, (hs htidy).1⟩
  | failed e t =>
    rw [hrun] at hs
    exact ⟨.direct (hs htidy).2, (hs htidy).1⟩
  | exhausted => exact ⟨⟨s.scene, .direct (Lasting.refl _)⟩, trivial⟩

/-- An operation of the machine, and what the host does with its answer. -/
theorem operate_passes {operation : Operation α} {next : α → HostStep β} {scenes : List Scene}
    (h : (operation s.machine).Passes (fun _ => Scene.mk s.company) (Scene.mk s.company) s.scene scenes)
    (hnext : ∀ answer, (next answer).Keeps Advances) :
    s.Passes scenes ((operate operation >>= next) s) := by
  intro htidy
  rw [Action.bind_run, operate_run]
  cases hrun : operation s.machine with
  | exhausted =>
    rw [hrun] at h
    exact ⟨h, trivial⟩
  | failed e m =>
    rw [hrun] at h
    exact ⟨h, htidy⟩
  | done answer m =>
    rw [hrun] at h
    have hbehind := Passes.of_keeps (hnext answer) { s with machine := m } htidy
    have hall := Outcome.Passes.prepend hbehind.1 h
    rw [List.append_nil] at hall
    exact ⟨hall, hbehind.2⟩

/-- What is done with the program under a name. -/
theorem program_passes {name : String} {next : Program → HostStep β}
    {listed : Program → Company → Machine → List Scene}
    (h : ∀ program ∈ s.programs.held, s.Passes (listed program s.company s.machine) (next program s)) :
    s.Passes (programScenes name listed s) ((program name >>= next) s) := by
  unfold programScenes
  rw [Action.bind_run, program_run]
  cases hget : s.programs.get? name with
  | none => exact fun htidy => ⟨.direct (Lasting.refl _), htidy⟩
  | some program => exact h program (Names.mem_held_of_get? hget)

/-- Programs that the host holds are known. -/
theorem known_of_held {program : Program} (h : program ∈ s.programs.held) : program ∈ s.scene.known :=
  Scene.mem_known.2 (.inl h)

/-- An evaluation in the context under a name. -/
theorem inside_passes (name : String) (line : Nat) {evaluation : Evaluation Value}
    {listed : Company → Execution → List Scene}
    (h : ∀ company : Company, evaluation.Passes company.scene (listed company)) (s : Session) :
    s.Passes (insideScenes name listed s) (inside name line evaluation s) := by
  intro htidy
  unfold inside insideScenes
  rw [context_run]
  cases hget : s.contexts.get? name with
  | none => exact ⟨.direct (Lasting.refl _), htidy⟩
  | some context =>
    have hevaluation := h (s.companyOf name) ⟨s.machine, context⟩
    have htaken : s.scene.Leads ((s.companyOf name).scene ⟨s.machine, context⟩) :=
      Scene.leads_of_roll rfl ((htidy.held_perm hget).symm.map Context.face) rfl
    simp only
    cases hrun : evaluation ⟨s.machine, context⟩ with
    | exhausted =>
      rw [hrun] at hevaluation
      rcases hevaluation with ⟨y, htrail⟩
      exact ⟨⟨y, htrail.before htaken⟩, trivial⟩
    | failed cause e =>
      rw [hrun] at hevaluation
      exact ⟨Trail.before htaken hevaluation, htidy.set name e.context⟩
    | done v e =>
      rw [hrun] at hevaluation
      exact ⟨Trail.before htaken hevaluation, htidy.set name e.context⟩

instance : Lasting (@Eq Session) where
  refl _ := rfl
  trans h h' := Eq.trans h h'

/-- Compiling an expression changes nothing. -/
theorem compileInside_same (name source : String) : (compileInside name source).Keeps Eq := by
  have hcontext : (context name).Keeps Eq := by
    intro s
    rw [context_run]
    cases s.contexts.get? name <;> exact rfl
  unfold compileInside
  refine .bind hcontext fun context => .bind .get fun s => ?_
  simp only
  split
  · exact .pure _
  · exact .fail _

/-- Evaluating an expression in the context under a name. -/
theorem evaluate_passes (fuel : Nat) (name source : String) (line : Nat) (s : Session) :
    s.Passes ((Request.evaluate name source line).scenes fuel s)
      (perform fuel (.evaluate name source line) s) := by
  have hsame := compileInside_same name source s
  simp only [perform, Request.scenes, Action.bind_run, Action.followed, List.nil_append]
  cases hrun : compileInside name source s with
  | exhausted => exact fun htidy => ⟨⟨s.scene, .direct (Lasting.refl _)⟩, trivial⟩
  | failed e t =>
    rw [hrun] at hsame
    cases hsame
    exact fun htidy => ⟨.direct (Lasting.refl _), htidy⟩
  | done code t =>
    rw [hrun] at hsame
    cases hsame
    exact inside_passes name line (fun company =>
      Expr.eval_passes (fun command values => invoke_passes (census_covers fuel) company line command values)
        code) s

/-- Creating a context that the host keeps. -/
theorem createContext_passes (fuel : Nat) (name : String) (arguments : List Value) (kept : String)
    (s : Session) :
    s.Passes ((Request.createContext name arguments kept).scenes fuel s)
      (perform fuel (.createContext name arguments kept) s) := by
  refine program_passes fun program hheld htidy => ?_
  have hcreate := (census_covers fuel).create s.company program arguments s.machine (known_of_held hheld)
  rw [Action.bind_run, operate_run]
  simp only [create]
  cases hrun : (callee fuel).create program arguments s.machine with
  | exhausted =>
    rw [hrun] at hcreate
    exact ⟨hcreate, trivial⟩
  | failed e m =>
    rw [hrun] at hcreate
    exact ⟨hcreate, htidy⟩
  | done context m =>
    rw [hrun] at hcreate
    have hended := (endContext_advances { s with machine := m } kept htidy).1
    have hkeep := leads_keepContext (s := { s with machine := m }) kept context htidy
    exact ⟨Trail.behind hcreate hkeep, hended.set kept context⟩

/-- A request that neither runs anything nor lets time pass. -/
theorem perform_advances (fuel : Nat) (request : Request) (h : request.isIdle = true) :
    (perform fuel request).Keeps Advances := by
  cases request with
  | run _ _ _ | createContext _ _ _ | background _ _ | evaluate _ _ _ | invoke _ _ _ _ | tick _ => cases h
  | compile source name => exact keepProgram_advances (compile_delivers none source) name
  | compileFile path name => exact keepProgram_advances (compileFile_delivers path) name
  | load script name => exact keepProgram_advances (load_delivers script) name
  | invalidate name =>
    refine .bind (program_advances name) fun program =>
      .bind (onMachine_advances fun m => ?_) fun _ => .pure _
    unfold invalidate
    split <;> rfl
  | release name =>
    exact .bind (program_advances name) fun program =>
      .bind (operate_advances fun _ => release_onward program) fun _ => .pure _
  | dropProgram name =>
    refine .bind .get fun _ => .bind (.change fun t => .of_scene rfl ?_) fun _ => .pure _
    exact Scene.Resembles.leads none ⟨.refl _, rfl, Nat.le_refl _, Nat.le_refl _,
      fun other hmem => .inl (known_of_held (Names.mem_held_drop hmem)),
      fun entry hmem => .inl (Scene.mem_known.2 (.inr (.inr ⟨entry, hmem, rfl⟩)))⟩
  | dropContext name =>
    exact .bind .get fun _ => .bind (.change fun t => endContext_advances t name) fun _ => .pure _
  | stop id => exact .bind (operate_advances fun _ => stop_onward id) fun _ => .pure _
  | setGlobal name value =>
    exact .bind .get fun _ => .bind (onMachine_advances fun _ => rfl) fun _ => .pure _
  | removeGlobal name =>
    exact .bind .get fun _ => .bind (onMachine_advances fun m => roll_removeGlobal m name) fun _ => .pure _
  | saveGlobal global name => exact .bind .get fun _ => .bind (keepValue_advances _ _) fun _ => .pure _
  | invalidateDependents symbol =>
    exact .bind (onMachine_advances fun m => roll_invalidateDependents [symbol] m) fun _ => .pure _
  | register command =>
    refine .get_bind fun s => ?_
    unfold Machine.register
    cases s.machine.commands.register command with
    | error e => exact Lasting.refl (R := Advances) s
    | ok commands => exact .of_scene rfl (onward_of_roll rfl)
  | unregister name =>
    refine .get_bind fun s => ?_
    cases hunregister : s.machine.unregister name with
    | error e => exact Lasting.refl (R := Advances) s
    | ok pair => exact .of_scene rfl (onward_of_roll (roll_unregister hunregister))
  | write path entry => exact .bind (onMachine_advances fun _ => rfl) fun _ => .pure _
  | delete path =>
    refine .get_bind fun s => ?_
    cases s.machine.files.delete? path.toList with
    | none => exact Lasting.refl (R := Advances) s
    | some files => exact .of_scene rfl (onward_of_roll rfl)
  | raise => exact .bind (onMachine_advances fun _ => rfl) fun _ => .pure _
  | log line => exact .bind (onMachine_advances fun _ => rfl) fun _ => .pure _
  | takeConsole => exact .bind .get fun _ => .bind (onMachine_advances fun _ => rfl) fun _ => .pure _

/-- A request passes the scenes that are listed for it, whether it is answered or refused. -/
theorem perform_passes (fuel : Nat) (request : Request) (s : Session) :
    s.Passes (request.scenes fuel s) (perform fuel request s) := by
  by_cases hidle : request.isIdle = true
  · have hnone : request.scenes fuel s = [] := by cases request <;> first | rfl | cases hidle
    rw [hnone]
    exact .of_keeps (perform_advances fuel request hidle) s
  · cases request with
    | run name arguments keep =>
      refine program_passes fun program hheld => operate_passes
        ((census_covers fuel).run s.company program arguments s.machine (known_of_held hheld))
        fun result => ?_
      cases keep with
      | none => exact .bind (.pure _) fun _ => .pure _
      | some kept =>
        cases result with
        | none => exact .bind (.pure _) fun _ => .pure _
        | some v => exact .bind (keepValue_advances kept v) fun _ => .pure _
    | createContext name arguments kept => exact createContext_passes fuel name arguments kept s
    | evaluate name source line => exact evaluate_passes fuel name source line s
    | invoke name command arguments line =>
      exact inside_passes name line (fun company =>
        invoke_passes (census_covers fuel) company line command arguments) s
    | background name arguments =>
      exact program_passes fun program hheld => operate_passes
        (sendToBackground_passes fuel arguments (known_of_held hheld)) fun _ => .pure _
    | tick nanoseconds =>
      exact operate_passes (tick_passes fuel (secondsOf nanoseconds) s.company s.machine) fun _ => .pure _
    | _ => exact absurd rfl hidle

/-! ## Whole sessions -/

/-- The record of a session is a trail that begins with its first scene. -/
theorem record_trail (fuel : Nat) (requests : List Request) (htidy : s.contexts.Tidy) :
    ∃ y, Trail s.scene (s.record fuel requests) y := by
  induction requests generalizing s with
  | nil => exact ⟨s.scene, .past (Lasting.refl _) (.direct (Lasting.refl _))⟩
  | cons request rest ih =>
    have hpasses := perform_passes fuel request s htidy
    unfold record
    cases hrun : perform fuel request s with
    | exhausted =>
      rw [hrun] at hpasses
      rcases hpasses.1 with ⟨y, htrail⟩
      simp only [Outcome.state?, List.append_nil]
      exact ⟨y, .past (Lasting.refl _) htrail⟩
    | done answer t =>
      rw [hrun] at hpasses
      rcases ih hpasses.2 with ⟨y, htrail⟩
      exact ⟨y, .past (Lasting.refl _) (Trail.append hpasses.1 htrail)⟩
    | failed e t =>
      rw [hrun] at hpasses
      rcases ih hpasses.2 with ⟨y, htrail⟩
      exact ⟨y, .past (Lasting.refl _) (Trail.append hpasses.1 htrail)⟩

/-- In the scene of a new session nothing is alive and nothing is counted. -/
theorem tallies_start (settings : Settings) (files : FileSystem) :
    (Session.start (.start settings files)).scene.Tallies :=
  ⟨.nil, List.nodup_nil, fun _ hmem => absurd hmem List.not_mem_nil,
    fun _ hmem => absurd hmem List.not_mem_nil, fun _ hmem => absurd hmem List.not_mem_nil⟩

/-- A program is let go of unless something alive runs it. -/
theorem release_iff {x : Scene} (h : x.Tallies) (program : Program) :
    (Machine.release program x.machine = .failed (.programExecuting program.name) x.machine ↔
      ∃ context ∈ x.live, context.program.id = program.id) := by
  have hcount : 0 < x.machine.executionCount program.id ↔
      ∃ context ∈ x.live, context.program.id = program.id := by
    rw [h.executionCount, List.countP_pos_iff]
    simp only [beq_iff_eq]
  rw [← hcount]
  simp only [release, Action.bind_run, Action.get_run]
  by_cases hpos : 0 < x.machine.executionCount program.id
  · simp [hpos]
  · simp [hpos]

/-- **Live contexts are counted.**  However a session goes on: in all scenes of its record, the machine counts the live contexts of
every program, a program cannot be released exactly while one of them runs it, and numbers tell
live contexts and known programs apart; and no later scene has anything new with a number that had
been given before. -/
theorem executions_tally (settings : Settings) (files : FileSystem) (fuel : Nat)
    (requests : List Request) :
    (∀ x ∈ (Session.start (.start settings files)).record fuel requests,
      (∀ program : Program,
        x.machine.executionCount program.id =
          x.live.countP (fun context => context.program.id == program.id) ∧
        (Machine.release program x.machine = .failed (.programExecuting program.name) x.machine ↔
          ∃ context ∈ x.live, context.program.id = program.id)) ∧
      (x.live.map Context.id).Nodup ∧
      ∀ program ∈ x.known, ∀ other ∈ x.known, program.id = other.id → program = other) ∧
    ((Session.start (.start settings files)).record fuel requests).Pairwise Scene.Precedes := by
  have htidy : (Session.start (.start settings files)).contexts.Tidy := List.nodup_nil
  rcases record_trail fuel requests htidy with ⟨y, htrail⟩
  rcases htrail.chronological (tallies_start settings files) with ⟨hscenes, hpairwise⟩
  refine ⟨fun x hmem => ?_, hpairwise⟩
  have htallies := (hscenes x hmem).1
  exact ⟨fun program => ⟨htallies.executionCount program.id, release_iff htallies program⟩,
    htallies.distinct, htallies.unique⟩

/-- A script that calls itself up to the limit of calls, one context inside of another, is run by a
host that holds a context of it. -/
example : ((start (.start { Settings.standard with maxCallDepth := 2 } .empty)).record 8
    [.compile "scriptname Twin\nbegin\ncall(\"self\")\nend" "twin", .createContext "twin" [] "held",
      .run "twin" [] none]).any (fun x => x.machine.executionCount 1 == 3) = true := by
  decide +kernel

end Session
end ScriptMachine
