import ScriptMachine.Proofs.Heeding
import ScriptMachine.Proofs.Turns

/-!
# Scripts keep a machine orderly

Scripts load other scripts and put themselves into the background, and commands of the host remove
globals and commands in the middle of a run.  All of this goes through the same operations, so
whatever a script does, the machine stays orderly and heeds what goes away.  In a tick the contexts
that have their turns are out of the background, and only the cache is looked through.

Main results:

- {lit}`invoke_staysOrderly` and {lit}`Expr.eval_staysOrderly`: calls and expressions.
- {lit}`Machine.callee_staysOrderly`: runs of other scripts and new contexts.
- {lit}`Machine.takeAll_staysOrderly` and {lit}`Machine.tick_upholds`: turns and ticks.
-/

namespace ScriptMachine

open Machine (Holding)

/-! ## Executions -/

/-- An execution stays with its program, and if that is held the machine stays orderly. -/
structure Execution.StaysOrderly (held : Program → Prop) (e e' : Execution) : Prop where
  program : e'.context.program = e.context.program
  machine : held e.context.program → e.machine.StaysOrderly held e'.machine

/-- Running other scripts keeps the machine orderly. -/
structure Callee.StaysOrderly (callee : Callee) : Prop where
  run : ∀ (held : Program → Prop) program arguments, held program →
    (callee.run program arguments).Keeps (Machine.StaysOrderly held)
  create : ∀ (held : Program → Prop) program arguments, held program →
    (callee.create program arguments).Keeps (Machine.StaysOrderly held)
  created : ∀ program arguments m context m',
    callee.create program arguments m = .done context m' → context.program = program

instance (held : Program → Prop) : Lasting (Execution.StaysOrderly held) where
  refl e := ⟨rfl, fun _ => Lasting.refl e.machine⟩
  trans h h' := ⟨h'.program.trans h.program,
    fun hheld => Lasting.trans (h.machine hheld) (h'.machine (by rw [h.program]; exact hheld))⟩

variable {held : Program → Prop}

/-- A plain change. -/
theorem Execution.Plain.staysOrderly {e e' : Execution} (h : e.Plain e') :
    e.StaysOrderly held e' :=
  ⟨h.context.program, fun _ => h.machine.staysOrderly⟩

/-- A change of the context that leaves its program alone. -/
theorem Execution.staysOrderly_context (e : Execution) {context : Context}
    (h : context.program = e.context.program) :
    e.StaysOrderly held { e with context := context } :=
  ⟨h, fun _ => Lasting.refl e.machine⟩

/-! ## Calls -/

namespace CommandStep

open Execution

/-- A change of the machine that keeps it orderly. -/
theorem onMachine_staysOrderly {f : Machine → Machine}
    (h : ∀ m : Machine, m.StaysOrderly held (f m)) :
    (onMachine f).Keeps (StaysOrderly held) :=
  .change fun e => ⟨rfl, fun _ => h e.machine⟩

end CommandStep

namespace Builtin

open Execution CommandStep

/-- The program that a call means may be held from then on. -/
theorem target_supplies {name : String} {e t : Execution} {program : Program}
    (h : target name e = .done (.ok program) t) (hheld : held e.context.program)
    (horderly : e.machine.Orderly held) :
    t.context = e.context ∧ t.machine.Orderly (Holding held program) ∧
      e.machine.Heeds t.machine := by
  simp only [target, Action.bind_run, Action.get_run] at h
  split at h
  · cases h
    refine ⟨rfl, horderly.mono fun other hother => .inr ?_, Lasting.refl e.machine⟩
    rcases hother with hother | rfl
    · exact hother
    · exact hheld
  · simp only [operate, Action.attempt_run, Action.onPart] at h
    have hload := (Machine.load_supplies name held e.machine horderly).1
    cases hrun : Machine.load name e.machine with
    | done found m =>
      rw [hrun] at h
      cases h
      exact ⟨rfl, hload program m hrun⟩
    | failed error m =>
      rw [hrun] at h
      cases h
    | exhausted =>
      rw [hrun] at h
      cases h

/-- The program that a call means is the calling one or loaded. -/
theorem target_staysOrderly (name : String) : (target name).Keeps (StaysOrderly held) := by
  unfold target
  refine .bind .get fun e => ?_
  split
  · exact .pure _
  · exact .attempt (.onPart ((Machine.load_supplies name).staysOrderly held)
      fun e _ h => ⟨rfl, fun _ => h⟩)

variable {callee : Callee} (hcallee : callee.StaysOrderly)
include hcallee

/-- Running another script. -/
theorem doCall_staysOrderly (arguments : List Value) :
    (doCall callee arguments).Keeps (StaysOrderly held) := by
  unfold doCall
  refine .bind (.ofExcept _) fun name => ?_
  simp only
  split
  · exact .fail _
  · intro e
    rw [Action.bind_run]
    have htarget : (target name e).Ends (StaysOrderly held e) := target_staysOrderly name e
    cases hrun : target name e with
    | exhausted => trivial
    | failed error t =>
      rw [hrun] at htarget
      exact htarget
    | done found t =>
      rw [hrun] at htarget
      cases found with
      | error refusal => exact htarget
      | ok program =>
        -- The program may be held while it runs.
        have hback : ∀ m, t.machine.StaysOrderly (Holding held program) m →
            e.StaysOrderly held (t.withMachine m) := by
          refine fun m hm => ⟨htarget.program, fun hheld horderly => ?_⟩
          rcases target_supplies hrun hheld horderly with ⟨-, hstart, hheeds⟩
          rcases hm hstart with ⟨hend, hheeds'⟩
          exact ⟨hend.mono fun other hother => .inr (.inl hother), Lasting.trans hheeds hheeds'⟩
        have hcall : (operate (callee.run program (arguments.drop 1)) t).Ends (e.StaysOrderly held) :=
          Action.Keeps.attempt (.onPart (hcallee.run (Holding held program) program _ (.inr rfl))
            (T := fun u u' => u = t → e.StaysOrderly held u')
            fun u m hm hu => by subst hu; exact hback m hm) t |>.mono fun u hu => hu rfl
        refine Action.ends_bind hcall fun result u hu => ?_
        split
        · exact hu
        · exact hu
        · exact hu

end Builtin

namespace HostAction

open Execution CommandStep

/-- Putting the running program into the background once more. -/
theorem backgroundRunning_staysOrderly {callee : Callee} (hcallee : callee.StaysOrderly)
    (arguments : List Value) :
    (backgroundRunning callee arguments).Keeps (StaysOrderly held) := by
  apply Action.Keeps.get_bind
  intro e
  rw [Action.bind_run]
  unfold CommandStep.operate
  rw [Action.attempt_run]
  unfold Action.onPart
  have hcreate := fun hheld => hcallee.create held e.context.program arguments hheld e.machine
  cases hrun : callee.create e.context.program arguments e.machine with
  | done context m =>
    rw [hrun] at hcreate
    have hprogram := hcallee.created _ _ _ _ _ hrun
    refine ⟨rfl, fun hheld => Lasting.trans (hcreate hheld) (m.addBackground_staysOrderly ?_)⟩
    rw [hprogram]
    exact hheld
  | failed error m =>
    rw [hrun] at hcreate
    exact ⟨rfl, hcreate⟩
  | exhausted => trivial

/-- An action of the host. -/
theorem perform_staysOrderly {callee : Callee} (hcallee : callee.StaysOrderly)
    (arguments : List Value) (action : HostAction) :
    (action.perform callee arguments).Keeps (StaysOrderly held) := by
  by_cases hplain : action.isPlain = true
  · exact (perform_plain callee arguments hplain).mono fun _ _ h => h.staysOrderly
  · cases action with
    | removeGlobal name =>
      exact .bind (onMachine_staysOrderly fun m => m.removeGlobal_staysOrderly name) fun _ => .pure _
    | unregister name =>
      refine .bind (onMachine_staysOrderly fun m => ?_) fun _ => .pure _
      cases hrun : m.unregister name with
      | ok pair => exact Machine.unregister_staysOrderly hrun
      | error e => exact Lasting.refl m
    | backgroundSelf => exact backgroundRunning_staysOrderly hcallee arguments
    | _ => exact absurd rfl hplain

end HostAction

section Calls

open Execution

variable {callee : Callee} (hcallee : callee.StaysOrderly)
include hcallee

/-- The call of a command by name. -/
theorem invoke_staysOrderly (line : Nat) (name : String) (arguments : List Value) :
    (invoke callee line name arguments).Keeps (StaysOrderly held) := by
  refine invoke_keeps (fun command => Command.call_keeps ?_) name
  unfold Command.perform
  split
  · exact Builtin.perform_keeps (fun _ _ h => h.staysOrderly)
      (fun e _ h => e.staysOrderly_context h.program)
      (fun values => Builtin.doCall_staysOrderly hcallee values) line arguments _
  · exact HostAction.perform_staysOrderly hcallee arguments _

/-- The evaluation of an expression. -/
theorem Expr.eval_staysOrderly (line : Nat) (e : Expr) :
    (e.eval (invoke callee line)).Keeps (StaysOrderly held) :=
  Expr.eval_keeps (fun _ _ h => h.staysOrderly) e fun name _ values =>
    invoke_staysOrderly hcallee line name values

end Calls

/-! ## Runs -/

namespace Machine

/-- The depth of calls does not matter. -/
theorem StaysOrderly.nested {m n : Machine} (h : m.enter.StaysOrderly held n) :
    m.StaysOrderly held n.leave := by
  have hbefore : m.StaysOrderly held m.enter :=
    .of_library rfl
  have hafter : n.StaysOrderly held n.leave :=
    .of_library rfl
  exact Lasting.trans hbefore (Lasting.trans h hafter)

/-- The end of a context does not matter. -/
theorem StaysOrderly.ended {m n : Machine} (h : m.StaysOrderly held n) (program : Nat) :
    m.StaysOrderly held (n.endExecution program) :=
  Lasting.trans h (.of_library rfl)

end Machine

section Runs

open Execution

variable {callee : Callee} (hcallee : callee.StaysOrderly)
include hcallee

/-- A run. -/
theorem Execution.run_staysOrderly (budget fuel taken : Nat) :
    (run callee budget fuel taken).Keeps (StaysOrderly held) :=
  run_keeps (fun _ _ h => h.staysOrderly) (fun e _ h => e.staysOrderly_context h.program)
    (fun node => evaluate_keeps (Expr.eval_staysOrderly hcallee) node) budget fuel taken

namespace Machine

/-- The initializers of a program. -/
theorem prepare_staysOrderly (program : Program) :
    (prepare callee program).Keeps (Execution.StaysOrderly held) :=
  prepare_keeps (fun node => evaluate_keeps (Expr.eval_staysOrderly hcallee) node) program

/-- Creating a context of a held program. -/
theorem createContext_staysOrderly {program : Program} (hheld : held program)
    (arguments : List Value) :
    (createContext callee program arguments).Keeps (StaysOrderly held) := by
  intro m
  have hprepare : (prepare callee program).Keeps (Execution.StaysOrderly held) :=
    prepare_staysOrderly hcallee program
  have hbegin : m.StaysOrderly held
      (beginExecution { m with contextCount := m.contextCount + 1 } program.id) := .of_library rfl
  have hnested : ∀ {locals : List Value} {e : Execution},
      Execution.StaysOrderly held ⟨m.preparing program, .create (m.contextCount + 1) program locals⟩ e →
        m.StaysOrderly held e.machine.leave := by
    intro locals e he
    have hrun := he.machine hheld
    exact Lasting.trans hbegin hrun.nested
  cases hrun : createContext callee program arguments m with
  | exhausted => trivial
  | failed error n =>
    cases Creates.of_createContext hrun with
    | unbound => exact .of_library rfl
    | failed _ hfailed => exact (hnested (hprepare.of_failed hfailed)).ended program.id
  | done context n =>
    cases Creates.of_createContext hrun with
    | done _ hdone => exact hnested (hprepare.of_done hdone)

/-- A created context belongs to its program. -/
theorem program_of_createContext {program : Program} {arguments : List Value} {m m' : Machine}
    {context : Context} (h : createContext callee program arguments m = .done context m') :
    context.program = program := by
  cases Creates.of_createContext h with
  | done _ hprepare =>
    have hkeeps : (prepare callee program).Keeps (Execution.StaysOrderly fun _ => True) :=
      prepare_staysOrderly hcallee program
    exact (hkeeps.of_done hprepare).program

/-- Running a held program in a new context. -/
theorem runFresh_staysOrderly (fuel : Nat) {program : Program} (hheld : held program)
    (arguments : List Value) :
    (runFresh callee fuel program arguments).Keeps (StaysOrderly held) := by
  refine runFresh_keeps_of (createContext_staysOrderly hcallee hheld arguments)
    fun {m n context} hcreated => ?_
  have hprogram := program_of_createContext hcallee hcreated
  unfold runToEnd
  simp only
  split
  · exact StaysOrderly.ended (Lasting.refl (R := StaysOrderly held) n) program.id
  · next tree _ =>
    have hsteps : (Execution.run callee 0 fuel 0 ⟨n, context.beginRun tree.root⟩).Ends
        (Execution.StaysOrderly held ⟨n, context.beginRun tree.root⟩) :=
      Execution.run_staysOrderly hcallee 0 fuel 0 _
    refine hsteps.mono fun e he => ?_
    have hlast := he.machine (by rw [← hprogram] at hheld; exact hheld)
    exact StaysOrderly.ended hlast program.id

/-- Running a held program. -/
theorem runProgram_staysOrderly (fuel : Nat) {program : Program} (hheld : held program)
    (arguments : List Value) :
    (runProgram callee fuel program arguments).Keeps (StaysOrderly held) :=
  runProgram_keeps_of StaysOrderly.nested (runFresh_staysOrderly hcallee fuel hheld arguments)

end Machine
end Runs

namespace Machine

/-- Running other scripts keeps the machine orderly, whatever the fuel. -/
theorem callee_staysOrderly (fuel : Nat) : (callee fuel).StaysOrderly := by
  induction fuel with
  | zero =>
    exact ⟨fun _ _ _ _ _ => trivial, fun _ _ _ _ _ => trivial, fun _ _ _ _ _ h => by cases h⟩
  | succ fuel ih =>
    exact ⟨fun _ program arguments hheld => runProgram_staysOrderly ih fuel hheld arguments,
      fun _ program arguments hheld => createContext_staysOrderly ih hheld arguments,
      fun program arguments m context m' h => program_of_createContext ih h⟩

/-- Putting a new context of a held program into the background. -/
theorem sendToBackground_staysOrderly (fuel : Nat) {program : Program} (hheld : held program)
    (arguments : List Value) :
    (sendToBackground fuel program arguments).Keeps (StaysOrderly held) := by
  intro m
  have hcreate := (callee_staysOrderly fuel).create held program arguments hheld m
  simp only [sendToBackground, create, Action.bind_run]
  cases hrun : (callee fuel).create program arguments m with
  | exhausted => trivial
  | failed e n =>
    rw [hrun] at hcreate
    exact hcreate
  | done context n =>
    rw [hrun] at hcreate
    have hprogram := (callee_staysOrderly fuel).created program arguments m context n hrun
    refine Lasting.trans hcreate (n.addBackground_staysOrderly ?_)
    rw [hprogram]
    exact hheld

/-! ## Turns and ticks -/

/-- The turn of a context of a held program. -/
theorem takeTurn_staysOrderly {fuel : Nat} {seconds : Float} {context after : Context}
    {m m' : Machine} {turn : Turn} (hheld : held context.program)
    (h : takeTurn fuel seconds context m = .done (after, turn) m') :
    after.program = context.program ∧ m.StaysOrderly held m' := by
  have hrun : ∀ {e e' : Execution}, turnStart seconds context m = some e →
      e.StaysOrderly held e' →
        e'.context.program = context.program ∧ m.StaysOrderly held e'.machine.leave := by
    intro e e' hstart hlast
    rcases turnStart_eq_some hstart with ⟨hmachine, -, hprogram, -⟩
    have hsteps := hlast.machine (by rw [hprogram]; exact hheld)
    rw [hmachine] at hsteps
    exact ⟨hlast.program.trans hprogram, hsteps.nested⟩
  have hkeeps : (Execution.run (callee fuel) m.settings.stepBudget fuel 0).Keeps
      (Execution.StaysOrderly held) :=
    Execution.run_staysOrderly (callee_staysOrderly fuel) m.settings.stepBudget fuel 0
  have hrefl : m.StaysOrderly held m := Lasting.refl m
  cases takeTurn_ends h with
  | waiting => exact ⟨rfl, hrefl⟩
  | stale => exact ⟨rfl, hrefl.ended _⟩
  | treeless => exact ⟨rfl, hrefl.ended _⟩
  | failed hstart hlast =>
    have hdone := hrun hstart (hkeeps.of_failed hlast)
    exact ⟨hdone.1, hdone.2.ended _⟩
  | parked hstart hlast => exact hrun hstart (hkeeps.of_done hlast)
  | halted hstart hlast =>
    have hdone := hrun hstart (hkeeps.of_done hlast)
    exact ⟨hdone.1, hdone.2.ended _⟩
  | completed hstart hlast => exact hrun hstart (hkeeps.of_done hlast)

/-- The turns of contexts of held programs. -/
theorem takeAll_staysOrderly {fuel : Nat} {seconds : Float} {contexts : List Context} {m m' : Machine}
    {turns : List TakenTurn} (hheld : ∀ context ∈ contexts, held context.program)
    (h : takeAll fuel seconds contexts m = .done turns m') :
    m.StaysOrderly held m' ∧ ∀ context ∈ kept turns, held context.program := by
  induction contexts generalizing m turns with
  | nil =>
    cases h
    exact ⟨Lasting.refl _, by simp [kept]⟩
  | cons context rest ih =>
    rcases exists_of_takeAll_cons h with ⟨after, turn, n, others, hturn, hrest, rfl⟩
    have hfirst := hheld context (List.mem_cons_self ..)
    rcases takeTurn_staysOrderly hfirst hturn with ⟨hprogram, hbefore⟩
    rcases ih (fun other hmem => hheld other (List.mem_cons_of_mem _ hmem)) hrest with
      ⟨hbehind, hkept⟩
    refine ⟨Lasting.trans hbefore hbehind, fun other hmem => ?_⟩
    simp only [kept, List.flatMap_cons, List.mem_append] at hmem
    rcases hmem with hmem | hmem
    · split at hmem
      · rw [List.mem_singleton.1 hmem, hprogram]
        exact hfirst
      · cases hmem
    · exact hkept other hmem

/-- The machine without its background. -/
def withoutBackground (m : Machine) : Machine :=
  { m with background := [] }

/-- A tick keeps the machine orderly and heeds what goes away, as far as the cache is concerned. -/
theorem tick_upholds {fuel : Nat} {seconds : Float} {m m' : Machine} {report : TickReport}
    (h : tick fuel seconds m = .done report m') (horderly : m.Orderly held) :
    m'.Orderly held ∧ m.withoutBackground.Heeds m'.withoutBackground := by
  rw [tick_eq] at h
  rcases Action.exists_of_bind_done h with ⟨turns, k, hturns, hdone⟩
  cases hdone
  rcases exists_of_tickTurns hturns with ⟨n, hall, rfl⟩
  -- While turns are taken, the programs of the background are held.
  have hbackground : ∀ context ∈ m.background, Knows held m context.program :=
    fun context hmem => .inl (mem_known_of_background hmem)
  have hstart : m.withoutBackground.Orderly (Knows held m) :=
    horderly.narrow rfl rfl rfl rfl (fun _ hmem => hmem)
      (fun _ hmem => (List.not_mem_nil hmem).elim) fun _ hknown => hknown
  rcases takeAll_staysOrderly hbackground hall with ⟨hstays, hkept⟩
  rcases hstays hstart with ⟨hend, hheeds⟩
  refine ⟨hend.narrow rfl rfl rfl rfl (fun _ hmem => hmem) (fun context hmem => ?_)
      fun _ hheld => .inr (.inr hheld),
    hheeds.stale, hheeds.cached, fun context hmem => (List.not_mem_nil hmem).elim,
    fun program hreaches hbereft => hheeds.bereft program hreaches hbereft⟩
  rcases List.mem_append.1 hmem with hold | hnew
  · exact .inr (hkept context hold)
  · exact .inl (mem_known_of_background hnew)

end Machine
end ScriptMachine
