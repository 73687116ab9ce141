import ScriptMachine.Proofs.Living
import ScriptMachine.Proofs.Polling
import ScriptMachine.Proofs.Tale

/-!
# Where the contexts in the background come from

Every context that comes into the background has just been created.  The host may ask for that, and
so may a script, but only with a command that creates contexts by itself.  Without such a command
nothing that a script does adds a context.

Main results:

- {lit}`Creation.Makes`: a context as it comes into the background.
- {lit}`Machine.Bears`: how the background may differ after anything that a script has done.
- {lit}`Machine.callee_bears`: running other scripts bears nothing but new contexts.
- {lit}`Machine.tickTurns_bears`: the same of ticks.
- {lit}`Session.perform_receives`: what a request adds to the background.
- {lit}`Session.History.upholds`: what new contexts have and turns keep holds in the whole background.
-/

namespace ScriptMachine

variable {σ ε α : Type}

/-- What two properties say of the state in which an outcome ends. -/
theorem Outcome.Ends.and {P Q : σ → Prop} {outcome : Outcome σ ε α} (h : outcome.Ends P)
    (h' : outcome.Ends Q) : outcome.Ends fun s => P s ∧ Q s := by
  cases outcome with
  | done x s => exact ⟨h, h'⟩
  | failed e s => exact ⟨h, h'⟩
  | exhausted => trivial

/-! ## Creations -/

/-- The creation of a context of a program, with some fuel for the scripts that its initializers
call. -/
structure Creation where
  fuel : Nat
  program : Program
  arguments : List Value
  machine : Machine

namespace Creation

/-- What becomes of a creation. -/
def outcome (creation : Creation) : Outcome Machine MachineError Context :=
  Machine.createContext (Machine.callee creation.fuel) creation.program creation.arguments
    creation.machine

/-- The context is put into the background as it was created. -/
def Makes (creation : Creation) (context : Context) : Prop :=
  ∃ created m, creation.outcome = .done created m ∧ context = { created with backgrounded := true }

end Creation

/-! ## Machines -/

namespace Machine

/-- How the background may differ after anything that a script has done. -/
structure Bears (m m' : Machine) : Prop where
  commands : ∀ command ∈ m'.commands.commands, command ∈ m.commands.commands
  background : ∃ added, m'.background = m.background ++ added ∧
    ∀ context ∈ added, m.BackgroundsItself ∧ ∃ creation : Creation, creation.Makes context

/-- The background is the same. -/
theorem Bears.of_eq {m m' : Machine}
    (hcommands : ∀ command ∈ m'.commands.commands, command ∈ m.commands.commands)
    (hbackground : m'.background = m.background) : m.Bears m' :=
  ⟨hcommands, [], by rw [hbackground, List.append_nil], fun _ h => by cases h⟩

instance : Lasting Bears where
  refl _ := .of_eq (fun _ h => h) rfl
  trans {m n k} h h' := by
    rcases h with ⟨hcommands, first, hfirst, hborn⟩
    rcases h' with ⟨hcommands', second, hsecond, hborn'⟩
    refine ⟨fun command hmem => hcommands command (hcommands' command hmem), first ++ second, ?_,
      fun context hmem => ?_⟩
    · rw [hsecond, hfirst, List.append_assoc]
    · rcases List.mem_append.1 hmem with hmem | hmem
      · exact hborn context hmem
      · rcases hborn' context hmem with ⟨⟨command, hcommand, haction⟩, hmade⟩
        exact ⟨⟨command, hcommands command hcommand, haction⟩, hmade⟩

/-- What a machine notes about live contexts does not change, and commands only disappear. -/
theorem Grows.bears {m m' : Machine} (h : m.Grows m') (hroll : m'.roll = m.roll) : m.Bears m' :=
  .of_eq h.commands (congrArg (fun roll => roll.2.1) hroll)

/-- A plain change. -/
theorem Plain.bears {m m' : Machine} (h : m.Plain m') : m.Bears m' :=
  h.grows.bears (by rw [h.same]; rfl)

/-- Loading a script. -/
theorem load_bears (name : String) : (load name).Keeps Bears := by
  intro m
  have hends := load_ends name m
  generalize load name m = outcome at hends ⊢
  cases hends with
  | cached _ _ => exact Lasting.refl (R := Bears) m
  | compiled _ _ => exact Bears.of_eq (fun _ h => h) rfl
  | failed _ _ hsame =>
    rcases hsame with rfl | rfl
    · exact Lasting.refl (R := Bears) _
    · exact Bears.of_eq (fun _ h => h) rfl

end Machine

/-! ## Commands -/

/-- How the background may differ after a part of an evaluation or of a run. -/
def Execution.Bears (e e' : Execution) : Prop :=
  e.machine.Bears e'.machine

instance : Lasting Execution.Bears where
  refl e := Lasting.refl e.machine
  trans h h' := Lasting.trans (R := Machine.Bears) h h'

theorem Execution.Plain.bears {e e' : Execution} (h : e.Plain e') : e.Bears e' :=
  h.machine.bears

/-- Running other scripts adds nothing but new contexts to the background, and what is created is
new. -/
structure Callee.Bears (callee : Callee) : Prop where
  run : ∀ program arguments, (callee.run program arguments).Keeps Machine.Bears
  create : ∀ program arguments, (callee.create program arguments).Keeps Machine.Bears
  makes : ∀ {program arguments m context m'}, callee.create program arguments m = .done context m' →
    ∃ creation : Creation, creation.Makes { context with backgrounded := true }

section Calls

open Execution CommandStep

variable {callee : Callee} (hcallee : callee.Bears) (line : Nat)

/-- An operation of the machine on behalf of a context. -/
theorem CommandStep.operate_bears {operation : Operation α} (h : operation.Keeps Machine.Bears) :
    (operate operation).Keeps Execution.Bears :=
  .attempt (.onPart h fun _ _ hbears => hbears)

/-- A change of the machine that a command makes. -/
theorem CommandStep.onMachine_bears {change : Machine → Machine} (h : ∀ m : Machine, m.Bears (change m)) :
    (onMachine change).Keeps Execution.Bears :=
  .change fun e => h e.machine

/-- The program that a call means. -/
theorem Builtin.target_bears (name : String) : (target name).Keeps Execution.Bears := by
  unfold target
  refine .bind .get fun e => ?_
  split
  · exact .pure _
  · exact operate_bears (Machine.load_bears name)

include hcallee

/-- The command that runs another script. -/
theorem Builtin.doCall_bears (arguments : List Value) :
    (doCall callee arguments).Keeps Execution.Bears := by
  unfold doCall
  refine .bind (.ofExcept _) fun name => ?_
  simp only
  split
  · exact .fail _
  · refine .bind (target_bears name) fun found => ?_
    split
    · exact .pure _
    · next program =>
      refine .bind (operate_bears (hcallee.run program _)) fun result => ?_
      split <;> exact .pure _

/-- Creating a context of the running program, with a command that does that. -/
theorem HostAction.backgroundRunning_bears (arguments : List Value) {e : Execution}
    (h : e.machine.BackgroundsItself) : (backgroundRunning callee arguments e).Ends e.Bears := by
  have hcreate := hcallee.create e.context.program arguments e.machine
  unfold backgroundRunning
  rw [Action.bind_run, Action.get_run]
  simp only [Action.bind_run, operate, Action.attempt_run, Action.onPart]
  cases hrun : callee.create e.context.program arguments e.machine with
  | exhausted => trivial
  | failed error m =>
    rw [hrun] at hcreate
    exact hcreate
  | done context m =>
    rw [hrun] at hcreate
    rcases hcreate with ⟨hcommands, added, hadded, hborn⟩
    refine ⟨hcommands, added ++ [{ context with backgrounded := true }], ?_, fun other hmem => ?_⟩
    · show m.background ++ _ = _
      rw [hadded, List.append_assoc]
    · rcases List.mem_append.1 hmem with hmem | hmem
      · exact hborn other hmem
      · rw [List.mem_singleton] at hmem
        subst hmem
        exact ⟨h, hcallee.makes hrun⟩

/-- What an action of the host adds to the background. -/
theorem HostAction.perform_bears (arguments : List Value) {e : Execution} (action : HostAction)
    (hbackground : action = .backgroundSelf → e.machine.BackgroundsItself) :
    (action.perform callee arguments e).Ends e.Bears := by
  by_cases hplain : action.isPlain = true
  · exact ((perform_plain callee arguments hplain).mono fun _ _ h => h.bears) e
  · cases action with
    | removeGlobal name =>
      exact (Action.Keeps.bind (onMachine_bears fun m =>
        (m.removeGlobal_grows name).bears (m.roll_removeGlobal name)) fun _ => .pure _) e
    | unregister name =>
      refine (Action.Keeps.bind (onMachine_bears fun m => ?_) fun _ => .pure _) e
      cases hrun : m.unregister name with
      | ok pair => exact (Machine.unregister_grows hrun).bears (Machine.roll_unregister hrun)
      | error error => exact Lasting.refl (R := Machine.Bears) m
    | backgroundSelf => exact backgroundRunning_bears hcallee arguments (hbackground rfl)
    | _ => exact absurd rfl hplain

/-- What the call of a command by name adds to the background. -/
theorem invoke_bears (name : String) (arguments : List Value) :
    (invoke callee line name arguments).Keeps Execution.Bears := by
  refine Action.Keeps.get_bind fun e => ?_
  cases hlookup : e.machine.commands.lookup? name with
  | none => exact Lasting.refl (R := Execution.Bears) e
  | some command =>
    have hmem := (CommandTable.lookup?_mem _ _ _ hlookup).1
    have hperform : (command.perform callee line arguments e).Ends e.Bears := by
      unfold Command.perform
      cases haction : command.action with
      | builtin builtin =>
        exact Builtin.perform_keeps (fun _ _ h => h.bears)
          (fun e _ _ => Lasting.refl (R := Machine.Bears) e.machine) (Builtin.doCall_bears hcallee)
          line arguments builtin e
      | host action =>
        exact HostAction.perform_bears hcallee arguments action fun h =>
          ⟨command, hmem, by rw [haction, h]⟩
    show (command.call callee line arguments e).Ends e.Bears
    unfold Command.call
    cases checkArguments command.signature arguments with
    | error cause => exact Lasting.refl (R := Execution.Bears) e
    | ok _ =>
      rw [Action.bind_run, Action.ofExcept_ok_run]
      exact Action.ends_bind_keeps (Action.ends_mapError hperform) fun _ => .ofExcept _

/-- What the expression of a node adds to the background. -/
theorem Execution.evaluate_bears (node : Node) : (evaluate callee node).Keeps Bears :=
  evaluate_keeps (fun line code => Expr.eval_keeps (fun _ _ h => h.bears) code fun name _ values =>
    invoke_bears hcallee line name values) node

/-- What a run adds to the background. -/
theorem Execution.run_bears (budget fuel taken : Nat) : (run callee budget fuel taken).Keeps Bears :=
  run_keeps (fun _ _ h => h.bears) (fun e _ _ => Lasting.refl (R := Machine.Bears) e.machine)
    (evaluate_bears hcallee) budget fuel taken

end Calls

/-! ## Contexts and programs -/

namespace Machine

section Callee

variable {callee : Callee} (hcallee : callee.Bears)
include hcallee

/-- What the creation of a context adds to the background. -/
theorem createContext_bears (program : Program) (arguments : List Value) :
    (createContext callee program arguments).Keeps Bears := by
  intro m
  have hprepare := prepare_keeps (Execution.evaluate_bears hcallee) program
  cases hrun : createContext callee program arguments m with
  | exhausted => trivial
  | failed error n =>
    cases Creates.of_createContext hrun with
    | unbound => exact Bears.of_eq (fun _ h => h) rfl
    | failed _ hfailed =>
      have hbears := hprepare.of_failed hfailed
      exact ⟨hbears.commands, hbears.background⟩
  | done context n =>
    cases Creates.of_createContext hrun with
    | done _ hdone =>
      have hbears := hprepare.of_done hdone
      exact ⟨hbears.commands, hbears.background⟩

/-- What a run to the end adds to the background. -/
theorem runToEnd_bears (fuel : Nat) : (runToEnd callee fuel).Keeps Execution.Bears := by
  intro e
  unfold runToEnd
  split
  · exact Lasting.refl (R := Execution.Bears) e
  · exact Execution.run_bears hcallee 0 fuel 0 (e.onContext _)

/-- What a program in a new context adds to the background. -/
theorem runFresh_bears (fuel : Nat) (program : Program) (arguments : List Value) :
    (runFresh callee fuel program arguments).Keeps Bears :=
  runFresh_keeps_of (createContext_bears hcallee program arguments) fun _ =>
    (runToEnd_bears hcallee fuel _).mono fun _ h => ⟨h.commands, h.background⟩

/-- What the run of a program adds to the background. -/
theorem runProgram_bears (fuel : Nat) (program : Program) (arguments : List Value) :
    (runProgram callee fuel program arguments).Keeps Bears :=
  runProgram_keeps_of (fun h => ⟨h.commands, h.background⟩)
    (runFresh_bears hcallee fuel program arguments)

end Callee

/-- Running other scripts adds nothing but new contexts to the background, whatever the fuel. -/
theorem callee_bears (fuel : Nat) : (callee fuel).Bears := by
  induction fuel with
  | zero => exact ⟨fun _ _ _ => trivial, fun _ _ _ => trivial, fun h => by cases h⟩
  | succ fuel ih =>
    exact ⟨fun program arguments => runProgram_bears ih fuel program arguments,
      fun program arguments => createContext_bears ih program arguments,
      fun {program arguments m context m'} h => ⟨⟨fuel, program, arguments, m⟩, context, m', h, rfl⟩⟩

/-! ## Ticks -/

/-- What a turn adds to the background. -/
theorem takeTurn_bears (fuel : Nat) (seconds : Float) (context : Context) :
    (takeTurn fuel seconds context).Keeps Bears := by
  intro m
  have hrun : ∀ {e e' : Execution}, turnStart seconds context m = some e → e.Bears e' →
      m.Bears e'.machine := by
    intro e e' hstart hbears
    have hmachine := (turnStart_eq_some hstart).1
    unfold Execution.Bears at hbears
    rw [hmachine] at hbears
    exact ⟨hbears.commands, hbears.background⟩
  have hkeeps := Execution.run_bears (callee_bears fuel) m.settings.stepBudget fuel 0
  cases hturn : takeTurn fuel seconds context m with
  | exhausted => trivial
  | failed error n => exact absurd hturn (takeTurn_ne_failed fuel seconds context m n error)
  | done answer n =>
    rcases answer with ⟨after, turn⟩
    have hend : ∀ {k : Machine} (program : Nat), m.Bears k → m.Bears (k.endExecution program) :=
      fun _ h => ⟨h.commands, h.background⟩
    have hleave : ∀ {k : Machine}, m.Bears k → m.Bears k.leave := fun h => ⟨h.commands, h.background⟩
    cases takeTurn_ends hturn with
    | waiting hstart _ => exact Lasting.refl (R := Bears) m
    | stale hstart => exact hend _ (Lasting.refl m)
    | treeless hstart _ _ => exact hend _ (Lasting.refl m)
    | failed hstart hlast => exact hend _ (hleave (hrun hstart (hkeeps.of_failed hlast)))
    | parked hstart hlast => exact hleave (hrun hstart (hkeeps.of_done hlast))
    | halted hstart hlast => exact hend _ (hleave (hrun hstart (hkeeps.of_done hlast)))
    | completed hstart hlast => exact hleave (hrun hstart (hkeeps.of_done hlast))

/-- What the turns of some contexts add to the background. -/
theorem takeAll_bears (fuel : Nat) (seconds : Float) (contexts : List Context) :
    (takeAll fuel seconds contexts).Keeps Bears := by
  induction contexts with
  | nil => exact .pure _
  | cons context rest ih =>
    exact .bind .get fun _ => .bind (takeTurn_bears fuel seconds context) fun _ =>
      .bind ih fun _ => .pure _

/-- A tick puts new contexts behind those that stay, if some command creates contexts by itself. -/
theorem tickTurns_bears {fuel : Nat} {seconds : Float} {m m' : Machine} {turns : List TakenTurn}
    (h : tickTurns fuel seconds m = .done turns m') :
    ∃ added, m'.background = kept turns ++ added ∧
      ∀ context ∈ added, m.BackgroundsItself ∧ ∃ creation : Creation, creation.Makes context := by
  rcases exists_of_tickTurns h with ⟨n, hall, rfl⟩
  rcases ((takeAll_bears fuel seconds m.background).of_done hall).background with ⟨added, hadded, hborn⟩
  rw [List.nil_append] at hadded
  exact ⟨added, by rw [hadded], hborn⟩

/-- The turns of a tick were taken. -/
theorem isTaken_of_tickTurns {fuel : Nat} {seconds : Float} {m m' : Machine} {turns : List TakenTurn}
    (h : tickTurns fuel seconds m = .done turns m') {taken : TakenTurn} (hmem : taken ∈ turns) :
    taken.IsTaken fuel := by
  rcases (tickTurns_spec h).2.2 taken hmem with ⟨hseconds, -, hturn⟩
  rw [TakenTurn.IsTaken, hseconds]
  exact hturn

/-- What a tick adds to the background is new, and some command creates contexts by itself. -/
theorem tickTurns_adds {fuel : Nat} {seconds : Float} {m m' : Machine} {turns : List TakenTurn}
    (h : tickTurns fuel seconds m = .done turns m') :
    ∃ added, m'.background = kept turns ++ added ∧ ∀ context ∈ added, m.BackgroundsItself ∧
      m.contextCount < context.id ∧ context.IsNew ∧ ∃ creation : Creation, creation.Makes context := by
  rcases tickTurns_bears h with ⟨added, hadded, hborn⟩
  refine ⟨added, hadded, fun context hmem => ?_⟩
  rcases (tickTurns_spec h).2.1 with ⟨n, others, hgrows, hothers, rfl⟩
  rcases hgrows.background with ⟨-, new, hnew, hfresh, -⟩
  have hsame : added = new := by
    have happended : kept turns ++ added = kept turns ++ new := by
      rw [← hadded, ← hothers, hnew]
      rfl
    exact List.append_cancel_left happended
  rcases hfresh context (hsame ▸ hmem) with ⟨hnew, habove, -⟩
  rcases hborn context hmem with ⟨hbackgrounds, hmade⟩
  exact ⟨hbackgrounds, habove, hnew, hmade⟩

end Machine

/-! ## Requests -/

namespace Machine

/-- New contexts were put into the background, and nothing else happened to it. -/
def Receives (m m' : Machine) : Prop :=
  ∃ added, m'.background = m.background ++ added ∧
    ∀ context ∈ added, ∃ creation : Creation, creation.Makes context

theorem Bears.receives {m m' : Machine} (h : m.Bears m') : m.Receives m' := by
  rcases h.background with ⟨added, hadded, hborn⟩
  exact ⟨added, hadded, fun context hmem => (hborn context hmem).2⟩

/-- The background is the same. -/
theorem Receives.of_eq {m m' : Machine} (h : m'.background = m.background) : m.Receives m' :=
  ⟨[], by rw [h, List.append_nil], fun _ hmem => by cases hmem⟩

/-- What a machine notes about live contexts does not change. -/
theorem Receives.of_roll {m m' : Machine} (h : m'.roll = m.roll) : m.Receives m' :=
  .of_eq (congrArg (fun roll => roll.2.1) h)

instance : Lasting Receives where
  refl _ := .of_eq rfl
  trans h h' := by
    rcases h with ⟨first, hfirst, hmade⟩
    rcases h' with ⟨second, hsecond, hmade'⟩
    refine ⟨first ++ second, by rw [hsecond, hfirst, List.append_assoc], fun context hmem => ?_⟩
    exact (List.mem_append.1 hmem).elim (hmade context) (hmade' context)

/-- What a growing machine receives is new. -/
theorem Receives.exists_added {m m' : Machine} (h : m.Receives m') (hnew : Enlists m.contextCount m m') :
    ∃ added, m'.background = m.background ++ added ∧ ∀ context ∈ added,
      m.contextCount < context.id ∧ context.IsNew ∧ ∃ creation : Creation, creation.Makes context := by
  rcases h with ⟨added, hadded, hmade⟩
  rcases hnew with ⟨-, new, hbackground, hfresh, -⟩
  have hsame : added = new := List.append_cancel_left (hadded.symm.trans hbackground)
  refine ⟨added, hadded, fun context hmem => ?_⟩
  rcases hfresh context (hsame ▸ hmem) with ⟨hnew, habove, -⟩
  exact ⟨habove, hnew, hmade context hmem⟩

/-- Compiling leaves the background alone. -/
theorem compile_receives (path : Option String) (source : String) :
    (compile path source).Keeps Receives := by
  intro m
  unfold compile
  simp only
  split <;> exact Receives.of_eq rfl

/-- Compiling a file. -/
theorem compileFile_receives (path : String) : (compileFile path).Keeps Receives := by
  intro m
  unfold compileFile
  split
  · exact compile_receives _ _ m
  · exact Receives.of_eq rfl

/-- Letting go of a cached program. -/
theorem release_receives (program : Program) : (release program).Keeps Receives := by
  refine .get_bind fun m => ?_
  split
  · exact Lasting.refl (R := Receives) m
  · exact Receives.of_eq rfl

/-- Putting a new context into the background. -/
theorem sendToBackground_receives (fuel : Nat) (program : Program) (arguments : List Value) :
    (sendToBackground fuel program arguments).Keeps Receives := by
  intro m
  have hcallee := callee_bears fuel
  have hcreate := hcallee.create program arguments m
  simp only [sendToBackground, create, Action.bind_run]
  cases hrun : (callee fuel).create program arguments m with
  | exhausted => trivial
  | failed e n =>
    rw [hrun] at hcreate
    exact hcreate.receives
  | done context n =>
    rw [hrun] at hcreate
    refine Lasting.trans hcreate.receives ⟨[{ context with backgrounded := true }], rfl, ?_⟩
    intro other hmem
    cases List.mem_singleton.1 hmem
    exact hcallee.makes hrun

end Machine

namespace Session

open Machine (Receives)

/-- Between two sessions, new contexts were put into the background. -/
def Receives (s s' : Session) : Prop :=
  s.machine.Receives s'.machine

instance : Lasting Receives where
  refl s := Lasting.refl s.machine
  trans h h' := Lasting.trans (R := Machine.Receives) h h'

theorem onMachine_receives {f : Machine → Machine} (h : ∀ m : Machine, m.Receives (f m)) :
    (onMachine f).Keeps Receives :=
  .change fun s => h s.machine

theorem operate_receives {operation : Operation α} (h : operation.Keeps Machine.Receives) :
    (operate operation).Keeps Receives :=
  .mapError _ (.onPart h fun _ _ hreceives => hreceives)

theorem program_receives (name : String) : (program name).Keeps Receives := by
  unfold program
  refine .bind .get fun s => ?_
  split
  · exact .pure _
  · exact .fail _

theorem keepProgram_receives (name : String) (program : Program) :
    (keepProgram name program).Keeps Receives :=
  .bind (.change fun s => Lasting.refl s.machine) fun _ => .pure _

theorem keepValue_receives (name : String) (v : Value) : (keepValue name v).Keeps Receives :=
  .change fun s => Lasting.refl s.machine

theorem endContext_receives (s : Session) (name : String) : s.Receives (s.endContext name) := by
  unfold endContext
  split
  · exact Lasting.refl s
  · exact Machine.Receives.of_eq rfl

theorem compileInside_receives (name source : String) : (compileInside name source).Keeps Receives := by
  intro s
  have hsame := compileInside_same name source s
  exact hsame.mono fun t heq => heq ▸ Lasting.refl s

/-- An evaluation in a context. -/
theorem inside_receives (name : String) (line : Nat) {evaluation : Evaluation Value}
    (h : evaluation.Keeps Execution.Bears) : (inside name line evaluation).Keeps Receives := by
  intro s
  unfold inside
  rw [context_run]
  cases s.contexts.get? name with
  | none => exact Lasting.refl (R := Receives) s
  | some context =>
    have hbears := h ⟨s.machine, context⟩
    simp only
    cases hrun : evaluation ⟨s.machine, context⟩ with
    | exhausted => trivial
    | failed e t =>
      rw [hrun] at hbears
      exact Machine.Bears.receives hbears
    | done v t =>
      rw [hrun] at hbears
      exact Machine.Bears.receives hbears

/-- Requests that neither tick nor stop put only new contexts into the background. -/
theorem perform_receives (fuel : Nat) (request : Request) (hrequest : request.touchesBackground = false) :
    (perform fuel request).Keeps Receives := by
  have hcallee := Machine.callee_bears fuel
  cases request with
  | compile source name =>
    exact .bind (operate_receives (Machine.compile_receives _ _)) fun _ => keepProgram_receives _ _
  | compileFile path name =>
    exact .bind (operate_receives (Machine.compileFile_receives _)) fun _ => keepProgram_receives _ _
  | load script name =>
    exact .bind (operate_receives ((Machine.load_bears script).mono fun _ _ h => h.receives))
      fun _ => keepProgram_receives _ _
  | invalidate name =>
    refine .bind (program_receives name) fun program =>
      .bind (onMachine_receives fun m => .of_roll ?_) fun _ => .pure _
    unfold Machine.invalidate
    split <;> rfl
  | release name =>
    exact .bind (program_receives name) fun program =>
      .bind (operate_receives (Machine.release_receives program)) fun _ => .pure _
  | dropProgram name =>
    exact .bind .get fun _ => .bind (.change fun s => Lasting.refl s.machine) fun _ => .pure _
  | run name arguments keep =>
    refine .bind (program_receives name) fun program =>
      .bind (operate_receives ((hcallee.run program arguments).mono fun _ _ h => h.receives))
        fun result => ?_
    cases keep with
    | none => exact .bind (.pure _) fun _ => .pure _
    | some kept =>
      cases result with
      | none => exact .bind (.pure _) fun _ => .pure _
      | some v => exact .bind (keepValue_receives kept v) fun _ => .pure _
  | createContext name arguments kept =>
    exact .bind (program_receives name) fun program =>
      .bind (operate_receives ((hcallee.create program arguments).mono fun _ _ h => h.receives))
        fun _ => .bind (.change fun s => endContext_receives s kept) fun _ => .pure _
  | dropContext name =>
    exact .bind .get fun _ => .bind (.change fun s => endContext_receives s name) fun _ => .pure _
  | evaluate name source line =>
    exact .bind (compileInside_receives name source) fun code =>
      inside_receives name line (Expr.eval_keeps (fun _ _ h => h.bears) code
        fun command _ values => invoke_bears hcallee line command values)
  | invoke name command arguments line =>
    exact inside_receives name line (invoke_bears hcallee line command arguments)
  | background name arguments =>
    exact .bind (program_receives name) fun program =>
      .bind (operate_receives (Machine.sendToBackground_receives fuel program arguments)) fun _ =>
        .pure _
  | tick nanoseconds => cases hrequest
  | stop id => cases hrequest
  | setGlobal name value =>
    exact .bind .get fun _ => .bind (onMachine_receives fun _ => .of_eq rfl) fun _ => .pure _
  | removeGlobal name =>
    exact .bind .get fun _ =>
      .bind (onMachine_receives fun m => .of_roll (Machine.roll_removeGlobal m name)) fun _ => .pure _
  | saveGlobal global name =>
    exact .bind .get fun _ => .bind (keepValue_receives _ _) fun _ => .pure _
  | invalidateDependents symbol =>
    exact .bind (onMachine_receives fun m =>
      .of_roll (Machine.roll_invalidateDependents [symbol] m)) fun _ => .pure _
  | register command =>
    refine .get_bind fun s => ?_
    unfold Machine.register
    cases s.machine.commands.register command with
    | error e => exact Lasting.refl (R := Receives) s
    | ok commands => exact Machine.Receives.of_eq rfl
  | unregister name =>
    refine .get_bind fun s => ?_
    cases hunregister : s.machine.unregister name with
    | error e => exact Lasting.refl (R := Receives) s
    | ok pair => exact Machine.Receives.of_roll (Machine.roll_unregister hunregister)
  | write path entry => exact .bind (onMachine_receives fun _ => .of_eq rfl) fun _ => .pure _
  | delete path =>
    refine .get_bind fun s => ?_
    cases s.machine.files.delete? path.toList with
    | none => exact Lasting.refl (R := Receives) s
    | some files => exact Machine.Receives.of_eq rfl
  | raise => exact .bind (onMachine_receives fun _ => .of_eq rfl) fun _ => .pure _
  | log line => exact .bind (onMachine_receives fun _ => .of_eq rfl) fun _ => .pure _
  | takeConsole =>
    exact .bind .get fun _ => .bind (onMachine_receives fun _ => .of_eq rfl) fun _ => .pure _

end Session

/-! ## Histories -/

/-- Something holds of every new context, and every turn of a context that stays keeps it. -/
structure TurnInvariant (fuel : Nat) (Holds : List TakenTurn → Context → Prop) : Prop where
  made {creation : Creation} {context : Context} (hmade : creation.Makes context) : Holds [] context
  turned {turns : List TakenTurn} {taken : TakenTurn} (htaken : taken.IsTaken fuel)
    (hstays : taken.turn.stays = true) (h : Holds turns taken.before) :
    Holds (turns ++ [taken]) taken.after

namespace Machine

variable {fuel : Nat} {log : List (List TakenTurn)} {m m' : Machine}

/-- A context with a number that was not given yet has had no turn. -/
theorem Ledger.turnsOf_eq_nil (h : Ledger fuel log m) {id : Nat} (hnew : m.contextCount < id) :
    turnsOf id log = [] := by
  refine List.filter_eq_nil_iff.2 fun taken hmem heq => ?_
  have hbelow := h.logged taken hmem
  rw [(h.isTaken hmem).id, eq_of_beq heq] at hbelow
  omega

/-- Something holds of every context in the background and of its turns. -/
def Upholds (Holds : List TakenTurn → Context → Prop) (log : List (List TakenTurn)) (m : Machine) : Prop :=
  ∀ context ∈ m.background, Holds (turnsOf context.id log) context

variable {Holds : List TakenTurn → Context → Prop}

/-- New contexts come behind the others. -/
theorem Upholds.append (hinvariant : TurnInvariant fuel Holds) (h : Upholds Holds log m)
    (hledger : Ledger fuel log m) {added : List Context}
    (hbackground : m'.background = m.background ++ added)
    (hadded : ∀ context ∈ added, m.contextCount < context.id ∧
      ∃ creation : Creation, creation.Makes context) : Upholds Holds log m' := by
  intro context hmem
  rw [hbackground] at hmem
  rcases List.mem_append.1 hmem with hmem | hmem
  · exact h context hmem
  · rcases hadded context hmem with ⟨hnew, creation, hmade⟩
    rw [hledger.turnsOf_eq_nil hnew]
    exact hinvariant.made hmade

/-- A tick gives one turn to every context. -/
theorem Upholds.tick (hinvariant : TurnInvariant fuel Holds) {seconds : Float} {turns : List TakenTurn}
    (h : Upholds Holds log m) (hledger : Ledger fuel log m)
    (htick : tickTurns fuel seconds m = .done turns m') : Upholds Holds (log ++ [turns]) m' := by
  have htaken : ∀ taken ∈ turns, taken.IsTaken fuel := fun _ => isTaken_of_tickTurns htick
  have hbefore := (tickTurns_spec htick).1
  have hdistinct : (turns.map fun taken => taken.before.id).Nodup := by
    have hids := hledger.distinct
    rw [← hbefore, List.map_map] at hids
    exact hids
  have hkept : Upholds Holds (log ++ [turns]) { m with background := kept turns } := by
    intro context hmem
    rcases mem_kept hmem with ⟨taken, hin, hstays, rfl⟩
    have hold : taken.before ∈ m.background := hbefore ▸ List.mem_map_of_mem hin
    rw [(htaken taken hin).id, turnsOf_concat, filter_of_mem hdistinct hin]
    exact hinvariant.turned (htaken taken hin) hstays (h taken.before hold)
  rcases tickTurns_adds htick with ⟨added, hadded, hnew⟩
  refine hkept.append hinvariant (hledger.turned hbefore htaken) hadded fun context hmem => ?_
  rcases hnew context hmem with ⟨-, habove, -, hmade⟩
  exact ⟨habove, hmade⟩

end Machine

namespace Session

open Machine (Upholds)

variable {fuel : Nat} {first last : Session} {log : List (List TakenTurn)}
  {Holds : List TakenTurn → Context → Prop}

/-- A request other than a tick gives no turns. -/
theorem perform_upholds (hinvariant : TurnInvariant fuel Holds) {request : Request}
    (hother : ∀ nanoseconds, request ≠ .tick nanoseconds) {s : Session}
    (hledger : Machine.Ledger fuel log s.machine) (h : Upholds Holds log s.machine) :
    (perform fuel request s).Ends fun s' => Upholds Holds log s'.machine := by
  cases htouches : request.touchesBackground with
  | false =>
    have hreceives := perform_receives fuel request htouches s
    have henlists := perform_enlists fuel request htouches s
    refine (Outcome.Ends.and hreceives henlists).mono fun s' hboth => ?_
    rcases hboth.1.exists_added hboth.2 with ⟨added, hadded, hnew⟩
    refine h.append hinvariant hledger hadded fun context hmem => ?_
    rcases hnew context hmem with ⟨habove, -, hmade⟩
    exact ⟨habove, hmade⟩
  | true =>
    cases request with
    | tick nanoseconds => exact absurd rfl (hother nanoseconds)
    | stop id =>
      exact ((perform_stop fuel id) s).mono fun s' hthins context hmem =>
        h context (hthins.2.subset hmem)
    | _ => cases htouches

/-- Whatever holds of new contexts and is kept by turns holds of every context in the background. -/
theorem History.upholds (hinvariant : TurnInvariant fuel Holds) (hempty : first.machine.background = [])
    (h : History fuel first log last) : Upholds Holds log last.machine := by
  induction h with
  | start =>
    intro context hmem
    rw [hempty] at hmem
    cases hmem
  | tick nanoseconds h hturns ih => exact ih.tick hinvariant (h.ledger hempty) hturns
  | answered request h hother hperform ih =>
    have hends := perform_upholds hinvariant hother (h.ledger hempty) ih
    rwa [hperform] at hends
  | refused request h hother hperform ih =>
    have hends := perform_upholds hinvariant hother (h.ledger hempty) ih
    rwa [hperform] at hends

/-- In a tick it holds of every context that has a turn. -/
theorem History.upholds_turn (hinvariant : TurnInvariant fuel Holds) (hempty : first.machine.background = [])
    (h : History fuel first log last) {earlier later : List (List TakenTurn)} {turns : List TakenTurn}
    (hlog : log = earlier ++ turns :: later) {taken : TakenTurn} (hmem : taken ∈ turns) :
    taken.IsTaken fuel ∧ Holds (turnsOf taken.before.id earlier) taken.before := by
  rcases h.exists_tick hlog with ⟨s, nanoseconds, machine, hearlier, htick⟩
  have hold : taken.before ∈ s.machine.background := by
    rw [← (Machine.tickTurns_spec htick).1]
    exact List.mem_map_of_mem hmem
  exact ⟨Machine.isTaken_of_tickTurns htick hmem, hearlier.upholds hinvariant hempty taken.before hold⟩

end Session
end ScriptMachine
