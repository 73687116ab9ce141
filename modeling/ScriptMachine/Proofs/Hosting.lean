import ScriptMachine.Host.Session
import ScriptMachine.Proofs.Turns

/-!
# What a host can do to the background

Apart from ticks, a host changes the background in two ways: it stops a context, or some
request puts new contexts behind the others.  A history is a sequence of requests in which
the turns of every tick are kept.

Main results:

- {lit}`Session.perform_enlists`: requests that neither tick nor stop only add new contexts.
- {lit}`Session.perform_tick`: a tick is answered with the report on its turns.
- {lit}`Session.History`: the sessions that requests lead to, with the turns on the way.
-/

namespace ScriptMachine

open Machine (Enlists Grows)

/-! ## Requests without turns -/

/-- Whether a request gives turns to the background or takes a context out of it. -/
def Request.touchesBackground : Request → Bool
  | .tick _ | .stop _ => true
  | _ => false

namespace Session

/-- Between two sessions, new contexts were added to the background and nothing else happened
to it. -/
def Enlists (s s' : Session) : Prop :=
  Machine.Enlists s.machine.contextCount s.machine s'.machine

instance : Lasting Enlists where
  refl _ := .of_eq rfl rfl
  trans h h' := Machine.Enlists.trans h h'

/-- A change of the machine that leaves the background alone. -/
theorem onMachine_enlists {f : Machine → Machine}
    (h : ∀ m : Machine, Machine.Enlists m.contextCount m (f m)) : (onMachine f).Keeps Enlists :=
  .change fun s => h s.machine

/-- An operation of the machine that lets it grow. -/
theorem operate_enlists {α : Type} {operation : Operation α}
    (h : operation.Keeps Machine.Grows) : (operate operation).Keeps Enlists :=
  .mapError _ (.onPart h fun _ _ hgrows => hgrows.background)

/-- An operation of the machine changes nothing else of a session. -/
theorem operate_run {α : Type} (operation : Operation α) (s : Session) : operate operation s =
    match operation s.machine with
    | .done x m => .done x { s with machine := m }
    | .failed e m => .failed (.machine e) { s with machine := m }
    | .exhausted => .exhausted := by
  unfold operate
  rw [Action.mapError_run]
  unfold Action.onPart
  cases operation s.machine <;> rfl

/-- The program under a name is found, or the request is refused. -/
theorem program_run (name : String) (s : Session) : program name s =
    match s.programs.get? name with
    | some program => .done program s
    | none => .failed .noProgram s := by
  unfold program
  rw [Action.bind_run, Action.get_run]
  simp only
  cases s.programs.get? name <;> rfl

/-- The context under a name is looked up without any change. -/
theorem context_run (name : String) (s : Session) : context name s =
    match s.contexts.get? name with
    | some context => .done context s
    | none => .failed .noContext s := by
  unfold context
  rw [Action.bind_run, Action.get_run]
  simp only
  cases s.contexts.get? name <;> rfl

theorem program_enlists (name : String) : (program name).Keeps Enlists := by
  unfold program
  refine .bind .get fun s => ?_
  split
  · exact .pure _
  · exact .fail _

theorem context_enlists (name : String) : (context name).Keeps Enlists := by
  unfold context
  refine .bind .get fun s => ?_
  split
  · exact .pure _
  · exact .fail _

theorem keepProgram_enlists (name : String) (program : Program) :
    (keepProgram name program).Keeps Enlists :=
  .bind (.change fun _ => .of_eq rfl rfl) fun _ => .pure _

theorem keepValue_enlists (name : String) (v : Value) : (keepValue name v).Keeps Enlists :=
  .change fun _ => .of_eq rfl rfl

theorem endContext_enlists (s : Session) (name : String) : s.Enlists (s.endContext name) := by
  unfold endContext
  split
  · exact Lasting.refl s
  · exact .of_eq rfl rfl

theorem keepContext_enlists (name : String) (context : Context) :
    (keepContext name context).Keeps Enlists :=
  .change fun s => endContext_enlists s name

/-- An evaluation in a context. -/
theorem inside_enlists (name : String) (line : Nat) {evaluation : Evaluation Value}
    (h : evaluation.Keeps Execution.Evolves) : (inside name line evaluation).Keeps Enlists := by
  intro s
  unfold inside
  have hcontext := context_enlists name s
  cases hfound : context name s with
  | exhausted => trivial
  | failed e t =>
    rw [hfound] at hcontext
    exact hcontext
  | done context t =>
    rw [hfound] at hcontext
    have hgrows := h ⟨t.machine, context⟩
    simp only
    cases heval : evaluation ⟨t.machine, context⟩ with
    | exhausted => trivial
    | failed e execution =>
      rw [heval] at hgrows
      exact Machine.Enlists.trans hcontext hgrows.machine.background
    | done v execution =>
      rw [heval] at hgrows
      exact Machine.Enlists.trans hcontext hgrows.machine.background

theorem compileInside_enlists (name source : String) :
    (compileInside name source).Keeps Enlists := by
  unfold compileInside
  refine .bind (context_enlists name) fun context => .bind .get fun s => ?_
  simp only
  split
  · exact .pure _
  · exact .fail _

end Session

namespace Machine

/-- Compiling a file. -/
theorem compileFile_keeps (path : String) : (compileFile path).Keeps Grows := by
  intro m
  unfold compileFile
  cases m.files.read path.toList with
  | ok source => exact compile_keeps _ _ m
  | error e => exact Grows.of_eq rfl rfl id (fun _ h => h) rfl rfl

/-- Making the cache let go of a program. -/
theorem release_keeps (program : Program) : (release program).Keeps Grows := by
  apply Action.Keeps.get_bind
  intro m
  split
  · exact Lasting.refl m
  · exact Grows.of_eq rfl rfl id (fun _ h => h) rfl rfl

/-- Putting a new context into the background. -/
theorem sendToBackground_keeps (fuel : Nat) (program : Program) (arguments : List Value) :
    (sendToBackground fuel program arguments).Keeps Grows := by
  intro m
  have hkeeps := (callee_keeps fuel).create program arguments m
  simp only [sendToBackground, create, Action.bind_run]
  cases hcreate : (callee fuel).create program arguments m with
  | exhausted => trivial
  | failed e n =>
    rw [hcreate] at hkeeps
    exact hkeeps
  | done context n =>
    rw [hcreate] at hkeeps
    have hcreated := (callee_keeps fuel).created program arguments m context n hcreate
    exact hcreated.grows_addBackground hkeeps

/-- Adding a command. -/
theorem register_enlists {m m' : Machine} {command : Command} (h : m.register command = .ok m') :
    Enlists m.contextCount m m' := by
  unfold register at h
  cases hregister : m.commands.register command with
  | error e =>
    rw [hregister] at h
    cases h
  | ok commands =>
    rw [hregister] at h
    cases h
    exact .of_eq rfl rfl

/-- Contexts were taken out of the background and nothing else happened to it. -/
def Thins (m m' : Machine) : Prop :=
  m'.contextCount = m.contextCount ∧ m'.background.Sublist m.background

/-- Stopping a context takes it out of the background, if it is there. -/
theorem stop_thins (id : Nat) : (stop id).Keeps Thins := by
  apply Action.Keeps.get_bind
  intro m
  cases m.background.find? fun context => context.id == id with
  | none => exact ⟨rfl, .refl _⟩
  | some context => exact ⟨rfl, List.eraseP_sublist⟩

end Machine

namespace Session

/-- Requests that neither tick nor stop only add new contexts to the background. -/
theorem perform_enlists (fuel : Nat) (request : Request)
    (hrequest : request.touchesBackground = false) : (perform fuel request).Keeps Enlists := by
  cases request with
  | compile source name =>
    exact .bind (operate_enlists (Machine.compile_keeps _ _)) fun _ => keepProgram_enlists _ _
  | compileFile path name =>
    exact .bind (operate_enlists (Machine.compileFile_keeps _)) fun _ => keepProgram_enlists _ _
  | load script name =>
    exact .bind (operate_enlists (Machine.load_keeps _)) fun _ => keepProgram_enlists _ _
  | invalidate name =>
    refine .bind (program_enlists name) fun program =>
      .bind (onMachine_enlists fun m => ?_) fun _ =>
      .pure _
    exact (Machine.invalidate_grows m program).background
  | release name =>
    exact .bind (program_enlists name) fun program =>
      .bind (operate_enlists (Machine.release_keeps program)) fun _ => .pure _
  | dropProgram name =>
    exact .bind .get fun _ => .bind (.change fun _ => .of_eq rfl rfl) fun _ => .pure _
  | run name arguments keep =>
    refine .bind (program_enlists name) fun program =>
      .bind (operate_enlists ((Machine.callee_keeps fuel).run program arguments)) fun result => ?_
    cases keep with
    | none => exact .bind (.pure _) fun _ => .pure _
    | some kept =>
      cases result with
      | none => exact .bind (.pure _) fun _ => .pure _
      | some v => exact .bind (keepValue_enlists kept v) fun _ => .pure _
  | createContext name arguments keep =>
    exact .bind (program_enlists name) fun program =>
      .bind (operate_enlists ((Machine.callee_keeps fuel).create program arguments)) fun _ =>
        .bind (keepContext_enlists _ _) fun _ => .pure _
  | dropContext name =>
    exact .bind .get fun _ => .bind (.change fun s => endContext_enlists s name) fun _ => .pure _
  | evaluate name source line =>
    exact .bind (compileInside_enlists name source) fun code =>
      inside_enlists name line (Expr.eval_evolves (Machine.callee_keeps fuel) line code)
  | invoke name command arguments line =>
    exact inside_enlists name line
      (invoke_evolves (Machine.callee_keeps fuel) line command arguments)
  | background name arguments =>
    exact .bind (program_enlists name) fun program =>
      .bind (operate_enlists (Machine.sendToBackground_keeps fuel program arguments)) fun _ =>
        .pure _
  | tick nanoseconds => cases hrequest
  | stop id => cases hrequest
  | setGlobal name value =>
    exact .bind .get fun _ => .bind (onMachine_enlists fun _ => .of_eq rfl rfl) fun _ => .pure _
  | removeGlobal name =>
    refine .bind .get fun _ => .bind (onMachine_enlists fun m => ?_) fun _ => .pure _
    exact (Machine.removeGlobal_grows m name).background
  | saveGlobal global name =>
    exact .bind .get fun _ => .bind (keepValue_enlists _ _) fun _ => .pure _
  | invalidateDependents symbol =>
    refine .bind (onMachine_enlists fun m => ?_) fun _ => .pure _
    exact (Machine.invalidateDependents_grows m symbol).background
  | register command =>
    apply Action.Keeps.get_bind
    intro s
    cases hregister : s.machine.register command with
    | error e => exact Lasting.refl (R := Enlists) s
    | ok machine => exact Machine.register_enlists hregister
  | unregister name =>
    apply Action.Keeps.get_bind
    intro s
    cases hunregister : s.machine.unregister name with
    | error e => exact Lasting.refl (R := Enlists) s
    | ok pair => exact (Machine.unregister_grows hunregister).background
  | write path entry => exact .bind (onMachine_enlists fun _ => .of_eq rfl rfl) fun _ => .pure _
  | delete path =>
    apply Action.Keeps.get_bind
    intro s
    cases s.machine.files.delete? path.toList with
    | none => exact Lasting.refl (R := Enlists) s
    | some files => exact Machine.Enlists.of_eq rfl rfl
  | raise => exact .bind (onMachine_enlists fun _ => .of_eq rfl rfl) fun _ => .pure _
  | log line => exact .bind (onMachine_enlists fun _ => .of_eq rfl rfl) fun _ => .pure _
  | takeConsole =>
    exact .bind .get fun _ => .bind (onMachine_enlists fun _ => .of_eq rfl rfl) fun _ => .pure _

/-- Stopping a context only takes one out of the background. -/
theorem perform_stop (fuel id : Nat) :
    (perform fuel (.stop id)).Keeps fun s s' => s.machine.Thins s'.machine := by
  intro s
  have hstop := Machine.stop_thins id s.machine
  simp only [perform, operate, Action.bind_run, Action.mapError_run, Action.onPart]
  cases hrun : Machine.stop id s.machine with
  | done stopped m =>
    rw [hrun] at hstop
    exact hstop
  | failed e m =>
    rw [hrun] at hstop
    exact hstop
  | exhausted => trivial

/-! ## Histories -/

/-- A tick is answered with the report on its turns. -/
theorem perform_tick {fuel nanoseconds : Nat} {turns : List TakenTurn} {s : Session}
    {machine : Machine}
    (h : Machine.tickTurns fuel (Machine.secondsOf nanoseconds) s.machine = .done turns machine) :
    perform fuel (.tick nanoseconds) s =
      .done (.report (.ofTurns turns)) { s with machine := machine } := by
  have htick : Machine.tick fuel (Machine.secondsOf nanoseconds) s.machine =
      .done (.ofTurns turns) machine := by
    rw [Machine.tick_eq, Action.bind_run, h]
    rfl
  simp only [perform, operate, Action.bind_run, Action.mapError_run, Action.onPart, htick]
  rfl

/-- The sessions to which requests lead, with the turns of all ticks on the way.  Refused
requests count as well. -/
inductive History (fuel : Nat) (first : Session) : List (List TakenTurn) → Session → Prop where
  | start : History fuel first [] first
  | tick {log : List (List TakenTurn)} {s : Session} {turns : List TakenTurn} {machine : Machine}
      (nanoseconds : Nat) (h : History fuel first log s)
      (hturns : Machine.tickTurns fuel (Machine.secondsOf nanoseconds) s.machine =
        .done turns machine) :
      History fuel first (log ++ [turns]) { s with machine := machine }
  | answered {log : List (List TakenTurn)} {s s' : Session} {answer : Answer} (request : Request)
      (h : History fuel first log s) (hother : ∀ nanoseconds, request ≠ .tick nanoseconds)
      (hperform : perform fuel request s = .done answer s') : History fuel first log s'
  | refused {log : List (List TakenTurn)} {s s' : Session} {refusal : Refusal} (request : Request)
      (h : History fuel first log s) (hother : ∀ nanoseconds, request ≠ .tick nanoseconds)
      (hperform : perform fuel request s = .failed refusal s') : History fuel first log s'

end Session
end ScriptMachine
