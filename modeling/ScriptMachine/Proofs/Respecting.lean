import ScriptMachine.Proofs.Hosting
import ScriptMachine.Proofs.Upholding

/-!
# Requests keep a session orderly

A session is orderly from its start on: whatever a host asks for, the machine knows its programs
apart, their references are those of their code, and the valid programs in its cache are provided
with all their names.  A request can make programs stale, but no stale program becomes valid again,
and the cache loses a valid program only when the host releases it.

Main results:

- {lit}`Session.orderly_start`: a session starts orderly.
- {lit}`Session.perform_staysOrderly`: requests that take nothing out of the cache or the background.
- {lit}`Session.perform_respects`: what any request does to an orderly session.
-/

namespace ScriptMachine

open Text
open Machine (Holding)

/-! ## Orderly sessions -/

namespace Session

/-- The host holds a program under a name, or a context of it. -/
def Holds (s : Session) (program : Program) : Prop :=
  program ∈ s.programs.held ∨ ∃ context ∈ s.contexts.held, context.program = program

/-- The machine is orderly while the host holds its programs. -/
def Orderly (s : Session) : Prop :=
  s.machine.Orderly s.Holds

/-- An orderly session is orderly afterwards, and its machine has heeded what went away. -/
def StaysOrderly (s s' : Session) : Prop :=
  s.Orderly → s'.Orderly ∧ s.machine.Heeds s'.machine

instance : Lasting StaysOrderly where
  refl s h := ⟨h, Lasting.refl s.machine⟩
  trans h h' := fun horderly =>
    have hfirst := h horderly
    have hsecond := h' hfirst.1
    ⟨hsecond.1, Lasting.trans hfirst.2 hsecond.2⟩

/-- The programs that something holds are those that the machine knows or the host holds. -/
theorem mem_heldPrograms (s : Session) (program : Program) :
    program ∈ s.heldPrograms ↔ s.machine.Knows s.Holds program := by
  simp only [heldPrograms, Machine.Knows, Holds, List.mem_append, List.mem_map]
  grind

/-- Nothing is held when a session starts. -/
theorem orderly_start (settings : Settings) (files : FileSystem) :
    (start (.start settings files)).Orderly := by
  have hnone : ∀ program,
      ¬Machine.Knows (start (.start settings files)).Holds (.start settings files) program := by
    rintro program (hknown | hheld | ⟨context, hmem, -⟩)
    · exact List.not_mem_nil hknown
    · exact List.not_mem_nil hheld
    · exact List.not_mem_nil hmem
  exact ⟨.standard, fun program hknown => absurd hknown (hnone program),
    fun program hknown => absurd hknown (hnone program),
    fun program _ hknown => absurd hknown (hnone program),
    fun entry hmem => absurd hmem List.not_mem_nil⟩

/-! ### Steps -/

variable {α : Type} {s : Session}

/-- The host comes to hold nothing new while the machine stays orderly. -/
theorem StaysOrderly.of_machine {s' : Session}
    (hmachine : s.machine.StaysOrderly s.Holds s'.machine)
    (hheld : ∀ program, s'.Holds program → s.Holds program) : s.StaysOrderly s' := by
  intro h
  rcases hmachine h with ⟨hafter, hheeds⟩
  exact ⟨hafter.mono fun program hprogram => .inr (hheld program hprogram), hheeds⟩

/-- A change of the machine that keeps it orderly. -/
theorem onMachine_staysOrderly {f : Machine → Machine}
    (h : ∀ (held : Program → Prop) (m : Machine), m.StaysOrderly held (f m)) :
    (onMachine f).Keeps StaysOrderly :=
  .change fun s => .of_machine (h s.Holds s.machine) fun _ hprogram => hprogram

/-- An operation of the machine that keeps it orderly. -/
theorem operate_staysOrderly {operation : Operation α}
    (h : operation.Keeps (Machine.StaysOrderly s.Holds)) :
    (operate operation s).Ends s.StaysOrderly := by
  have hend := h s.machine
  rw [operate_run]
  cases hrun : operation s.machine with
  | exhausted => trivial
  | failed e m =>
    rw [hrun] at hend
    exact .of_machine hend fun _ hprogram => hprogram
  | done x m =>
    rw [hrun] at hend
    exact .of_machine hend fun _ hprogram => hprogram

/-- What is done with the program under a name is done with a held program. -/
theorem program_bind_staysOrderly {next : Program → HostStep α} {name : String}
    (h : ∀ (s : Session) (program : Program), s.Holds program →
      (next program s).Ends s.StaysOrderly) : (program name >>= next).Keeps StaysOrderly := by
  intro s
  rw [Action.bind_run, program_run]
  cases hfound : s.programs.get? name with
  | none => exact Lasting.refl (R := StaysOrderly) s
  | some program => exact h s program (.inl (Names.mem_held_of_get? hfound))

/-- An operation that answers with a program, which is kept. -/
theorem keep_staysOrderly {operation : Operation Program} (h : operation.Supplies) (name : String) :
    (operate operation >>= keepProgram name).Keeps StaysOrderly := by
  intro s
  rw [Action.bind_run, operate_run]
  cases hrun : operation s.machine with
  | exhausted => trivial
  | failed e m => exact fun horderly => (h s.Holds s.machine horderly).2 e m hrun
  | done program m =>
    intro horderly
    rcases (h s.Holds s.machine horderly).1 program m hrun with ⟨hafter, hheeds⟩
    refine ⟨hafter.mono fun other hother => .inr ?_, hheeds⟩
    rcases hother with hmem | hcontext
    · rcases Names.mem_held_set hmem with rfl | hmem
      · exact .inr rfl
      · exact .inl (.inl hmem)
    · exact .inl (.inr hcontext)

/-- Ending a context keeps the machine orderly, and the host holds nothing new. -/
theorem endContext_spec (s : Session) (name : String) :
    s.machine.StaysOrderly s.Holds (s.endContext name).machine ∧
      (s.endContext name).programs = s.programs ∧
        ∀ context ∈ (s.endContext name).contexts.held, context ∈ s.contexts.held := by
  unfold endContext
  cases s.contexts.get? name with
  | none => exact ⟨Lasting.refl _, rfl, fun _ hmem => hmem⟩
  | some context =>
    exact ⟨.of_library rfl, rfl,
      fun _ hmem => Names.mem_held_drop hmem⟩

/-- The host lets go of a context. -/
theorem endContext_staysOrderly (s : Session) (name : String) :
    s.StaysOrderly (s.endContext name) := by
  rcases endContext_spec s name with ⟨hmachine, hprograms, hcontexts⟩
  refine .of_machine hmachine fun program hprogram => ?_
  rcases hprogram with hmem | ⟨context, hmem, hcontext⟩
  · exact .inl (by rw [← hprograms]; exact hmem)
  · exact .inr ⟨context, hcontexts context hmem, hcontext⟩

/-- The host keeps a context of a program that it holds. -/
theorem keepContext_staysOrderly {context : Context} (hheld : s.Holds context.program)
    (name : String) : (keepContext name context s).Ends s.StaysOrderly := by
  rcases endContext_spec s name with ⟨hmachine, hprograms, hcontexts⟩
  refine .of_machine hmachine fun program hprogram => ?_
  rcases hprogram with hmem | ⟨other, hmem, hother⟩
  · exact .inl (by rw [← hprograms]; exact hmem)
  · rcases Names.mem_held_set hmem with rfl | hmem
    · rw [← hother]
      exact hheld
    · exact .inr ⟨other, hcontexts other hmem, hother⟩

/-- An evaluation in a context stays with the program of the context. -/
theorem inside_staysOrderly (name : String) (line : Nat) {evaluation : Evaluation Value}
    (h : ∀ held, evaluation.Keeps (Execution.StaysOrderly held)) :
    (inside name line evaluation).Keeps StaysOrderly := by
  intro s
  unfold inside
  rw [context_run]
  cases hfound : s.contexts.get? name with
  | none => exact Lasting.refl (R := StaysOrderly) s
  | some context =>
    have hheld : s.Holds context.program := .inr ⟨context, Names.mem_held_of_get? hfound, rfl⟩
    have hafter : ∀ e : Execution, Execution.StaysOrderly s.Holds ⟨s.machine, context⟩ e →
        s.StaysOrderly { s with machine := e.machine, contexts := s.contexts.set name e.context } := by
      intro e he
      refine .of_machine (he.machine hheld) fun program hprogram => ?_
      rcases hprogram with hmem | ⟨other, hmem, hother⟩
      · exact .inl hmem
      · rcases Names.mem_held_set hmem with rfl | hmem
        · rw [← hother, he.program]
          exact hheld
        · exact .inr ⟨other, hmem, hother⟩
    have hevaluation := h s.Holds ⟨s.machine, context⟩
    simp only
    cases heval : evaluation ⟨s.machine, context⟩ with
    | exhausted => trivial
    | failed cause e =>
      rw [heval] at hevaluation
      exact hafter e hevaluation
    | done v e =>
      rw [heval] at hevaluation
      exact hafter e hevaluation

theorem keepValue_staysOrderly (name : String) (v : Value) :
    (keepValue name v).Keeps StaysOrderly :=
  .change fun s => .of_machine (Lasting.refl s.machine) fun _ hprogram => hprogram

theorem compileInside_staysOrderly (name source : String) :
    (compileInside name source).Keeps StaysOrderly := by
  have hcontext : (context name).Keeps StaysOrderly := by
    intro s
    rw [context_run]
    cases s.contexts.get? name with
    | none => exact Lasting.refl (R := StaysOrderly) s
    | some context => exact Lasting.refl (R := StaysOrderly) s
  unfold compileInside
  refine .bind hcontext fun context => .bind .get fun s => ?_
  simp only
  split
  · exact .pure _
  · exact .fail _

end Session

/-! ## Requests that take nothing out -/

/-- Whether a request takes contexts out of the background, be it for a while, or a program out of
the cache. -/
def Request.takesOut : Request → Bool
  | .tick _ | .stop _ | .release _ => true
  | _ => false

namespace Machine

/-- Adding a command. -/
theorem register_staysOrderly {held : Program → Prop} {m m' : Machine} {command : Command}
    (h : m.register command = .ok m') : m.StaysOrderly held m' := by
  unfold register at h
  cases hregister : m.commands.register command with
  | error e =>
    rw [hregister] at h
    cases h
  | ok commands =>
    rw [hregister] at h
    cases h
    refine .of_adding (fun hassembled => hassembled.registered hregister) (fun other hmem => ?_)
      (fun _ hname => hname) rfl rfl (Nat.le_refl _) fun _ hid => hid
    unfold CommandTable.register at hregister
    split at hregister
    · cases hregister
    · cases hregister
      exact List.mem_append_left _ hmem

/-- Declaring a global. -/
theorem setGlobal_staysOrderly {held : Program → Prop} (m : Machine) (name : String) (v : Value) :
    m.StaysOrderly held (m.setGlobal name v) :=
  .of_adding id (fun _ hmem => hmem) (fun _ hname => Globals.contains_set m.globals hname name v) rfl rfl
    (Nat.le_refl _) fun _ hid => hid

/-- Marking a program as stale. -/
theorem invalidate_staysOrderly {held : Program → Prop} (m : Machine) (program : Program) :
    m.StaysOrderly held (m.invalidate program) := by
  unfold invalidate
  split
  · exact .of_same rfl (fun _ => rfl) rfl rfl (Nat.le_refl _) fun _ hid => List.mem_cons_of_mem _ hid
  · exact Lasting.refl m

end Machine

namespace Session

/-- Requests that take nothing out keep a session orderly. -/
theorem perform_staysOrderly (fuel : Nat) {request : Request} (hrequest : request.takesOut = false) :
    (perform fuel request).Keeps StaysOrderly := by
  have hcallee := Machine.callee_staysOrderly fuel
  -- A change of the machine that has nothing to do with programs.
  have hchange (f : Machine → Machine) (answer : Answer)
      (h : ∀ (held : Program → Prop) (m : Machine), m.StaysOrderly held (f m)) :
      (do onMachine f; return answer : HostStep Answer).Keeps StaysOrderly :=
    .bind (onMachine_staysOrderly h) fun _ => .pure _
  cases request with
  | compile source name => exact keep_staysOrderly (Machine.compile_supplies none source) name
  | compileFile path name => exact keep_staysOrderly (Machine.compileFile_supplies path) name
  | load script name => exact keep_staysOrderly (Machine.load_supplies script) name
  | invalidate name =>
    refine program_bind_staysOrderly fun s program _ => hchange _ _ (fun held m => ?_) s
    exact m.invalidate_staysOrderly program
  | release name => cases hrequest
  | dropProgram name =>
    refine .bind .get fun _ => .bind (.change fun s => ?_) fun _ => .pure _
    refine .of_machine (Lasting.refl s.machine) fun program hprogram => ?_
    exact hprogram.imp Names.mem_held_drop id
  | run name arguments keep =>
    refine program_bind_staysOrderly fun s program hheld =>
      Action.ends_bind_keeps (operate_staysOrderly (hcallee.run _ program arguments hheld))
        fun result => ?_
    cases keep with
    | none => exact .bind (.pure _) fun _ => .pure _
    | some kept =>
      cases result with
      | none => exact .bind (.pure _) fun _ => .pure _
      | some v => exact .bind (keepValue_staysOrderly kept v) fun _ => .pure _
  | createContext name arguments keep =>
    refine program_bind_staysOrderly fun s program hheld => ?_
    have hcreate : (operate (Machine.create fuel program arguments) s).Ends s.StaysOrderly :=
      operate_staysOrderly (hcallee.create _ program arguments hheld)
    rw [Action.bind_run]
    rw [operate_run] at hcreate ⊢
    cases hrun : Machine.create fuel program arguments s.machine with
    | exhausted => trivial
    | failed e m =>
      rw [hrun] at hcreate
      exact hcreate
    | done context m =>
      rw [hrun] at hcreate
      have hkept : (keepContext keep context { s with machine := m }).Ends
          (StaysOrderly { s with machine := m }) := by
        refine keepContext_staysOrderly ?_ keep
        rw [hcallee.created program arguments s.machine context m hrun]
        exact hheld
      refine (Action.ends_bind_keeps hkept fun _ => .pure _).mono fun t ht => ?_
      exact Lasting.trans (R := StaysOrderly) hcreate ht
  | dropContext name =>
    exact .bind .get fun _ => .bind (.change fun s => endContext_staysOrderly s name) fun _ => .pure _
  | evaluate name source line =>
    exact .bind (compileInside_staysOrderly name source) fun code =>
      inside_staysOrderly name line fun held => Expr.eval_staysOrderly hcallee line code
  | invoke name command arguments line =>
    exact inside_staysOrderly name line fun held => invoke_staysOrderly hcallee line command arguments
  | background name arguments =>
    exact program_bind_staysOrderly fun s program hheld =>
      Action.ends_bind_keeps (operate_staysOrderly
        (Machine.sendToBackground_staysOrderly fuel hheld arguments)) fun _ => .pure _
  | tick nanoseconds => cases hrequest
  | stop id => cases hrequest
  | setGlobal name value =>
    exact .bind .get fun _ => hchange _ _ fun held m => m.setGlobal_staysOrderly name value
  | removeGlobal name =>
    exact .bind .get fun _ => hchange _ _ fun held m => m.removeGlobal_staysOrderly name
  | saveGlobal global name =>
    exact .bind .get fun _ => .bind (keepValue_staysOrderly _ _) fun _ => .pure _
  | invalidateDependents symbol =>
    exact hchange _ _ fun held m => m.invalidateDependents_staysOrderly symbol
  | register command =>
    apply Action.Keeps.get_bind
    intro s
    cases hregister : s.machine.register command with
    | error e => exact Lasting.refl (R := StaysOrderly) s
    | ok machine => exact .of_machine (Machine.register_staysOrderly hregister) fun _ h => h
  | unregister name =>
    apply Action.Keeps.get_bind
    intro s
    cases hunregister : s.machine.unregister name with
    | error e => exact Lasting.refl (R := StaysOrderly) s
    | ok pair => exact .of_machine (Machine.unregister_staysOrderly hunregister) fun _ h => h
  | write path entry =>
    exact hchange _ _ fun held m => .of_library rfl
  | delete path =>
    apply Action.Keeps.get_bind
    intro s
    cases s.machine.files.delete? path.toList with
    | none => exact Lasting.refl (R := StaysOrderly) s
    | some files =>
      exact .of_machine (.of_library rfl) fun _ h => h
  | raise =>
    exact hchange _ _ fun held m => .of_library rfl
  | log line =>
    exact hchange _ _ fun held m => .of_library rfl
  | takeConsole =>
    exact .bind .get fun _ => hchange _ _ fun held m =>
      .of_library rfl

end Session

/-! ## All requests -/

namespace Request

/-- A request makes the cache let go of a program, which nothing runs. -/
def Releases (request : Request) (s : Session) (program : Program) : Prop :=
  ∃ name, request = .release name ∧ s.programs.get? name = some program ∧
    s.machine.executionCount program.id = 0

/-- The machine finds a program in its cache, or a context in the background runs it and is not
taken out of there by a tick. -/
def Watches (request : Request) (m : Machine) (program : Program) : Prop :=
  (∃ path, m.cached? path = some program) ∨
    ((∀ nanoseconds, request ≠ .tick nanoseconds) ∧
      ∃ context ∈ m.background, context.program = program)

end Request

namespace Session

/-- How a session may differ after a request: it is orderly, stale programs are still stale, the
cache has lost nothing but stale or released programs, and what refers to a global or a command
that went away has become stale. -/
structure Respects (request : Request) (s s' : Session) : Prop where
  orderly : s'.Orderly
  stale : ∀ id ∈ s.machine.stale, id ∈ s'.machine.stale
  cached : ∀ path program, s.machine.cached? path = some program →
    s'.machine.isValid program = true → ¬request.Releases s program →
      s'.machine.cached? path = some program
  bereft : ∀ program, request.Watches s.machine program →
    program.Bereft s.machine s'.machine → s'.machine.isValid program = false

variable {s : Session}

/-- A program that is valid afterwards was valid before. -/
theorem Respects.isValid {request : Request} {s' : Session} (h : s.Respects request s')
    {program : Program} (hvalid : s'.machine.isValid program = true) :
    s.machine.isValid program = true := by
  rw [Machine.isValid_iff] at hvalid ⊢
  exact ⟨hvalid.1, fun hstale => hvalid.2 (h.stale _ hstale)⟩

/-- A request that stays orderly respects everything. -/
theorem StaysOrderly.respects {request : Request} {s' : Session} (h : s.StaysOrderly s')
    (horderly : s.Orderly) : s.Respects request s' := by
  rcases h horderly with ⟨hafter, hheeds⟩
  refine ⟨hafter, hheeds.stale, fun path program hcached hvalid _ =>
    hheeds.cached path program hcached hvalid, fun program hwatches => hheeds.bereft program ?_⟩
  exact hwatches.imp id And.right

/-- Releasing a program takes it out of the cache, and nothing else. -/
theorem perform_release_respects (fuel : Nat) (name : String) (h : s.Orderly) :
    (perform fuel (.release name) s).Ends (s.Respects (.release name)) := by
  have hrefl : s.Respects (.release name) s :=
    StaysOrderly.respects (Lasting.refl (R := StaysOrderly) s) h
  simp only [perform, Action.bind_run, program_run]
  cases hfound : s.programs.get? name with
  | none => exact hrefl
  | some released =>
    simp only [operate_run, Machine.release, Action.bind_run, Action.get_run]
    by_cases hrunning : 0 < s.machine.executionCount released.id
    · rw [if_pos hrunning]
      exact hrefl
    · rw [if_neg hrunning]
      have hheld : s.Holds released := .inl (Names.mem_held_of_get? hfound)
      refine ⟨h.narrow rfl rfl rfl rfl (fun _ hmem => (List.mem_filter.1 hmem).1)
          (fun _ hmem => .inl (Machine.mem_known_of_background hmem)) fun _ hother => .inr hother,
        fun _ hid => hid, fun path program hcached hvalid hkept => ?_, fun program _ hbereft => ?_⟩
      · -- The numbers tell the released program from every other one in the cache.
        refine Machine.cached?_filter hcached fun entry hentry => bne_iff_ne.2 fun hid => hkept ?_
        have hknown : program ∈ s.machine.knownPrograms := Machine.Reaches.known (.inl ⟨path, hcached⟩)
        rw [hentry] at hid
        cases h.unique program released (.inl hknown) (.inr hheld) hid
        exact ⟨name, rfl, hfound, Nat.eq_zero_of_not_pos hrunning⟩
      · exact absurd hbereft (program.not_bereft (fun _ h => h) fun _ h => h)

/-- Stopping a context takes it out of the background, and nothing else. -/
theorem perform_stop_respects (fuel id : Nat) (h : s.Orderly) :
    (perform fuel (.stop id) s).Ends (s.Respects (.stop id)) := by
  simp only [perform, Action.bind_run, operate_run, Machine.stop, Action.get_run]
  cases s.machine.background.find? fun context => context.id == id with
  | none => exact StaysOrderly.respects (Lasting.refl (R := StaysOrderly) s) h
  | some context =>
    refine ⟨h.narrow rfl rfl rfl rfl (fun _ hmem => hmem) (fun other hmem => ?_)
        fun _ hother => .inr hother,
      fun _ hid => hid, fun _ _ hcached _ _ => hcached,
      fun program _ hbereft => absurd hbereft (program.not_bereft (fun _ h => h) fun _ h => h)⟩
    exact .inl (Machine.mem_known_of_background (List.mem_of_mem_eraseP hmem))

/-- A tick looks through the cache when something goes away in it. -/
theorem perform_tick_respects (fuel nanoseconds : Nat) (h : s.Orderly) :
    (perform fuel (.tick nanoseconds) s).Ends (s.Respects (.tick nanoseconds)) := by
  simp only [perform, Action.bind_run, operate_run]
  cases hrun : Machine.tick fuel (Machine.secondsOf nanoseconds) s.machine with
  | exhausted => trivial
  | failed e m => exact absurd hrun (Machine.tick_ne_failed _ _ _ _ _)
  | done report m =>
    rcases Machine.tick_upholds hrun h with ⟨hafter, hheeds⟩
    refine ⟨hafter, hheeds.stale, fun path program hcached hvalid _ =>
      hheeds.cached path program hcached hvalid, fun program hwatches hbereft => ?_⟩
    rcases hwatches with hcached | ⟨hnone, -⟩
    · exact hheeds.bereft program (.inl hcached) hbereft
    · exact absurd rfl (hnone nanoseconds)

/-- **Requests and programs.**  Whatever a host asks an orderly session for, the session stays
orderly, stale programs stay stale, only stale and released programs leave the cache, and what
refers to something that went away has become stale. -/
theorem perform_respects (fuel : Nat) (request : Request) (h : s.Orderly) :
    (perform fuel request s).Ends (s.Respects request) := by
  cases htakes : request.takesOut with
  | false =>
    exact (perform_staysOrderly fuel htakes s).mono fun s' hstays => hstays.respects h
  | true =>
    cases request with
    | tick nanoseconds => exact perform_tick_respects fuel nanoseconds h
    | stop id => exact perform_stop_respects fuel id h
    | release name => exact perform_release_respects fuel name h
    | _ => cases htakes

end Session
end ScriptMachine
