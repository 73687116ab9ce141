import ScriptMachine.Proofs.Depth
import ScriptMachine.Proofs.Retirement

/-!
# Calm between calls

Whoever leaves the outermost call forgets the global exception.  So as long as the host does not
raise it outside of all calls, it is not raised between two requests, nor when a context in the
background has its turn: the error of one context does not end another.

Main results:

- {lit}`Machine.tickTurns_calm`: every turn of a tick begins calm.
- {lit}`Session.perform_calm`: a request that raises nothing leaves the machine calm.
- {lit}`Session.Course`: the sessions to which such requests lead.
- {lit}`Session.Course.guards`: calm, depth and limits in all of them.
-/

namespace ScriptMachine

variable {α β : Type}

/-! ## Calm machines -/

namespace Machine

/-- Nothing is under way and the global exception is not raised. -/
structure Calm (m : Machine) : Prop where
  depth : m.depth = 0
  raised : m.raised = false

/-- A machine that was calm is calm again. -/
def StaysCalm (m m' : Machine) : Prop :=
  m.Calm → m'.Calm

instance : Lasting StaysCalm where
  refl _ h := h
  trans h h' hcalm := h' (h hcalm)

/-- Whatever has nothing to do with calls or the exception leaves a machine calm. -/
theorem Rests.staysCalm {m m' : Machine} (h : m.Rests m') : m.StaysCalm m' :=
  fun hcalm => ⟨h.depth.trans hcalm.depth, h.undecided.trans hcalm.raised⟩

/-- A machine that differs in neither the depth nor the exception. -/
theorem StaysCalm.of_eq {m m' : Machine} (hdepth : m'.depth = m.depth) (hraised : m'.raised = m.raised) :
    m.StaysCalm m' :=
  fun hcalm => ⟨hdepth.trans hcalm.depth, hraised.trans hcalm.raised⟩

/-- The machine is calm behind the outermost call. -/
theorem Calm.nested {m n : Machine} (h : m.Calm) (hgrows : m.enter.Grows n) : n.leave.Calm := by
  have hdeep : n.depth = 1 := hgrows.depth.trans (congrArg Nat.succ h.depth)
  refine ⟨?_, raised_leave_of_outermost hdeep⟩
  show n.depth - 1 = 0
  omega

/-- What settles and lets the machine grow leaves it calm. -/
theorem staysCalm_of_settles {operation : Operation α} (h : operation.Settles Undecided)
    (hgrows : operation.Keeps Grows) : operation.Keeps StaysCalm := by
  intro m
  have hsettles := h m
  have hend := hgrows m
  cases hrun : operation m with
  | done x n =>
    rw [hrun] at hsettles hend
    exact (Grows.rests hend hsettles).staysCalm
  | failed error n =>
    rw [hrun] at hsettles hend
    exact (Grows.rests hend hsettles).staysCalm
  | exhausted => trivial

section Runs

variable {callee : Callee} (hcallee : callee.Keeps)
include hcallee

/-- The creation of a context leaves the machine calm. -/
theorem createContext_calm (program : Program) (arguments : List Value) :
    (createContext callee program arguments).Keeps StaysCalm := by
  intro m
  have hbegun : m.StaysCalm (beginExecution { m with contextCount := m.contextCount + 1 } program.id) :=
    .of_eq rfl rfl
  cases hrun : createContext callee program arguments m with
  | exhausted => trivial
  | failed error n =>
    cases Creates.of_createContext hrun with
    | unbound => exact StaysCalm.of_eq rfl rfl
    | failed _ hprepare =>
      intro hcalm
      have hleft := (hbegun hcalm).nested ((prepare_evolves hcallee program).of_failed hprepare).machine
      exact ⟨hleft.depth, hleft.raised⟩
  | done context n =>
    cases Creates.of_createContext hrun with
    | done _ hprepare =>
      exact fun hcalm =>
        (hbegun hcalm).nested ((prepare_evolves hcallee program).of_done hprepare).machine

/-- The run of a program leaves the machine calm. -/
theorem runProgram_calm (fuel : Nat) (program : Program) (arguments : List Value) :
    (runProgram callee fuel program arguments).Keeps StaysCalm := by
  intro m
  have hfresh := runFresh_keeps hcallee fuel program arguments
  cases hrun : runProgram callee fuel program arguments m with
  | exhausted => trivial
  | failed error n =>
    cases RunsProgram.of_runProgram hrun with
    | refused => exact Lasting.refl (R := StaysCalm) m
    | failed _ hfailed => exact fun hcalm => hcalm.nested (hfresh.of_failed hfailed)
  | done result n =>
    cases RunsProgram.of_runProgram hrun with
    | done _ hdone => exact fun hcalm => hcalm.nested (hfresh.of_done hdone)

end Runs

/-- Whatever a host runs leaves the machine calm. -/
theorem callee_calm (fuel : Nat) (program : Program) (arguments : List Value) :
    ((callee fuel).run program arguments).Keeps StaysCalm ∧
      ((callee fuel).create program arguments).Keeps StaysCalm := by
  cases fuel with
  | zero => exact ⟨fun _ => trivial, fun _ => trivial⟩
  | succ fuel =>
    exact ⟨runProgram_calm (callee_keeps fuel) fuel program arguments,
      createContext_calm (callee_keeps fuel) program arguments⟩

/-! ### Turns -/

/-- A turn leaves the machine calm. -/
theorem takeTurn_calm {fuel : Nat} {seconds : Float} {context after : Context} {m m' : Machine}
    {turn : Turn} (h : takeTurn fuel seconds context m = .done (after, turn) m') :
    m.StaysCalm m' := by
  intro hcalm
  have hkeeps := Execution.run_continues (callee_keeps fuel) m.settings.stepBudget fuel 0
  have hleave : ∀ {e e' : Execution}, turnStart seconds context m = some e → e.Continues e' →
      e'.machine.leave.Calm := by
    intro e e' hstart hcontinues
    have hgrows := hcontinues.machine
    rw [(turnStart_eq_some hstart).1] at hgrows
    exact hcalm.nested hgrows
  have hend : ∀ {n : Machine} (program : Nat), n.Calm → (n.endExecution program).Calm :=
    fun _ h => ⟨h.depth, h.raised⟩
  cases takeTurn_ends h with
  | waiting => exact hcalm
  | stale => exact hend _ hcalm
  | treeless => exact hend _ hcalm
  | failed hstart hrun => exact hend _ (hleave hstart (hkeeps.of_failed hrun))
  | parked hstart hrun => exact hleave hstart (hkeeps.of_done hrun)
  | halted hstart hrun => exact hend _ (hleave hstart (hkeeps.of_done hrun))
  | completed hstart hrun => exact hleave hstart (hkeeps.of_done hrun)

/-- Every turn begins calm, and the machine is calm behind the last one. -/
theorem takeAll_calm {fuel : Nat} {seconds : Float} {contexts : List Context} {m m' : Machine}
    {turns : List TakenTurn} (h : takeAll fuel seconds contexts m = .done turns m') (hcalm : m.Calm) :
    m'.Calm ∧ ∀ taken ∈ turns, taken.machine.Calm := by
  induction contexts generalizing m turns with
  | nil =>
    cases h
    exact ⟨hcalm, by simp⟩
  | cons context rest ih =>
    rcases exists_of_takeAll_cons h with ⟨after, turn, n, others, hturn, hrest, rfl⟩
    rcases ih hrest (takeTurn_calm hturn hcalm) with ⟨hend, hothers⟩
    exact ⟨hend, fun taken hmem => (List.mem_cons.1 hmem).elim (fun h => h ▸ hcalm) (hothers taken)⟩

/-- Every turn of a tick begins calm, and the machine is calm behind the tick. -/
theorem tickTurns_calm {fuel : Nat} {seconds : Float} {m m' : Machine} {turns : List TakenTurn}
    (h : tickTurns fuel seconds m = .done turns m') (hcalm : m.Calm) :
    m'.Calm ∧ ∀ taken ∈ turns, taken.machine.Calm := by
  rcases exists_of_tickTurns h with ⟨n, hall, rfl⟩
  rcases takeAll_calm hall ⟨hcalm.depth, hcalm.raised⟩ with ⟨hend, hturns⟩
  exact ⟨⟨hend.depth, hend.raised⟩, hturns⟩

/-! ### Other operations -/

/-- Compiling a file leaves the machine calm. -/
theorem compileFile_calm (path : String) : (compileFile path).Keeps StaysCalm := by
  intro m
  unfold compileFile
  cases m.files.read path.toList with
  | ok source => exact staysCalm_of_settles (compile_settles _ _) (compile_keeps _ _) m
  | error e => exact StaysCalm.of_eq rfl rfl

/-- Making the cache let go of a program leaves the machine calm. -/
theorem release_calm (program : Program) : (release program).Keeps StaysCalm := by
  refine .get_bind fun m => ?_
  split
  · exact Lasting.refl (R := StaysCalm) m
  · exact StaysCalm.of_eq rfl rfl

/-- Stopping a context leaves the machine calm. -/
theorem stop_calm (id : Nat) : (stop id).Keeps StaysCalm := by
  refine .get_bind fun m => ?_
  cases m.background.find? fun context => context.id == id with
  | none => exact Lasting.refl (R := StaysCalm) m
  | some context => exact StaysCalm.of_eq rfl rfl

/-- Putting a new context into the background leaves the machine calm. -/
theorem sendToBackground_calm (fuel : Nat) (program : Program) (arguments : List Value) :
    (sendToBackground fuel program arguments).Keeps StaysCalm := by
  refine .bind (callee_calm fuel program arguments).2 fun context => ?_
  have hadd : (Action.change fun m : Machine => m.addBackground context : Operation Unit).Keeps
      StaysCalm := .change fun _ => .of_eq rfl rfl
  exact .bind hadd fun _ => .pure _

end Machine

/-! ## Requests -/

namespace Session

open Machine (Calm)

/-- A session whose machine was calm has a calm machine again. -/
def StaysCalm (s s' : Session) : Prop :=
  s.machine.StaysCalm s'.machine

instance : Lasting StaysCalm where
  refl s := Lasting.refl s.machine
  trans h h' := Lasting.trans (R := Machine.StaysCalm) h h'

/-- A change of the machine that leaves it calm. -/
theorem onMachine_calm {f : Machine → Machine} (h : ∀ m : Machine, m.StaysCalm (f m)) :
    (onMachine f).Keeps StaysCalm :=
  .change fun s => h s.machine

/-- An operation of the machine that leaves it calm. -/
theorem operate_calm {operation : Operation α} (h : operation.Keeps Machine.StaysCalm) :
    (operate operation).Keeps StaysCalm :=
  .mapError _ (.onPart h fun _ _ hcalm => hcalm)

theorem program_calm (name : String) : (program name).Keeps StaysCalm := by
  unfold program
  refine .bind .get fun s => ?_
  split
  · exact .pure _
  · exact .fail _

theorem keepProgram_calm (name : String) (program : Program) :
    (keepProgram name program).Keeps StaysCalm := by
  have hkeep : (Action.change fun s : Session =>
      { s with programs := s.programs.set name program } : HostStep Unit).Keeps StaysCalm :=
    .change fun s => Lasting.refl s.machine
  exact .bind hkeep fun _ => .pure _

theorem keepValue_calm (name : String) (v : Value) : (keepValue name v).Keeps StaysCalm :=
  .change fun s => Lasting.refl s.machine

theorem endContext_calm (s : Session) (name : String) : s.StaysCalm (s.endContext name) := by
  unfold endContext
  split
  · exact Lasting.refl s
  · exact Machine.StaysCalm.of_eq rfl rfl

theorem keepContext_calm (name : String) (context : Context) :
    (keepContext name context).Keeps StaysCalm :=
  .change fun s => endContext_calm s name

theorem compileInside_calm (name source : String) :
    (compileInside name source).Keeps StaysCalm := by
  have hcontext : (context name).Keeps StaysCalm := by
    intro s
    rw [context_run]
    cases s.contexts.get? name <;> exact Lasting.refl (R := StaysCalm) s
  unfold compileInside
  refine .bind hcontext fun context => .bind .get fun s => ?_
  simp only
  split
  · exact .pure _
  · exact .fail _

/-! ### Evaluations outside of calls -/

/-- What is listed for an evaluation in the context under a name. -/
def insideMoments (name : String) (listed : Execution → List Moment) (s : Session) : List Moment :=
  match s.contexts.get? name with
  | some context => listed ⟨s.machine, context⟩
  | none => []

end Session

/-- What happens while the host itself evaluates an expression or calls a command, with nothing
under way. -/
def Request.moments (fuel : Nat) : Request → Session → List Moment
  | .evaluate name source line =>
    Action.followed (fun _ => []) (Session.compileInside name source) fun code =>
      Session.insideMoments name (code.listed (ScriptMachine.invoke (Machine.callee fuel) line)
        (invokeMoments (Machine.observer fuel) []))
  | .invoke name command arguments _ =>
    Session.insideMoments name (invokeMoments (Machine.observer fuel) [] command arguments)
  | _ => fun _ => []

/-- With a request the host itself raises the global exception: it asks for that, or what it
evaluates does so outside of all calls. -/
def Request.Raises (fuel : Nat) (request : Request) (s : Session) : Prop :=
  request = .raise ∨ ∃ x ∈ request.moments fuel s, x.IsAlarm ∧ x.underway = []

namespace Session

/-- An evaluation that raises nothing outside of calls leaves the machine calm. -/
theorem inside_calm {name : String} {line : Nat} {evaluation : Evaluation Value}
    {listed : Execution → List Moment} {fuel : Nat} (htells : evaluation.Tells [] fuel listed)
    {s : Session} (hinside : ∀ x ∈ insideMoments name listed s, x.IsAlarm → x.underway ≠ []) :
    (inside name line evaluation s).Ends s.StaysCalm := by
  unfold inside
  rw [context_run]
  unfold insideMoments at hinside
  cases hcontext : s.contexts.get? name with
  | none => exact Lasting.refl (R := StaysCalm) s
  | some context =>
    rw [hcontext] at hinside
    simp only
    have htale := htells ⟨s.machine, context⟩
    cases heval : evaluation ⟨s.machine, context⟩ with
    | exhausted => trivial
    | failed cause e =>
      rw [heval] at htale
      exact fun hcalm => ⟨(Tale.endures htale).depth.trans hcalm.depth,
        Tale.calm htale hcalm.depth hcalm.raised hinside⟩
    | done v e =>
      rw [heval] at htale
      exact fun hcalm => ⟨(Tale.endures htale).depth.trans hcalm.depth,
        Tale.calm htale hcalm.depth hcalm.raised hinside⟩

/-- A request other than a tick leaves the machine calm if the host raises nothing with it. -/
theorem perform_calm {fuel : Nat} {request : Request} {s : Session}
    (hother : ∀ nanoseconds, request ≠ .tick nanoseconds) (hraises : ¬request.Raises fuel s) :
    (perform fuel request s).Ends s.StaysCalm := by
  have hcallee := Machine.callee_keeps fuel
  have hobserver := Machine.observer_tells fuel
  have hinside : ∀ x ∈ request.moments fuel s, x.IsAlarm → x.underway ≠ [] :=
    fun x hmem halarm hnone => hraises (.inr ⟨x, hmem, halarm, hnone⟩)
  -- A change of the machine that has nothing to do with calls.
  have hchange (f : Machine → Machine) (h : ∀ m : Machine, m.StaysCalm (f m)) (answer : Answer) :
      (do onMachine f; return answer : HostStep Answer).Keeps StaysCalm :=
    .bind (onMachine_calm h) fun _ => .pure _
  cases request with
  | compile source name =>
    have hcompile := Machine.staysCalm_of_settles (Machine.compile_settles none source)
      (Machine.compile_keeps none source)
    exact Action.Keeps.bind (operate_calm hcompile) (fun _ => keepProgram_calm _ _) s
  | compileFile path name =>
    exact Action.Keeps.bind (operate_calm (Machine.compileFile_calm path))
      (fun _ => keepProgram_calm _ _) s
  | load script name =>
    have hload := Machine.staysCalm_of_settles (Machine.load_settles script)
      (Machine.load_keeps script)
    exact Action.Keeps.bind (operate_calm hload) (fun _ => keepProgram_calm _ _) s
  | invalidate name =>
    refine Action.Keeps.bind (program_calm name) (fun program => hchange _ (fun m => ?_) _) s
    exact .of_eq (Machine.invalidate_grows m program).depth (by simp)
  | release name =>
    exact Action.Keeps.bind (program_calm name) (fun program =>
      .bind (operate_calm (Machine.release_calm program)) fun _ => .pure _) s
  | dropProgram name => exact Lasting.refl (R := Machine.StaysCalm) s.machine
  | run name arguments keep =>
    refine Action.Keeps.bind (program_calm name) (fun program =>
      .bind (operate_calm (Machine.callee_calm fuel program arguments).1) fun result => ?_) s
    cases keep with
    | none => exact .bind (.pure _) fun _ => .pure _
    | some kept =>
      cases result with
      | none => exact .bind (.pure _) fun _ => .pure _
      | some v => exact .bind (keepValue_calm kept v) fun _ => .pure _
  | createContext name arguments keep =>
    exact Action.Keeps.bind (program_calm name) (fun program =>
      .bind (operate_calm (Machine.callee_calm fuel program arguments).2) fun _ =>
        .bind (keepContext_calm _ _) fun _ => .pure _) s
  | dropContext name => exact endContext_calm s name
  | evaluate name source line =>
    have hcompile := compileInside_calm name source s
    simp only [perform, Action.bind_run]
    simp only [Request.moments, Action.followed, List.nil_append] at hinside
    cases hrun : compileInside name source s with
    | exhausted => trivial
    | failed e t =>
      rw [hrun] at hcompile
      exact hcompile
    | done code t =>
      rw [hrun] at hcompile hinside
      have htells := Expr.eval_tells (fun name values =>
        invoke_tells hobserver [] line values hcallee name) code
      exact (inside_calm htells hinside).mono fun u hu => Lasting.trans (R := StaysCalm) hcompile hu
  | invoke name command arguments line =>
    exact inside_calm (invoke_tells hobserver [] line arguments hcallee command) hinside
  | background name arguments =>
    exact Action.Keeps.bind (program_calm name) (fun program =>
      .bind (operate_calm (Machine.sendToBackground_calm fuel program arguments)) fun _ =>
        .pure _) s
  | tick nanoseconds => exact absurd rfl (hother nanoseconds)
  | stop id => exact Action.Keeps.bind (operate_calm (Machine.stop_calm id)) (fun _ => .pure _) s
  | setGlobal name value =>
    refine Action.Keeps.get_bind (fun s => hchange _ (fun m => ?_) _ s) s
    exact .of_eq rfl rfl
  | removeGlobal name =>
    refine Action.Keeps.get_bind (fun s => hchange _ (fun m => ?_) _ s) s
    exact .of_eq (Machine.removeGlobal_grows m name).depth (by simp)
  | saveGlobal global name =>
    exact Action.Keeps.get_bind (fun s =>
      Action.Keeps.bind (keepValue_calm _ _) (fun _ => .pure _) s) s
  | invalidateDependents symbol =>
    refine hchange _ (fun m => ?_) _ s
    exact .of_eq (Machine.invalidateDependents_grows m symbol).depth (by simp)
  | register command =>
    refine Action.Keeps.get_bind (R := StaysCalm) (fun s => ?_) s
    cases hregister : s.machine.register command with
    | error e => exact Lasting.refl (R := StaysCalm) s
    | ok machine =>
      unfold Machine.register at hregister
      split at hregister
      · cases hregister
      · cases hregister
        exact Machine.StaysCalm.of_eq rfl rfl
  | unregister name =>
    refine Action.Keeps.get_bind (R := StaysCalm) (fun s => ?_) s
    cases hunregister : s.machine.unregister name with
    | error e => exact Lasting.refl (R := StaysCalm) s
    | ok pair =>
      exact Machine.StaysCalm.of_eq (Machine.unregister_grows hunregister).depth
        (Machine.raised_unregister hunregister)
  | write path entry =>
    refine hchange _ (fun m => ?_) _ s
    exact .of_eq rfl rfl
  | delete path =>
    refine Action.Keeps.get_bind (R := StaysCalm) (fun s => ?_) s
    cases s.machine.files.delete? path.toList with
    | none => exact Lasting.refl (R := StaysCalm) s
    | some files => exact Machine.StaysCalm.of_eq rfl rfl
  | raise => exact absurd (.inl rfl) hraises
  | log line =>
    refine hchange _ (fun m => ?_) _ s
    exact .of_eq rfl rfl
  | takeConsole =>
    refine Action.Keeps.get_bind (fun s => hchange _ (fun m => ?_) _ s) s
    exact .of_eq rfl rfl

/-! ## Courses -/

/-- The sessions to which requests lead with which the host itself raises nothing, with the turns
of all ticks on the way. -/
inductive Course (fuel : Nat) (first : Session) : List (List TakenTurn) → Session → Prop where
  | start : Course fuel first [] first
  | tick {log : List (List TakenTurn)} {s : Session} {turns : List TakenTurn} {machine : Machine}
      (nanoseconds : Nat) (h : Course fuel first log s)
      (hturns : Machine.tickTurns fuel (Machine.secondsOf nanoseconds) s.machine =
        .done turns machine) :
      Course fuel first (log ++ [turns]) { s with machine := machine }
  | answered {log : List (List TakenTurn)} {s s' : Session} {answer : Answer} (request : Request)
      (h : Course fuel first log s) (hother : ∀ nanoseconds, request ≠ .tick nanoseconds)
      (hraises : ¬request.Raises fuel s) (hperform : perform fuel request s = .done answer s') :
      Course fuel first log s'
  | refused {log : List (List TakenTurn)} {s s' : Session} {refusal : Refusal} (request : Request)
      (h : Course fuel first log s) (hother : ∀ nanoseconds, request ≠ .tick nanoseconds)
      (hraises : ¬request.Raises fuel s) (hperform : perform fuel request s = .failed refusal s') :
      Course fuel first log s'

namespace Course

variable {fuel : Nat} {first last : Session} {log : List (List TakenTurn)}

/-- In a course that begins calm, the machine is calm between requests and before every turn. -/
theorem calm (h : Course fuel first log last) (hcalm : first.machine.Calm) :
    last.machine.Calm ∧ ∀ taken ∈ log.flatten, taken.machine.Calm := by
  induction h with
  | start => exact ⟨hcalm, by simp⟩
  | tick nanoseconds _ hturns ih =>
    rcases Machine.tickTurns_calm hturns ih.1 with ⟨hend, hall⟩
    exact ⟨hend, fun taken hmem => (mem_flatten_concat hmem).elim (ih.2 taken) (hall taken)⟩
  | answered request _ hother hraises hperform ih =>
    have hend := perform_calm hother hraises
    rw [hperform] at hend
    exact ⟨hend ih.1, ih.2⟩
  | refused request _ hother hraises hperform ih =>
    have hend := perform_calm hother hraises
    rw [hperform] at hend
    exact ⟨hend ih.1, ih.2⟩

/-- In a course that begins calm, the machine is calm between requests and before every turn.
Whatever is done next, at whatever depth, the depth is the same again behind it.  And if the host
does it with nothing but built-in commands, then at every moment the depth counts what is under way
and is at most one more than the limit, and at most as many runs as the limit are under way. -/
theorem guards (h : Course fuel first log last) (hcalm : first.machine.Calm) :
    last.machine.Calm ∧ (∀ taken ∈ log.flatten, taken.machine.Calm) ∧
      ∀ (task : Task) (calls : Nat), (∀ m : Machine, (task.perform calls m).Ends m.Level) ∧
        ((∀ command ∈ last.machine.commands.commands,
            ∃ builtin, command.action = .builtin builtin) →
          ∀ x ∈ task.moments calls last.machine, x.machine.depth = x.underway.length ∧
            x.machine.depth ≤ last.machine.settings.maxCallDepth + 1 ∧
            x.underway.count .run ≤ last.machine.settings.maxCallDepth) := by
  rcases h.calm hcalm with ⟨hlast, hturns⟩
  refine ⟨hlast, hturns, fun task calls => ⟨task.perform_level calls, fun hbuiltin x hmem => ?_⟩⟩
  have hcounted : ¬last.machine.BackgroundsItself := by
    rintro ⟨command, hcommand, haction⟩
    rcases hbuiltin command hcommand with ⟨builtin, hbuilt⟩
    rw [haction] at hbuilt
    cases hbuilt
  have hdepth := Task.depth_of_mem hmem hlast.depth
  have hadmissible := Task.admissible_of_mem hmem hlast.depth hcounted
  refine ⟨hdepth, ?_, hadmissible.count_run_le⟩
  rw [hdepth]
  exact hadmissible.length_le

/-- The turn of a context that reports an error begins calm and leaves the machine calm. -/
theorem guards_alarming : ∃ turns last, Course 3 alarming [turns] last ∧
    (∃ taken ∈ turns, taken.turn = .parked ∧ taken.machine.Calm) ∧ last.machine.Calm ∧
      ∀ task : Task, (task.perform 3 last.machine).Ends last.machine.Level := by
  have hquiet : ¬(Request.background "failing" []).Raises 3 alarming := by
    rintro (h | ⟨x, hmem, -⟩)
    · cases h
    · cases hmem
  have hstart : Course 3 alarming [] alarming := .start
  have hsent := hstart.answered (.background "failing" []) (by simp) hquiet rfl
  have hticked := hsent.tick 10000000 rfl
  rcases hticked.guards ⟨rfl, rfl⟩ with ⟨hlast, hturns, htasks⟩
  refine ⟨_, _, hticked, ⟨_, List.mem_singleton.2 rfl, rfl, ?_⟩, hlast, fun task => ?_⟩
  · exact hturns _ (List.mem_singleton.2 rfl)
  · exact (htasks task 3).1 _

end Course
end Session
end ScriptMachine
