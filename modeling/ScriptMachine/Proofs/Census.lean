import ScriptMachine.Proofs.Chronicle
import ScriptMachine.Proofs.Removing

/-!
# Who is alive

A context is alive from its creation until it is dropped: in the background, in the hands of the
host, waiting for its turn in a tick, or executing inside of other executions.  The machine only
keeps the program numbers of live contexts.  A scene shows the contexts themselves, and the
census of an operation lists the scenes through which it goes: before every step of a run, before
every initializer and before every call of a command, however deep.

Main results:

- {lit}`Scene.Tallies`: the machine counts the contexts that are alive, and numbers tell contexts
  and programs apart.
- {lit}`Scene.Precedes`: nothing that comes later has a number that was given before.
- {lit}`Machine.census`: the scenes of runs and of creations of contexts.
- {lit}`Session.record`: the scenes of a whole session.
-/

namespace ScriptMachine

/-! ## Scenes -/

/-- What is alive outside of a machine: the programs that the host holds, and all contexts that are
not in the background. -/
structure Company where
  programs : List Program
  contexts : List Context

/-- One more context is alive. -/
def Company.join (company : Company) (context : Context) : Company :=
  { company with contexts := context :: company.contexts }

/-- A machine and what is alive outside of it. -/
structure Scene where
  company : Company
  machine : Machine

namespace Scene

/-- The live contexts. -/
def live (x : Scene) : List Context :=
  x.company.contexts ++ x.machine.background

/-- The programs that the host, the cache or a live context holds. -/
def known (x : Scene) : List Program :=
  x.company.programs ++ x.live.map Context.program ++ x.machine.cache.map CacheEntry.program

/-- The machine counts the live contexts of every program, and numbers that were given tell
contexts and programs apart. -/
structure Tallies (x : Scene) : Prop where
  counted : x.machine.executing.Perm (x.live.map fun context => context.program.id)
  distinct : (x.live.map Context.id).Nodup
  numbered : ∀ context ∈ x.live, context.id ≤ x.machine.contextCount
  registered : ∀ program ∈ x.known, program.id ≤ x.machine.programCount
  unique : ∀ program ∈ x.known, ∀ other ∈ x.known, program.id = other.id → program = other

/-- A later scene: contexts and programs in it that were not there before have numbers that had not
been given before. -/
structure Precedes (x y : Scene) : Prop where
  contextCount : x.machine.contextCount ≤ y.machine.contextCount
  programCount : x.machine.programCount ≤ y.machine.programCount
  contexts : ∀ context ∈ y.live, context.id ≤ x.machine.contextCount →
    ∃ before ∈ x.live, before.id = context.id ∧ before.program = context.program
  programs : ∀ program ∈ y.known, program.id ≤ x.machine.programCount → program ∈ x.known

/-- A scene behind one in which the machine counts right. -/
def Leads (x y : Scene) : Prop :=
  x.Tallies → y.Tallies ∧ x.Precedes y

instance : Lasting Precedes where
  refl _ := ⟨Nat.le_refl _, Nat.le_refl _, fun context hmem _ => ⟨context, hmem, rfl, rfl⟩,
    fun _ hmem _ => hmem⟩
  trans {x y z} h h' := by
    refine ⟨Nat.le_trans h.contextCount h'.contextCount, Nat.le_trans h.programCount h'.programCount,
      fun context hmem hid => ?_, fun program hmem hid => ?_⟩
    · rcases h'.contexts context hmem (Nat.le_trans hid h.contextCount) with
        ⟨between, hbetween, hsame, hprogram⟩
      rcases h.contexts between hbetween (by rw [hsame]; exact hid) with
        ⟨before, hbefore, hsame', hprogram'⟩
      exact ⟨before, hbefore, hsame'.trans hsame, hprogram'.trans hprogram⟩
    · exact h.programs program
        (h'.programs program hmem (Nat.le_trans hid h.programCount)) hid

instance : Lasting Leads where
  refl x h := ⟨h, Lasting.refl x⟩
  trans h h' htallies :=
    have hfirst := h htallies
    have hsecond := h' hfirst.1
    ⟨hsecond.1, Lasting.trans hfirst.2 hsecond.2⟩

/-- The number of live contexts of a program is what the machine counts. -/
theorem Tallies.executionCount {x : Scene} (h : x.Tallies) (program : Nat) :
    x.machine.executionCount program =
      x.live.countP fun context => context.program.id == program := by
  unfold Machine.executionCount
  rw [h.counted.count_eq, List.count, List.countP_map]
  rfl

end Scene

/-! ## Trails -/

/-- Scenes of which each leads to the next, between a first and a last one. -/
inductive Trail : Scene → List Scene → Scene → Prop where
  | direct {x y : Scene} (h : x.Leads y) : Trail x [] y
  | past {x y z : Scene} {scenes : List Scene} (h : x.Leads y) (rest : Trail y scenes z) :
    Trail x (y :: scenes) z

namespace Trail

variable {x y z : Scene} {scenes more : List Scene}

/-- A trail may begin earlier. -/
theorem before (h : x.Leads y) (htrail : Trail y scenes z) : Trail x scenes z := by
  cases htrail with
  | direct hlast => exact .direct (Lasting.trans h hlast)
  | past hnext hrest => exact .past (Lasting.trans h hnext) hrest

/-- A trail behind a trail. -/
theorem append (h : Trail x scenes y) (h' : Trail y more z) : Trail x (scenes ++ more) z := by
  induction h with
  | direct hlast => exact h'.before hlast
  | past hnext _ ih => exact .past hnext (ih h')

/-- A trail may end later. -/
theorem behind (h : Trail x scenes y) (h' : y.Leads z) : Trail x scenes z := by
  simpa using h.append (.direct h')

/-- The first scene of a trail leads to the last. -/
theorem leads (h : Trail x scenes y) : x.Leads y := by
  induction h with
  | direct hlast => exact hlast
  | past hnext _ ih => exact Lasting.trans hnext ih

/-- In every scene of a trail the machine counts right, and no scene gives numbers again that were
given before. -/
theorem chronological (h : Trail x scenes y) (htallies : x.Tallies) :
    (∀ z ∈ scenes, z.Tallies ∧ x.Precedes z ∧ z.Precedes y) ∧ scenes.Pairwise Scene.Precedes := by
  induction h with
  | direct _ => simp
  | @past x y z scenes hnext hrest ih =>
    rcases hnext htallies with ⟨hsecond, hprecedes⟩
    rcases ih hsecond with ⟨hscenes, hpairwise⟩
    refine ⟨fun u hu => ?_, List.pairwise_cons.2 ⟨fun u hu => (hscenes u hu).2.1, hpairwise⟩⟩
    rcases List.mem_cons.1 hu with rfl | hu
    · exact ⟨hsecond, hprecedes, (hrest.leads hsecond).2⟩
    · rcases hscenes u hu with ⟨htally, hbefore, hbehind⟩
      exact ⟨htally, Lasting.trans hprecedes hbefore, hbehind⟩

end Trail

/-! ## Commands -/

/-- An execution among all that is alive. -/
def Company.scene (company : Company) (e : Execution) : Scene :=
  ⟨company.join e.context, e.machine⟩

/-- The scenes of runs of other scripts and of creations of contexts. -/
structure Census where
  run : Program → List Value → Company → Machine → List Scene
  create : Program → List Value → Company → Machine → List Scene

section Commands

variable (census : Census) (company : Company)

/-- The scenes of a built-in command: only one of them runs another script. -/
def Builtin.scenes (arguments : List Value) : Builtin → Execution → List Scene
  | .callScript =>
    Action.checked (Arguments.text arguments 0) fun name =>
      if maxParameters < (arguments.drop 1).length then fun _ => []
      else
        Action.followed (fun _ => []) (target name) fun found e =>
          match found with
          | .ok program => census.run program (arguments.drop 1) (company.join e.context) e.machine
          | .error _ => []
  | _ => fun _ => []

/-- The scenes of an action of the host: only one of them creates a context. -/
def HostAction.scenes (arguments : List Value) : HostAction → Execution → List Scene
  | .backgroundSelf => fun e =>
    census.create e.context.program arguments (company.join e.context) e.machine
  | _ => fun _ => []

/-- The scenes of a command. -/
def Command.scenes (arguments : List Value) (command : Command) : Execution → List Scene :=
  match command.action with
  | .builtin builtin => builtin.scenes census company arguments
  | .host action => action.scenes census company arguments

/-- The scenes of the call of a command by name, from the moment in which it is made. -/
def invokeScenes (name : String) (arguments : List Value) (e : Execution) : List Scene :=
  company.scene e ::
    match e.machine.commands.lookup? name with
    | none => []
    | some command =>
      Action.checked (checkArguments command.signature arguments)
        (fun _ => command.scenes census company arguments) e

end Commands

/-! ## Steps and runs -/

section Runs

variable (callee : Callee) (census : Census) (company : Company)

namespace Execution

/-- The scenes of the evaluation of a node. -/
def nodeScenes (node : Node) (e : Execution) : List Scene :=
  match node.code with
  | none => []
  | some code => code.listed (invoke callee node.line) (invokeScenes census company) e

/-- The scenes of a step. -/
def stepScenes (e : Execution) : List Scene :=
  company.scene e ::
    match e.evaluated? with
    | some node => nodeScenes callee census company node e
    | none => []

/-- The scenes of a run within a budget. -/
def runScenes (budget : Nat) : Nat → Nat → Execution → List Scene
  | 0, _ => fun _ => []
  | fuel + 1, taken =>
    Action.followed (stepScenes callee census company) (step callee) fun status =>
      match status with
      | .finished => fun _ => []
      | .running => if usedUp budget (taken + 1) then fun _ => [] else runScenes budget fuel (taken + 1)

end Execution

namespace Machine

open Execution

/-- The scenes of an initializer. -/
def prepareOneScenes (tree : Tree) (id : Nat) (e : Execution) : List Scene :=
  company.scene e ::
    match tree.node? id with
    | some node => nodeScenes callee census company node e
    | none => []

/-- The scenes of a list of initializers. -/
def prepareScenes (tree : Tree) : List Nat → Execution → List Scene
  | [] => fun _ => []
  | id :: rest =>
    Action.followed (prepareOneScenes callee census company tree id) (prepareOne callee tree id)
      fun _ => prepareScenes tree rest

/-- The scenes of the initializers of a program. -/
def initializerScenes (program : Program) : Execution → List Scene :=
  match program.tree with
  | none => fun _ => []
  | some tree => prepareScenes callee census company tree tree.initializers

/-- The scenes of the creation of a context. -/
def createScenes (program : Program) (arguments : List Value) (m : Machine) : List Scene :=
  let counted := { m with contextCount := m.contextCount + 1 }
  match counted.bindChecked program arguments with
  | .error _ => []
  | .ok locals =>
    initializerScenes callee census company program
      ⟨(counted.beginExecution program.id).enter,
        Context.create counted.contextCount program locals⟩

/-- The scenes of a run to the end. -/
def runToEndScenes (fuel : Nat) (context : Context) (m : Machine) : List Scene :=
  match context.program.tree with
  | none => []
  | some tree =>
    Execution.runScenes callee census company 0 fuel 0 ⟨m, context.beginRun tree.root⟩

/-- The scenes of a program in a new context. -/
def freshScenes (fuel : Nat) (program : Program) (arguments : List Value) : Machine → List Scene :=
  Action.followed (createScenes callee census company program arguments)
    (createContext callee program arguments) (runToEndScenes callee census company fuel)

/-- The scenes of a run of a program. -/
def programScenes (fuel : Nat) (program : Program) (arguments : List Value) (m : Machine) :
    List Scene :=
  if m.settings.maxCallDepth ≤ m.depth then []
  else freshScenes callee census company fuel program arguments m.enter

end Machine
end Runs

/-! ## Operations of the host -/

namespace Machine

open Execution

/-- The scenes of runs and of creations of contexts, with the fuel that they have. -/
def census : Nat → Census
  | 0 => ⟨fun _ _ _ _ => [], fun _ _ _ _ => []⟩
  | fuel + 1 => {
      run := fun program arguments company =>
        programScenes (callee fuel) (census fuel) company fuel program arguments
      create := fun program arguments company =>
        createScenes (callee fuel) (census fuel) company program arguments }

/-- The scenes of a turn. -/
def takeTurnScenes (fuel : Nat) (seconds : Float) (company : Company) (context : Context)
    (m : Machine) : List Scene :=
  match turnStart seconds context m with
  | none => []
  | some e => runScenes (callee fuel) (census fuel) company m.settings.stepBudget fuel 0 e

/-- The scenes of the turns of a list of contexts, behind the turns of those that have stayed. -/
def takeTurnsScenes (fuel : Nat) (seconds : Float) (company : Company) :
    List Context → List Context → Machine → List Scene
  | _, [] => fun _ => []
  | stayed, context :: rest =>
    Action.followed
      (takeTurnScenes fuel seconds { company with contexts := stayed ++ rest ++ company.contexts } context)
      (takeTurn fuel seconds context) fun (context, turn) =>
        takeTurnsScenes fuel seconds company (stayed ++ if turn.stays then [context] else []) rest

end Machine

namespace Session

/-- What a host holds. -/
def company (s : Session) : Company :=
  ⟨s.programs.held, s.contexts.held⟩

/-- The scene of a session. -/
def scene (s : Session) : Scene :=
  ⟨s.company, s.machine⟩

/-- What a host holds beside the context under a name. -/
def companyOf (name : String) (s : Session) : Company :=
  ⟨s.programs.held, (s.contexts.drop name).held⟩

/-- What is listed for an evaluation in the context under a name. -/
def insideScenes (name : String) (listed : Company → Execution → List Scene) (s : Session) :
    List Scene :=
  match s.contexts.get? name with
  | some context => listed (s.companyOf name) ⟨s.machine, context⟩
  | none => []

/-- What is listed for a use of the program under a name. -/
def programScenes (name : String) (listed : Program → Company → Machine → List Scene) (s : Session) :
    List Scene :=
  match s.programs.get? name with
  | some program => listed program s.company s.machine
  | none => []

end Session

/-- The scenes through which a request goes between the scene before it and the one behind it. -/
def Request.scenes (fuel : Nat) : Request → Session → List Scene
  | .run name arguments _ => Session.programScenes name fun program =>
    (Machine.census fuel).run program arguments
  | .createContext name arguments _ => Session.programScenes name fun program =>
    (Machine.census fuel).create program arguments
  | .background name arguments => Session.programScenes name fun program =>
    (Machine.census fuel).create program arguments
  | .evaluate name source line =>
    Action.followed (fun _ => []) (Session.compileInside name source) fun code =>
      Session.insideScenes name fun company =>
        code.listed (ScriptMachine.invoke (Machine.callee fuel) line)
          (invokeScenes (Machine.census fuel) company)
  | .invoke name command arguments _ => Session.insideScenes name fun company =>
    invokeScenes (Machine.census fuel) company command arguments
  | .tick nanoseconds => fun s =>
    Machine.takeTurnsScenes fuel (Machine.secondsOf nanoseconds) s.company [] s.machine.background
      { s.machine with background := [] }
  | _ => fun _ => []

/-- The scenes of a session in which some requests are made, whether they are answered or
refused.  Behind a request that does not end there is nothing. -/
def Session.record (fuel : Nat) : List Request → Session → List Scene
  | [], s => [s.scene]
  | request :: rest, s =>
    s.scene :: (request.scenes fuel s ++
      match (Session.perform fuel request s).state? with
      | some t => record fuel rest t
      | none => [])

end ScriptMachine
