import ScriptMachine.Proofs.Settling
import ScriptMachine.Proofs.Tale

/-!
# Every operation has its tale

Whatever a script or a host runs, its chronicle is put together from the pieces of a tale.  This
holds of calls, expressions, steps, runs and creations of contexts, one after the other, and for
those that run other scripts by induction on the fuel.  Inside of a call, with fuel enough for
the depth that calls can reach, fuel does not run out behind an alarm.

Main results:

- {lit}`Machine.Patient`: when there is fuel enough.
- {lit}`Expr.eval_tells`: the tale of an expression.
- {lit}`Execution.run_tells`: the tale of a run.
- {lit}`Machine.observer_tells`: the tale of everything that scripts and hosts can run.
-/

namespace ScriptMachine

variable {σ ε δ α β : Type}

/-! ## Rest -/

/-- The machine of an execution rests. -/
def Execution.Rests (e e' : Execution) : Prop :=
  e.machine.Rests e'.machine

instance : Lasting Execution.Rests where
  refl e := Lasting.refl e.machine
  trans h h' := Lasting.trans (R := Machine.Rests) h h'

/-- What settles and lets the machine grow leaves it at rest. -/
theorem Outcome.Settles.rests {outcome : Outcome Execution ε α} {e : Execution}
    (h : outcome.Settles e.Undecided)
    (hgrows : outcome.Ends fun t => e.machine.Grows t.machine) : outcome.Settles e.Rests := by
  cases outcome with
  | done x t => exact Machine.Grows.rests hgrows h
  | failed error t => exact Machine.Grows.rests hgrows h
  | exhausted => exact h

namespace Action.Settles

/-- What settles and evolves the execution leaves the machine at rest. -/
theorem rests {action : Action Execution ε α} (h : action.Settles Execution.Undecided)
    (hevolves : action.Keeps Execution.Evolves) : action.Settles Execution.Rests :=
  fun e => (h e).rests ((hevolves e).mono fun _ ht => ht.machine)

/-- What settles and requests nothing leaves the machine at rest. -/
theorem rests_of_quiet {action : Action Execution ε α} (h : action.Settles Execution.Undecided)
    (hquiet : action.Keeps Execution.Quiet) : action.Settles Execution.Rests :=
  h.rests (hquiet.mono fun _ _ hquiet => hquiet.toEvolves)

end Action.Settles

/-! ## Patience -/

/-- Inside of calls that are all counted, there is fuel enough for every call that the limit
allows. -/
structure Machine.Patient (m : Machine) (underway : List Activation) (fuel : Nat) : Prop where
  inside : underway ≠ []
  depth : m.depth = underway.length
  admissible : Admissible m.settings.maxCallDepth underway
  counted : ¬m.BackgroundsItself
  enough : m.settings.maxCallDepth + 2 ≤ m.depth + fuel

namespace Machine.Patient

variable {m n : Machine} {underway : List Activation} {fuel : Nat}

/-- Patience requires to be inside of a call. -/
theorem depth_pos (h : m.Patient underway fuel) : 0 < m.depth := by
  rw [h.depth]
  exact List.length_pos_iff.2 h.inside

/-- Patience requires fuel. -/
theorem fuel_pos (h : m.Patient underway fuel) : 0 < fuel := by
  have hlength := h.admissible.length_le
  have hdepth := h.depth
  have henough := h.enough
  omega

/-- Patience lasts. -/
theorem of_endures (h : m.Patient underway fuel) (hendures : m.Endures n) :
    n.Patient underway fuel where
  inside := h.inside
  depth := hendures.depth.trans h.depth
  admissible := by
    rw [hendures.settings]
    exact h.admissible
  counted hcounted := h.counted (hcounted.of_follows hendures.toFollows)
  enough := by
    rw [hendures.settings, hendures.depth]
    exact h.enough

/-- More fuel is fuel enough. -/
theorem mono {more : Nat} (h : m.Patient underway fuel) (hle : fuel ≤ more) :
    m.Patient underway more :=
  { h with enough := Nat.le_trans h.enough (Nat.add_le_add_left hle _) }

/-- The limit leaves fuel enough for a run. -/
theorem run (h : m.Patient underway (fuel + 1)) (hroom : m.depth < m.settings.maxCallDepth) :
    m.enter.Patient (.run :: underway) fuel where
  inside := List.cons_ne_nil _ _
  depth := congrArg Nat.succ h.depth
  admissible := h.admissible.run (by rw [← h.depth]; exact hroom)
  counted := h.counted
  enough := by
    have henough := h.enough
    show m.settings.maxCallDepth + 2 ≤ m.depth + 1 + fuel
    omega

/-- There is fuel enough for the creation of a context. -/
theorem creation (h : m.Patient underway (fuel + 1)) (hplace : HostsCreation underway) :
    m.enter.Patient (.creation :: underway) fuel where
  inside := List.cons_ne_nil _ _
  depth := congrArg Nat.succ h.depth
  admissible := h.admissible.creation hplace
  counted := h.counted
  enough := by
    have henough := h.enough
    show m.settings.maxCallDepth + 2 ≤ m.depth + 1 + fuel
    omega

end Machine.Patient

/-! ## Outcomes -/

/-- An outcome with the tale that leads to it.  On a condition, there was no alarm where the fuel
ran out. -/
def Outcome.Tells (machine : σ → Machine) (underway : List Activation) (own : Option Nat)
    (m : Machine) (patient : Prop) (told : List Moment) : Outcome σ ε α → Prop
  | .done _ s => Tale underway own m told (machine s)
  | .failed _ s => Tale underway own m told (machine s)
  | .exhausted => (∃ n, Tale underway own m told n) ∧
    (patient → m.raised = false ∧ ∀ x ∈ told, ¬x.IsAlarm)

namespace Outcome.Tells

variable {machine : σ → Machine} {underway : List Activation} {own : Option Nat} {m n : Machine}
  {patient strict : Prop} {told first second : List Moment} {outcome : Outcome σ ε α}

/-- Whatever the outcome, there is a tale of what was told. -/
theorem exists_tale (h : outcome.Tells machine underway own m patient told) :
    ∃ n, Tale underway own m told n := by
  cases outcome with
  | done x s => exact ⟨_, h⟩
  | failed e s => exact ⟨_, h⟩
  | exhausted => exact h.1

/-- What leaves the machine at rest has nothing to tell. -/
theorem of_settles (h : outcome.Settles fun s => m.Rests (machine s)) :
    outcome.Tells machine underway own m patient [] := by
  cases outcome with
  | done x s => exact .rest h
  | failed e s => exact .rest h
  | exhausted => exact False.elim h

/-- The tale goes on to the outcome behind a first part. -/
theorem append (hfirst : Tale underway own m first n)
    (hstop : own.isSome = true → n.raised = true → second = [])
    (hdepth : patient → 0 < m.depth) (hpatient : patient → strict)
    (h : outcome.Tells machine underway own n strict second) :
    outcome.Tells machine underway own m patient (first ++ second) := by
  cases outcome with
  | done x s => exact hfirst.append hstop h
  | failed e s => exact hfirst.append hstop h
  | exhausted =>
    rcases h with ⟨⟨k, hsecond⟩, hquiet⟩
    exact ⟨⟨k, hfirst.append hstop hsecond⟩, fun hp =>
      hfirst.quiet_append (hdepth hp) (hquiet (hpatient hp))⟩

/-- The tale goes on in a context that the first part has created. -/
theorem owned {context : Nat} (hnew : m.contextCount < context) (hlive : context ≤ n.contextCount)
    (hfirst : Tale underway none m first n) (hstop : n.raised = true → second = [])
    (hdepth : patient → 0 < m.depth) (hpatient : patient → strict)
    (h : outcome.Tells machine underway (some context) n strict second) :
    outcome.Tells machine underway none m patient (first ++ second) := by
  cases outcome with
  | done x s => exact .owned hnew hlive hfirst hstop h
  | failed e s => exact .owned hnew hlive hfirst hstop h
  | exhausted =>
    rcases h with ⟨⟨k, hsecond⟩, hquiet⟩
    exact ⟨⟨k, .owned hnew hlive hfirst hstop hsecond⟩, fun hp =>
      hfirst.quiet_append (hdepth hp) (hquiet (hpatient hp))⟩

/-- The evaluation of a node is told in front of what happens during the evaluation. -/
theorem evaluated {context : Nat} (node : Node)
    (h : outcome.Tells machine underway none m patient told) :
    outcome.Tells machine underway (some context) m patient
      (⟨underway, m, .evaluation context node⟩ :: told) := by
  cases outcome with
  | done x s => exact .evaluated node h
  | failed e s => exact .evaluated node h
  | exhausted =>
    rcases h with ⟨⟨k, htold⟩, hquiet⟩
    refine ⟨⟨k, .evaluated node htold⟩, fun hp => ⟨(hquiet hp).1, fun x hmem => ?_⟩⟩
    rcases List.mem_cons.1 hmem with rfl | hmem
    · exact fun halarm => by cases halarm
    · exact (hquiet hp).2 x hmem

/-- The wrapping of an error is not told. -/
theorem mapError {action : Action σ ε α} {f : ε → δ} {s : σ}
    (h : (action s).Tells machine underway own m patient told) :
    (Action.mapError f action s).Tells machine underway own m patient told := by
  rw [Action.mapError_run]
  cases hrun : action s <;> rw [hrun] at h <;> exact h

/-- What leaves the machine at rest adds nothing to the tale. -/
theorem bind_settles {action : Action σ ε α} {next : α → Action σ ε β} {s : σ}
    (h : (action s).Tells machine underway own m patient told)
    (hnext : ∀ x, (next x).Settles fun s t => (machine s).Rests (machine t)) :
    ((action >>= next) s).Tells machine underway own m patient told := by
  rw [Action.bind_run]
  cases hrun : action s with
  | done x t =>
    rw [hrun] at h
    have hlast := hnext x t
    simp only
    cases hrest : next x t with
    | done y u =>
      rw [hrest] at hlast
      exact Tale.extend h hlast
    | failed e u =>
      rw [hrest] at hlast
      exact Tale.extend h hlast
    | exhausted =>
      rw [hrest] at hlast
      exact False.elim hlast
  | failed e t =>
    rw [hrun] at h
    exact h
  | exhausted =>
    rw [hrun] at h
    exact h

/-- A sequence tells what its parts tell, one after the other. -/
theorem bind {action : Action σ ε α} {next : α → Action σ ε β} {first : σ → List Moment}
    {behind : α → σ → List Moment} {s : σ}
    (h : (action s).Tells machine underway own (machine s) patient (first s))
    (hdepth : patient → 0 < (machine s).depth)
    (hnext : ∀ x t, action s = .done x t → Tale underway own (machine s) (first s) (machine t) →
      (own.isSome = true → (machine t).raised = true → behind x t = []) ∧
      ∃ strict : Prop, (patient → strict) ∧
        (next x t).Tells machine underway own (machine t) strict (behind x t)) :
    ((action >>= next) s).Tells machine underway own (machine s) patient
      (Action.followed first action behind s) := by
  rw [Action.bind_run]
  unfold Action.followed
  cases hrun : action s with
  | done x t =>
    rw [hrun] at h
    rcases hnext x t hrun h with ⟨hstop, strict, hpatient, hlast⟩
    exact append h hstop hdepth hpatient hlast
  | failed e t =>
    rw [hrun] at h
    simp only [List.append_nil]
    exact h
  | exhausted =>
    rw [hrun] at h
    simp only [List.append_nil]
    exact h

end Outcome.Tells

/-! ## Actions -/

/-- An action has its tale in every execution, with some fuel for the scripts that it calls. -/
def Action.Tells (underway : List Activation) (fuel : Nat) (told : Execution → List Moment)
    (action : Action Execution ε α) : Prop :=
  ∀ e, (action e).Tells Execution.machine underway none e.machine (e.machine.Patient underway fuel)
    (told e)

namespace Action.Tells

variable {underway : List Activation} {fuel : Nat} {told : Execution → List Moment}

/-- What leaves the machine at rest has nothing to tell. -/
theorem of_settles {action : Action Execution ε α} (h : action.Settles Execution.Rests) :
    action.Tells underway fuel fun _ => [] :=
  fun e => .of_settles (h e)

/-- A sequence tells what its parts tell, one after the other. -/
theorem bind {action : Action Execution ε α} {next : α → Action Execution ε β}
    {behind : α → Execution → List Moment} (h : action.Tells underway fuel told)
    (hnext : ∀ x, (next x).Tells underway fuel (behind x)) :
    (action >>= next).Tells underway fuel (Action.followed told action behind) := by
  intro e
  refine .bind (h e) (fun hpatient => hpatient.depth_pos) fun x t _ htale => ?_
  refine ⟨fun hown => ?_, _, fun hpatient => hpatient.of_endures htale.endures, hnext x t⟩
  cases hown

/-- What leaves the machine at rest adds nothing to the tale. -/
theorem bind_settles {action : Action Execution ε α} {next : α → Action Execution ε β}
    (h : action.Tells underway fuel told) (hnext : ∀ x, (next x).Settles Execution.Rests) :
    (action >>= next).Tells underway fuel told :=
  fun e => .bind_settles (h e) hnext

/-- Behind a check comes the tale of its result. -/
theorem ofExcept_bind {result : Except ε α} {next : α → Action Execution ε β}
    {behind : α → Execution → List Moment} (hnext : ∀ x, (next x).Tells underway fuel (behind x)) :
    (Action.ofExcept result >>= next).Tells underway fuel (Action.checked result behind) := by
  intro e
  cases result with
  | ok x => exact hnext x e
  | error error => exact .rest (Lasting.refl e.machine)

end Action.Tells

/-! ## Commands -/

/-- What runs and creations of contexts have to tell, with some fuel for the scripts that they
call. -/
structure Observer.Tells (observer : Observer) (callee : Callee) (fuel : Nat) : Prop where
  run : ∀ program arguments underway m, (callee.run program arguments m).Tells id underway none m
    (m.Patient underway fuel) (observer.run program arguments underway m)
  create : ∀ program arguments underway m, HostsCreation underway ∨ m.BackgroundsItself →
    (callee.create program arguments m).Tells id underway none m (m.Patient underway fuel)
      (observer.create program arguments underway m)

/-- An operation of the machine on behalf of a context. -/
theorem CommandStep.operate_tells {operation : Operation α} {underway : List Activation}
    {own : Option Nat} {patient : Prop} {told : List Moment} {e : Execution}
    (h : (operation e.machine).Tells id underway own e.machine patient told) :
    (operate operation e).Tells Execution.machine underway own e.machine patient told := by
  unfold operate
  rw [Action.attempt_run]
  unfold Action.onPart
  cases hrun : operation e.machine <;> rw [hrun] at h <;> exact h

section Calls

open Execution CommandStep

variable {callee : Callee} {observer : Observer} {fuel : Nat}
  (hobserver : observer.Tells callee fuel) (underway : List Activation) (line : Nat)
  (arguments : List Value)

/-- The command that raises the exception. -/
theorem Builtin.doRaise_tells : (doRaise line arguments).Tells underway fuel
    (Action.checked (Arguments.text arguments 0) fun _ => alarmMoments underway) := by
  refine .ofExcept_bind fun message e => ?_
  exact Tale.alarm ⟨⟨rfl, fun _ h => h, Nat.le_refl _⟩, rfl, fun _ _ => rfl⟩ rfl

include hobserver

/-- The command that runs another script. -/
theorem Builtin.doCall_tells : (doCall callee arguments).Tells underway fuel
    (Builtin.moments observer underway arguments .callScript) := by
  refine .ofExcept_bind fun name => ?_
  simp only
  split
  · exact .of_settles (.fail _)
  · have htarget := (target_settles name).rests_of_quiet (target_quiet name)
    refine .bind (.of_settles htarget) fun found => ?_
    cases found with
    | error e => exact .of_settles (.pure _)
    | ok program =>
      refine .bind_settles (fun e => operate_tells (hobserver.run program _ underway e.machine))
        fun result => ?_
      split <;> exact .pure _

/-- Creating a context of the running program. -/
theorem HostAction.backgroundRunning_tells {e : Execution} (h : e.machine.BackgroundsItself) :
    (backgroundRunning callee arguments e).Tells Execution.machine underway none e.machine
      (e.machine.Patient underway fuel)
      (observer.create e.context.program arguments underway e.machine) := by
  have hcreate := operate_tells (hobserver.create e.context.program arguments underway e.machine
    (.inr h))
  refine hcreate.bind_settles fun result => ?_
  cases result with
  | error error => exact Action.Settles.fail (R := Rests) _
  | ok context =>
    refine Action.Settles.bind (R := Rests) (.change fun _ => ?_) fun _ => .pure _
    exact ⟨⟨rfl, fun _ h => h, Nat.le_refl _⟩, rfl, rfl⟩

/-- What a built-in command has to tell. -/
theorem Builtin.perform_tells (hcallee : callee.Keeps) (builtin : Builtin) :
    (builtin.perform callee line arguments).Tells underway fuel
      (builtin.moments observer underway arguments) := by
  by_cases hsettles : builtin.SettlesItself
  · have hnone : builtin.moments observer underway arguments = fun _ => [] := by
      cases builtin with
      | callScript => exact absurd rfl hsettles.1
      | raiseError => exact absurd rfl hsettles.2
      | _ => rfl
    rw [hnone]
    exact .of_settles ((perform_settles callee line arguments hsettles).rests
      (perform_evolves hcallee line arguments builtin))
  · cases builtin with
    | callScript => exact doCall_tells hobserver underway arguments
    | raiseError => exact doRaise_tells underway line arguments
    | _ => exact absurd ⟨by decide, by decide⟩ hsettles

/-- What an action of the host has to tell. -/
theorem HostAction.perform_tells (hcallee : callee.Keeps) {e : Execution} (action : HostAction)
    (hbackground : action = .backgroundSelf → e.machine.BackgroundsItself) :
    (action.perform callee arguments e).Tells Execution.machine underway none e.machine
      (e.machine.Patient underway fuel) (action.moments observer underway arguments e) := by
  by_cases hsettles : action.SettlesItself
  · have hnone : action.moments observer underway arguments = fun _ => [] := by
      cases action with
      | backgroundSelf => exact absurd rfl hsettles.1
      | raise => exact absurd rfl hsettles.2
      | _ => rfl
    rw [hnone]
    exact .of_settles ((perform_settles callee arguments hsettles).rests_of_quiet
      (perform_quiet hcallee arguments action) e)
  · cases action with
    | backgroundSelf => exact backgroundRunning_tells hobserver underway arguments (hbackground rfl)
    | raise => exact Tale.alarm ⟨⟨rfl, fun _ h => h, Nat.le_refl _⟩, rfl, fun _ _ => rfl⟩ rfl
    | _ => exact absurd ⟨by simp, by simp⟩ hsettles

/-- What the call of a command by name has to tell. -/
theorem invoke_tells (hcallee : callee.Keeps) (name : String) :
    (invoke callee line name arguments).Tells underway fuel
      (invokeMoments observer underway name arguments) := by
  intro e
  unfold invoke invokeMoments
  rw [Action.bind_run, Action.get_run]
  simp only
  cases hlookup : e.machine.commands.lookup? name with
  | none => exact .rest (Lasting.refl e.machine)
  | some command =>
    have hmem := (CommandTable.lookup?_mem _ _ _ hlookup).1
    have hperform : (command.perform callee line arguments e).Tells Execution.machine underway none
        e.machine (e.machine.Patient underway fuel)
        (command.moments observer underway arguments e) := by
      unfold Command.perform Command.moments
      cases haction : command.action with
      | builtin builtin => exact Builtin.perform_tells hobserver underway line arguments hcallee builtin e
      | host action =>
        refine HostAction.perform_tells hobserver underway arguments hcallee action fun h => ?_
        exact ⟨command, hmem, by rw [haction, h]⟩
    show (command.call callee line arguments e).Tells _ _ _ _ _
      (Action.checked (checkArguments command.signature arguments)
        (fun _ => command.moments observer underway arguments) e)
    unfold Command.call
    cases checkArguments command.signature arguments with
    | error cause => exact Tale.rest (Lasting.refl e.machine)
    | ok _ => exact hperform.mapError.bind_settles fun reply => Action.Settles.ofExcept (R := Rests) _

end Calls

/-! ## Expressions -/

namespace Expr

open Execution Evaluation

variable {invoke : Invoker} {underway : List Activation} {fuel : Nat}
  {made : String → List Value → Execution → List Moment}
  (hmade : ∀ name values, (invoke name values).Tells underway fuel (made name values))

/-- A result that depends on the elements of arrays. -/
theorem withArrays_rests (f : Arrays → Except RuntimeCause α) : (withArrays f).Settles Rests :=
  (withArrays_settles f).rests_of_quiet (withArrays_plain f).quiet

include hmade

set_option linter.unusedSectionVars false in
mutual

/-- An expression tells what is listed for it. -/
theorem eval_tells : (e : Expr) → (e.eval invoke).Tells underway fuel (e.listed invoke made)
  | .number x | .text x | .reference x => by
    unfold eval listed
    exact .of_settles (.pure _)
  | .slot i => by
    unfold eval listed
    exact .of_settles ((readSlot_settles i).rests_of_quiet (readSlot_plain i).quiet)
  | .global key => by
    unfold eval listed
    exact .of_settles ((readGlobal_settles key).rests_of_quiet (readGlobal_plain key).quiet)
  | .index target position => by
    unfold eval listed
    exact .bind (eval_tells target) fun _ =>
      .bind_settles (eval_tells position) fun _ => withArrays_rests _
  | .unary op operand => by
    unfold eval listed
    exact .bind_settles (eval_tells operand) fun _ => .ofExcept _
  | .binary op left right => by
    have hleft := eval_tells left
    have hright := eval_tells right
    have hcondition : (do
        let r ← right.eval invoke
        return .ofBool (← Action.ofExcept r.condition) : Evaluation Value).Tells underway fuel
          (right.listed invoke made) :=
      hright.bind_settles fun _ => .bind (.ofExcept _) fun _ => .pure _
    have hnone (b : Bool) : (pure (.ofBool b) : Evaluation Value).Tells underway fuel fun _ => [] :=
      .of_settles (.pure _)
    cases op with
    | and =>
      unfold eval listed
      refine .bind hleft fun l => .ofExcept_bind fun b => ?_
      cases b with
      | true => exact hcondition
      | false => exact hnone false
    | or =>
      unfold eval listed
      refine .bind hleft fun l => .ofExcept_bind fun b => ?_
      cases b with
      | true => exact hnone true
      | false => exact hcondition
    | _ =>
      unfold eval listed
      exact .bind hleft fun _ => hright.bind_settles fun _ => withArrays_rests _
  | .assignSlot i op value => by
    unfold eval listed
    exact .bind_settles (eval_tells value) fun new =>
      (storeSlot_settles op i new).rests_of_quiet (storeSlot_plain op i new).quiet
  | .assignGlobal key op value => by
    unfold eval listed
    exact .bind_settles (eval_tells value) fun new =>
      (storeGlobal_settles op key new).rests_of_quiet (storeGlobal_plain op key new).quiet
  | .assignElement base position op value => by
    unfold eval listed
    exact .bind (eval_tells value) fun new => .bind (eval_tells base) fun target =>
      .ofExcept_bind fun id => .bind_settles (eval_tells position) fun index =>
        (storeElement_settles op id new index).rests_of_quiet (storeElement_plain op id new index).quiet
  | .call command arguments => by
    unfold eval listed
    exact .bind (evalList_tells arguments) fun values => hmade command values

/-- A list of expressions tells what is listed for it. -/
theorem evalList_tells : (es : List Expr) →
    (evalList invoke es).Tells underway fuel (listedAll invoke made es)
  | [] => by
    unfold evalList listedAll
    exact .of_settles (.pure _)
  | e :: rest => by
    unfold evalList listedAll
    exact .bind (eval_tells e) fun _ => .bind_settles (evalList_tells rest) fun _ => .pure _

end

end Expr

/-! ## Steps and runs -/

namespace Execution

/-- Nothing is told of a step while the exception is raised. -/
theorem stepMoments_of_raised (callee : Callee) (observer : Observer) (underway : List Activation)
    {e : Execution} (h : e.machine.raised = true) : stepMoments callee observer underway e = [] := by
  simp [stepMoments, evaluated?, h]

/-- Nothing is told of a run while the exception is raised. -/
theorem runMoments_of_raised (callee : Callee) (observer : Observer) (underway : List Activation)
    (budget fuel taken : Nat) {e : Execution} (h : e.machine.raised = true) :
    runMoments callee observer underway budget fuel taken e = [] := by
  have hstep := stepMoments_of_raised callee observer underway h
  match fuel with
  | 0 => rfl
  | 1 =>
    unfold runMoments
    split
    · exact hstep
    · exact hstep
    · rfl
  | fuel + 2 =>
    unfold runMoments Action.followed
    rw [hstep, step_of_raised callee e h]
    rfl

section Steps

variable {callee : Callee} (hcallee : callee.Keeps) {observer : Observer} {fuel : Nat}
  (hobserver : observer.Tells callee fuel) (underway : List Activation)
include hcallee hobserver

/-- What the evaluation of a node has to tell. -/
theorem evaluate_tells (node : Node) (e : Execution) :
    (evaluate callee node e).Tells Execution.machine underway (some e.context.id) e.machine
      (e.machine.Patient underway fuel) (nodeMoments callee observer underway node e) := by
  unfold evaluate nodeMoments
  cases node.code with
  | none => exact Tale.rest (Lasting.refl e.machine)
  | some code =>
    have hinvoke := fun name values =>
      invoke_tells hobserver underway node.line values hcallee name
    exact .evaluated node (.mapError (Expr.eval_tells hinvoke code e))

/-- What the condition of a node has to tell. -/
theorem evaluateCondition_tells (node : Node) (e : Execution) :
    (evaluateCondition callee node e).Tells Execution.machine underway (some e.context.id) e.machine
      (e.machine.Patient underway fuel) (nodeMoments callee observer underway node e) := by
  refine (evaluate_tells hcallee hobserver underway node e).bind_settles fun v => ?_
  split
  · exact Action.Settles.pure (R := Rests) _
  · exact Action.Settles.get_bind_all (R := Rests) fun _ => .fail _

/-- What the collection of a loop has to tell. -/
theorem evaluateCollection_tells (node : Node) (e : Execution) :
    (evaluateCollection callee node e).Tells Execution.machine underway (some e.context.id) e.machine
      (e.machine.Patient underway fuel) (nodeMoments callee observer underway node e) := by
  refine (evaluate_tells hcallee hobserver underway node e).bind_settles fun v => ?_
  split
  · exact Action.Settles.pure (R := Rests) _
  · exact Action.Settles.get_bind_all (R := Rests) fun _ => .fail _

/-- What the work of a frame that evaluates a node has to tell. -/
theorem stepFrame_tells {tree : Tree} {top node : Node} {frame : Frame} (rest : List Frame)
    (e : Execution) (h : evaluatedBy? tree frame top = some node) :
    (stepFrame callee tree top frame rest e).Tells Execution.machine underway (some e.context.id)
      e.machine (e.machine.Patient underway fuel) (nodeMoments callee observer underway node e) := by
  unfold evaluatedBy? at h
  unfold stepFrame
  simp only
  have hpure (frames : List Frame) : (pure frames : Stepping (List Frame)).Settles Rests := .pure _
  split at h
  · next hphase hkind =>
    cases h
    rw [hphase, hkind]
    exact (evaluate_tells hcallee hobserver underway top e).bind_settles fun _ => hpure _
  · next tested elseIfs elseBranch hphase hkind =>
    rcases Option.bind_eq_some_iff.1 h with ⟨branch, hbranch, hfound⟩
    rw [hphase, hkind]
    unfold stepBranch
    simp only [hbranch, nodeOf, hfound]
    have hcondition := evaluateCondition_tells hcallee hobserver underway node e
    exact hcondition.bind_settles fun b => by cases b <;> exact hpure _
  · next hphase hkind =>
    cases h
    rw [hphase, hkind]
    have hcondition := evaluateCondition_tells hcallee hobserver underway top e
    exact hcondition.bind_settles fun b => by cases b <;> exact hpure _
  · next hphase hkind =>
    cases h
    rw [hphase, hkind]
    exact (evaluateCollection_tells hcallee hobserver underway top e).bind_settles fun _ => hpure _
  · cases h

/-- What a step has to tell. -/
theorem step_tells (e : Execution) :
    (step callee e).Tells Execution.machine underway (some e.context.id) e.machine
      (e.machine.Patient underway fuel) (stepMoments callee observer underway e) := by
  unfold stepMoments
  cases hevaluated : e.evaluated? with
  | none =>
    have hgrows := (step_continues hcallee e).mono fun _ ht => ht.machine
    exact .of_settles ((step_settles callee hevaluated).rests hgrows)
  | some node =>
    rcases step_of_evaluated callee hevaluated with ⟨tree, frame, rest, top, _, _, hnode, hwork⟩
    rw [hwork]
    refine (stepFrame_tells hcallee hobserver underway rest e hnode).bind_settles fun frames => ?_
    exact Action.Settles.bind (R := Rests) (.change fun e => Lasting.refl e.machine) fun _ => .pure _

/-- What a run has to tell.  There is a step behind an alarm, in which the run fails. -/
theorem run_tells (budget steps taken : Nat) (e : Execution)
    (hsteps : e.machine.Patient underway fuel → 0 < steps) :
    (run callee budget steps taken e).Tells Execution.machine underway (some e.context.id) e.machine
      (e.machine.Patient underway fuel)
      (runMoments callee observer underway budget steps taken e) := by
  induction steps generalizing taken e with
  | zero =>
    exact ⟨⟨e.machine, .rest (Lasting.refl _)⟩, fun hp => absurd (hsteps hp) (Nat.lt_irrefl 0)⟩
  | succ steps ih =>
    have hstep := step_tells hcallee hobserver underway e
    cases steps with
    | zero =>
      simp only [runMoments, run]
      cases hrun : step callee e with
      | exhausted =>
        rw [hrun] at hstep
        exact ⟨⟨e.machine, .rest (Lasting.refl _)⟩, fun hp => ⟨(hstep.2 hp).1, fun _ h => by cases h⟩⟩
      | failed error t =>
        rw [hrun] at hstep
        exact hstep
      | done status t =>
        rw [hrun] at hstep
        cases status with
        | finished => exact hstep
        | running =>
          simp only
          by_cases hused : usedUp budget (taken + 1) = true
          · simp only [if_pos hused]
            exact hstep
          · simp only [if_neg hused]
            refine ⟨⟨e.machine, .rest (Lasting.refl _)⟩, fun _ => ⟨?_, fun _ h => by cases h⟩⟩
            -- A step does not succeed while the exception is raised.
            refine Bool.eq_false_iff.2 fun hraised => ?_
            rw [step_of_raised callee e hraised] at hrun
            cases hrun
    | succ steps =>
      unfold run runMoments Action.followed
      cases hrun : step callee e with
      | exhausted =>
        rw [hrun] at hstep
        simp only [List.append_nil]
        exact hstep
      | failed error t =>
        rw [hrun] at hstep
        simp only [List.append_nil]
        exact hstep
      | done status t =>
        rw [hrun] at hstep
        cases status with
        | finished =>
          simp only [List.append_nil]
          exact hstep
        | running =>
          simp only
          by_cases hused : usedUp budget (taken + 1) = true
          · simp only [if_pos hused, List.append_nil]
            exact hstep
          · simp only [if_neg hused]
            have hrest := ih (taken + 1) t fun _ => Nat.succ_pos _
            rw [((step_continues hcallee).of_done hrun).context.id] at hrest
            refine .append hstep (fun _ hraised => ?_) (fun hp => hp.depth_pos)
              (fun hp => hp.of_endures hstep.endures) hrest
            exact runMoments_of_raised callee observer underway budget _ _ hraised

end Steps
end Execution

/-! ## Contexts and programs -/

namespace Machine

open Execution

/-- An initializer succeeds only if the exception is not raised. -/
theorem calm_of_prepareOne {callee : Callee} {tree : Tree} {id : Nat} {e t : Execution}
    (h : prepareOne callee tree id e = .done () t) : t.machine.raised = false := by
  refine Bool.eq_false_iff.2 fun hraised => ?_
  unfold prepareOne at h
  simp only [Action.bind_run] at h
  split at h
  · next node u _ =>
    split at h
    · simp only [Action.get_run] at h
      split at h
      · cases h
      · next hcalm =>
        cases h
        exact hcalm hraised
    · cases h
    · cases h
  · cases h
  · cases h

section Runs

variable {callee : Callee} (hcallee : callee.Keeps) {observer : Observer} {fuel : Nat}
  (hobserver : observer.Tells callee fuel) (underway : List Activation)
include hcallee hobserver

/-- What an initializer has to tell. -/
theorem prepareOne_tells (tree : Tree) (id : Nat) (e : Execution) :
    (prepareOne callee tree id e).Tells Execution.machine underway (some e.context.id) e.machine
      (e.machine.Patient underway fuel) (prepareOneMoments callee observer underway tree id e) := by
  unfold prepareOne prepareOneMoments nodeOf
  cases tree.node? id with
  | none => exact Tale.rest (Lasting.refl e.machine)
  | some node =>
    rw [Action.bind_run, Action.ofExcept_ok_run]
    refine (evaluate_tells hcallee hobserver underway node e).bind_settles fun _ => ?_
    refine Action.Settles.get_bind_all (R := Execution.Rests) fun t => ?_
    split
    · exact .fail _
    · exact .pure _

/-- What a list of initializers has to tell. -/
theorem prepareAll_tells (tree : Tree) (ids : List Nat) (e : Execution) :
    (prepareAll callee tree ids e).Tells Execution.machine underway (some e.context.id) e.machine
      (e.machine.Patient underway fuel) (prepareMoments callee observer underway tree ids e) := by
  induction ids generalizing e with
  | nil => exact Tale.rest (Lasting.refl e.machine)
  | cons id rest ih =>
    refine .bind (prepareOne_tells hcallee hobserver underway tree id e) (fun hp => hp.depth_pos)
      fun _ t hrun htale => ⟨fun _ hraised => ?_, _, fun hp => hp.of_endures htale.endures, ?_⟩
    · rw [calm_of_prepareOne hrun] at hraised
      cases hraised
    · rw [← ((prepareOne_evolves hcallee tree id).of_done hrun).context.id]
      exact ih t

/-- What the initializers of a program have to tell. -/
theorem prepare_tells (program : Program) (e : Execution) :
    (prepare callee program e).Tells Execution.machine underway (some e.context.id) e.machine
      (e.machine.Patient underway fuel)
      (match program.tree with
        | none => []
        | some tree => prepareMoments callee observer underway tree tree.initializers e) := by
  unfold prepare
  cases program.tree with
  | none => exact Tale.rest (Lasting.refl _)
  | some tree => exact prepareAll_tells hcallee hobserver _ tree _ e

/-- What the creation of a context has to tell. -/
theorem createContext_tells (program : Program) (arguments : List Value) (m : Machine)
    (hplace : HostsCreation underway ∨ m.BackgroundsItself) :
    (createContext callee program arguments m).Tells id underway none m
      (m.Patient underway (fuel + 1)) (createMoments callee observer underway program arguments m) := by
  unfold createContext createMoments
  simp only
  have hrests (f : List Nat) :
      m.Rests { m with contextCount := m.contextCount + 1, executing := f } :=
    ⟨⟨rfl, fun _ h => h, Nat.le_succ _⟩, rfl, rfl⟩
  cases bindChecked { m with contextCount := m.contextCount + 1 } program arguments with
  | error e => exact Tale.rest (hrests _)
  | ok locals =>
    simp only
    generalize hstart : beginExecution _ program.id = start
    generalize hcontext : Context.create _ program locals = context
    have hbegins : m.Rests start := hstart ▸ hrests _
    have hid : context.id = m.contextCount + 1 := by
      rw [← hcontext]
      rfl
    have hinner := prepare_tells hcallee hobserver (.creation :: underway) program ⟨start.enter, context⟩
    have hnew : m.contextCount < context.id := by omega
    have hlive : context.id ≤ start.contextCount := by
      rw [hid, ← hstart]
      exact Nat.le_refl _
    cases hrun : prepare callee program ⟨start.enter, context⟩ with
    | done _ e =>
      rw [hrun] at hinner
      exact Tale.creation hplace hbegins hnew hlive hinner
    | failed error e =>
      rw [hrun] at hinner
      refine Tale.extend (.creation hplace hbegins hnew hlive hinner) ?_
      exact ⟨⟨rfl, fun _ h => h, Nat.le_refl _⟩, rfl, rfl⟩
    | exhausted =>
      rw [hrun] at hinner
      rcases hinner with ⟨⟨n, htale⟩, hquiet⟩
      refine ⟨⟨n.leave, .creation hplace hbegins hnew hlive htale⟩, fun hp => ?_⟩
      have hinside := (hp.of_endures hbegins.endures).creation (hplace.resolve_right hp.counted)
      rcases hquiet hinside with ⟨hcalm, hnone⟩
      refine ⟨hbegins.undecided.symm.trans hcalm, fun x hmem => ?_⟩
      rcases List.mem_cons.1 hmem with rfl | hmem
      · exact fun halarm => by cases halarm
      · exact hnone x hmem

/-- What a run to the end has to tell. -/
theorem runToEnd_tells (steps : Nat) (context : Context) (m : Machine)
    (hsteps : m.Patient underway fuel → 0 < steps) :
    (runToEnd callee steps ⟨m, context⟩).Tells Execution.machine underway (some context.id) m
      (m.Patient underway fuel) (runToEndMoments callee observer underway steps context m) := by
  unfold runToEnd runToEndMoments
  simp only
  cases context.program.tree with
  | none => exact Tale.rest (Lasting.refl m)
  | some tree =>
    exact run_tells hcallee hobserver underway 0 steps 0 ⟨m, context.beginRun tree.root⟩ hsteps

omit hcallee hobserver in
/-- Nothing is told of a run to the end while the exception is raised. -/
theorem runToEndMoments_of_raised (steps : Nat) (context : Context) {m : Machine}
    (h : m.raised = true) : runToEndMoments callee observer underway steps context m = [] := by
  unfold runToEndMoments
  split
  · rfl
  · exact runMoments_of_raised callee observer underway 0 steps 0 h

/-- What a program in a new context has to tell. -/
theorem runFresh_tells (program : Program) (arguments : List Value) (m : Machine)
    (hplace : HostsCreation underway) :
    (runFresh callee fuel program arguments m).Tells id underway none m
      (m.Patient underway fuel)
      (freshMoments callee observer underway fuel program arguments m) := by
  have hcreate := createContext_tells hcallee hobserver underway program arguments m (.inl hplace)
  unfold runFresh freshMoments Action.followed
  cases hrun : createContext callee program arguments m with
  | exhausted =>
    rw [hrun] at hcreate
    simp only [List.append_nil]
    exact ⟨hcreate.1, fun hp => hcreate.2 (hp.mono (Nat.le_succ _))⟩
  | failed error n =>
    rw [hrun] at hcreate
    simp only [List.append_nil]
    exact hcreate
  | done context n =>
    rw [hrun] at hcreate
    have hcreated := createContext_created hcallee hrun
    refine .owned hcreated.id hcreated.enlists.1 hcreate
      (runToEndMoments_of_raised underway fuel context) (fun hp => hp.depth_pos)
      (fun hp => hp.of_endures hcreate.endures) ?_
    have hend := runToEnd_tells hcallee hobserver underway fuel context n fun hp => hp.fuel_pos
    have hrests (k : Machine) : k.Rests (k.endExecution program.id) :=
      ⟨⟨rfl, fun _ h => h, Nat.le_refl _⟩, rfl, rfl⟩
    simp only
    cases hlast : runToEnd callee fuel ⟨n, context⟩ with
    | done state e =>
      rw [hlast] at hend
      exact Tale.extend hend (hrests _)
    | failed error e =>
      rw [hlast] at hend
      exact Tale.extend hend (hrests _)
    | exhausted =>
      rw [hlast] at hend
      exact hend

/-- What a run of a program has to tell. -/
theorem runProgram_tells (program : Program) (arguments : List Value) (m : Machine) :
    (runProgram callee fuel program arguments m).Tells id underway none m
      (m.Patient underway (fuel + 1))
      (programMoments callee observer underway fuel program arguments m) := by
  unfold runProgram programMoments
  by_cases hlimit : m.settings.maxCallDepth ≤ m.depth
  · simp only [if_pos hlimit]
    exact Tale.refused program arguments hlimit
  · simp only [if_neg hlimit]
    have hroom : m.depth < m.settings.maxCallDepth := by omega
    have hinner := runFresh_tells hcallee hobserver (.run :: underway) program arguments m.enter
      (.inr rfl)
    unfold nested
    cases hrun : runFresh callee fuel program arguments m.enter with
    | done result n =>
      rw [hrun] at hinner
      exact Tale.run program arguments hroom hinner
    | failed error n =>
      rw [hrun] at hinner
      exact Tale.run program arguments hroom hinner
    | exhausted =>
      rw [hrun] at hinner
      rcases hinner with ⟨⟨n, htale⟩, hquiet⟩
      refine ⟨⟨n.leave, .run program arguments hroom htale⟩, fun hp => ?_⟩
      rcases hquiet (hp.run hroom) with ⟨hcalm, hnone⟩
      refine ⟨hcalm, fun x hmem => ?_⟩
      rcases List.mem_cons.1 hmem with rfl | hmem
      · exact fun halarm => by cases halarm
      rcases List.mem_cons.1 hmem with rfl | hmem
      · exact fun halarm => by cases halarm
      · exact hnone x hmem

end Runs

/-- Whatever scripts and hosts run has its tale, whatever the fuel. -/
theorem observer_tells (fuel : Nat) : (observer fuel).Tells (callee fuel) fuel := by
  induction fuel with
  | zero =>
    have hstarves : ∀ underway (m : Machine), (∃ n, Tale underway none m [] n) ∧
        (m.Patient underway 0 → m.raised = false ∧ ∀ x ∈ ([] : List Moment), ¬x.IsAlarm) :=
      fun underway m => ⟨⟨m, .rest (Lasting.refl m)⟩, fun hp => absurd hp.fuel_pos (Nat.lt_irrefl 0)⟩
    exact ⟨fun _ _ underway m => hstarves underway m, fun _ _ underway m _ => hstarves underway m⟩
  | succ fuel ih =>
    have hcallee := callee_keeps fuel
    exact ⟨fun program arguments underway m =>
        runProgram_tells hcallee ih underway program arguments m,
      fun program arguments underway m hplace =>
        createContext_tells hcallee ih underway program arguments m hplace⟩

end Machine
end ScriptMachine
