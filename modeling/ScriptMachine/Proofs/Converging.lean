import Mathlib.Order.Filter.AtTopBot.Basic
import ScriptMachine.Proofs.Telling

/-!
# With fuel enough

An operation that may run other scripts stands for one operation with every amount of fuel.  Such
operations converge where they end, from some fuel on, always in the same way.  What a sequence does
with fuel enough is what its parts do; so expressions and steps converge if the scripts do that they
call.  Of those it is enough to know that they converge where the chronicle of the sequence admits
them: a condition on its moments passes from the whole to its parts.

Main results:

- {lit}`Outcome.Converges`: from some fuel on there is an outcome, the same for all fuel.
- {lit}`Action.Converges`: convergence where a condition holds of all moments.
- {lit}`Expr.eval_converges`: expressions converge if the calls in them do.
- {lit}`Execution.step_converges`: so do steps.
-/

namespace ScriptMachine

open Filter

variable {σ τ ε δ ρ α β : Type}

/-! ## Outcomes and chronicles -/

/-- From some fuel on there is an outcome, the same for all fuel. -/
def Outcome.Converges (outcomes : Nat → Outcome σ ε α) : Prop :=
  ∃ outcome, outcome ≠ .exhausted ∧ ∀ᶠ fuel in atTop, outcomes fuel = outcome

/-- From some fuel on, a condition holds of everything that is told. -/
def Assured (P : ρ → Prop) (told : Nat → List ρ) : Prop :=
  ∀ᶠ fuel in atTop, ∀ x ∈ told fuel, P x

/-- What holds from some fuel on also holds with one unit less. -/
theorem eventually_pred {p : Nat → Prop} (h : ∀ᶠ fuel in atTop, p (fuel + 1)) :
    ∀ᶠ fuel in atTop, p fuel := by
  rw [← map_add_atTop_eq_nat 1]
  exact h

/-- What holds from some fuel on also holds with one unit more. -/
theorem eventually_succ {p : Nat → Prop} (h : ∀ᶠ fuel in atTop, p fuel) :
    ∀ᶠ fuel in atTop, p (fuel + 1) :=
  (tendsto_add_atTop_nat 1).eventually h

namespace Outcome.Converges

/-- An outcome that does not depend on the fuel. -/
theorem of_settles {outcome : Outcome σ ε α} {P : σ → Prop} (h : outcome.Settles P) :
    Converges fun _ => outcome :=
  ⟨outcome, fun heq => by rw [heq] at h; exact h, .of_forall fun _ => rfl⟩

/-- An end that does not depend on the fuel. -/
theorem done (x : α) (s : σ) : Converges fun _ => (.done x s : Outcome σ ε α) :=
  ⟨_, (fun heq => by cases heq), .of_forall fun _ => rfl⟩

/-- A failure that does not depend on the fuel. -/
theorem failed (error : ε) (s : σ) : Converges fun _ => (.failed error s : Outcome σ ε α) :=
  ⟨_, (fun heq => by cases heq), .of_forall fun _ => rfl⟩

/-- What is determined by an outcome, with fuel enough, converges with it. -/
theorem eventually_determines {outcomes : Nat → Outcome σ ε α} (h : Converges outcomes)
    {others : Nat → Outcome τ δ β} {p : Nat → Prop} (hp : ∀ᶠ fuel in atTop, p fuel)
    (hsame : ∀ n k, p n → p k → outcomes n = outcomes k → others n = others k)
    (hends : ∀ n, p n → outcomes n ≠ .exhausted → others n ≠ .exhausted) : Converges others := by
  rcases h with ⟨outcome, hanswers, hfuel⟩
  rcases (hfuel.and hp).exists with ⟨k, hk, hpk⟩
  refine ⟨others k, hends k hpk (hk ▸ hanswers), (hfuel.and hp).mono fun n hn => ?_⟩
  exact hsame n k hn.2 hpk (hn.1.trans hk.symm)

/-- What is determined by an outcome converges with it. -/
theorem determines {outcomes : Nat → Outcome σ ε α} (h : Converges outcomes)
    {others : Nat → Outcome τ δ β} (hsame : ∀ n k, outcomes n = outcomes k → others n = others k)
    (hends : ∀ n, outcomes n ≠ .exhausted → others n ≠ .exhausted) : Converges others :=
  h.eventually_determines (p := fun _ => True) (.of_forall fun _ => trivial)
    (fun n k _ _ => hsame n k) fun n _ => hends n

/-- Convergence depends on what happens with fuel enough. -/
theorem congr {outcomes others : Nat → Outcome σ ε α} (h : Converges outcomes)
    (hsame : ∀ᶠ fuel in atTop, others fuel = outcomes fuel) : Converges others := by
  rcases h with ⟨outcome, hends, hfuel⟩
  exact ⟨outcome, hends, (hsame.and hfuel).mono fun fuel hboth => hboth.1.trans hboth.2⟩

/-- One unit of fuel does not matter. -/
theorem of_succ {outcomes : Nat → Outcome σ ε α} (h : Converges fun fuel => outcomes (fuel + 1)) :
    Converges outcomes := by
  rcases h with ⟨outcome, hends, hfuel⟩
  exact ⟨outcome, hends, eventually_pred hfuel⟩

/-- A sequence converges if its parts do. -/
theorem bind {actions : Nat → Action σ ε α} {next : Nat → α → Action σ ε β} {s : σ}
    (h : Converges fun fuel => actions fuel s)
    (hnext : ∀ x t, (∀ᶠ fuel in atTop, actions fuel s = .done x t) →
      Converges fun fuel => next fuel x t) :
    Converges fun fuel => (actions fuel >>= next fuel) s := by
  rcases h with ⟨outcome, hends, hfuel⟩
  cases outcome with
  | done x t =>
    refine (hnext x t hfuel).congr (hfuel.mono fun fuel (hsame : actions fuel s = _) => ?_)
    rw [Action.bind_run, hsame]
  | failed error t =>
    refine ⟨.failed error t, (fun heq => by cases heq), ?_⟩
    refine hfuel.mono fun fuel (hsame : actions fuel s = _) => ?_
    show (actions fuel >>= next fuel) s = _
    rw [Action.bind_run, hsame]
  | exhausted => exact absurd rfl hends

end Outcome.Converges

namespace Assured

variable {P : ρ → Prop} {first : Nat → σ → List ρ} {actions : Nat → Action σ ε α}
  {next : Nat → α → σ → List ρ} {s : σ}

/-- A condition on a chronicle is one on its first part. -/
theorem start (h : Assured P fun fuel =>
    Action.followed (first fuel) (actions fuel) (next fuel) s) :
    Assured P fun fuel => first fuel s :=
  h.mono fun _ hall x hmem => hall x (List.mem_append_left _ hmem)

/-- And it is one on the part behind. -/
theorem behind (h : Assured P fun fuel =>
    Action.followed (first fuel) (actions fuel) (next fuel) s) {x : α} {t : σ}
    (hdone : ∀ᶠ fuel in atTop, actions fuel s = .done x t) :
    Assured P fun fuel => next fuel x t := by
  refine (h.and hdone).mono fun fuel hboth y hmem => hboth.1 y (List.mem_append_right _ ?_)
  rw [hboth.2]
  exact hmem

end Assured

/-! ## Actions -/

/-- Actions converge wherever a condition holds of everything that they tell. -/
def Action.Converges (P : ρ → Prop) (told : Nat → σ → List ρ) (actions : Nat → Action σ ε α) :
    Prop :=
  ∀ s, Assured P (fun fuel => told fuel s) → Outcome.Converges fun fuel => actions fuel s

namespace Action.Converges

variable {P : ρ → Prop} {told : Nat → σ → List ρ} {actions : Nat → Action σ ε α}
  {R : σ → σ → Prop}

/-- An action that settles converges. -/
theorem of_settles {action : Action σ ε α} (h : action.Settles R) :
    Action.Converges P told fun _ => action :=
  fun s _ => .of_settles (h s)

/-- A sequence converges if its parts do. -/
theorem bind {next : Nat → α → Action σ ε β} {behind : Nat → α → σ → List ρ}
    (h : Action.Converges P told actions)
    (hnext : ∀ x, Action.Converges P (fun fuel => behind fuel x) fun fuel => next fuel x) :
    Action.Converges P (fun fuel => Action.followed (told fuel) (actions fuel) (behind fuel))
      fun fuel => actions fuel >>= next fuel :=
  fun s htold => (h s htold.start).bind fun x t hdone => hnext x t (htold.behind hdone)

/-- A sequence converges if its second part settles. -/
theorem bind_settles {next : α → Action σ ε β} (h : Action.Converges P told actions)
    (hnext : ∀ x, (next x).Settles R) :
    Action.Converges P told fun fuel => actions fuel >>= next :=
  fun s htold => (h s htold).bind fun x t _ => .of_settles (hnext x t)

/-- Behind a check comes what converges with its result. -/
theorem ofExcept_bind {result : Except ε α} {next : Nat → α → Action σ ε β}
    {behind : Nat → α → σ → List ρ}
    (hnext : ∀ x, Action.Converges P (fun fuel => behind fuel x) fun fuel => next fuel x) :
    Action.Converges P (fun fuel => Action.checked result (behind fuel))
      fun fuel => Action.ofExcept result >>= next fuel := by
  intro s htold
  cases result with
  | ok x => exact hnext x s htold
  | error error => exact .failed error s

/-- The wrapping of an error does not matter. -/
theorem mapError (h : Action.Converges P told actions) (f : ε → δ) :
    Action.Converges P told fun fuel => Action.mapError f (actions fuel) := by
  refine fun s htold => (h s htold).determines (fun n k hsame => ?_) fun n hends => ?_
  · show Action.mapError f (actions n) s = Action.mapError f (actions k) s
    rw [mapError_run, mapError_run, hsame]
  · show Action.mapError f (actions n) s ≠ .exhausted
    rw [mapError_run]
    cases hrun : actions n s with
    | done x t => simp
    | failed error t => simp
    | exhausted => exact absurd hrun hends

end Action.Converges

/-! ## Commands -/

/-- With fuel enough, runs and creations of contexts converge inside of what is under way. -/
structure Callee.Converge (P : Moment → Prop) (observers : Nat → Observer)
    (underway : List Activation) (callees : Nat → Callee) : Prop where
  run : ∀ program arguments, Action.Converges P
    (fun fuel => (observers fuel).run program arguments underway)
    fun fuel => (callees fuel).run program arguments
  create : ∀ program arguments, Action.Converges P
    (fun fuel => (observers fuel).create program arguments underway)
    fun fuel => (callees fuel).create program arguments

/-- Operations of the machine on behalf of a context. -/
theorem CommandStep.operate_converges {P : ρ → Prop} {told : Nat → Machine → List ρ}
    {operations : Nat → Operation α} (h : Action.Converges P told operations) :
    Action.Converges P (fun fuel e => told fuel e.machine)
      fun fuel => operate (operations fuel) := by
  refine fun e htold => (h e.machine htold).determines (fun n k hsame => ?_) fun n hends => ?_
  · simp only [operate, Action.attempt_run, Action.onPart, hsame]
  · simp only [operate, Action.attempt_run, Action.onPart]
    cases hrun : operations n e.machine with
    | done x t => simp
    | failed error t => simp
    | exhausted => exact absurd hrun hends

section Calls

open Execution CommandStep

variable {P : Moment → Prop} {observers : Nat → Observer} {callees : Nat → Callee}
  {underway : List Activation} (hcallees : Callee.Converge P observers underway callees)
  (line : Nat) (arguments : List Value)
include hcallees

/-- The command that runs another script. -/
theorem Builtin.doCall_converges : Action.Converges P
    (fun fuel => Builtin.moments (observers fuel) underway arguments .callScript)
    fun fuel => doCall (callees fuel) arguments := by
  refine .ofExcept_bind fun name => ?_
  simp only
  split
  · exact .of_settles (Action.Settles.fail (R := Undecided) _)
  · refine .bind (.of_settles (target_settles name)) fun found => ?_
    cases found with
    | error error => exact .of_settles (Action.Settles.pure (R := Undecided) _)
    | ok program =>
      refine .bind_settles (R := Undecided)
        (operate_converges (hcallees.run program (arguments.drop 1))) fun result => ?_
      split <;> exact .pure _

/-- Creating a context of the running program. -/
theorem HostAction.backgroundRunning_converges : Action.Converges P
    (fun fuel e => (observers fuel).create e.context.program arguments underway e.machine)
    fun fuel => backgroundRunning (callees fuel) arguments := by
  intro e htold
  have hcreate := operate_converges (hcallees.create e.context.program arguments) e htold
  refine hcreate.bind fun result t _ => .of_settles (P := Undecided t) ?_
  cases result with
  | error error => exact Lasting.refl (R := Undecided) t
  | ok context => exact rfl

omit hcallees in
/-- What a built-in command does that runs nothing is no matter of other scripts. -/
theorem Builtin.perform_idle (callee other : Callee) {builtin : Builtin}
    (h : builtin.SettlesItself) :
    builtin.perform callee line arguments = builtin.perform other line arguments := by
  cases builtin with
  | callScript => exact absurd rfl h.1
  | _ => simp only [perform]

/-- What a built-in command does. -/
theorem Builtin.perform_converges (builtin : Builtin) : Action.Converges P
    (fun fuel => builtin.moments (observers fuel) underway arguments)
    fun fuel => builtin.perform (callees fuel) line arguments := by
  by_cases hsettles : builtin.SettlesItself
  · simp only [fun fuel => perform_idle line arguments (callees fuel) (callees 0) hsettles]
    exact .of_settles (perform_settles (callees 0) line arguments hsettles)
  · cases builtin with
    | callScript => exact doCall_converges hcallees arguments
    | raiseError =>
      refine .ofExcept_bind fun message => .of_settles (R := fun _ _ => True) fun e => ?_
      trivial
    | _ => exact absurd ⟨by decide, by decide⟩ hsettles

omit hcallees in
/-- What an action of the host does that creates nothing is no matter of other scripts. -/
theorem HostAction.perform_idle (callee other : Callee) {action : HostAction}
    (h : action.SettlesItself) :
    action.perform callee arguments = action.perform other arguments := by
  cases action with
  | backgroundSelf => exact absurd rfl h.1
  | _ => simp only [perform]

/-- What an action of the host does. -/
theorem HostAction.perform_converges (action : HostAction) : Action.Converges P
    (fun fuel => action.moments (observers fuel) underway arguments)
    fun fuel => action.perform (callees fuel) arguments := by
  by_cases hsettles : action.SettlesItself
  · simp only [fun fuel => perform_idle arguments (callees fuel) (callees 0) hsettles]
    exact .of_settles (perform_settles (callees 0) arguments hsettles)
  · cases action with
    | backgroundSelf => exact backgroundRunning_converges hcallees arguments
    | raise => exact .of_settles (R := fun _ _ => True) fun _ => trivial
    | _ => exact absurd ⟨by simp, by simp⟩ hsettles

/-- The call of a command by name. -/
theorem invoke_converges (name : String) : Action.Converges P
    (fun fuel => invokeMoments (observers fuel) underway name arguments)
    fun fuel => invoke (callees fuel) line name arguments := by
  intro e htold
  unfold invokeMoments at htold
  unfold invoke
  simp only [Action.bind_run, Action.get_run]
  cases hlookup : e.machine.commands.lookup? name with
  | none => exact .failed _ _
  | some command =>
    simp only [hlookup] at htold
    have hperform : Action.Converges P
        (fun fuel => command.moments (observers fuel) underway arguments)
        fun fuel => command.perform (callees fuel) line arguments := by
      unfold Command.perform Command.moments
      cases command.action with
      | builtin builtin => exact Builtin.perform_converges hcallees line arguments builtin
      | host action => exact HostAction.perform_converges hcallees arguments action
    exact Action.Converges.ofExcept_bind
      (fun _ => (hperform.mapError _).bind_settles (R := Undecided) fun _ => .ofExcept _) e htold

end Calls

/-! ## Expressions -/

namespace Expr

open Execution Evaluation

variable {P : Moment → Prop} {invokers : Nat → Invoker}
  {made : Nat → String → List Value → Execution → List Moment}
  (hmade : ∀ name values, Action.Converges P (fun fuel => made fuel name values)
    fun fuel => invokers fuel name values)
include hmade

set_option linter.unusedSectionVars false in
mutual

/-- An expression converges if the calls in it do. -/
theorem eval_converges : (e : Expr) → Action.Converges P
    (fun fuel => e.listed (invokers fuel) (made fuel)) fun fuel => e.eval (invokers fuel)
  | .number x | .text x | .reference x => by
    unfold eval listed
    exact .of_settles (Action.Settles.pure (R := Undecided) _)
  | .slot i => by
    unfold eval listed
    exact .of_settles (readSlot_settles i)
  | .global key => by
    unfold eval listed
    exact .of_settles (readGlobal_settles key)
  | .index target position => by
    unfold eval listed
    exact .bind (eval_converges target) fun _ =>
      .bind_settles (eval_converges position) fun _ => withArrays_settles _
  | .unary op operand => by
    unfold eval listed
    exact .bind_settles (R := Undecided) (eval_converges operand) fun _ => .ofExcept _
  | .binary op left right => by
    have hleft := eval_converges left
    have hright := eval_converges right
    have hcondition : Action.Converges P (fun fuel => right.listed (invokers fuel) (made fuel))
        fun fuel => (do
          let r ← right.eval (invokers fuel)
          return .ofBool (← Action.ofExcept r.condition) : Evaluation Value) :=
      hright.bind_settles (R := Undecided) fun _ => .bind (.ofExcept _) fun _ => .pure _
    have hnone (b : Bool) : Action.Converges P (fun _ _ => ([] : List Moment))
        fun _ => (pure (.ofBool b) : Evaluation Value) :=
      .of_settles (Action.Settles.pure (R := Undecided) _)
    cases op with
    | and =>
      unfold eval listed
      refine .bind hleft fun l => .ofExcept_bind fun b => ?_
      cases b with
      | true => exact hcondition
      | false => exact hnone false
    | or =>
      unfold eval listed
      refine .bind hleft fun l => .ofExcept_bind fun b => ?_
      cases b with
      | true => exact hnone true
      | false => exact hcondition
    | _ =>
      unfold eval listed
      exact .bind hleft fun _ => hright.bind_settles fun _ => withArrays_settles _
  | .assignSlot i op value => by
    unfold eval listed
    exact .bind_settles (eval_converges value) fun new => storeSlot_settles op i new
  | .assignGlobal key op value => by
    unfold eval listed
    exact .bind_settles (eval_converges value) fun new => storeGlobal_settles op key new
  | .assignElement base position op value => by
    unfold eval listed
    exact .bind (eval_converges value) fun new => .bind (eval_converges base) fun target =>
      .ofExcept_bind fun id => .bind_settles (eval_converges position) fun index =>
        storeElement_settles op id new index
  | .call command arguments => by
    unfold eval listed
    exact .bind (evalList_converges arguments) fun values => hmade command values

/-- A list of expressions converges if the calls in them do. -/
theorem evalList_converges : (es : List Expr) → Action.Converges P
    (fun fuel => listedAll (invokers fuel) (made fuel) es) fun fuel => evalList (invokers fuel) es
  | [] => by
    unfold evalList listedAll
    exact .of_settles (Action.Settles.pure (R := Undecided) _)
  | e :: rest => by
    unfold evalList listedAll
    exact .bind (eval_converges e) fun _ =>
      .bind_settles (R := Undecided) (evalList_converges rest) fun _ => .pure _

end

end Expr

/-! ## Steps -/

namespace Execution

/-- What the work of a frame that evaluates nothing does is no matter of other scripts. -/
theorem stepFrame_idle (callee other : Callee) {tree : Tree} {top : Node} {frame : Frame}
    (rest : List Frame) (h : evaluatedBy? tree frame top = none) :
    stepFrame callee tree top frame rest = stepFrame other tree top frame rest := by
  unfold evaluatedBy? at h
  unfold stepFrame
  simp only
  split
  · rfl
  · rfl
  · rfl
  · rfl
  · next hphase hkind => simp [hphase, hkind] at h
  · next tested elseIfs elseBranch hphase hkind =>
    simp only [hphase, hkind] at h
    unfold stepBranch
    cases hbranch : (frame.node :: elseIfs)[tested]? with
    | none => rfl
    | some branch =>
      rw [hbranch, Option.bind_some] at h
      funext e
      simp only [nodeOf, h, Action.bind_run, Action.ofExcept_error_run]
  · next hphase hkind => simp [hphase, hkind] at h
  · rfl
  · next hphase hkind => simp [hphase, hkind] at h
  · rfl
  · rfl
  · rfl

/-- What a step that evaluates nothing does is no matter of other scripts. -/
theorem step_idle (callee other : Callee) {e : Execution} (h : e.evaluated? = none) :
    step callee e = step other e := by
  unfold step
  simp only [Action.bind_run, Action.get_run]
  by_cases hraised : e.machine.raised = true
  · rw [if_pos hraised, if_pos hraised]
  rw [if_neg hraised, if_neg hraised]
  have hcalm : e.machine.raised = false := by simpa using hraised
  cases htree : e.context.program.tree with
  | none => simp only
  | some tree =>
    cases hpending : e.context.pending with
    | some jump => simp only
    | none =>
      simp only
      unfold stepStatement
      simp only [Action.bind_run, Action.get_run]
      cases hframes : e.context.frames with
      | nil => rfl
      | cons frame rest =>
        cases htop : tree.node? frame.node with
        | none =>
          simp only [nodeOf, htop, Action.bind_run, Action.ofExcept_error_run]
        | some top =>
          rw [evaluated?_of_frame hcalm hpending htree hframes htop] at h
          simp only [nodeOf, htop, Action.ofExcept_ok_run, Action.bind_run,
            stepFrame_idle callee other rest h]

section Steps

variable {P : Moment → Prop} {observers : Nat → Observer} {callees : Nat → Callee}
  {underway : List Activation} (hcallees : Callee.Converge P observers underway callees)
include hcallees

/-- The evaluation of a node. -/
theorem evaluate_converges (node : Node) : Action.Converges P
    (fun fuel => nodeMoments (callees fuel) (observers fuel) underway node)
    fun fuel => evaluate (callees fuel) node := by
  unfold evaluate nodeMoments
  cases node.code with
  | none => exact .of_settles (Action.Settles.fail (R := Undecided) _)
  | some code =>
    intro e htold
    have hinvoke := fun name values => invoke_converges hcallees node.line values name
    refine (Expr.eval_converges hinvoke code).mapError _ e ?_
    exact htold.mono fun _ hall x hmem => hall x (List.mem_cons_of_mem _ hmem)

/-- The condition of a node. -/
theorem evaluateCondition_converges (node : Node) : Action.Converges P
    (fun fuel => nodeMoments (callees fuel) (observers fuel) underway node)
    fun fuel => evaluateCondition (callees fuel) node := by
  refine (evaluate_converges hcallees node).bind_settles (R := Undecided) fun v => ?_
  split
  · exact .pure _
  · exact .get_bind_all fun _ => .fail _

/-- The collection of a loop. -/
theorem evaluateCollection_converges (node : Node) : Action.Converges P
    (fun fuel => nodeMoments (callees fuel) (observers fuel) underway node)
    fun fuel => evaluateCollection (callees fuel) node := by
  refine (evaluate_converges hcallees node).bind_settles (R := Undecided) fun v => ?_
  split
  · exact .pure _
  · exact .get_bind_all fun _ => .fail _

/-- The work of a frame that evaluates a node. -/
theorem stepFrame_converges {tree : Tree} {top node : Node} {frame : Frame} (rest : List Frame)
    (h : evaluatedBy? tree frame top = some node) : Action.Converges P
    (fun fuel => nodeMoments (callees fuel) (observers fuel) underway node)
    fun fuel => stepFrame (callees fuel) tree top frame rest := by
  have hpure (frames : List Frame) : (pure frames : Stepping (List Frame)).Settles Undecided :=
    .pure _
  unfold evaluatedBy? at h
  unfold stepFrame
  simp only
  split at h
  · next hphase hkind =>
    cases h
    rw [hphase, hkind]
    exact (evaluate_converges hcallees top).bind_settles fun _ => hpure _
  · next tested elseIfs elseBranch hphase hkind =>
    rcases Option.bind_eq_some_iff.1 h with ⟨branch, hbranch, hfound⟩
    rw [hphase, hkind]
    unfold stepBranch
    simp only [hbranch, nodeOf, hfound]
    exact (evaluateCondition_converges hcallees node).bind_settles fun b => by
      cases b <;> exact hpure _
  · next hphase hkind =>
    cases h
    rw [hphase, hkind]
    exact (evaluateCondition_converges hcallees top).bind_settles fun b => by
      cases b <;> exact hpure _
  · next hphase hkind =>
    cases h
    rw [hphase, hkind]
    exact (evaluateCollection_converges hcallees top).bind_settles fun _ => hpure _
  · cases h

/-- A step converges if the calls in it do. -/
theorem step_converges : Action.Converges P
    (fun fuel => stepMoments (callees fuel) (observers fuel) underway)
    fun fuel => step (callees fuel) := by
  intro e htold
  unfold stepMoments at htold
  cases hevaluated : e.evaluated? with
  | none =>
    refine (Outcome.Converges.of_settles (step_settles (callees 0) hevaluated)).congr ?_
    exact .of_forall fun fuel => step_idle (callees fuel) (callees 0) hevaluated
  | some node =>
    simp only [hevaluated] at htold
    rcases exists_frame_of_evaluated hevaluated with ⟨tree, frame, rest, top, -, -, hnode, hwork⟩
    have hframe := stepFrame_converges hcallees rest hnode e htold
    refine Outcome.Converges.congr (hframe.bind fun frames t _ => ?_)
      (.of_forall fun fuel => hwork (callees fuel))
    exact .done _ _

end Steps
end Execution
end ScriptMachine
