import ScriptMachine.Proofs.Bearing
import ScriptMachine.Proofs.Returning
import ScriptMachine.Proofs.Ticking

/-!
# Contexts that are halted

A return with a second argument that is not zero asks for its run to be the last one, and the context
remembers that.  Nothing ever makes it forget, not even the start of another run.  So a run that
finishes is the last one exactly if any call of the context has asked for that so far, in its
initializers, in the run itself or in a run before it.

Main results:

- {lit}`Execution.step_halt` and {lit}`Execution.run_halt`: what steps and runs make a context remember.
- {lit}`Creation.halt_of_makes`: what a new context remembers of its initializers.
- {lit}`Session.History.halts`: which turns halt a context.
-/

namespace ScriptMachine

variable {σ ε ρ τ α : Type}

/-! ## Calls that ask for a halt -/

namespace Calling

/-- Somebody returns with a second argument that is not zero. -/
def AsksToHalt (call : Calling) : Prop :=
  ∃ command halt, call.execution.machine.commands.lookup? call.name = some command ∧
    command.action = .builtin .returnValue ∧ call.arguments.length = 2 ∧
      Arguments.number call.arguments 1 = .ok halt ∧ (halt == 0.0) = false

/-- The requests of a call. -/
def requests (call : Calling) : List JumpRequest :=
  invokeRequests call.name call.arguments call.execution

/-- Whether a call requests a halt. -/
def halts (call : Calling) : Bool :=
  call.requests.any JumpRequest.halts

/-- A halt is requested by a return with a second argument that is not zero, and by nothing else. -/
theorem halts_iff (call : Calling) : call.halts = true ↔ call.AsksToHalt := by
  rcases call with ⟨name, arguments, line, e⟩
  unfold halts requests invokeRequests AsksToHalt
  cases e.machine.commands.lookup? name with
  | none => simp
  | some command =>
    simp only [Option.some.injEq, exists_and_left, exists_eq_left', Command.requests]
    cases command.action with
    | host action => simp
    | builtin builtin =>
      cases builtin with
      | returnValue =>
        simp only [Builtin.requests, Builtin.haltArgument]
        by_cases hlength : arguments.length = 2
        · rw [if_pos hlength]
          cases Arguments.number arguments 1 with
          | ok halt => simp [JumpRequest.halts, hlength]
          | error cause => simp
        · -- A second argument that is not given counts as zero.
          have hzero : ((0.0 : Float) == 0.0) = true := by decide
          rw [if_neg hlength]
          simp [JumpRequest.halts, hlength, hzero]
      | _ => simp [Builtin.requests, JumpRequest.halts]

end Calling

/-! ## Requests and calls -/

/-- Listing what comes of each entry. -/
theorem Action.followed_flatMap (f : ρ → List τ) (first : σ → List ρ) (action : Action σ ε α)
    (next : α → σ → List ρ) (s : σ) : (Action.followed first action next s).flatMap f =
      Action.followed (fun s => (first s).flatMap f) action (fun x t => (next x t).flatMap f) s := by
  unfold Action.followed
  rw [List.flatMap_append]
  cases action s <;> rfl

/-- Listing what comes of each entry behind a check. -/
theorem Action.checked_flatMap (f : ρ → List τ) (result : Except ε α) (next : α → σ → List ρ) (s : σ) :
    (Action.checked result next s).flatMap f =
      Action.checked result (fun x t => (next x t).flatMap f) s := by
  unfold Action.checked
  cases result <;> rfl

namespace Expr

open Execution

variable (invoke : Invoker) (made : String → List Value → Execution → List JumpRequest) (line : Nat)

mutual

/-- The requests of an expression are those of its calls. -/
theorem requests_eq : (e : Expr) → (s : Execution) → e.requests invoke made s =
    (e.listed invoke (fun name arguments t => [Calling.mk name arguments line t]) s).flatMap
      fun call => made call.name call.arguments call.execution
  | .number _, _ | .text _, _ | .reference _, _ | .slot _, _ | .global _, _ => by
    simp [requests, listed]
  | .index target position, s => by
    simp only [requests, listed, Action.followed_flatMap, ← requests_eq target, ← requests_eq position]
  | .unary _ operand, s => by
    simpa only [requests, listed] using requests_eq operand s
  | .binary op left right, s => by
    cases op with
    | and =>
      simp only [requests, listed, Action.followed_flatMap, Action.checked_flatMap, ← requests_eq left]
      congr 1
      funext l t
      congr 1
      funext b u
      cases b with
      | true => exact requests_eq right u
      | false => rfl
    | or =>
      simp only [requests, listed, Action.followed_flatMap, Action.checked_flatMap, ← requests_eq left]
      congr 1
      funext l t
      congr 1
      funext b u
      cases b with
      | true => rfl
      | false => exact requests_eq right u
    | _ =>
      simp only [requests, listed, Action.followed_flatMap, ← requests_eq left, ← requests_eq right]
  | .assignSlot _ _ value, s => by
    simpa only [requests, listed] using requests_eq value s
  | .assignGlobal _ _ value, s => by
    simpa only [requests, listed] using requests_eq value s
  | .assignElement base position _ value, s => by
    simp only [requests, listed, Action.followed_flatMap, Action.checked_flatMap, ← requests_eq value,
      ← requests_eq base, ← requests_eq position]
  | .call command arguments, s => by
    simp only [requests, listed, Action.followed_flatMap, List.flatMap_singleton,
      ← requestsList_eq arguments]

/-- The requests of a list of expressions are those of their calls. -/
theorem requestsList_eq : (es : List Expr) → (s : Execution) → requestsList invoke made es s =
    (listedAll invoke (fun name arguments t => [Calling.mk name arguments line t]) es s).flatMap
      fun call => made call.name call.arguments call.execution
  | [], _ => by
    simp [requestsList, listedAll]
  | e :: rest, s => by
    simp only [requestsList, listedAll, Action.followed_flatMap, ← requests_eq e, ← requestsList_eq rest]

end

end Expr

/-! ## Steps and runs -/

namespace Execution

/-- The requests of a node are those of its calls. -/
theorem nodeRequests_eq (callee : Callee) (node : Node) (e : Execution) :
    e.nodeRequests callee node = (nodeCalls callee node e).flatMap Calling.requests := by
  unfold nodeRequests nodeCalls
  cases node.code with
  | none => rfl
  | some code => exact Expr.requests_eq _ _ node.line code e

/-- The requests of a step are those of its calls. -/
theorem requests_eq_stepCalls (callee : Callee) (e : Execution) :
    e.requests callee = (stepCalls callee e).flatMap Calling.requests := by
  unfold requests stepCalls
  cases e.evaluated? with
  | none => rfl
  | some node => exact nodeRequests_eq callee node e

/-- What some calls request of the halt flag. -/
theorem any_requests (calls : List Calling) :
    (calls.flatMap Calling.requests).any JumpRequest.halts = calls.any Calling.halts :=
  List.any_flatMap

/-- A jump leaves the halt flag alone. -/
theorem unwind_halt {tree : Tree} {context context' : Context} {jump : Jump} {status : Status}
    (h : context.unwind tree jump = .ok (context', status)) : context'.halt = context.halt := by
  cases Context.Unwinds.of_unwind h <;> rfl

section Runs

variable {callee : Callee} (hcallee : callee.Keeps)
include hcallee

/-- A step sets the halt flag if one of its calls asks for that, and never clears it. -/
theorem step_halt {e e' : Execution} {status : Status} (hstep : step callee e = .done status e') :
    e'.context.halt = (e.context.halt || (stepCalls callee e).any Calling.halts) := by
  cases hpending : e.context.pending with
  | none =>
    rw [(step_requests hcallee hpending hstep).halt, requests_eq_stepCalls, any_requests]
  | some jump =>
    rcases unwind_of_step_done hpending hstep with ⟨tree, -, hunwind⟩
    have hnone : stepCalls callee e = [] := by
      unfold stepCalls
      rw [evaluated?_of_pending hpending]
    simp [hnone, unwind_halt hunwind]

/-- A run sets the halt flag if one of its calls asks for that, and never clears it. -/
theorem run_halt {budget fuel taken : Nat} {e e' : Execution} {state : RunState}
    (hrun : run callee budget fuel taken e = .done state e') :
    e'.context.halt = (e.context.halt || (runCalls callee budget fuel taken e).any Calling.halts) := by
  induction fuel generalizing taken e with
  | zero => cases hrun
  | succ fuel ih =>
    unfold run at hrun
    unfold runCalls Action.followed
    cases hstep : step callee e with
    | exhausted => simp [hstep] at hrun
    | failed error t => simp [hstep] at hrun
    | done status t =>
      rw [hstep] at hrun
      have hhalt := step_halt hcallee hstep
      cases status with
      | finished =>
        cases hrun
        rw [List.append_nil]
        exact hhalt
      | running =>
        simp only at hrun ⊢
        by_cases hused : usedUp budget (taken + 1) = true
        · rw [if_pos hused] at hrun ⊢
          cases hrun
          rw [List.append_nil]
          exact hhalt
        · rw [if_neg hused] at hrun ⊢
          rw [ih hrun, hhalt, List.any_append, Bool.or_assoc]

/-- An evaluation sets the halt flag if one of its calls asks for that. -/
theorem evaluate_halt {node : Node} {e e' : Execution} {v : Value}
    (hrun : evaluate callee node e = .done v e') :
    e'.context.halt = (e.context.halt || (nodeCalls callee node e).any Calling.halts) := by
  rw [(evaluate_requests hcallee node e v e' hrun).halt, nodeRequests_eq, any_requests]

end Runs
end Execution

/-! ## Creations -/

namespace Machine

section Prepare

variable (callee : Callee)

/-- The calls of an initializer. -/
def prepareOneCalls (tree : Tree) (id : Nat) : Execution → List Calling :=
  match tree.node? id with
  | some node => Execution.nodeCalls callee node
  | none => fun _ => []

/-- The calls of a list of initializers. -/
def prepareCalls (tree : Tree) : List Nat → Execution → List Calling
  | [] => fun _ => []
  | id :: rest =>
    Action.followed (prepareOneCalls callee tree id) (prepareOne callee tree id) fun _ =>
      prepareCalls tree rest

variable {callee : Callee} (hcallee : callee.Keeps)
include hcallee

/-- An initializer sets the halt flag if one of its calls asks for that. -/
theorem prepareOne_halt {tree : Tree} {id : Nat} {e e' : Execution} {answer : Unit}
    (hrun : prepareOne callee tree id e = .done answer e') :
    e'.context.halt = (e.context.halt || (prepareOneCalls callee tree id e).any Calling.halts) := by
  unfold prepareOne Execution.nodeOf at hrun
  unfold prepareOneCalls
  cases hnode : tree.node? id with
  | none =>
    rw [hnode] at hrun
    cases hrun
  | some node =>
    rw [hnode, Action.bind_run, Action.ofExcept_ok_run] at hrun
    rcases Action.exists_of_bind_done hrun with ⟨v, t, hevaluate, hcheck⟩
    rw [Action.bind_run, Action.get_run] at hcheck
    simp only at hcheck
    split at hcheck
    · cases hcheck
    · cases hcheck
      exact Execution.evaluate_halt hcallee hevaluate

/-- Initializers set the halt flag if one of their calls asks for that. -/
theorem prepareAll_halt {tree : Tree} {ids : List Nat} {e e' : Execution} {answer : Unit}
    (hrun : prepareAll callee tree ids e = .done answer e') :
    e'.context.halt = (e.context.halt || (prepareCalls callee tree ids e).any Calling.halts) := by
  induction ids generalizing e with
  | nil =>
    cases hrun
    simp [prepareCalls]
  | cons id rest ih =>
    rcases Action.exists_of_bind_done hrun with ⟨_, t, hone, hrest⟩
    unfold prepareCalls Action.followed
    rw [hone, ih hrest, prepareOne_halt hcallee hone, List.any_append, Bool.or_assoc]

end Prepare
end Machine

namespace Creation

/-- The calls that the initializers of a new context make. -/
def calls (creation : Creation) : List Calling :=
  let counted := { creation.machine with contextCount := creation.machine.contextCount + 1 }
  match counted.bindChecked creation.program creation.arguments, creation.program.tree with
  | .ok locals, some tree =>
    Machine.prepareCalls (Machine.callee creation.fuel) tree tree.initializers
      ⟨(counted.beginExecution creation.program.id).enter,
        .create counted.contextCount creation.program locals⟩
  | _, _ => []

/-- A new context has its halt flag set if a call of its initializers has asked for that. -/
theorem halt_of_makes {creation : Creation} {context : Context} (h : creation.Makes context) :
    context.halt = creation.calls.any Calling.halts := by
  rcases h with ⟨created, m, hcreate, rfl⟩
  show created.halt = _
  cases Machine.Creates.of_createContext hcreate with
  | @done locals e hbind hprepare =>
    have hbound : Machine.bindChecked
        { creation.machine with contextCount := creation.machine.contextCount + 1 } creation.program
          creation.arguments = .ok locals := hbind
    unfold calls
    simp only [hbound]
    unfold Machine.prepare at hprepare
    cases htree : creation.program.tree with
    | none =>
      rw [htree] at hprepare
      cases hprepare
    | some tree =>
      rw [htree] at hprepare
      exact Machine.prepareAll_halt (Machine.callee_keeps creation.fuel) hprepare

end Creation

/-! ## Turns -/

namespace TakenTurn

open Execution

variable {fuel : Nat} {taken : TakenTurn}

/-- The run that is under way in a turn, or that the turn has started, is finished in it. -/
def Finishes (fuel : Nat) (taken : TakenTurn) : Prop :=
  ∃ e e', Machine.turnStart taken.seconds taken.before taken.machine = some e ∧
    run (Machine.callee fuel) taken.machine.settings.stepBudget fuel 0 e = .done .finished e'

/-- What a run in a turn makes its context remember. -/
theorem halt_of_run {e e' : Execution} {state : RunState}
    (hstart : Machine.turnStart taken.seconds taken.before taken.machine = some e)
    (hrun : run (Machine.callee fuel) taken.machine.settings.stepBudget fuel 0 e = .done state e') :
    e'.context.halt = (taken.before.halt || (taken.calls fuel).any Calling.halts) := by
  have hbefore : e.context.halt = taken.before.halt := by
    rcases Machine.context_of_turnStart hstart with ⟨-, rfl⟩ | ⟨-, tree, -, rfl⟩ <;> rfl
  unfold calls
  rw [hstart, ← hbefore]
  exact run_halt (Machine.callee_keeps fuel) hrun

/-- A turn that finishes a run halts its context or completes the run. -/
theorem IsTaken.of_finished (h : taken.IsTaken fuel) {e e' : Execution}
    (hstart : Machine.turnStart taken.seconds taken.before taken.machine = some e)
    (hrun : run (Machine.callee fuel) taken.machine.settings.stepBudget fuel 0 e = .done .finished e') :
    taken.turn = e'.context.finishedTurn := by
  rcases h with ⟨m, hturn⟩
  rcases Machine.takeTurn_of_start fuel hstart with ⟨hsame, htake⟩
  rw [htake] at hturn
  rw [hsame] at hrun
  simp only [Machine.runTurn, hrun] at hturn
  generalize taken.after = after at hturn
  generalize taken.turn = turn at hturn ⊢
  split at hturn
  · next reason hreason =>
    rw [hreason]
    cases hturn
    rfl
  · cases hturn
    rfl

/-- A context is halted in a turn if a run finishes, and if that is what it remembers to do or is
asked to do. -/
theorem IsTaken.halted_iff (h : taken.IsTaken fuel) : taken.turn = .retired .halted ↔
    taken.Finishes fuel ∧ (taken.before.halt || (taken.calls fuel).any Calling.halts) = true := by
  constructor
  · intro hhalted
    have hturn := h
    rcases hturn with ⟨m, hturn⟩
    rw [hhalted] at hturn
    generalize taken.after = after at hturn
    cases Machine.takeTurn_ends hturn with
    | halted hstart hrun =>
      refine ⟨⟨_, _, hstart, hrun⟩, ?_⟩
      have hfinished := h.of_finished hstart hrun
      rw [hhalted] at hfinished
      unfold Context.finishedTurn at hfinished
      rw [← halt_of_run hstart hrun]
      split at hfinished
      · assumption
      · cases hfinished
  · rintro ⟨⟨e, e', hstart, hrun⟩, hhalt⟩
    rw [← halt_of_run hstart hrun] at hhalt
    rw [h.of_finished hstart hrun, Context.finishedTurn, if_pos hhalt]

/-- A turn in which the context stays adds what its calls ask for to what the context remembers. -/
theorem IsTaken.halt_of_stays (h : taken.IsTaken fuel) (hstays : taken.turn.stays = true) :
    taken.after.halt = (taken.before.halt || (taken.calls fuel).any Calling.halts) := by
  rcases h with ⟨m, hturn⟩
  generalize hafter : taken.after = after at hturn ⊢
  generalize taken.turn = turn at hturn hstays
  cases Machine.takeTurn_ends hturn with
  | waiting hstart _ =>
    unfold calls
    rw [hstart]
    exact (Bool.or_false _).symm
  | parked hstart hrun => exact halt_of_run hstart hrun
  | completed hstart hrun => exact halt_of_run hstart hrun
  | stale | treeless | failed | halted => cases hstays

/-- Behind a turn that leaves no run of a context that stays, the context remembers nothing if it
did not before, unless the run has lapsed. -/
theorem IsTaken.forgets (h : taken.IsTaken fuel) (hstays : taken.turn.stays = true)
    (hlapses : taken.lapses = false) (hidle : taken.after.isRunning = false)
    (hbefore : taken.before.isRunning = false → taken.before.halt = false) :
    taken.after.halt = false := by
  have htaken := h
  rcases h with ⟨m, hturn⟩
  unfold lapses at hlapses
  generalize hafter : taken.after = after at hturn hidle hlapses ⊢
  generalize hkind : taken.turn = turn at hturn hstays hlapses
  cases Machine.takeTurn_ends hturn with
  | waiting hstart hnone => exact hbefore hnone
  | parked hstart hrun =>
    rw [hidle] at hlapses
    cases hlapses
  | @completed e e' hstart hrun =>
    have hfinished := htaken.of_finished hstart hrun
    rw [hkind] at hfinished
    unfold Context.finishedTurn at hfinished
    split at hfinished
    · cases hfinished
    · next hhalt => exact Bool.eq_false_iff.2 hhalt
  | stale | treeless | failed | halted => cases hstays

end TakenTurn

/-! ## What contexts remember -/

namespace Context

/-- A context as it was in front of its first turn. -/
def origin (turns : List TakenTurn) (context : Context) : Context :=
  (turns.head?.map TakenTurn.before).getD context

/-- One more turn. -/
theorem origin_concat (turns : List TakenTurn) (taken : TakenTurn) :
    taken.after.origin (turns ++ [taken]) = taken.before.origin turns := by
  cases turns <;> rfl

/-- What a context remembers of its creation and its turns: every call that has asked for a halt.  If
no initializer has asked for that and no run has lapsed, it remembers nothing between two runs, and
nothing of the runs before the one that is under way. -/
structure Remembers (fuel : Nat) (creation : Creation) (turns : List TakenTurn) (context : Context) :
    Prop where
  made : creation.Makes (context.origin turns)
  halt : context.halt =
    (creation.calls ++ turns.flatMap (TakenTurn.calls fuel)).any Calling.halts
  idle (hcreation : creation.calls.any Calling.halts = false)
    (hlapses : ∀ taken ∈ turns, taken.lapses = false) (hidle : context.isRunning = false) :
    context.halt = false
  running (hcreation : creation.calls.any Calling.halts = false)
    (hlapses : ∀ taken ∈ turns, taken.lapses = false) (hrunning : context.isRunning = true) :
    ∃ before start behind, turns = before ++ start :: behind ∧ start.startsRun = true ∧
      (∀ other ∈ behind, other.startsRun = false) ∧
        (before.flatMap (TakenTurn.calls fuel)).any Calling.halts = false

namespace Remembers

variable {fuel : Nat} {creation : Creation} {turns : List TakenTurn} {taken : TakenTurn}

/-- The run of a turn was started by an earlier turn or by this one, and the context remembers
nothing of what was before. -/
theorem exists_start (h : taken.before.Remembers fuel creation turns) (htaken : taken.IsTaken fuel)
    (hcreation : creation.calls.any Calling.halts = false)
    (hlapses : ∀ other ∈ turns, other.lapses = false)
    (hruns : taken.before.isRunning = true ∨
      (Machine.turnStart taken.seconds taken.before taken.machine).isSome = true) :
    ∃ before start behind, turns ++ [taken] = before ++ start :: behind ∧ start.startsRun = true ∧
      (∀ other ∈ behind, other.startsRun = false) ∧
        (before.flatMap (TakenTurn.calls fuel)).any Calling.halts = false := by
  cases hrunning : taken.before.isRunning with
  | false =>
    have hquiet := h.idle hcreation hlapses hrunning
    rw [h.halt, List.any_append, Bool.or_eq_false_iff] at hquiet
    have hstarts : taken.startsRun = true :=
      htaken.startsRun_iff.2 ⟨hrunning, hruns.resolve_left (by rw [hrunning]; simp)⟩
    exact ⟨turns, taken, [], rfl, hstarts, by simp, hquiet.2⟩
  | true =>
    rcases h.running hcreation hlapses hrunning with ⟨before, start, behind, rfl, hstart, hbehind, hquiet⟩
    refine ⟨before, start, behind ++ [taken], by simp, hstart, fun other hmem => ?_, hquiet⟩
    rcases List.mem_append.1 hmem with hmem | hmem
    · exact hbehind other hmem
    · rw [List.mem_singleton.1 hmem]
      refine Bool.eq_false_iff.2 fun hstarts => ?_
      rw [(htaken.startsRun_iff.1 hstarts).1] at hrunning
      cases hrunning

/-- Behind one more turn. -/
theorem concat (h : taken.before.Remembers fuel creation turns) (htaken : taken.IsTaken fuel)
    (hstays : taken.turn.stays = true) : taken.after.Remembers fuel creation (turns ++ [taken]) where
  made := by
    rw [origin_concat]
    exact h.made
  halt := by
    rw [htaken.halt_of_stays hstays, h.halt]
    simp [Bool.or_assoc]
  idle hcreation hlapses hidle :=
    htaken.forgets hstays (hlapses taken (by simp)) hidle fun hnone =>
      h.idle hcreation (fun other hmem => hlapses other (by simp [hmem])) hnone
  running hcreation hlapses hrunning := by
    refine h.exists_start htaken hcreation (fun other hmem => hlapses other (by simp [hmem])) ?_
    rcases htaken.after_of_start with ⟨-, hafter⟩ | ⟨e, hstart, -⟩
    · rw [hafter] at hrunning
      exact .inl hrunning
    · exact .inr (by rw [hstart]; rfl)

end Remembers
end Context

/-- Every context in the background remembers what its calls have asked for. -/
theorem turnInvariant_remembers (fuel : Nat) :
    TurnInvariant fuel fun turns context => ∃ creation, context.Remembers fuel creation turns where
  made := by
    intro creation context hmade
    have hhalt := Creation.halt_of_makes hmade
    have hframes : context.frames = [] := by
      rcases hmade with ⟨created, m, hcreate, rfl⟩
      exact (Machine.createContext_created (Machine.callee_keeps creation.fuel) hcreate).isNew.frames
    refine ⟨creation, hmade, by simpa using hhalt, fun hcreation _ _ => hhalt.trans hcreation,
      fun _ _ hrunning => ?_⟩
    rw [Context.isRunning_of_frames hframes] at hrunning
    cases hrunning
  turned := by
    rintro turns taken htaken hstays ⟨creation, h⟩
    exact ⟨creation, h.concat htaken hstays⟩

namespace Session

/-- **Halting a context.**  A context in the background is halted in a turn exactly if a run finishes in
it and some call has asked for that, with a return whose second argument is not zero: in the
initializers of the context, in the run that finishes or in a run before it.  If no initializer has
asked for that, and no earlier run has lapsed because the budget was used up with its last step, only
the calls of the run that finishes count, those since the turn that has started it. -/
theorem History.halts {fuel : Nat} {first last : Session} {log earlier later : List (List TakenTurn)}
    {turns : List TakenTurn} {taken : TakenTurn} (hempty : first.machine.background = [])
    (h : History fuel first log last) (hlog : log = earlier ++ turns :: later) (hmem : taken ∈ turns) :
    let past := turnsOf taken.before.id earlier
    ∃ creation : Creation, creation.Makes (taken.before.origin past) ∧
      (taken.turn = .retired .halted ↔ taken.Finishes fuel ∧
        ∃ call ∈ creation.calls ++ (past ++ [taken]).flatMap (TakenTurn.calls fuel), call.AsksToHalt) ∧
      ((∀ call ∈ creation.calls, ¬call.AsksToHalt) → (∀ other ∈ past, ¬other.SpentAtEnd fuel) →
        taken.Finishes fuel → ∃ before start behind, past ++ [taken] = before ++ start :: behind ∧
          start.startsRun = true ∧ (∀ other ∈ behind, other.startsRun = false) ∧
            (taken.turn = .retired .halted ↔
              ∃ call ∈ (start :: behind).flatMap (TakenTurn.calls fuel), call.AsksToHalt)) := by
  intro past
  rcases h.upholds_turn (turnInvariant_remembers fuel) hempty hlog hmem with ⟨htaken, creation, hremembers⟩
  have hasks : ∀ calls : List Calling, calls.any Calling.halts = true ↔
      ∃ call ∈ calls, call.AsksToHalt := fun calls => by
    simp only [List.any_eq_true, Calling.halts_iff]
  have hhalted : taken.turn = .retired .halted ↔ taken.Finishes fuel ∧
      (creation.calls ++ (past ++ [taken]).flatMap (TakenTurn.calls fuel)).any Calling.halts = true := by
    rw [htaken.halted_iff, hremembers.halt]
    simp [past, Bool.or_assoc]
  refine ⟨creation, hremembers.made, hhalted.trans (and_congr_right fun _ => hasks _),
    fun hcreation hspent hfinishes => ?_⟩
  have hquiet : creation.calls.any Calling.halts = false :=
    Bool.eq_false_iff.2 fun hany => by
      rcases (hasks _).1 hany with ⟨call, hcall, hcallAsks⟩
      exact hcreation call hcall hcallAsks
  have hlapses : ∀ other ∈ past, other.lapses = false := fun other hother =>
    Bool.eq_false_iff.2 fun hother' => by
      have hin : other ∈ log.flatten := by
        rw [hlog, List.flatten_append]
        exact List.mem_append_left _ (List.mem_filter.1 hother).1
      exact hspent other hother
        ((TakenTurn.lapses_iff ((h.ledger hempty).isTaken hin)).1 hother')
  have hruns : (Machine.turnStart taken.seconds taken.before taken.machine).isSome = true := by
    rcases hfinishes with ⟨e, e', hstart, -⟩
    rw [hstart]
    rfl
  rcases hremembers.exists_start htaken hquiet hlapses (.inr hruns) with
    ⟨before, start, behind, hsplit, hstart, hbehind, hbefore⟩
  refine ⟨before, start, behind, hsplit, hstart, hbehind, ?_⟩
  rw [hhalted, and_iff_right hfinishes, hsplit, List.flatMap_append, List.any_append, List.any_append,
    hquiet, hbefore, Bool.false_or, Bool.false_or, hasks]

/-- A session with two scripts that return and ask for a halt, the first one in an initializer and the
other one in its body. -/
def leaving : Session :=
  let code : Expr := .call "Return" [.number 1.0, .number 1.0]
  let early : Program := { Program.fresh 1 none with
    tree := some ⟨#[⟨.entry, [], none, 3, [], none⟩, ⟨.expression, [], none, 2, [], some code⟩], 0, [1]⟩
    state := .valid }
  let late : Program := { Program.fresh 2 none with
    tree := some ⟨#[⟨.entry, [], none, 2, [1], none⟩, ⟨.expression, [], none, 3, [], some code⟩], 0, []⟩
    state := .valid }
  { start (.start Settings.standard .empty) with
    programs := (Names.empty.set "early" early).set "late" late }

/-- Whether both contexts of that session are halted in their first turns, the first one without a call
and the other one although nothing had been asked before. -/
def leaves : Bool :=
  match perform 4 (.background "early" []) leaving with
  | .done _ s =>
    match perform 4 (.background "late" []) s with
    | .done _ t =>
      match Machine.tickTurns 4 (Machine.secondsOf 10000000) t.machine with
      | .done [early, late] _ =>
        (match early.turn, late.turn with
          | .retired .halted, .retired .halted => true
          | _, _ => false) && (early.calls 4).isEmpty && !late.before.halt
      | _ => false
    | _ => false
  | _ => false

/-- The first context has the flag from its initializer, and the other one from the run itself. -/
theorem History.halts_leaving : ∃ early late last, History 4 leaving [[early, late]] last ∧
    early.turn = .retired .halted ∧ early.calls 4 = [] ∧
      (∃ creation : Creation, creation.Makes early.before ∧
        ∃ call ∈ creation.calls, call.AsksToHalt) ∧
      late.turn = .retired .halted ∧ ∃ call ∈ late.calls 4, call.AsksToHalt := by
  have hleaves : leaves = true := by decide +kernel
  unfold leaves at hleaves
  split at hleaves
  case h_2 => cases hleaves
  next s hfirst =>
  split at hleaves
  case h_2 => cases hleaves
  next t hsecond =>
  split at hleaves
  case h_2 => cases hleaves
  next early late m hturns =>
  simp only [Bool.and_eq_true, List.isEmpty_iff, Bool.not_eq_true'] at hleaves
  rcases hleaves with ⟨⟨hkinds, hearly⟩, hforgot⟩
  split at hkinds
  case h_2 => cases hkinds
  next hearlyHalted hlateHalted =>
  have hticked := ((History.start.answered _ (by simp) hfirst).answered _ (by simp) hsecond).tick
    10000000 hturns
  have hlog : ([] ++ [[early, late]] : List (List TakenTurn)) = [] ++ [early, late] :: [] := rfl
  refine ⟨early, late, _, hticked, hearlyHalted, hearly, ?_, hlateHalted, ?_⟩
  · rcases hticked.halts rfl hlog (by simp : early ∈ [early, late]) with ⟨creation, hmade, hhalts, -⟩
    rcases hhalts.1 hearlyHalted with ⟨-, call, hcall, hasks⟩
    rw [List.mem_append] at hcall
    refine ⟨creation, hmade, call, hcall.resolve_right fun hlater => ?_, hasks⟩
    simp [turnsOf, hearly] at hlater
  · rcases hticked.halts rfl hlog (by simp : late ∈ [early, late]) with
      ⟨creation, hmade, hhalts, hlastRun⟩
    have hquiet : creation.calls.any Calling.halts = false :=
      (Creation.halt_of_makes hmade).symm.trans hforgot
    rw [List.any_eq_false] at hquiet
    have hcreation : ∀ call ∈ creation.calls, ¬call.AsksToHalt := fun call hcall hasks =>
      hquiet call hcall (call.halts_iff.2 hasks)
    rcases hlastRun hcreation (by simp [turnsOf]) (hhalts.1 hlateHalted).1 with
      ⟨before, start, behind, hsplit, -, -, hlatest⟩
    rcases List.append_eq_singleton_iff.1 hsplit.symm with ⟨-, hone⟩ | ⟨-, hnone⟩
    · rw [hone] at hlatest
      simpa using hlatest.1 hlateHalted
    · cases hnone

end Session
end ScriptMachine
