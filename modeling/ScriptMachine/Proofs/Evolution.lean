import ScriptMachine.Proofs.Growth

/-!
# Evolving executions

An expression, with all the scripts that it calls, keeps the frames, the program and the
number of its context and lets its machine grow.  When it calls no jump it requests none.

Main results:

- {lit}`Expr.eval_keeps`: an evaluation does what assignments and the called commands do,
  and nothing else.
- {lit}`Expr.eval_evolves`: what an expression can change.
- {lit}`Expr.eval_quietUnder`: an expression that calls no jump requests none.
-/

namespace ScriptMachine

variable {α : Type}

/-! ## Evolving executions -/

/-- How a context may differ after some steps of a run. -/
structure Context.Continues (c c' : Context) : Prop where
  id : c'.id = c.id
  program : c'.program = c.program
  backgrounded : c'.backgrounded = c.backgrounded
  elapsed : c'.elapsed = c.elapsed
  secondsPassed : c'.secondsPassed = c.secondsPassed
  runs : c'.runs = c.runs
  locals : c'.locals.length = c.locals.length

/-- How a context may differ after an evaluation. -/
structure Context.Evolves (c c' : Context) : Prop extends Context.Continues c c' where
  frames : c'.frames = c.frames

instance : Lasting Context.Continues where
  refl _ := ⟨rfl, rfl, rfl, rfl, rfl, rfl, rfl⟩
  trans h h' := ⟨h'.id.trans h.id, h'.program.trans h.program,
    h'.backgrounded.trans h.backgrounded, h'.elapsed.trans h.elapsed,
    h'.secondsPassed.trans h.secondsPassed, h'.runs.trans h.runs, h'.locals.trans h.locals⟩

instance : Lasting Context.Evolves where
  refl c := ⟨Lasting.refl c, rfl⟩
  trans h h' := ⟨Lasting.trans h.toContinues h'.toContinues, h'.frames.trans h.frames⟩

namespace Execution

/-- How an execution may differ after an evaluation. -/
structure Evolves (e e' : Execution) : Prop where
  machine : e.machine.Grows e'.machine
  context : e.context.Evolves e'.context

/-- An evolution in which no jump was requested. -/
structure Quiet (e e' : Execution) : Prop extends Evolves e e' where
  pending : e'.context.pending = e.context.pending
  result : e'.context.result = e.context.result
  halt : e'.context.halt = e.context.halt

instance : Lasting Evolves where
  refl _ := ⟨Lasting.refl _, Lasting.refl _⟩
  trans h h' := ⟨Lasting.trans h.machine h'.machine, Lasting.trans h.context h'.context⟩

instance : Lasting Quiet where
  refl e := ⟨Lasting.refl e, rfl, rfl, rfl⟩
  trans h h' := ⟨Lasting.trans h.toEvolves h'.toEvolves, h'.pending.trans h.pending,
    h'.result.trans h.result, h'.halt.trans h.halt⟩

/-- A change of the machine alone. -/
theorem Quiet.onMachine {e : Execution} {f : Machine → Machine}
    (h : e.machine.Grows (f e.machine)) : e.Quiet (e.onMachine f) :=
  ⟨⟨h, Lasting.refl e.context⟩, rfl, rfl, rfl⟩

/-- How an execution may differ after anything but jumps, calls of scripts and removals. -/
structure Plain (e e' : Execution) : Prop where
  machine : e.machine.Plain e'.machine
  context : e.context.Evolves e'.context
  pending : e'.context.pending = e.context.pending
  result : e'.context.result = e.context.result
  halt : e'.context.halt = e.context.halt

instance : Lasting Plain where
  refl _ := ⟨Lasting.refl _, Lasting.refl _, rfl, rfl, rfl⟩
  trans h h' := ⟨Lasting.trans h.machine h'.machine, Lasting.trans h.context h'.context,
    h'.pending.trans h.pending, h'.result.trans h.result, h'.halt.trans h.halt⟩

/-- A plain change is quiet. -/
theorem Plain.quiet {e e' : Execution} (h : e.Plain e') : e.Quiet e' :=
  ⟨⟨h.machine.grows, h.context⟩, h.pending, h.result, h.halt⟩

/-- A plain change of the machine alone. -/
theorem Plain.onMachine {e : Execution} {f : Machine → Machine}
    (h : e.machine.Plain (f e.machine)) : e.Plain (e.onMachine f) :=
  ⟨h, Lasting.refl e.context, rfl, rfl, rfl⟩

/-- A change of the arrays alone. -/
theorem Plain.arrays (e : Execution) (arrays : Arrays) :
    e.Plain (e.onMachine fun machine => { machine with arrays := arrays }) :=
  .onMachine ⟨rfl, id, fun _ => rfl⟩

/-- Assigning to a variable. -/
theorem Plain.setLocal (e : Execution) (slot : Nat) (v : Value) :
    e.Plain (e.onContext fun context => { context with locals := context.locals.set slot v }) :=
  ⟨Lasting.refl _, ⟨⟨rfl, rfl, rfl, rfl, rfl, rfl, List.length_set ..⟩, rfl⟩, rfl, rfl, rfl⟩

end Execution

/-- What changes an execution plainly is quiet. -/
theorem Action.Keeps.quiet {ε : Type} {action : Action Execution ε α}
    (h : action.Keeps Execution.Plain) : action.Keeps Execution.Quiet :=
  h.mono fun _ _ hplain => hplain.quiet

/-! ## Assignments -/

namespace Evaluation

open Execution

theorem readSlot_plain (slot : Nat) : (readSlot slot).Keeps Plain := by
  unfold readSlot
  refine .bind .get fun e => ?_
  split
  · exact .pure _
  · exact .fail _

theorem writeSlot_plain (slot : Nat) (v : Value) : (writeSlot slot v).Keeps Plain := by
  apply Action.Keeps.get_bind
  intro e
  by_cases hslot : slot < e.context.locals.length
  · simp only [if_pos hslot]
    exact Plain.setLocal e slot v
  · simp only [if_neg hslot]
    exact Lasting.refl e

theorem readGlobal_plain (key : String) : (readGlobal key).Keeps Plain := by
  unfold readGlobal
  refine .bind .get fun e => ?_
  split
  · exact .pure _
  · exact .fail _

theorem writeGlobal_plain (key : String) (v : Value) : (writeGlobal key v).Keeps Plain := by
  apply Action.Keeps.get_bind
  intro e
  by_cases hkey : e.machine.globals.contains key = true
  · simp only [if_pos hkey]
    exact .onMachine ⟨rfl, id, fun name => Globals.contains_assign _ key name v⟩
  · simp only [if_neg hkey]
    exact Lasting.refl e

theorem writeElement_plain (id : ArrayId) (position : Nat) (v : Value) :
    (writeElement id position v).Keeps Plain := by
  apply Action.Keeps.get_bind
  intro e
  cases hset : e.machine.arrays.set? id position v with
  | some arrays =>
    exact Plain.arrays e arrays
  | none =>
    exact Lasting.refl e

theorem withArrays_plain (f : Arrays → Except RuntimeCause α) : (withArrays f).Keeps Plain :=
  .bind .get fun _ => .ofExcept _

/-- The combination of an old and a new value. -/
theorem combined_plain (op : AssignOp) {old : Evaluation Value} (hold : old.Keeps Plain)
    (new : Value) : (combined op old new).Keeps Plain := by
  unfold combined
  split
  · exact .pure _
  · exact .bind hold fun _ => withArrays_plain _

/-- An assignment to a variable, behind its operand. -/
theorem storeSlot_plain (op : AssignOp) (i : Nat) (new : Value) :
    (do
      let stored ← combined op (readSlot i) new
      writeSlot i stored
      return stored : Evaluation Value).Keeps Plain :=
  .bind (combined_plain op (readSlot_plain i) new) fun stored =>
    .bind (writeSlot_plain i stored) fun _ => .pure _

/-- An assignment to a global, behind its operand. -/
theorem storeGlobal_plain (op : AssignOp) (key : String) (new : Value) :
    (do
      let stored ← combined op (readGlobal key) new
      writeGlobal key stored
      return stored : Evaluation Value).Keeps Plain :=
  .bind (combined_plain op (readGlobal_plain key) new) fun stored =>
    .bind (writeGlobal_plain key stored) fun _ => .pure _

/-- An assignment to an element of an array, behind its operands. -/
theorem storeElement_plain (op : AssignOp) (id : ArrayId) (new index : Value) :
    (do
      let i ← Action.ofExcept index.position
      let stored ← combined op (withArrays fun arrays => Value.elementAt arrays id i) new
      writeElement id i stored
      return stored : Evaluation Value).Keeps Plain :=
  .bind (.ofExcept _) fun i => .bind (combined_plain op (withArrays_plain _) new) fun stored =>
    .bind (writeElement_plain id i stored) fun _ => .pure _

end Evaluation

/-! ## Expressions -/

namespace Expr

open Execution Evaluation

mutual

/-- The names of the commands that an expression calls. -/
def calls : Expr → List String
  | .number _ | .text _ | .reference _ | .slot _ | .global _ => []
  | .index target position => target.calls ++ position.calls
  | .unary _ operand => operand.calls
  | .binary _ left right => left.calls ++ right.calls
  | .assignSlot _ _ value => value.calls
  | .assignGlobal _ _ value => value.calls
  | .assignElement base position _ value => base.calls ++ position.calls ++ value.calls
  | .call command arguments => command :: callsList arguments

/-- The names of the commands that a list of expressions calls. -/
def callsList : List Expr → List String
  | [] => []
  | e :: rest => e.calls ++ callsList rest

end

variable {R : Execution → Execution → Prop} [Lasting R] {invoke : Invoker}

mutual

/-- An evaluation does what assignments and the called commands do, and nothing else. -/
theorem eval_keeps (hR : ∀ e e', e.Plain e' → R e e') :
    (e : Expr) → (∀ name ∈ e.calls, ∀ values, (invoke name values).Keeps R) →
      (e.eval invoke).Keeps R
  | .number x, _ => by
    unfold eval
    exact .pure _
  | .text s, _ => by
    unfold eval
    exact .pure _
  | .reference handle, _ => by
    unfold eval
    exact .pure _
  | .slot i, _ => by
    unfold eval
    exact (readSlot_plain i).mono hR
  | .global key, _ => by
    unfold eval
    exact (readGlobal_plain key).mono hR
  | .index target position, h => by
    simp only [calls, List.mem_append] at h
    have htarget := eval_keeps hR target fun name hmem => h name (.inl hmem)
    have hposition := eval_keeps hR position fun name hmem => h name (.inr hmem)
    unfold eval
    exact .bind htarget fun _ => .bind hposition fun _ => (withArrays_plain _).mono hR
  | .unary op operand, h => by
    have hoperand := eval_keeps hR operand (by simpa only [calls] using h)
    unfold eval
    exact .bind hoperand fun _ => .ofExcept _
  | .binary op left right, h => by
    simp only [calls, List.mem_append] at h
    have hleft := eval_keeps hR left fun name hmem => h name (.inl hmem)
    have hright := eval_keeps hR right fun name hmem => h name (.inr hmem)
    cases op with
    | and =>
      unfold eval
      refine .bind hleft fun l => .bind (.ofExcept _) fun b => ?_
      split
      · exact .bind hright fun _ => .bind (.ofExcept _) fun _ => .pure _
      · exact .pure _
    | or =>
      unfold eval
      refine .bind hleft fun l => .bind (.ofExcept _) fun b => ?_
      split
      · exact .pure _
      · exact .bind hright fun _ => .bind (.ofExcept _) fun _ => .pure _
    | _ =>
      unfold eval
      exact .bind hleft fun _ => .bind hright fun _ => (withArrays_plain _).mono hR
  | .assignSlot i op value, h => by
    have hvalue := eval_keeps hR value (by simpa only [calls] using h)
    unfold eval
    exact .bind hvalue fun new => (storeSlot_plain op i new).mono hR
  | .assignGlobal key op value, h => by
    have hvalue := eval_keeps hR value (by simpa only [calls] using h)
    unfold eval
    exact .bind hvalue fun new => (storeGlobal_plain op key new).mono hR
  | .assignElement base position op value, h => by
    simp only [calls, List.mem_append] at h
    have hbase := eval_keeps hR base fun name hmem => h name (.inl (.inl hmem))
    have hposition := eval_keeps hR position fun name hmem => h name (.inl (.inr hmem))
    have hvalue := eval_keeps hR value fun name hmem => h name (.inr hmem)
    unfold eval
    exact .bind hvalue fun new => .bind hbase fun target => .bind (.ofExcept _) fun id =>
      .bind hposition fun index => (storeElement_plain op id new index).mono hR
  | .call command arguments, h => by
    simp only [calls, List.mem_cons] at h
    have harguments := evalList_keeps hR arguments fun name hmem => h name (.inr hmem)
    unfold eval
    exact .bind harguments fun values => h command (.inl rfl) values

/-- The evaluation of a list of expressions. -/
theorem evalList_keeps (hR : ∀ e e', e.Plain e' → R e e') :
    (es : List Expr) → (∀ name ∈ callsList es, ∀ values, (invoke name values).Keeps R) →
      (evalList invoke es).Keeps R
  | [], _ => by
    unfold evalList
    exact .pure _
  | e :: rest, h => by
    simp only [callsList, List.mem_append] at h
    have hfirst := eval_keeps hR e fun name hmem => h name (.inl hmem)
    have hothers := evalList_keeps hR rest fun name hmem => h name (.inr hmem)
    unfold evalList
    exact .bind hfirst fun _ => .bind hothers fun _ => .pure _

end

end Expr

/-! ## Commands -/

/-- Whether a built-in command requests a jump. -/
def Builtin.isJump : Builtin → Bool
  | .returnValue | .breakLoop | .continueLoop => true
  | _ => false

/-- Whether a built-in command neither requests a jump nor runs another script. -/
def Builtin.isPlain : Builtin → Bool
  | .returnValue | .breakLoop | .continueLoop | .callScript => false
  | _ => true

/-- Whether an action of the host neither removes anything nor creates a context. -/
def HostAction.isPlain : HostAction → Bool
  | .removeGlobal _ | .unregister _ | .backgroundSelf => false
  | _ => true

/-- Whether a command requests a jump. -/
def Command.isJump (command : Command) : Bool :=
  match command.action with
  | .builtin builtin => builtin.isJump
  | .host _ => false

/-- A new context came to be, and everything else that was added came after it. -/
structure Machine.Created (m : Machine) (context : Context) (m' : Machine) : Prop where
  isNew : context.IsNew
  id : m.contextCount < context.id
  enlists : Machine.Enlists context.id m m'

/-- Running other scripts lets the machine grow. -/
structure Callee.Keeps (callee : Callee) : Prop where
  run : ∀ program arguments, (callee.run program arguments).Keeps Machine.Grows
  create : ∀ program arguments, (callee.create program arguments).Keeps Machine.Grows
  created : ∀ program arguments m context m',
    callee.create program arguments m = .done context m' → m.Created context m'

/-- A created context goes to the end of the background. -/
theorem Machine.Created.grows_addBackground {m m' : Machine} {context : Context}
    (h : m.Created context m') (hgrows : m.Grows m') : m.Grows (m'.addBackground context) := by
  refine ⟨hgrows.settings, hgrows.depth, hgrows.raised, hgrows.commands, ?_⟩
  have hid := h.id
  rcases h.enlists with ⟨hcount, added, hadded, hnew, hnodup⟩
  refine ⟨hgrows.background.1, added ++ [{ context with backgrounded := true }], ?_, ?_, ?_⟩
  · simp only [Machine.addBackground, hadded, List.append_assoc]
  · intro other hmem
    rcases List.mem_append.1 hmem with hmem | hmem
    · have hother := hnew other hmem
      exact ⟨hother.1, by omega, hother.2.2⟩
    · rw [List.mem_singleton] at hmem
      subst hmem
      have hnew := h.isNew
      exact ⟨⟨hnew.runs, hnew.frames, hnew.elapsed, hnew.tree⟩, hid, hcount⟩
  · rw [List.map_append, List.nodup_append]
    refine ⟨hnodup, by simp, ?_⟩
    intro i hi j hj hij
    rcases List.mem_map.1 hi with ⟨other, hother, rfl⟩
    simp only [List.map_cons, List.map_nil, List.mem_singleton] at hj
    have habove := (hnew other hother).2.1
    omega

namespace CommandStep

open Execution

theorem onMachine_quiet {f : Machine → Machine} (h : ∀ m : Machine, m.Grows (f m)) :
    (onMachine f).Keeps Quiet :=
  .change fun e => .onMachine (h e.machine)

theorem onMachine_plain {f : Machine → Machine} (h : ∀ m : Machine, m.Plain (f m)) :
    (onMachine f).Keeps Plain :=
  .change fun e => .onMachine (h e.machine)

theorem createArray_plain (elements : List Value) : (createArray elements).Keeps Plain :=
  fun e => Plain.arrays e (e.machine.arrays.create elements).2

theorem updateArray_plain (id : ArrayId) (position : Nat) (update : Arrays → Option Arrays) :
    (updateArray id position update).Keeps Plain := by
  apply Action.Keeps.get_bind
  intro e
  cases hupdate : update e.machine.arrays with
  | some arrays =>
    exact Plain.arrays e arrays
  | none =>
    exact Lasting.refl e

/-- An operation of the machine leaves the context alone. -/
theorem operate_quiet {operation : Operation α} (h : operation.Keeps Machine.Grows) :
    (operate operation).Keeps Quiet :=
  .attempt (.onPart h fun e _ hgrows => ⟨⟨hgrows, Lasting.refl e.context⟩, rfl, rfl, rfl⟩)

end CommandStep

namespace Builtin

open Execution CommandStep

theorem target_quiet (name : String) : (target name).Keeps Quiet := by
  unfold target
  refine .bind .get fun e => ?_
  split
  · exact .pure _
  · exact operate_quiet (Machine.load_keeps name)

theorem doCall_quiet {callee : Callee} (hcallee : callee.Keeps) (arguments : List Value) :
    (doCall callee arguments).Keeps Quiet := by
  unfold doCall
  refine .bind (.ofExcept _) fun name => ?_
  simp only
  split
  · exact .fail _
  · refine .bind (target_quiet name) fun program => ?_
    cases program with
    | error e => exact .pure _
    | ok program =>
      refine .bind (operate_quiet (hcallee.run program _)) fun result => ?_
      split
      · exact .pure _
      · exact .pure _
      · exact .pure _

theorem doFormat_plain (arguments : List Value) : (doFormat arguments).Keeps Plain := by
  unfold doFormat
  refine .bind (.ofExcept _) fun format => .bind (.ofExcept _) fun x =>
    .bind (.ofExcept _) fun unsigned => ?_
  split
  · exact .pure _
  · exact .fail _

theorem doPrint_plain (arguments : List Value) : (doPrint arguments).Keeps Plain :=
  .bind (.ofExcept _) fun _ =>
    .bind (onMachine_plain fun _ => ⟨rfl, id, fun _ => rfl⟩) fun _ => .pure _

theorem doRandom_plain (arguments : List Value) : (doRandom arguments).Keeps Plain := by
  unfold doRandom
  refine .bind (.ofExcept _) fun a => .bind (.ofExcept _) fun b => ?_
  split
  · apply Action.Keeps.get_bind
    intro e
    have hplain := Machine.draw_plain e.machine
    cases hdraw : e.machine.draw with
    | mk t machine =>
      rw [hdraw] at hplain
      exact ⟨hplain, Lasting.refl e.context, rfl, rfl, rfl⟩
  · exact .fail _

theorem doRaise_plain (line : Nat) (arguments : List Value) :
    (doRaise line arguments).Keeps Plain :=
  .bind (.ofExcept _) fun _ => .bind .get fun _ =>
    .bind (onMachine_plain fun _ => ⟨rfl, fun _ => rfl, fun _ => rfl⟩) fun _ => .pure _

theorem doInsert_plain (arguments : List Value) : (doInsert arguments).Keeps Plain := by
  unfold doInsert
  split
  · exact .fail _
  · refine .bind (.ofExcept _) fun id => .bind (.ofExcept _) fun v =>
      .bind (.ofExcept _) fun position => ?_
    cases position with
    | none =>
      exact .bind (onMachine_plain fun _ => ⟨rfl, fun h => h, fun _ => rfl⟩) fun _ => .pure _
    | some i => exact .bind (updateArray_plain id i _) fun _ => .pure _

theorem doErase_plain (arguments : List Value) : (doErase arguments).Keeps Plain :=
  .bind (.ofExcept _) fun id => .bind (.ofExcept _) fun i =>
    .bind (updateArray_plain id i _) fun _ => .pure _

theorem doClear_plain (arguments : List Value) : (doClear arguments).Keeps Plain :=
  .bind (.ofExcept _) fun _ =>
    .bind (onMachine_plain fun _ => ⟨rfl, id, fun _ => rfl⟩) fun _ => .pure _

theorem doSize_plain (arguments : List Value) : (doSize arguments).Keeps Plain :=
  .bind (.ofExcept _) fun _ => .bind .get fun _ => .pure _

theorem doAt_plain (arguments : List Value) : (doAt arguments).Keeps Plain := by
  unfold doAt
  refine .bind (.ofExcept _) fun id => .bind (.ofExcept _) fun i => .bind .get fun e => ?_
  split
  · exact .pure _
  · exact .fail _

/-- A built-in command that is neither a jump nor the call of a script. -/
theorem perform_plain (callee : Callee) (line : Nat) (arguments : List Value) {builtin : Builtin}
    (h : builtin.isPlain = true) : (builtin.perform callee line arguments).Keeps Plain := by
  cases builtin with
  | returnValue | breakLoop | continueLoop | callScript => cases h
  | secondsPassed => exact .bind .get fun _ => .pure _
  | formatNumber => exact doFormat_plain arguments
  | printToConsole => exact doPrint_plain arguments
  | randomNumber => exact doRandom_plain arguments
  | raiseError => exact doRaise_plain line arguments
  | isBackgrounding => exact .bind .get fun _ => .pure _
  | arrayCreate => exact .bind (createArray_plain arguments) fun _ => .pure _
  | arrayInsert => exact doInsert_plain arguments
  | arrayErase => exact doErase_plain arguments
  | arrayClear => exact doClear_plain arguments
  | arraySize => exact doSize_plain arguments
  | arrayAt => exact doAt_plain arguments

/-- A built-in command changes things plainly, requests a jump of its context or runs another
script. -/
theorem perform_keeps {R : Execution → Execution → Prop} [Lasting R]
    (hplain : ∀ e e', e.Plain e' → R e e')
    (hcontext : ∀ (e : Execution) (context : Context), e.context.Evolves context →
      R e { e with context := context })
    {callee : Callee} (hcall : ∀ arguments, (doCall callee arguments).Keeps R) (line : Nat)
    (arguments : List Value) (builtin : Builtin) :
    (builtin.perform callee line arguments).Keeps R := by
  have hjump : ∀ f : Context → Context, (∀ c : Context, c.Evolves (f c)) →
      (CommandStep.onContext f).Keeps R :=
    fun f hf => .change fun e => hcontext e (f e.context) (hf e.context)
  by_cases h : builtin.isPlain = true
  · exact (perform_plain callee line arguments h).mono hplain
  · cases builtin with
    | returnValue =>
      show (doReturn arguments).Keeps R
      unfold doReturn
      split
      · exact .fail _
      · exact .bind (.ofExcept _) fun halt =>
          .bind (hjump _ fun _ => ⟨⟨rfl, rfl, rfl, rfl, rfl, rfl, rfl⟩, rfl⟩) fun _ => .pure _
    | breakLoop =>
      exact .bind (hjump _ fun _ => ⟨⟨rfl, rfl, rfl, rfl, rfl, rfl, rfl⟩, rfl⟩) fun _ => .pure _
    | continueLoop =>
      exact .bind (hjump _ fun _ => ⟨⟨rfl, rfl, rfl, rfl, rfl, rfl, rfl⟩, rfl⟩) fun _ => .pure _
    | callScript => exact hcall arguments
    | _ => exact absurd rfl h

/-- A built-in command other than the three jumps requests no jump. -/
theorem perform_quiet {callee : Callee} (hcallee : callee.Keeps) (line : Nat)
    (arguments : List Value) (builtin : Builtin) (h : builtin.isJump = false) :
    (builtin.perform callee line arguments).Keeps Quiet := by
  by_cases hplain : builtin.isPlain = true
  · exact (perform_plain callee line arguments hplain).quiet
  · cases builtin with
    | returnValue | breakLoop | continueLoop => cases h
    | callScript => exact doCall_quiet hcallee arguments
    | _ => exact absurd rfl hplain

/-- A jump changes the request, the result and the halt flag of its context only. -/
theorem perform_evolves {callee : Callee} (hcallee : callee.Keeps) (line : Nat)
    (arguments : List Value) (builtin : Builtin) :
    (builtin.perform callee line arguments).Keeps Evolves :=
  perform_keeps (fun _ _ h => h.quiet.toEvolves) (fun e _ h => ⟨Lasting.refl e.machine, h⟩)
    (fun values => (doCall_quiet hcallee values).mono fun _ _ h => h.toEvolves) line arguments builtin

end Builtin

/-! ## Calls -/

namespace HostAction

open Execution CommandStep

/-- An action of the host that removes nothing and creates no context. -/
theorem perform_plain (callee : Callee) (arguments : List Value) {action : HostAction}
    (h : action.isPlain = true) : (action.perform callee arguments).Keeps Plain := by
  cases action with
  | nothing => exact .pure _
  | echo i checked => exact .bind (.ofExcept _) fun _ => .pure _
  | constant v => exact .pure _
  | fail message => exact .fail _
  | countArguments => exact .pure _
  | numberOf i => exact .bind (.ofExcept _) fun _ => .pure _
  | stringOf i => exact .bind (.ofExcept _) fun _ => .pure _
  | arrayOf i => exact .bind (.ofExcept _) fun _ => .pure _
  | indexOf i => exact .bind (.ofExcept _) fun _ => .pure _
  | raise =>
    exact .bind (onMachine_plain fun _ => ⟨rfl, fun _ => rfl, fun _ => rfl⟩) fun _ => .pure _
  | removeGlobal name | unregister name | backgroundSelf => cases h

theorem backgroundRunning_quiet {callee : Callee} (hcallee : callee.Keeps)
    (arguments : List Value) : (backgroundRunning callee arguments).Keeps Quiet := by
  apply Action.Keeps.get_bind
  intro e
  have hcreate := hcallee.create e.context.program arguments e.machine
  rw [Action.bind_run]
  unfold CommandStep.operate
  rw [Action.attempt_run]
  unfold Action.onPart
  cases hrun : callee.create e.context.program arguments e.machine with
  | done context m =>
    rw [hrun] at hcreate
    have hcreated := hcallee.created _ _ _ _ _ hrun
    exact Quiet.onMachine (e := e) (f := fun _ => m.addBackground context)
      (hcreated.grows_addBackground hcreate)
  | failed error m =>
    rw [hrun] at hcreate
    exact Quiet.onMachine (e := e) (f := fun _ => m) hcreate
  | exhausted => trivial

/-- An action of the host requests no jump. -/
theorem perform_quiet {callee : Callee} (hcallee : callee.Keeps) (arguments : List Value)
    (action : HostAction) : (action.perform callee arguments).Keeps Quiet := by
  by_cases hplain : action.isPlain = true
  · exact (perform_plain callee arguments hplain).quiet
  · cases action with
    | removeGlobal name =>
      exact .bind (onMachine_quiet fun m => m.removeGlobal_grows name) fun _ => .pure _
    | unregister name =>
      refine .bind (onMachine_quiet fun m => ?_) fun _ => .pure _
      cases hrun : m.unregister name with
      | ok pair => exact Machine.unregister_grows hrun
      | error e => exact Lasting.refl m
    | backgroundSelf => exact backgroundRunning_quiet hcallee arguments
    | _ => exact absurd rfl hplain

end HostAction

section Kept

variable {R : Execution → Execution → Prop} [Lasting R] {callee : Callee} {line : Nat}

/-- The call of a command does what the command does. -/
theorem Command.call_keeps {command : Command} {arguments : List Value}
    (h : (command.perform callee line arguments).Keeps R) :
    (command.call callee line arguments).Keeps R :=
  .bind (.ofExcept _) fun _ => .bind (.mapError _ h) fun _ => .ofExcept _

/-- The call of a command by name does what some command does. -/
theorem invoke_keeps {arguments : List Value}
    (h : ∀ command : Command, (command.call callee line arguments).Keeps R) (name : String) :
    (invoke callee line name arguments).Keeps R := by
  refine .bind .get fun e => ?_
  cases e.machine.commands.lookup? name with
  | none => exact .fail _
  | some command => exact h command

end Kept

section Calls

open Execution

variable {callee : Callee} (hcallee : callee.Keeps) (line : Nat)
include hcallee

/-- What the call of a command changes. -/
theorem Command.call_evolves (command : Command) (arguments : List Value) :
    (command.call callee line arguments).Keeps Evolves := by
  apply Command.call_keeps
  unfold Command.perform
  split
  · exact Builtin.perform_evolves hcallee line arguments _
  · exact (HostAction.perform_quiet hcallee arguments _).mono fun _ _ h => h.toEvolves

/-- The call of a command that is no jump requests no jump. -/
theorem Command.call_quiet (command : Command) (arguments : List Value)
    (h : command.isJump = false) : (command.call callee line arguments).Keeps Quiet := by
  apply Command.call_keeps
  unfold Command.perform
  unfold Command.isJump at h
  cases haction : command.action with
  | builtin builtin =>
    rw [haction] at h
    exact Builtin.perform_quiet hcallee line arguments builtin h
  | host action => exact HostAction.perform_quiet hcallee arguments action

/-- What the call of a command by name changes. -/
theorem invoke_evolves (name : String) (arguments : List Value) :
    (invoke callee line name arguments).Keeps Evolves :=
  invoke_keeps (fun command => Command.call_evolves hcallee line command arguments) name

/-- What the evaluation of an expression changes. -/
theorem Expr.eval_evolves (e : Expr) : (e.eval (invoke callee line)).Keeps Evolves :=
  Expr.eval_keeps (fun _ _ h => h.quiet.toEvolves) e fun name _ values =>
    invoke_evolves hcallee line name values

end Calls

/-! ## Expressions without jumps -/

/-- No command that answers to one of the names is a jump. -/
def CommandTable.JumpFree (table : CommandTable) (names : List String) : Prop :=
  ∀ name ∈ names, ∀ command ∈ table.commands,
    command.signature.answersTo name = true → command.isJump = false

/-- A smaller table offers no more jumps. -/
theorem CommandTable.JumpFree.of_subset {table smaller : CommandTable} {names : List String}
    (h : table.JumpFree names) (hsub : ∀ command ∈ smaller.commands, command ∈ table.commands) :
    smaller.JumpFree names :=
  fun name hname command hmem => h name hname command (hsub command hmem)

namespace Execution

/-- An evolution without a request, provided that none of the names means a jump. -/
def QuietUnder (names : List String) (e e' : Execution) : Prop :=
  e.machine.commands.JumpFree names → e.Quiet e'

instance (names : List String) : Lasting (QuietUnder names) where
  refl e _ := Lasting.refl e
  trans h h' hfree :=
    have hfirst := h hfree
    Lasting.trans hfirst (h' (hfree.of_subset hfirst.machine.commands))

end Execution

section Calls

open Execution

variable {callee : Callee} (hcallee : callee.Keeps) (line : Nat)
include hcallee

/-- The call of a command by a name that means no jump. -/
theorem invoke_quietUnder (names : List String) (name : String) (hname : name ∈ names)
    (arguments : List Value) : (invoke callee line name arguments).Keeps (QuietUnder names) := by
  apply Action.Keeps.get_bind
  intro e
  cases hlookup : e.machine.commands.lookup? name with
  | none => exact (Action.Keeps.fail (R := QuietUnder names) (RuntimeCause.lostCommand name)) e
  | some command =>
    by_cases hfree : e.machine.commands.JumpFree names
    · rcases CommandTable.lookup?_mem _ _ _ hlookup with ⟨hmem, hanswers⟩
      have hcall := Command.call_quiet hcallee line command arguments
        (hfree name hname command hmem hanswers)
      exact hcall.mono (S := QuietUnder names) (fun _ _ h _ => h) e
    · show Outcome.Ends (QuietUnder names e) (command.call callee line arguments e)
      cases hrun : command.call callee line arguments e with
      | done v t => exact fun h => absurd h hfree
      | failed error t => exact fun h => absurd h hfree
      | exhausted => trivial

/-- The evaluation of an expression that calls no jump. -/
theorem Expr.eval_quietUnder (e : Expr) :
    (e.eval (invoke callee line)).Keeps (QuietUnder e.calls) :=
  Expr.eval_keeps (R := QuietUnder e.calls) (fun _ _ h _ => h.quiet) e fun name hname values =>
    invoke_quietUnder hcallee line e.calls name hname values

end Calls

end ScriptMachine
