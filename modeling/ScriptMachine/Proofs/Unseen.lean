import ScriptMachine.Machine.Step

/-!
# What evaluations do not see

Whatever statements are under way, an expression does the same: the commands that it calls
read and change the machine, the variables and the pending jump of the context, but never
its frames.  Neither do they see its clock or the step budget of the machine.  So frames may
be put under an evaluation or taken away from it, and it may be made at another time.

Main results:

- {lit}`Action.Ignores`: an action does the same behind a change of the state.
- {lit}`Disguise`: other frames, another time and another budget.
- {lit}`Execution.evaluate_ignores_disguise`: the expression of a node ignores all of them.
- {lit}`Execution.evaluate_ignores`: it ignores other frames, whatever the callees do.
-/

namespace ScriptMachine

variable {σ τ ε δ α β : Type}

/-! ## Actions behind a change -/

/-- The outcome with a change of the state behind it. -/
def Outcome.after (f : σ → σ) : Outcome σ ε α → Outcome σ ε α
  | .done x s => .done x (f s)
  | .failed e s => .failed e (f s)
  | .exhausted => .exhausted

/-- An action does the same behind a change of the state. -/
def Action.Ignores (f : σ → σ) (action : Action σ ε α) : Prop :=
  ∀ s, action (f s) = (action s).after f

namespace Action
namespace Ignores

variable {f : σ → σ}

theorem pure (x : α) : (pure x : Action σ ε α).Ignores f := fun _ => rfl

theorem fail (e : ε) : (fail e : Action σ ε α).Ignores f := fun _ => rfl

theorem ofExcept (result : Except ε α) : (ofExcept result).Ignores f := by
  intro s
  cases result with
  | ok x => rfl
  | error e => rfl

/-- A change of what is ignored by the other one. -/
theorem change {g : σ → σ} (h : ∀ s, g (f s) = f (g s)) :
    (change g : Action σ ε Unit).Ignores f := by
  intro s
  rw [change_run, change_run, h]
  rfl

/-- A sequence ignores what its parts ignore. -/
theorem bind {action : Action σ ε α} {next : α → Action σ ε β} (h : action.Ignores f)
    (hnext : ∀ x, (next x).Ignores f) : (action >>= next).Ignores f := by
  intro s
  rw [bind_run, bind_run, h s]
  cases hrun : action s with
  | done x t => exact hnext x t
  | failed e t => rfl
  | exhausted => rfl

/-- What comes behind the state may depend on the state. -/
theorem get_bind {next : σ → Action σ ε β} (h : ∀ s, next (f s) (f s) = (next s s).after f) :
    (Action.get >>= next).Ignores f :=
  fun s => h s

/-- What comes behind the state may depend on what the change leaves alone. -/
theorem get_bind_of_same {next : σ → Action σ ε β} (hsame : ∀ s, next (f s) = next s)
    (h : ∀ s, (next s).Ignores f) : (Action.get >>= next).Ignores f := by
  apply get_bind
  intro s
  rw [hsame]
  exact h s s

/-- A change that changes nothing is ignored. -/
theorem of_same {action : Action σ ε α} (h : ∀ s, f s = s) : action.Ignores f := by
  intro s
  rw [h]
  cases hrun : action s with
  | done x t => rw [Outcome.after, h]
  | failed e t => rw [Outcome.after, h]
  | exhausted => rfl

theorem mapError {action : Action σ ε α} (g : ε → δ) (h : action.Ignores f) :
    (mapError g action).Ignores f := by
  intro s
  rw [mapError_run, mapError_run, h s]
  cases hrun : action s with
  | done x t => rfl
  | failed e t => rfl
  | exhausted => rfl

theorem attempt {action : Action σ ε α} (h : action.Ignores f) :
    (attempt action : Action σ δ (Except ε α)).Ignores f := by
  intro s
  rw [attempt_run, attempt_run, h s]
  cases hrun : action s with
  | done x t => rfl
  | failed e t => rfl
  | exhausted => rfl

/-- An action on a part of the state ignores the change if it ignores what the change does to
that part. -/
theorem onPart {part : σ → τ} {restore : τ → σ → σ} {action : Action τ ε α} {g : τ → τ}
    (h : action.Ignores g) (hpart : ∀ s, part (f s) = g (part s))
    (hrestore : ∀ t s, restore (g t) (f s) = f (restore t s)) :
    (onPart part restore action).Ignores f := by
  intro s
  unfold Action.onPart
  rw [hpart, h]
  cases hrun : action (part s) with
  | done x t =>
    simp only [Outcome.after, hrestore]
  | failed e t =>
    simp only [Outcome.after, hrestore]
  | exhausted => rfl

end Ignores
end Action

/-! ## Disguises -/

/-- A change of what evaluations do not see: of the step budget of the machine, and of the
frames and the clock of the context. -/
structure Disguise where
  budget : Nat → Nat
  frames : List Frame → List Frame
  elapsed : Float → Float

namespace Disguise

/-- A machine in disguise. -/
def machine (d : Disguise) (m : Machine) : Machine :=
  { m with settings := { m.settings with stepBudget := d.budget m.settings.stepBudget } }

/-- A context in disguise. -/
def context (d : Disguise) (c : Context) : Context :=
  { c with frames := d.frames c.frames, elapsed := d.elapsed c.elapsed }

/-- An execution in disguise. -/
def execution (d : Disguise) (e : Execution) : Execution :=
  ⟨d.machine e.machine, d.context e.context⟩

/-- Other frames. -/
def ofFrames (frames : List Frame) : Disguise where
  budget := id
  frames := fun _ => frames
  elapsed := id

variable (d : Disguise)

@[simp] theorem machine_execution (e : Execution) :
    (d.execution e).machine = d.machine e.machine := rfl

@[simp] theorem globals_machine (m : Machine) : (d.machine m).globals = m.globals := rfl

@[simp] theorem arrays_machine (m : Machine) : (d.machine m).arrays = m.arrays := rfl

end Disguise

/-- Running other scripts ignores a disguise. -/
structure Callee.Ignores (d : Disguise) (callee : Callee) : Prop where
  run : ∀ program arguments, (callee.run program arguments).Ignores d.machine
  create : ∀ program arguments, (callee.create program arguments).Ignores d.machine

/-- Other scripts run on the machine, which has no frames. -/
theorem Callee.ignores_ofFrames (callee : Callee) (frames : List Frame) :
    callee.Ignores (.ofFrames frames) where
  run _ _ := .of_same fun _ => rfl
  create _ _ := .of_same fun _ => rfl

/-! ## Operations of the machine -/

namespace Machine

variable (d : Disguise)

/-- Marking a program as stale ignores a disguise. -/
theorem invalidate_machine (m : Machine) (program : Program) :
    (d.machine m).invalidate program = d.machine (m.invalidate program) := by
  have hvalid : (d.machine m).isValid program = m.isValid program := rfl
  unfold invalidate
  rw [hvalid]
  by_cases h : m.isValid program = true
  · rw [if_pos h, if_pos h]
    rfl
  · rw [if_neg h, if_neg h]

/-- Marking dependent programs as stale ignores a disguise. -/
theorem invalidateDependents_machine (m : Machine) (symbol : String) :
    (d.machine m).invalidateDependents symbol = d.machine (m.invalidateDependents symbol) := by
  have hknown : (d.machine m).knownPrograms = m.knownPrograms := rfl
  unfold invalidateDependents
  rw [hknown]
  generalize m.knownPrograms = programs
  induction programs generalizing m with
  | nil => rfl
  | cons program rest ih =>
    have hfirst : invalidateIfDependent symbol (d.machine m) program =
        d.machine (invalidateIfDependent symbol m program) := by
      unfold invalidateIfDependent
      split
      · exact invalidate_machine d m program
      · rfl
    rw [List.foldl_cons, List.foldl_cons, hfirst]
    exact ih _ rfl

/-- Removing a global ignores a disguise. -/
theorem removeGlobal_machine (m : Machine) (name : String) :
    (d.machine m).removeGlobal name = d.machine (m.removeGlobal name) := by
  unfold removeGlobal
  rw [Disguise.globals_machine]
  by_cases h : m.globals.contains name = true
  · rw [if_pos h, if_pos h]
    exact invalidateDependents_machine d { m with globals := m.globals.remove name } name
  · rw [if_neg h, if_neg h]

/-- Removing a command ignores a disguise. -/
theorem unregister_machine (m : Machine) (name : String) :
    (d.machine m).unregister name =
      (m.unregister name).map fun removed => (removed.1, d.machine removed.2) := by
  have hcommands : (d.machine m).commands = m.commands := rfl
  unfold unregister
  rw [hcommands]
  cases m.commands.unregister name with
  | error e => rfl
  | ok pair =>
    rcases pair with ⟨command, commands⟩
    have hfold : ∀ (symbols : List String) (n : Machine),
        symbols.foldl invalidateDependents (d.machine n) =
          d.machine (symbols.foldl invalidateDependents n) := by
      intro symbols
      induction symbols with
      | nil => exact fun _ => rfl
      | cons symbol rest ih =>
        intro n
        rw [List.foldl_cons, List.foldl_cons, invalidateDependents_machine, ih]
    exact congrArg (fun machine => Except.ok (command, machine))
      (hfold _ { m with commands := commands })

/-- Drawing a random number ignores a disguise. -/
theorem draw_machine (m : Machine) :
    (d.machine m).draw = (m.draw.1, d.machine m.draw.2) := by
  have hrandom : (d.machine m).random = m.random := rfl
  unfold draw
  simp only [hrandom]
  generalize m.random * 6364136223846793005 + 1442695040888963407 = next
  rfl

/-- Compiling a source text ignores a disguise. -/
theorem compile_ignores (path : Option String) (source : String) :
    (compile path source).Ignores d.machine := by
  intro m
  unfold compile
  simp only
  have hcompile : Program.compile (d.machine m).countProgram.globals
      (d.machine m).countProgram.commands (d.machine m).countProgram.programCount path
      source.toList = Program.compile m.countProgram.globals m.countProgram.commands
      m.countProgram.programCount path source.toList := rfl
  rw [hcompile]
  cases Program.compile m.countProgram.globals m.countProgram.commands
    m.countProgram.programCount path source.toList with
  | ok program => rfl
  | error e => rfl

/-- Loading a script that is not cached ignores a disguise. -/
theorem loadFresh_ignores (path : List Char) : (loadFresh path).Ignores d.machine := by
  refine .get_bind_of_same (fun _ => rfl) fun m => ?_
  cases m.files.read path with
  | error e => exact .fail _
  | ok source =>
    refine .bind (compile_ignores d _ _) fun program => .get_bind fun n => ?_
    have hvalid : (d.machine n).isValid program = n.isValid program := rfl
    rw [hvalid]
    by_cases h : n.isValid program = true
    · rw [if_pos h, if_pos h]
      rfl
    · rw [if_neg h, if_neg h]
      rfl

/-- Loading a script ignores a disguise. -/
theorem load_ignores (name : String) : (load name).Ignores d.machine := by
  refine .get_bind_of_same (fun _ => rfl) fun m => ?_
  simp only
  cases m.cached? (m.resolve name) with
  | none => exact loadFresh_ignores d _
  | some program =>
    by_cases h : m.isValid program = true
    · simp only [if_pos h]
      exact .pure _
    · simp only [if_neg h]
      exact loadFresh_ignores d _

end Machine

/-! ## Variables and arrays -/

namespace Evaluation

open Execution

variable (d : Disguise)

/-- Reading a variable ignores a disguise. -/
theorem readSlot_ignores (slot : Nat) : (readSlot slot).Ignores d.execution := by
  refine .get_bind_of_same (fun _ => rfl) fun s => ?_
  cases s.context.locals[slot]? with
  | some v => exact .pure v
  | none => exact .fail _

/-- Assigning to a variable ignores a disguise. -/
theorem writeSlot_ignores (slot : Nat) (v : Value) :
    (writeSlot slot v).Ignores d.execution := by
  apply Action.Ignores.get_bind
  intro s
  by_cases hslot : slot < s.context.locals.length
  · have hslot' : slot < (d.execution s).context.locals.length := hslot
    rw [if_pos hslot, if_pos hslot']
    rfl
  · have hslot' : ¬slot < (d.execution s).context.locals.length := hslot
    rw [if_neg hslot, if_neg hslot']
    rfl

/-- Reading a global ignores a disguise. -/
theorem readGlobal_ignores (key : String) : (readGlobal key).Ignores d.execution := by
  refine .get_bind_of_same (fun _ => rfl) fun s => ?_
  cases s.machine.globals.get? key with
  | some v => exact .pure v
  | none => exact .fail _

/-- Assigning to a global ignores a disguise. -/
theorem writeGlobal_ignores (key : String) (v : Value) :
    (writeGlobal key v).Ignores d.execution := by
  apply Action.Ignores.get_bind
  intro s
  rw [Disguise.machine_execution, Disguise.globals_machine]
  by_cases hkey : s.machine.globals.contains key = true
  · rw [if_pos hkey, if_pos hkey]
    rfl
  · rw [if_neg hkey, if_neg hkey]
    rfl

/-- Assigning to an element ignores a disguise. -/
theorem writeElement_ignores (id : ArrayId) (position : Nat) (v : Value) :
    (writeElement id position v).Ignores d.execution := by
  apply Action.Ignores.get_bind
  intro s
  rw [Disguise.machine_execution, Disguise.arrays_machine]
  cases s.machine.arrays.set? id position v with
  | some arrays => rfl
  | none => rfl

/-- A result that depends on arrays ignores a disguise. -/
theorem withArrays_ignores (f : Arrays → Except RuntimeCause α) :
    (withArrays f).Ignores d.execution :=
  .get_bind_of_same (fun _ => rfl) fun _ => .ofExcept _

/-- The value that an assignment stores ignores a disguise. -/
theorem combined_ignores (op : AssignOp) {old : Evaluation Value}
    (hold : old.Ignores d.execution) (new : Value) :
    (combined op old new).Ignores d.execution := by
  unfold combined
  cases op.combine? with
  | none => exact .pure new
  | some combine => exact .bind hold fun _ => withArrays_ignores d _

end Evaluation

/-! ## Expressions -/

namespace Expr

open Execution Evaluation

variable {d : Disguise} {invoke : Invoker}

mutual

/-- An expression ignores a disguise when the commands do. -/
theorem eval_ignores (h : ∀ name values, (invoke name values).Ignores d.execution) :
    (e : Expr) → (e.eval invoke).Ignores d.execution
  | .number x => by
    unfold eval
    exact .pure _
  | .text s => by
    unfold eval
    exact .pure _
  | .reference handle => by
    unfold eval
    exact .pure _
  | .slot i => by
    unfold eval
    exact readSlot_ignores d i
  | .global key => by
    unfold eval
    exact readGlobal_ignores d key
  | .index target position => by
    have htarget := eval_ignores h target
    have hposition := eval_ignores h position
    unfold eval
    exact .bind htarget fun _ => .bind hposition fun _ => withArrays_ignores d _
  | .unary op operand => by
    have hoperand := eval_ignores h operand
    unfold eval
    exact .bind hoperand fun _ => .ofExcept _
  | .binary op left right => by
    have hleft := eval_ignores h left
    have hright := eval_ignores h right
    cases op with
    | and =>
      unfold eval
      refine .bind hleft fun l => .bind (.ofExcept _) fun b => ?_
      cases b with
      | true => exact .bind hright fun _ => .bind (.ofExcept _) fun _ => .pure _
      | false => exact .pure _
    | or =>
      unfold eval
      refine .bind hleft fun l => .bind (.ofExcept _) fun b => ?_
      cases b with
      | true => exact .pure _
      | false => exact .bind hright fun _ => .bind (.ofExcept _) fun _ => .pure _
    | _ =>
      unfold eval
      exact .bind hleft fun _ => .bind hright fun _ => withArrays_ignores d _
  | .assignSlot i op value => by
    have hvalue := eval_ignores h value
    unfold eval
    exact .bind hvalue fun new =>
      .bind (combined_ignores d op (readSlot_ignores d i) new) fun stored =>
        .bind (writeSlot_ignores d i stored) fun _ => .pure _
  | .assignGlobal key op value => by
    have hvalue := eval_ignores h value
    unfold eval
    exact .bind hvalue fun new =>
      .bind (combined_ignores d op (readGlobal_ignores d key) new) fun stored =>
        .bind (writeGlobal_ignores d key stored) fun _ => .pure _
  | .assignElement base position op value => by
    have hbase := eval_ignores h base
    have hposition := eval_ignores h position
    have hvalue := eval_ignores h value
    unfold eval
    refine .bind hvalue fun new => .bind hbase fun target => .bind (.ofExcept _) fun id =>
      .bind hposition fun index => .bind (.ofExcept _) fun i => ?_
    exact .bind (combined_ignores d op (withArrays_ignores d _) new) fun stored =>
      .bind (writeElement_ignores d id i stored) fun _ => .pure _
  | .call command arguments => by
    have harguments := evalList_ignores h arguments
    unfold eval
    exact .bind harguments fun values => h command values

/-- A list of expressions ignores a disguise when the commands do. -/
theorem evalList_ignores (h : ∀ name values, (invoke name values).Ignores d.execution) :
    (es : List Expr) → (evalList invoke es).Ignores d.execution
  | [] => by
    unfold evalList
    exact .pure _
  | e :: rest => by
    have hfirst := eval_ignores h e
    have hothers := evalList_ignores h rest
    unfold evalList
    exact .bind hfirst fun _ => .bind hothers fun _ => .pure _

end

end Expr

/-! ## Commands -/

section Commands

open Execution CommandStep

variable (d : Disguise)

/-- A change of the machine ignores a disguise of it that it leaves alone. -/
theorem CommandStep.onMachine_ignores {f : Machine → Machine}
    (h : ∀ m, f (d.machine m) = d.machine (f m)) : (onMachine f).Ignores d.execution := by
  refine .change fun s => ?_
  unfold Execution.onMachine
  rw [Disguise.machine_execution, h]
  rfl

/-- An operation of the machine ignores a disguise of the execution if it ignores it on the
machine. -/
theorem CommandStep.operate_ignores {operation : Operation α} (h : operation.Ignores d.machine) :
    (operate operation).Ignores d.execution :=
  .attempt (.onPart h (fun _ => rfl) fun _ _ => rfl)

/-- A change of an array ignores a disguise. -/
theorem CommandStep.updateArray_ignores (id : ArrayId) (position : Nat)
    (update : Arrays → Option Arrays) :
    (updateArray id position update).Ignores d.execution := by
  refine .get_bind_of_same (fun _ => rfl) fun s => ?_
  cases update s.machine.arrays with
  | some arrays => exact onMachine_ignores d fun _ => rfl
  | none => exact .fail _

namespace Builtin

/-- A return ignores a disguise. -/
theorem doReturn_ignores (arguments : List Value) :
    (doReturn arguments).Ignores d.execution := by
  unfold doReturn
  by_cases hmany : 2 < arguments.length
  · rw [if_pos hmany]
    exact .fail _
  · rw [if_neg hmany]
    exact .bind (.ofExcept _) fun _ => .bind (.change fun _ => rfl) fun _ => .pure _

/-- Looking for the script of a call ignores a disguise. -/
theorem target_ignores (name : String) : (target name).Ignores d.execution := by
  refine .get_bind_of_same (fun _ => rfl) fun s => ?_
  by_cases hself : Text.sameName name selfName = true
  · rw [if_pos hself]
    exact .pure _
  · rw [if_neg hself]
    exact operate_ignores d (Machine.load_ignores d name)

/-- A call ignores a disguise of the caller. -/
theorem doCall_ignores {callee : Callee} (hcallee : callee.Ignores d) (arguments : List Value) :
    (doCall callee arguments).Ignores d.execution := by
  unfold doCall
  refine .bind (.ofExcept _) fun name => ?_
  by_cases hmany : maxParameters < (arguments.drop 1).length
  · simp only [if_pos hmany]
    exact .fail _
  · simp only [if_neg hmany]
    refine .bind (target_ignores d name) fun found => ?_
    cases found with
    | error e => exact .pure _
    | ok program =>
      refine .bind (operate_ignores d (hcallee.run program _)) fun answer => ?_
      cases answer with
      | error e => exact .pure _
      | ok result =>
        cases result with
        | none => exact .pure _
        | some v => exact .pure _

/-- Formatting ignores a disguise. -/
theorem doFormat_ignores (arguments : List Value) :
    (doFormat arguments).Ignores d.execution := by
  refine .bind (.ofExcept _) fun format => .bind (.ofExcept _) fun x =>
    .bind (.ofExcept _) fun unsigned => ?_
  cases Printf.format format x (!(unsigned == 0.0)) with
  | ok text => exact .pure _
  | error fault => exact .fail _

/-- A random number ignores a disguise. -/
theorem doRandom_ignores (arguments : List Value) :
    (doRandom arguments).Ignores d.execution := by
  refine .bind (.ofExcept _) fun a => .bind (.ofExcept _) fun b => ?_
  by_cases hfinite : (Number.isFinite a && Number.isFinite b) = true
  · rw [if_pos hfinite]
    apply Action.Ignores.get_bind
    intro s
    simp only [Disguise.machine_execution, Machine.draw_machine]
    cases s.machine.draw with
    | mk t machine => rfl
  · rw [if_neg hfinite]
    exact .fail _

/-- An insertion ignores a disguise. -/
theorem doInsert_ignores (arguments : List Value) :
    (doInsert arguments).Ignores d.execution := by
  unfold doInsert
  by_cases hcount : (arguments.length < 2 || 3 < arguments.length) = true
  · rw [if_pos hcount]
    exact .fail _
  · rw [if_neg hcount]
    refine .bind (.ofExcept _) fun id => .bind (.ofExcept _) fun v =>
      .bind (.ofExcept _) fun position => ?_
    cases position with
    | none => exact .bind (onMachine_ignores d fun _ => rfl) fun _ => .pure _
    | some i => exact .bind (updateArray_ignores d id i _) fun _ => .pure _

/-- Reading an element ignores a disguise. -/
theorem doAt_ignores (arguments : List Value) : (doAt arguments).Ignores d.execution := by
  refine .bind (.ofExcept _) fun id => .bind (.ofExcept _) fun i =>
    .get_bind_of_same (fun _ => rfl) fun s => ?_
  cases s.machine.arrays.at? id i with
  | some v => exact .pure _
  | none => exact .fail _

/-- A built-in command ignores a disguise. -/
theorem perform_ignores {callee : Callee} (hcallee : callee.Ignores d) (line : Nat)
    (arguments : List Value) (builtin : Builtin) :
    (builtin.perform callee line arguments).Ignores d.execution := by
  cases builtin with
  | returnValue => exact doReturn_ignores d arguments
  | callScript => exact doCall_ignores d hcallee arguments
  | breakLoop => exact .bind (.change fun _ => rfl) fun _ => .pure _
  | continueLoop => exact .bind (.change fun _ => rfl) fun _ => .pure _
  | secondsPassed => exact .get_bind_of_same (fun _ => rfl) fun _ => .pure _
  | formatNumber => exact doFormat_ignores d arguments
  | printToConsole =>
    exact .bind (.ofExcept _) fun _ => .bind (onMachine_ignores d fun _ => rfl) fun _ => .pure _
  | randomNumber => exact doRandom_ignores d arguments
  | raiseError =>
    refine .bind (.ofExcept _) fun message => .get_bind_of_same (fun _ => rfl) fun _ => ?_
    exact .bind (onMachine_ignores d fun _ => rfl) fun _ => .pure _
  | isBackgrounding => exact .get_bind_of_same (fun _ => rfl) fun _ => .pure _
  | arrayCreate => exact .bind (fun _ => rfl) fun _ => .pure _
  | arrayInsert => exact doInsert_ignores d arguments
  | arrayErase =>
    exact .bind (.ofExcept _) fun id => .bind (.ofExcept _) fun i =>
      .bind (updateArray_ignores d id i _) fun _ => .pure _
  | arrayClear =>
    exact .bind (.ofExcept _) fun _ => .bind (onMachine_ignores d fun _ => rfl) fun _ => .pure _
  | arraySize =>
    exact .bind (.ofExcept _) fun _ => .get_bind_of_same (fun _ => rfl) fun _ => .pure _
  | arrayAt => exact doAt_ignores d arguments

end Builtin

/-- An action of the host ignores a disguise. -/
theorem HostAction.perform_ignores {callee : Callee} (hcallee : callee.Ignores d)
    (arguments : List Value) (action : HostAction) :
    (action.perform callee arguments).Ignores d.execution := by
  cases action with
  | nothing => exact .pure _
  | echo i checked => exact .bind (.ofExcept _) fun _ => .pure _
  | constant v => exact .pure _
  | fail message => exact .fail _
  | countArguments => exact .pure _
  | numberOf i => exact .bind (.ofExcept _) fun _ => .pure _
  | stringOf i => exact .bind (.ofExcept _) fun _ => .pure _
  | arrayOf i => exact .bind (.ofExcept _) fun _ => .pure _
  | indexOf i => exact .bind (.ofExcept _) fun _ => .pure _
  | raise => exact .bind (onMachine_ignores d fun _ => rfl) fun _ => .pure _
  | removeGlobal name =>
    refine .bind (onMachine_ignores d fun m => ?_) fun _ => .pure _
    exact Machine.removeGlobal_machine d m name
  | unregister name =>
    refine .bind (onMachine_ignores d fun m => ?_) fun _ => .pure _
    rw [Machine.unregister_machine]
    cases m.unregister name with
    | error e => rfl
    | ok removed => rfl
  | backgroundSelf =>
    refine .get_bind_of_same (fun _ => rfl) fun s =>
      .bind (operate_ignores d (hcallee.create _ _)) fun found => ?_
    cases found with
    | error e => exact .fail _
    | ok context => exact .bind (onMachine_ignores d fun _ => rfl) fun _ => .pure _

/-- The call of a command by name ignores a disguise. -/
theorem invoke_ignores {callee : Callee} (hcallee : callee.Ignores d) (line : Nat)
    (name : String) (arguments : List Value) :
    (invoke callee line name arguments).Ignores d.execution := by
  refine .get_bind_of_same (fun _ => rfl) fun s => ?_
  cases s.machine.commands.lookup? name with
  | none => exact .fail _
  | some command =>
    refine .bind (.ofExcept _) fun _ => .bind (.mapError _ ?_) fun _ => .ofExcept _
    unfold Command.perform
    cases command.action with
    | builtin builtin => exact Builtin.perform_ignores d hcallee line arguments builtin
    | host action => exact HostAction.perform_ignores d hcallee arguments action

end Commands

/-! ## Expressions of nodes -/

namespace Execution

variable {d : Disguise} {callee : Callee}

/-- The expression of a node ignores a disguise. -/
theorem evaluate_ignores_disguise (hcallee : callee.Ignores d) (node : Node) :
    (evaluate callee node).Ignores d.execution := by
  unfold evaluate
  cases node.code with
  | none => exact .fail _
  | some code =>
    intro s
    exact (Expr.eval_ignores (invoke_ignores d hcallee node.line) code).mapError _ s

/-- The failure at a node ignores a disguise. -/
theorem failAt_ignores (node : Node) (cause : RuntimeCause) :
    (failAt node cause : Stepping α).Ignores d.execution :=
  .get_bind_of_same (fun _ => rfl) fun _ => .fail _

/-- The condition of a node ignores a disguise. -/
theorem evaluateCondition_ignores_disguise (hcallee : callee.Ignores d) (node : Node) :
    (evaluateCondition callee node).Ignores d.execution := by
  refine .bind (evaluate_ignores_disguise hcallee node) fun v => ?_
  cases v.truth? with
  | some b => exact .pure b
  | none => exact failAt_ignores node _

/-- The array of a loop ignores a disguise. -/
theorem evaluateCollection_ignores_disguise (hcallee : callee.Ignores d) (node : Node) :
    (evaluateCollection callee node).Ignores d.execution := by
  refine .bind (evaluate_ignores_disguise hcallee node) fun v => ?_
  cases v.array? with
  | some id => exact .pure id
  | none => exact failAt_ignores node _

/-- Binding an element ignores a disguise. -/
theorem bindElement_ignores_disguise (slot : Nat) (element : Value) :
    (bindElement slot element).Ignores d.execution := by
  apply Action.Ignores.get_bind
  intro s
  by_cases hslot : slot < s.context.locals.length
  · have hslot' : slot < (d.execution s).context.locals.length := hslot
    rw [if_pos hslot, if_pos hslot']
    rfl
  · have hslot' : ¬slot < (d.execution s).context.locals.length := hslot
    rw [if_neg hslot, if_neg hslot']
    rfl

end Execution

/-! ## Frames -/

namespace Execution

/-- The execution with other frames. -/
def withFrames (frames : List Frame) (execution : Execution) : Execution :=
  execution.onContext fun context => { context with frames := frames }

variable (frames : List Frame)

/-- The frames. -/
@[simp] theorem frames_withFrames (e : Execution) :
    (e.withFrames frames).context.frames = frames := rfl

/-- Frames belong to the context. -/
@[simp] theorem machine_withFrames (e : Execution) :
    (e.withFrames frames).machine = e.machine := rfl

/-- The expression of a node ignores the frames. -/
theorem evaluate_ignores (callee : Callee) (node : Node) :
    (evaluate callee node).Ignores (withFrames frames) :=
  evaluate_ignores_disguise (callee.ignores_ofFrames frames) node

/-- The condition of a node ignores the frames. -/
theorem evaluateCondition_ignores (callee : Callee) (node : Node) :
    (evaluateCondition callee node).Ignores (withFrames frames) :=
  evaluateCondition_ignores_disguise (callee.ignores_ofFrames frames) node

/-- The array of a loop ignores the frames. -/
theorem evaluateCollection_ignores (callee : Callee) (node : Node) :
    (evaluateCollection callee node).Ignores (withFrames frames) :=
  evaluateCollection_ignores_disguise (callee.ignores_ofFrames frames) node

/-- Binding an element ignores the frames. -/
theorem bindElement_ignores (slot : Nat) (element : Value) :
    (bindElement slot element).Ignores (withFrames frames) :=
  bindElement_ignores_disguise (d := .ofFrames frames) slot element

end Execution
end ScriptMachine
