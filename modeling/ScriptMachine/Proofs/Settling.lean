import ScriptMachine.Proofs.Requesting

/-!
# What settles by itself

Only two things in an expression can take fuel or touch the global exception: running another
script, and the command that raises the exception.  Everything else settles by itself: it
answers or fails, whatever the fuel, and leaves the exception as it was.

Main results:

- {lit}`Action.Settles.bind`: a sequence settles when its parts do.
- {lit}`Builtin.perform_settles`: a command that neither runs scripts nor raises settles.
- {lit}`Execution.stepFrame_settles`: so does the work of a frame that evaluates nothing.
-/

namespace ScriptMachine

variable {σ τ ε δ α β : Type}

/-! ## Settling actions -/

/-- There is an answer or an error, and the state behind it has a property. -/
def Outcome.Settles (P : σ → Prop) : Outcome σ ε α → Prop
  | .done _ s => P s
  | .failed _ s => P s
  | .exhausted => False

/-- An action answers or fails, and relates every state to the one in which it ends. -/
def Action.Settles (R : σ → σ → Prop) (action : Action σ ε α) : Prop :=
  ∀ s, (action s).Settles (R s)

namespace Action.Settles

variable {R : σ → σ → Prop}

theorem pure [Lasting R] (x : α) : (pure x : Action σ ε α).Settles R :=
  fun s => Lasting.refl s

theorem fail [Lasting R] (e : ε) : (fail e : Action σ ε α).Settles R :=
  fun s => Lasting.refl s

theorem ofExcept [Lasting R] (result : Except ε α) : (ofExcept result).Settles R := by
  intro s
  cases result <;> exact Lasting.refl s

/-- A change that the relation allows. -/
theorem change {f : σ → σ} (h : ∀ s, R s (f s)) : (change f : Action σ ε Unit).Settles R :=
  fun s => h s

/-- What comes behind the state may depend on the state. -/
theorem get_bind {next : σ → Action σ ε β} (h : ∀ s, (next s s).Settles (R s)) :
    (Action.get >>= next).Settles R :=
  fun s => h s

/-- What comes behind the state settles in every state. -/
theorem get_bind_all {next : σ → Action σ ε β} (h : ∀ s, (next s).Settles R) :
    (Action.get >>= next).Settles R :=
  fun s => h s s

/-- A sequence settles when its parts do. -/
theorem bind [Lasting R] {action : Action σ ε α} {next : α → Action σ ε β}
    (h : action.Settles R) (hnext : ∀ x, (next x).Settles R) : (action >>= next).Settles R := by
  intro s
  have hend := h s
  rw [bind_run]
  cases hrun : action s with
  | done x t =>
    rw [hrun] at hend
    have hlast := hnext x t
    simp only
    cases hrest : next x t with
    | done y u =>
      rw [hrest] at hlast
      exact Lasting.trans hend hlast
    | failed e u =>
      rw [hrest] at hlast
      exact Lasting.trans hend hlast
    | exhausted =>
      rw [hrest] at hlast
      exact hlast
  | failed e t =>
    rw [hrun] at hend
    exact hend
  | exhausted =>
    rw [hrun] at hend
    exact hend

theorem attempt {action : Action σ ε α} (h : action.Settles R) :
    (attempt action : Action σ δ (Except ε α)).Settles R := by
  intro s
  have hend := h s
  rw [attempt_run]
  cases hrun : action s <;> rw [hrun] at hend <;> exact hend

/-- An action on a part of the state. -/
theorem onPart {part : τ → σ} {restore : σ → τ → τ} {action : Action σ ε α} {T : τ → τ → Prop}
    (h : action.Settles R) (hT : ∀ t s, R (part t) s → T t (restore s t)) :
    (onPart part restore action).Settles T := by
  intro t
  have hend := h (part t)
  unfold Action.onPart
  cases hrun : action (part t) with
  | done x s =>
    rw [hrun] at hend
    exact hT t s hend
  | failed e s =>
    rw [hrun] at hend
    exact hT t s hend
  | exhausted =>
    rw [hrun] at hend
    exact hend

end Action.Settles

/-! ## Operations of the machine -/

namespace Machine

/-- The global exception is as it was. -/
def Undecided (m m' : Machine) : Prop :=
  m'.raised = m.raised

instance : Lasting Undecided where
  refl _ := rfl
  trans h h' := Eq.trans h' h

@[simp] theorem raised_invalidate (m : Machine) (program : Program) :
    (m.invalidate program).raised = m.raised := by
  unfold invalidate
  split <;> rfl

@[simp] theorem raised_invalidateDependents (m : Machine) (symbol : String) :
    (m.invalidateDependents symbol).raised = m.raised := by
  unfold invalidateDependents
  generalize m.knownPrograms = programs
  induction programs generalizing m with
  | nil => rfl
  | cons program rest ih =>
    rw [List.foldl_cons, ih]
    unfold invalidateIfDependent
    split
    · exact raised_invalidate m program
    · rfl

@[simp] theorem raised_removeGlobal (m : Machine) (name : String) :
    (m.removeGlobal name).raised = m.raised := by
  unfold removeGlobal
  split
  · rw [raised_invalidateDependents]
  · rfl

theorem raised_unregister {m m' : Machine} {name : String} {command : Command}
    (h : m.unregister name = .ok (command, m')) : m'.raised = m.raised := by
  unfold unregister at h
  split at h
  · cases h
  · next removed table _ =>
    have hfold : ∀ (symbols : List String) (n : Machine), n.raised = m.raised →
        (symbols.foldl invalidateDependents n).raised = m.raised := by
      intro symbols
      induction symbols with
      | nil => exact fun _ hsame => hsame
      | cons symbol rest ih =>
        intro n hsame
        exact ih _ (by rw [raised_invalidateDependents, hsame])
    cases h
    exact hfold _ _ rfl

/-- Drawing a random number changes the source of random numbers and nothing else. -/
theorem exists_draw (m : Machine) : ∃ next, m.draw.2 = { m with random := next } :=
  ⟨_, rfl⟩

/-- Compiling a source text settles. -/
theorem compile_settles (path : Option String) (source : String) :
    (compile path source).Settles Undecided := by
  intro m
  unfold compile
  simp only
  split <;> exact rfl

/-- Loading a script that is not cached settles. -/
theorem loadFresh_settles (path : List Char) : (loadFresh path).Settles Undecided := by
  refine .get_bind_all fun m => ?_
  split
  · exact .fail _
  · refine .bind (compile_settles _ _) fun program => .get_bind fun n => ?_
    split
    · exact rfl
    · exact rfl

/-- Loading a script settles. -/
theorem load_settles (name : String) : (load name).Settles Undecided := by
  refine .get_bind_all fun m => ?_
  simp only
  split
  · split
    · exact .pure _
    · exact loadFresh_settles _
  · exact loadFresh_settles _

end Machine

/-! ## Assignments -/

/-- The global exception is as it was. -/
def Execution.Undecided (e e' : Execution) : Prop :=
  e.machine.Undecided e'.machine

instance : Lasting Execution.Undecided where
  refl e := Lasting.refl e.machine
  trans h h' := Lasting.trans (R := Machine.Undecided) h h'

namespace Evaluation

open Execution

theorem readSlot_settles (slot : Nat) : (readSlot slot).Settles Undecided := by
  refine .get_bind_all fun e => ?_
  split
  · exact .pure _
  · exact .fail _

theorem writeSlot_settles (slot : Nat) (v : Value) : (writeSlot slot v).Settles Undecided := by
  refine .get_bind fun e => ?_
  split
  · exact rfl
  · exact rfl

theorem readGlobal_settles (key : String) : (readGlobal key).Settles Undecided := by
  refine .get_bind_all fun e => ?_
  split
  · exact .pure _
  · exact .fail _

theorem writeGlobal_settles (key : String) (v : Value) :
    (writeGlobal key v).Settles Undecided := by
  refine .get_bind fun e => ?_
  split
  · exact rfl
  · exact rfl

theorem writeElement_settles (id : ArrayId) (position : Nat) (v : Value) :
    (writeElement id position v).Settles Undecided := by
  refine .get_bind fun e => ?_
  cases e.machine.arrays.set? id position v <;> exact rfl

theorem withArrays_settles (f : Arrays → Except RuntimeCause α) :
    (withArrays f).Settles Undecided :=
  .get_bind_all fun _ => .ofExcept _

/-- The combination of an old and a new value. -/
theorem combined_settles (op : AssignOp) {old : Evaluation Value} (hold : old.Settles Undecided)
    (new : Value) : (combined op old new).Settles Undecided := by
  unfold combined
  split
  · exact .pure _
  · exact .bind hold fun _ => withArrays_settles _

/-- An assignment to a variable, behind its operand. -/
theorem storeSlot_settles (op : AssignOp) (i : Nat) (new : Value) :
    (do
      let stored ← combined op (readSlot i) new
      writeSlot i stored
      return stored : Evaluation Value).Settles Undecided :=
  .bind (combined_settles op (readSlot_settles i) new) fun stored =>
    .bind (writeSlot_settles i stored) fun _ => .pure _

/-- An assignment to a global, behind its operand. -/
theorem storeGlobal_settles (op : AssignOp) (key : String) (new : Value) :
    (do
      let stored ← combined op (readGlobal key) new
      writeGlobal key stored
      return stored : Evaluation Value).Settles Undecided :=
  .bind (combined_settles op (readGlobal_settles key) new) fun stored =>
    .bind (writeGlobal_settles key stored) fun _ => .pure _

/-- An assignment to an element of an array, behind its operands. -/
theorem storeElement_settles (op : AssignOp) (id : ArrayId) (new index : Value) :
    (do
      let i ← Action.ofExcept index.position
      let stored ← combined op (withArrays fun arrays => Value.elementAt arrays id i) new
      writeElement id i stored
      return stored : Evaluation Value).Settles Undecided :=
  .bind (.ofExcept _) fun i => .bind (combined_settles op (withArrays_settles _) new) fun stored =>
    .bind (writeElement_settles id i stored) fun _ => .pure _

end Evaluation

/-! ## Commands -/

namespace CommandStep

open Execution

theorem onMachine_settles {f : Machine → Machine} (h : ∀ m : Machine, m.Undecided (f m)) :
    (onMachine f).Settles Undecided :=
  .change fun e => h e.machine

theorem onContext_settles (f : Context → Context) : (onContext f).Settles Undecided :=
  .change fun _ => rfl

theorem createArray_settles (elements : List Value) : (createArray elements).Settles Undecided :=
  fun _ => rfl

theorem updateArray_settles (id : ArrayId) (position : Nat) (update : Arrays → Option Arrays) :
    (updateArray id position update).Settles Undecided := by
  refine .get_bind_all fun e => ?_
  split
  · exact onMachine_settles fun _ => rfl
  · exact .fail _

/-- An operation of the machine on behalf of a context. -/
theorem operate_settles {operation : Operation α} (h : operation.Settles Machine.Undecided) :
    (operate operation).Settles Undecided :=
  .attempt (.onPart h fun _ _ hsame => hsame)

end CommandStep

/-- A built-in command neither runs another script nor raises the exception. -/
def Builtin.SettlesItself (builtin : Builtin) : Prop :=
  builtin ≠ .callScript ∧ builtin ≠ .raiseError

namespace Builtin

open Execution CommandStep

theorem target_settles (name : String) : (target name).Settles Undecided := by
  refine .get_bind_all fun e => ?_
  split
  · exact .pure _
  · exact operate_settles (Machine.load_settles name)

theorem doReturn_settles (arguments : List Value) : (doReturn arguments).Settles Undecided := by
  unfold doReturn
  split
  · exact .fail _
  · exact .bind (.ofExcept _) fun _ => .bind (onContext_settles _) fun _ => .pure _

theorem doFormat_settles (arguments : List Value) : (doFormat arguments).Settles Undecided := by
  unfold doFormat
  refine .bind (.ofExcept _) fun format => .bind (.ofExcept _) fun x =>
    .bind (.ofExcept _) fun unsigned => ?_
  split
  · exact .pure _
  · exact .fail _

theorem doPrint_settles (arguments : List Value) : (doPrint arguments).Settles Undecided :=
  .bind (.ofExcept _) fun _ => .bind (onMachine_settles fun _ => rfl) fun _ => .pure _

theorem doRandom_settles (arguments : List Value) : (doRandom arguments).Settles Undecided := by
  unfold doRandom
  refine .bind (.ofExcept _) fun a => .bind (.ofExcept _) fun b => ?_
  split
  · refine .get_bind fun e => ?_
    rcases Machine.exists_draw e.machine with ⟨next, hdraw⟩
    show e.machine.draw.2.raised = e.machine.raised
    rw [hdraw]
  · exact .fail _

theorem doInsert_settles (arguments : List Value) : (doInsert arguments).Settles Undecided := by
  unfold doInsert
  split
  · exact .fail _
  · refine .bind (.ofExcept _) fun id => .bind (.ofExcept _) fun v =>
      .bind (.ofExcept _) fun position => ?_
    split
    · exact .bind (onMachine_settles fun _ => rfl) fun _ => .pure _
    · exact .bind (updateArray_settles id _ _) fun _ => .pure _

theorem doErase_settles (arguments : List Value) : (doErase arguments).Settles Undecided :=
  .bind (.ofExcept _) fun id => .bind (.ofExcept _) fun i =>
    .bind (updateArray_settles id i _) fun _ => .pure _

theorem doClear_settles (arguments : List Value) : (doClear arguments).Settles Undecided :=
  .bind (.ofExcept _) fun _ => .bind (onMachine_settles fun _ => rfl) fun _ => .pure _

theorem doSize_settles (arguments : List Value) : (doSize arguments).Settles Undecided :=
  .bind (.ofExcept _) fun _ => .get_bind_all fun _ => .pure _

theorem doAt_settles (arguments : List Value) : (doAt arguments).Settles Undecided := by
  unfold doAt
  refine .bind (.ofExcept _) fun id => .bind (.ofExcept _) fun i => .get_bind_all fun e => ?_
  split
  · exact .pure _
  · exact .fail _

/-- A command that neither runs scripts nor raises the exception settles. -/
theorem perform_settles (callee : Callee) (line : Nat) (arguments : List Value) {builtin : Builtin}
    (h : builtin.SettlesItself) : (builtin.perform callee line arguments).Settles Undecided := by
  cases builtin with
  | callScript => exact absurd rfl h.1
  | raiseError => exact absurd rfl h.2
  | returnValue => exact doReturn_settles arguments
  | breakLoop => exact .bind (onContext_settles _) fun _ => .pure _
  | continueLoop => exact .bind (onContext_settles _) fun _ => .pure _
  | secondsPassed => exact .get_bind_all fun _ => .pure _
  | formatNumber => exact doFormat_settles arguments
  | printToConsole => exact doPrint_settles arguments
  | randomNumber => exact doRandom_settles arguments
  | isBackgrounding => exact .get_bind_all fun _ => .pure _
  | arrayCreate => exact .bind (createArray_settles arguments) fun _ => .pure _
  | arrayInsert => exact doInsert_settles arguments
  | arrayErase => exact doErase_settles arguments
  | arrayClear => exact doClear_settles arguments
  | arraySize => exact doSize_settles arguments
  | arrayAt => exact doAt_settles arguments

end Builtin

/-- An action of the host neither creates a context nor raises the exception. -/
def HostAction.SettlesItself (action : HostAction) : Prop :=
  action ≠ .backgroundSelf ∧ action ≠ .raise

namespace HostAction

open Execution CommandStep

/-- An action of the host that neither creates a context nor raises the exception settles. -/
theorem perform_settles (callee : Callee) (arguments : List Value) {action : HostAction}
    (h : action.SettlesItself) : (action.perform callee arguments).Settles Undecided := by
  cases action with
  | backgroundSelf => exact absurd rfl h.1
  | raise => exact absurd rfl h.2
  | nothing => exact .pure _
  | echo i checked => exact .bind (.ofExcept _) fun _ => .pure _
  | constant v => exact .pure _
  | fail message => exact .fail _
  | countArguments => exact .pure _
  | numberOf i => exact .bind (.ofExcept _) fun _ => .pure _
  | stringOf i => exact .bind (.ofExcept _) fun _ => .pure _
  | arrayOf i => exact .bind (.ofExcept _) fun _ => .pure _
  | indexOf i => exact .bind (.ofExcept _) fun _ => .pure _
  | removeGlobal name =>
    exact .bind (onMachine_settles fun m => m.raised_removeGlobal name) fun _ => .pure _
  | unregister name =>
    refine .bind (onMachine_settles fun m => ?_) fun _ => .pure _
    cases hrun : m.unregister name with
    | ok pair => exact Machine.raised_unregister hrun
    | error e => exact rfl

end HostAction

/-! ## Frames and jumps -/

namespace Execution

/-- Binding an element settles. -/
theorem bindElement_settles (slot : Nat) (element : Value) :
    (bindElement slot element).Settles Undecided := by
  refine .get_bind fun e => ?_
  split
  · exact rfl
  · exact rfl

/-- The work of a frame that evaluates nothing settles. -/
theorem stepFrame_settles (callee : Callee) {tree : Tree} {top : Node} {frame : Frame}
    (rest : List Frame) (h : evaluatedBy? tree frame top = none) :
    (stepFrame callee tree top frame rest).Settles Undecided := by
  unfold evaluatedBy? at h
  unfold stepFrame
  simp only
  split
  · exact .ofExcept _
  · exact .ofExcept _
  · exact .ofExcept _
  · exact .ofExcept _
  · next hphase hkind => simp [hphase, hkind] at h
  · next tested elseIfs elseBranch hphase hkind =>
    simp only [hphase, hkind] at h
    unfold stepBranch
    split
    · exact .pure _
    · next branch hbranch =>
      rw [hbranch, Option.bind_some] at h
      simp only [nodeOf, h]
      exact fun e => show e.Undecided e from rfl
  · next hphase hkind => simp [hphase, hkind] at h
  · exact .ofExcept _
  · next hphase hkind => simp [hphase, hkind] at h
  · refine .get_bind_all fun e => ?_
    split
    · exact .pure _
    · exact .bind (bindElement_settles _ _) fun _ => .pure _
  · exact .ofExcept _
  · exact .fail _

/-- Making a pending jump settles. -/
theorem stepJump_settles (tree : Tree) (jump : Jump) : (stepJump tree jump).Settles Undecided := by
  refine .get_bind fun e => ?_
  rw [Action.bind_run]
  cases e.context.unwind tree jump with
  | error error => exact rfl
  | ok pair => exact rfl

/-- A step that evaluates nothing settles. -/
theorem step_settles (callee : Callee) {e : Execution} (h : e.evaluated? = none) :
    (step callee e).Settles e.Undecided := by
  unfold step
  rw [Action.bind_run, Action.get_run]
  simp only
  by_cases hraised : e.machine.raised = true
  · rw [if_pos hraised]
    exact rfl
  rw [if_neg hraised]
  have hcalm : e.machine.raised = false := by simpa using hraised
  cases htree : e.context.program.tree with
  | none => exact rfl
  | some tree =>
    cases hpending : e.context.pending with
    | some jump => exact stepJump_settles tree jump e
    | none =>
      show (stepStatement callee tree e).Settles e.Undecided
      unfold stepStatement
      rw [Action.bind_run, Action.get_run]
      simp only
      cases hframes : e.context.frames with
      | nil => exact rfl
      | cons frame rest =>
        simp only [Action.bind_run]
        cases htop : tree.node? frame.node with
        | none =>
          simp only [nodeOf, htop]
          exact rfl
        | some top =>
          rw [evaluated?_of_frame hcalm hpending htree hframes htop] at h
          simp only [nodeOf, htop, Action.ofExcept_ok_run]
          have hwork := stepFrame_settles callee rest h e
          cases hrun : stepFrame callee tree top frame rest e <;> rw [hrun] at hwork <;> exact hwork

end Execution
end ScriptMachine
