import ScriptMachine.Proofs.Pairing
import ScriptMachine.Proofs.Referring

/-!
# Machines that match

Two machines match while their arrays are paired and everything else that a script can see of them
is the same.  What a private program sees is little: it uses no globals, runs no other scripts and
draws no random numbers, so for its sake the machines need not have the same globals, cached
programs, numbers or random numbers.  From matching machines, actions go on alike: both are done
and the machines match again, under a pairing with more pairs, or both fail with one error, or both
run out of fuel.

Main results:

- {lit}`Program.Private`: programs that depend on nothing but their context and its arrays.
- {lit}`Machine.Matches`: machines that look the same.
- {lit}`Machine.Parallels`: machines that match, and what they keep of the machines before them.
- {lit}`Action.Pairs`: actions that go on alike.
- {lit}`Expr.eval_pairs`: an expression goes on alike where the commands that it calls do.
-/

namespace ScriptMachine

/-! ## Globals -/

/-- Globals of one name with values that are alike. -/
structure Global.Like (π : Pairing) (first second : Global) : Prop where
  key : first.key = second.key
  name : first.name = second.name
  value : first.value.Like π second.value

/-- The same globals with values that are alike. -/
def Globals.Like (π : Pairing) (first second : Globals) : Prop :=
  List.Forall₂ (Global.Like π) first.entries second.entries

namespace Globals.Like

variable {π π' : Pairing} {first second : Globals}

/-- A pairing with more pairs. -/
theorem mono (h : first.Like π second) (hle : π ≤ π') : first.Like π' second :=
  List.Forall₂.imp (fun _ _ hlike => ⟨hlike.key, hlike.name, hlike.value.mono hle⟩) h

/-- What is found under a name is alike. -/
theorem find?_rel (h : first.Like π second) (name : String) :
    Option.Rel (Global.Like π) (first.find? name) (second.find? name) := by
  cases first with | mk entries =>
  cases second with | mk entries' =>
  have hentries : List.Forall₂ (Global.Like π) entries entries' := h
  clear h
  unfold Globals.find?
  induction hentries with
  | nil => exact .none
  | cons hhead _ ih =>
    rw [List.find?_cons, List.find?_cons, hhead.key]
    split
    · exact .some hhead
    · exact ih

/-- The same names are declared. -/
theorem contains_eq (h : first.Like π second) (name : String) :
    first.contains name = second.contains name := by
  have hfind := h.find?_rel name
  unfold Globals.contains
  generalize first.find? name = found at hfind ⊢
  generalize second.find? name = found' at hfind ⊢
  cases hfind <;> rfl

/-- The values under a name are alike. -/
theorem get?_rel (h : first.Like π second) (name : String) :
    Option.Rel (Value.Like π) (first.get? name) (second.get? name) := by
  have hfind := h.find?_rel name
  unfold Globals.get?
  generalize first.find? name = found at hfind ⊢
  generalize second.find? name = found' at hfind ⊢
  cases hfind with
  | none => exact .none
  | some hlike => exact .some hlike.value

/-- Alike values are assigned. -/
theorem assign (h : first.Like π second) (name : String) {v w : Value} (hv : v.Like π w) :
    (first.assign name v).Like π (second.assign name w) := by
  refine List.forall₂_map_left_iff.2 (List.forall₂_map_right_iff.2 (h.imp fun a b hlike => ?_))
  rw [hlike.key]
  split
  · exact ⟨rfl, hlike.name, hv⟩
  · exact hlike

end Globals.Like

/-! ## Commands and programs -/

/-- Whether an action of the host leaves the commands, the globals and the background alone and
brings in no array. -/
def HostAction.Harmless : HostAction → Prop
  | .unregister _ | .removeGlobal _ | .backgroundSelf => False
  | .constant v => v.array? = none
  | _ => True

/-- A built-in command or a harmless action of the host. -/
def Command.Harmless (command : Command) : Prop :=
  match command.action with
  | .builtin _ => True
  | .host action => action.Harmless

/-- Whether a command runs other scripts or draws random numbers. -/
def Command.Outward (command : Command) : Prop :=
  command.action = .builtin .callScript ∨ command.action = .builtin .randomNumber

/-- A program that uses no globals, runs no other scripts and draws no random numbers. -/
structure Program.Private (commands : CommandTable) (program : Program) : Prop where
  keys : ∀ key, ¬program.Touches key
  calls : ∀ name, program.Calls name → ∀ command, commands.lookup? name = some command →
    ¬command.Outward

/-! ## Machines -/

namespace Machine

/-- What only programs see that are not private is the same. -/
structure Mingles (π : Pairing) (m n : Machine) : Prop where
  globals : m.globals.Like π n.globals
  cache : m.cache = n.cache
  contextCount : m.contextCount = n.contextCount
  programCount : m.programCount = n.programCount
  random : m.random = n.random

/-- Machines that look the same to private programs, or to all programs. -/
structure Matches (shared : Prop) (π : Pairing) (m n : Machine) : Prop where
  settings : m.settings = n.settings
  files : m.files = n.files
  commands : m.commands = n.commands
  stale : m.stale = n.stale
  raised : m.raised = n.raised
  depth : m.depth = n.depth
  arrays : m.arrays.Paired π n.arrays
  mingles : shared → m.Mingles π n

/-- What a machine keeps of an earlier one: private programs change neither the globals nor
anything else that only other programs see. -/
structure Stays (shared : Prop) (m m' : Machine) : Prop where
  settings : m'.settings = m.settings
  files : m'.files = m.files
  commands : m'.commands = m.commands
  stale : m'.stale = m.stale
  background : m'.background = m.background
  globals : ¬shared → m'.globals = m.globals
  cache : ¬shared → m'.cache = m.cache
  contextCount : ¬shared → m'.contextCount = m.contextCount
  programCount : ¬shared → m'.programCount = m.programCount
  random : ¬shared → m'.random = m.random

/-- Nothing happens. -/
theorem Stays.refl (shared : Prop) (m : Machine) : m.Stays shared m :=
  ⟨rfl, rfl, rfl, rfl, rfl, fun _ => rfl, fun _ => rfl, fun _ => rfl, fun _ => rfl, fun _ => rfl⟩

end Machine

/-- Two machines from which something is done alike, the pairing of their arrays, and whether
everything that programs share is the same. -/
structure Comparison where
  shared : Prop
  pairing : Pairing
  left : Machine
  right : Machine
  harmless : ∀ command ∈ left.commands.commands, command.Harmless

/-- The machines of a comparison are the same to a program. -/
def Comparison.Admits (C : Comparison) (program : Program) : Prop :=
  C.shared ∨ program.Private C.left.commands

/-- Machines that match behind those of a comparison. -/
structure Machine.Parallels (C : Comparison) (π : Pairing) (m n : Machine) : Prop
    extends Machine.Matches C.shared π m n where
  left : C.left.Stays C.shared m
  right : C.right.Stays C.shared n
  grows : C.pairing.Grows π C.left.arrays C.right.arrays m.arrays n.arrays

namespace Machine.Parallels

variable {C : Comparison} {π : Pairing} {m n : Machine} {i j : ArrayId}

/-- Paired arrays get elements that are alike. -/
theorem edit (h : m.Parallels C π n) (hpaired : π i j) {s t : Arrays}
    (hedited : Arrays.Paired.Edited π m.arrays n.arrays i j s t) :
    Machine.Parallels C π { m with arrays := s } { n with arrays := t } := by
  rcases hedited with ⟨xs, ys, helements, rfl, rfl⟩
  exact { h with
    arrays := h.arrays.replace hpaired helements
    mingles := fun hshared => { h.mingles hshared with }
    left := { h.left with }
    right := { h.right with }
    grows := h.grows.replace hpaired xs ys }

/-- Arrays with alike elements are created and paired. -/
theorem create (h : m.Parallels C π n) {xs ys : List Value}
    (helements : List.Forall₂ (Value.Like π) xs ys) :
    Machine.Parallels C (π.insert (m.arrays.create xs).1 (n.arrays.create ys).1)
      { m with arrays := (m.arrays.create xs).2 } { n with arrays := (n.arrays.create ys).2 } :=
  have hle : π ≤ π.insert (m.arrays.create xs).1 (n.arrays.create ys).1 := fun _ _ => .inl
  { h with
    arrays := h.arrays.create helements
    mingles := fun hshared =>
      { h.mingles hshared with globals := (h.mingles hshared).globals.mono hle }
    left := { h.left with }
    right := { h.right with }
    grows := h.grows.create xs ys }

end Machine.Parallels

/-! ## Contexts -/

/-- Phases that differ in nothing but paired arrays. -/
inductive Phase.Like (π : Pairing) : Phase → Phase → Prop where
  | block (next : Nat) : Like π (.block next) (.block next)
  | expression : Like π .expression .expression
  | branch (tested : Nat) : Like π (.branch tested) (.branch tested)
  | loopTest : Like π .loopTest .loopTest
  | loopBody (next : Nat) : Like π (.loopBody next) (.loopBody next)
  | forEachStart : Like π .forEachStart .forEachStart
  | forEachBind {i j : ArrayId} (h : π i j) (position : Nat) :
      Like π (.forEachBind i position) (.forEachBind j position)
  | forEachBody {i j : ArrayId} (h : π i j) (next position : Nat) :
      Like π (.forEachBody next i position) (.forEachBody next j position)

/-- Frames of one node in phases that are alike. -/
structure Frame.Like (π : Pairing) (first second : Frame) : Prop where
  node : first.node = second.node
  phase : first.phase.Like π second.phase

/-- Contexts that differ in nothing but paired arrays. -/
structure Context.Like (π : Pairing) (c d : Context) : Prop where
  id : c.id = d.id
  program : c.program = d.program
  locals : List.Forall₂ (Value.Like π) c.locals d.locals
  frames : List.Forall₂ (Frame.Like π) c.frames d.frames
  pending : c.pending = d.pending
  result : Option.Rel (Value.Like π) c.result d.result
  halt : c.halt = d.halt
  backgrounded : c.backgrounded = d.backgrounded
  elapsed : c.elapsed = d.elapsed
  secondsPassed : c.secondsPassed = d.secondsPassed
  runs : c.runs = d.runs

section Mono

variable {π π' : Pairing} (hle : π ≤ π')
include hle

/-- A pairing with more pairs. -/
theorem Value.Like.all_mono {vs ws : List Value} (h : List.Forall₂ (Value.Like π) vs ws) :
    List.Forall₂ (Value.Like π') vs ws :=
  h.imp fun _ _ hlike => hlike.mono hle

/-- A pairing with more pairs. -/
theorem Value.Like.option_mono {v w : Option Value} (h : Option.Rel (Value.Like π) v w) :
    Option.Rel (Value.Like π') v w := by
  cases h with
  | none => exact .none
  | some hlike => exact .some (hlike.mono hle)

/-- A pairing with more pairs. -/
theorem Phase.Like.mono {first second : Phase} (h : first.Like π second) : first.Like π' second := by
  cases h with
  | block next => exact .block next
  | expression => exact .expression
  | branch tested => exact .branch tested
  | loopTest => exact .loopTest
  | loopBody next => exact .loopBody next
  | forEachStart => exact .forEachStart
  | forEachBind h position => exact .forEachBind (hle _ _ h) position
  | forEachBody h next position => exact .forEachBody (hle _ _ h) next position

/-- A pairing with more pairs. -/
theorem Frame.Like.mono {frames frames' : List Frame} (h : List.Forall₂ (Frame.Like π) frames frames') :
    List.Forall₂ (Frame.Like π') frames frames' :=
  h.imp fun _ _ hlike => ⟨hlike.node, hlike.phase.mono hle⟩

/-- A pairing with more pairs. -/
theorem Context.Like.mono {c d : Context} (h : c.Like π d) : c.Like π' d :=
  { h with
    locals := Value.Like.all_mono hle h.locals
    frames := Frame.Like.mono hle h.frames
    result := Value.Like.option_mono hle h.result }

end Mono

/-- Executions of contexts that are alike on machines that match. -/
structure Execution.Parallels (C : Comparison) (π : Pairing) (e f : Execution) : Prop where
  machine : e.machine.Parallels C π f.machine
  context : e.context.Like π f.context
  admits : C.Admits e.context.program

/-! ## Actions -/

variable {σ τ ε δ α β : Type}

/-- Both outcomes are done or failed in states that are related under a pairing with more pairs, or
both are exhausted. -/
inductive Outcome.Pairs (V : Pairing → σ → σ → Prop) (R : Pairing → α → α → Prop) (π : Pairing) :
    Outcome σ ε α → Outcome σ ε α → Prop where
  | done {π' : Pairing} {x y : α} {s t : σ} (hle : π ≤ π') (hstate : V π' s t)
      (hanswer : R π' x y) : Pairs V R π (.done x s) (.done y t)
  | failed {π' : Pairing} {e : ε} {s t : σ} (hle : π ≤ π') (hstate : V π' s t) :
      Pairs V R π (.failed e s) (.failed e t)
  | exhausted : Pairs V R π .exhausted .exhausted

/-- From related states, two actions go on alike. -/
def Action.Pairs (V : Pairing → σ → σ → Prop) (R : Pairing → α → α → Prop) (π : Pairing)
    (first second : Action σ ε α) : Prop :=
  ∀ s t, V π s t → Outcome.Pairs V R π (first s) (second t)

/-- The same answer on both sides. -/
abbrev Pairing.Same (_ : Pairing) : α → α → Prop := Eq

/-- More pairs than at first. -/
theorem Outcome.Pairs.of_le {V : Pairing → σ → σ → Prop} {R : Pairing → α → α → Prop}
    {π π' : Pairing} {first second : Outcome σ ε α} (h : Outcome.Pairs V R π' first second)
    (hle : π ≤ π') : Outcome.Pairs V R π first second := by
  cases h with
  | done hle' hstate hanswer => exact .done (le_trans hle hle') hstate hanswer
  | failed hle' hstate => exact .failed (le_trans hle hle') hstate
  | exhausted => exact .exhausted

namespace Action.Pairs

variable {V : Pairing → σ → σ → Prop} {R : Pairing → α → α → Prop} {S : Pairing → β → β → Prop}
  {π : Pairing}

theorem pure {x y : α} (h : R π x y) : (pure x : Action σ ε α).Pairs V R π (pure y) :=
  fun _ _ hstate => .done (le_refl π) hstate h

theorem fail (e : ε) : (fail e : Action σ ε α).Pairs V R π (fail e) :=
  fun _ _ hstate => .failed (le_refl π) hstate

theorem starve : (starve : Action σ ε α).Pairs V R π starve :=
  fun _ _ _ => .exhausted

theorem ofExcept {a b : Except ε α} (h : ExceptRel (R π) a b) :
    (ofExcept a : Action σ ε α).Pairs V R π (ofExcept b) := by
  cases h with
  | ok h => exact .pure h
  | error => exact .fail _

/-- The same result on both sides. -/
theorem ofExcept_same (a : Except ε α) : (Action.ofExcept a : Action σ ε α).Pairs V Pairing.Same π
    (Action.ofExcept a) := by
  cases a with
  | ok x => exact .pure rfl
  | error e => exact .fail e

theorem change {f g : σ → σ} (h : ∀ s t, V π s t → V π (f s) (g t)) :
    (change f : Action σ ε Unit).Pairs V Pairing.Same π (change g) :=
  fun s t hstate => .done (le_refl π) (h s t hstate) rfl

/-- A sequence goes on alike where its parts do. -/
theorem bind {first second : Action σ ε α} {next next' : α → Action σ ε β}
    (h : first.Pairs V R π second)
    (hnext : ∀ π', π ≤ π' → ∀ x y, R π' x y → (next x).Pairs V S π' (next' y)) :
    (first >>= next).Pairs V S π (second >>= next') := by
  intro s t hstate
  rw [bind_run, bind_run]
  have hfirst := h s t hstate
  generalize first s = outcome at hfirst ⊢
  generalize second t = outcome' at hfirst ⊢
  cases hfirst with
  | done hle hstate' hanswer => exact (hnext _ hle _ _ hanswer _ _ hstate').of_le hle
  | failed hle hstate' => exact .failed hle hstate'
  | exhausted => exact .exhausted

/-- A sequence goes on alike behind the same answer. -/
theorem bind_same {first second : Action σ ε α} {next next' : α → Action σ ε β}
    (h : first.Pairs V Pairing.Same π second)
    (hnext : ∀ π', π ≤ π' → ∀ x, (next x).Pairs V S π' (next' x)) :
    (first >>= next).Pairs V S π (second >>= next') :=
  h.bind fun π' hle x y hsame => by
    have hsame : x = y := hsame
    subst hsame
    exact hnext π' hle x

/-- What comes behind the state may depend on the state. -/
theorem get_bind {next next' : σ → Action σ ε β}
    (h : ∀ s t, V π s t → (next s).Pairs V S π (next' t)) :
    (Action.get >>= next).Pairs V S π (Action.get >>= next') :=
  fun s t hstate => h s t hstate s t hstate

/-- What comes behind the state may replace it. -/
theorem get_bind_put {next next' : σ → Action σ ε β}
    (h : ∀ s t, V π s t → Outcome.Pairs V S π (next s s) (next' t t)) :
    (Action.get >>= next).Pairs V S π (Action.get >>= next') :=
  h

theorem mapError {first second : Action σ ε α} (g : ε → δ) (h : first.Pairs V R π second) :
    (mapError g first).Pairs V R π (mapError g second) := by
  intro s t hstate
  rw [mapError_run, mapError_run]
  have hrun := h s t hstate
  generalize first s = outcome at hrun ⊢
  generalize second t = outcome' at hrun ⊢
  cases hrun with
  | done hle hstate' hanswer => exact .done hle hstate' hanswer
  | failed hle hstate' => exact .failed hle hstate'
  | exhausted => exact .exhausted

theorem attempt {first second : Action σ ε α} (h : first.Pairs V R π second) :
    (attempt first : Action σ δ (Except ε α)).Pairs V (fun π => ExceptRel (R π)) π
      (attempt second) := by
  intro s t hstate
  rw [attempt_run, attempt_run]
  have hrun := h s t hstate
  generalize first s = outcome at hrun ⊢
  generalize second t = outcome' at hrun ⊢
  cases hrun with
  | done hle hstate' hanswer => exact .done hle hstate' (.ok hanswer)
  | failed hle hstate' => exact .done hle hstate' .error
  | exhausted => exact .exhausted

/-- Actions on a part of the state go on alike if the related states have related parts, and the
parts behind them can be put back. -/
theorem onPart {W : Pairing → τ → τ → Prop} {part : σ → τ} {restore : τ → σ → σ}
    {first second : Action τ ε α} (h : first.Pairs W R π second)
    (hpart : ∀ s t, V π s t → W π (part s) (part t))
    (hrestore : ∀ s t, V π s t → ∀ π', π ≤ π' → ∀ a b, W π' a b →
      V π' (restore a s) (restore b t)) :
    (onPart part restore first).Pairs V R π (onPart part restore second) := by
  intro s t hstate
  unfold Action.onPart
  have hrun := h _ _ (hpart s t hstate)
  generalize first (part s) = outcome at hrun ⊢
  generalize second (part t) = outcome' at hrun ⊢
  cases hrun with
  | done hle hstate' hanswer => exact .done hle (hrestore s t hstate _ hle _ _ hstate') hanswer
  | failed hle hstate' => exact .failed hle (hrestore s t hstate _ hle _ _ hstate')
  | exhausted => exact .exhausted

end Action.Pairs

/-! ## Variables and arrays -/

namespace Execution.Parallels

variable {C : Comparison} {π : Pairing} {e f : Execution} {v w : Value}

/-- The same number of variables. -/
theorem length_locals (h : e.Parallels C π f) : e.context.locals.length = f.context.locals.length :=
  h.context.locals.length_eq

/-- Alike values are assigned to a variable. -/
theorem setLocal (h : e.Parallels C π f) (slot : Nat) (hv : v.Like π w) :
    Execution.Parallels C π
      (e.onContext fun context => { context with locals := context.locals.set slot v })
      (f.onContext fun context => { context with locals := context.locals.set slot w }) where
  machine := h.machine
  context := { h.context with locals := forall₂_set h.context.locals slot hv }
  admits := h.admits

/-- The machines go on. -/
theorem onMachine {g g' : Machine → Machine} (h : e.Parallels C π f)
    (hmachine : (g e.machine).Parallels C π (g' f.machine)) :
    (e.onMachine g).Parallels C π (f.onMachine g') :=
  ⟨hmachine, h.context, h.admits⟩

end Execution.Parallels

namespace Evaluation

open Execution

variable {C : Comparison} {π : Pairing} {v w : Value}

/-- A variable is read. -/
theorem readSlot_pairs (slot : Nat) :
    (readSlot slot).Pairs (Parallels C) Value.Like π (readSlot slot) := by
  refine .get_bind fun e f h => ?_
  have hread := forall₂_getElem? h.context.locals slot
  generalize e.context.locals[slot]? = found at hread ⊢
  generalize f.context.locals[slot]? = found' at hread ⊢
  cases hread with
  | none => exact .fail _
  | some hlike => exact .pure hlike

/-- A variable is assigned to. -/
theorem writeSlot_pairs (slot : Nat) (hv : v.Like π w) :
    (writeSlot slot v).Pairs (Parallels C) Pairing.Same π (writeSlot slot w) := by
  refine .get_bind_put fun e f h => ?_
  rw [h.length_locals]
  split
  · exact .done (le_refl π) (h.setLocal slot hv) rfl
  · exact .failed (le_refl π) h

/-- A global is read where globals are the same. -/
theorem readGlobal_pairs (hshared : C.shared) (key : String) :
    (readGlobal key).Pairs (Parallels C) Value.Like π (readGlobal key) := by
  refine .get_bind fun e f h => ?_
  have hread := (h.machine.mingles hshared).globals.get?_rel key
  generalize e.machine.globals.get? key = found at hread ⊢
  generalize f.machine.globals.get? key = found' at hread ⊢
  cases hread with
  | none => exact .fail _
  | some hlike => exact .pure hlike

/-- A global is assigned to where globals are the same. -/
theorem writeGlobal_pairs (hshared : C.shared) (key : String) (hv : v.Like π w) :
    (writeGlobal key v).Pairs (Parallels C) Pairing.Same π (writeGlobal key w) := by
  refine .get_bind_put fun e f h => ?_
  have hglobals := (h.machine.mingles hshared).globals
  rw [hglobals.contains_eq]
  split
  · refine .done (le_refl π) (h.onMachine ?_) rfl
    exact { h.machine with
      mingles := fun _ => { h.machine.mingles hshared with globals := hglobals.assign key hv }
      left := { h.machine.left with globals := fun hprivate => absurd hshared hprivate }
      right := { h.machine.right with globals := fun hprivate => absurd hshared hprivate } }
  · exact .failed (le_refl π) h

/-- An element is assigned to. -/
theorem writeElement_pairs {i j : ArrayId} (hpaired : π i j) (position : Nat) (hv : v.Like π w) :
    (writeElement i position v).Pairs (Parallels C) Pairing.Same π (writeElement j position w) := by
  refine .get_bind_put fun e f h => ?_
  have hedited := h.machine.arrays.set?_edited hpaired position hv
  rw [h.machine.arrays.size_eq hpaired]
  generalize e.machine.arrays.set? i position v = arrays at hedited ⊢
  generalize f.machine.arrays.set? j position w = arrays' at hedited ⊢
  cases hedited with
  | none => exact .failed (le_refl π) h
  | some hedited => exact .done (le_refl π) (h.onMachine (h.machine.edit hpaired hedited)) rfl

/-- Arrays are asked. -/
theorem withArrays_pairs {R : Pairing → α → α → Prop} {g g' : Arrays → Except RuntimeCause α}
    (h : ∀ s t : Arrays, s.Paired π t → ExceptRel (R π) (g s) (g' t)) :
    (withArrays g).Pairs (Parallels C) R π (withArrays g') :=
  .get_bind fun _ _ hboth => .ofExcept (h _ _ hboth.machine.arrays)

/-- An old value and a new one are combined. -/
theorem combined_pairs (op : AssignOp) {old old' : Evaluation Value}
    (hold : old.Pairs (Parallels C) Value.Like π old') (hv : v.Like π w) :
    (combined op old v).Pairs (Parallels C) Value.Like π (combined op old' w) := by
  unfold combined
  cases op.combine? with
  | none => exact .pure hv
  | some combine =>
    exact hold.bind fun π' hle x y hlike =>
      withArrays_pairs fun s t h => h.apply_rel hlike (hv.mono hle) combine

/-- A value is read as a condition. -/
theorem truth_pairs {operand operand' : Evaluation Value}
    (h : operand.Pairs (Parallels C) Value.Like π operand') :
    Action.Pairs (Parallels C) Value.Like π
      (do
        let v ← operand
        return .ofBool (← Action.ofExcept v.condition))
      (do
        let v ← operand'
        return .ofBool (← Action.ofExcept v.condition)) := by
  refine h.bind fun π₁ _ v w hv => ?_
  rw [hv.condition_eq]
  exact (Action.Pairs.ofExcept_same _).bind_same fun _ _ _ => .pure (.plain rfl)

/-- A combined value is stored, and is the answer. -/
theorem stored_pairs (op : AssignOp) {old old' : Evaluation Value}
    {store store' : Value → Evaluation Unit} (hold : old.Pairs (Parallels C) Value.Like π old')
    (hv : v.Like π w)
    (hstore : ∀ π', π ≤ π' → ∀ x y : Value, x.Like π' y →
      (store x).Pairs (Parallels C) Pairing.Same π' (store' y)) :
    Action.Pairs (Parallels C) Value.Like π
      (do
        let x ← combined op old v
        store x
        return x)
      (do
        let x ← combined op old' w
        store' x
        return x) :=
  (combined_pairs op hold hv).bind fun π₁ hle₁ x y hlike =>
    (hstore π₁ hle₁ x y hlike).bind_same fun _ hle₂ _ => .pure (hlike.mono hle₂)

end Evaluation

/-! ## Expressions -/

namespace Expr

open Execution Evaluation

variable {C : Comparison} {invoke : Invoker}

/-- A command goes on alike with arguments that are alike. -/
def InvokePairs (C : Comparison) (invoke : Invoker) (name : String) : Prop :=
  ∀ π vs ws, List.Forall₂ (Value.Like π) vs ws →
    (invoke name vs).Pairs (Parallels C) Value.Like π (invoke name ws)

mutual

/-- An expression goes on alike if the commands that it calls do, and if the globals are the same or
it uses none. -/
theorem eval_pairs : (e : Expr) → (∀ key ∈ e.keys, C.shared) →
    (∀ name ∈ e.calls, InvokePairs C invoke name) → (π : Pairing) →
      (e.eval invoke).Pairs (Parallels C) Value.Like π (e.eval invoke)
  | .number x, _, _, π => by
    unfold eval
    exact .pure (.plain rfl)
  | .text s, _, _, π => by
    unfold eval
    exact .pure (.plain rfl)
  | .reference handle, _, _, π => by
    unfold eval
    exact .pure (.plain rfl)
  | .slot i, _, _, π => by
    unfold eval
    exact readSlot_pairs i
  | .global key, hkeys, _, π => by
    unfold eval
    exact readGlobal_pairs (hkeys key (by simp [keys])) key
  | .index target position, hkeys, hcalls, π => by
    simp only [keys, calls, List.mem_append] at hkeys hcalls
    have htarget := eval_pairs target (fun key hmem => hkeys key (.inl hmem))
      fun name hmem => hcalls name (.inl hmem)
    have hposition := eval_pairs position (fun key hmem => hkeys key (.inr hmem))
      fun name hmem => hcalls name (.inr hmem)
    unfold eval
    exact (htarget π).bind fun π₁ _ v w hv => (hposition π₁).bind fun π₂ hle v' w' hv' =>
      withArrays_pairs fun s t h => h.element_rel (hv.mono hle) hv'
  | .unary op operand, hkeys, hcalls, π => by
    have hoperand := eval_pairs operand (by simpa only [keys] using hkeys)
      (by simpa only [calls] using hcalls)
    unfold eval
    exact (hoperand π).bind fun _ _ v w hv => .ofExcept (hv.apply_rel op)
  | .binary op left right, hkeys, hcalls, π => by
    simp only [keys, calls, List.mem_append] at hkeys hcalls
    have hleft := eval_pairs left (fun key hmem => hkeys key (.inl hmem))
      fun name hmem => hcalls name (.inl hmem)
    have hright := eval_pairs right (fun key hmem => hkeys key (.inr hmem))
      fun name hmem => hcalls name (.inr hmem)
    cases op with
    | and =>
      unfold eval
      refine (hleft π).bind fun π₁ _ v w hv => ?_
      rw [hv.condition_eq]
      refine (Action.Pairs.ofExcept_same _).bind_same fun π₂ _ b => ?_
      cases b with
      | true => exact truth_pairs (hright π₂)
      | false => exact .pure (.plain rfl)
    | or =>
      unfold eval
      refine (hleft π).bind fun π₁ _ v w hv => ?_
      rw [hv.condition_eq]
      refine (Action.Pairs.ofExcept_same _).bind_same fun π₂ _ b => ?_
      cases b with
      | true => exact .pure (.plain rfl)
      | false => exact truth_pairs (hright π₂)
    | _ =>
      unfold eval
      exact (hleft π).bind fun π₁ _ v w hv => (hright π₁).bind fun π₂ hle v' w' hv' =>
        withArrays_pairs fun s t h => h.apply_rel (hv.mono hle) hv' _
  | .assignSlot i op value, hkeys, hcalls, π => by
    have hvalue := eval_pairs value (by simpa only [keys] using hkeys)
      (by simpa only [calls] using hcalls)
    unfold eval
    exact (hvalue π).bind fun π₁ _ v w hv =>
      stored_pairs op (readSlot_pairs i) hv fun _ _ _ _ hlike => writeSlot_pairs i hlike
  | .assignGlobal key op value, hkeys, hcalls, π => by
    simp only [keys, calls, List.mem_cons] at hkeys hcalls
    have hshared := hkeys key (.inl rfl)
    have hvalue := eval_pairs value (fun other hmem => hkeys other (.inr hmem)) hcalls
    unfold eval
    exact (hvalue π).bind fun π₁ _ v w hv =>
      stored_pairs op (readGlobal_pairs hshared key) hv fun _ _ _ _ hlike =>
        writeGlobal_pairs hshared key hlike
  | .assignElement base position op value, hkeys, hcalls, π => by
    simp only [keys, calls, List.mem_append] at hkeys hcalls
    have hbase := eval_pairs base (fun key hmem => hkeys key (.inl (.inl hmem)))
      fun name hmem => hcalls name (.inl (.inl hmem))
    have hposition := eval_pairs position (fun key hmem => hkeys key (.inl (.inr hmem)))
      fun name hmem => hcalls name (.inl (.inr hmem))
    have hvalue := eval_pairs value (fun key hmem => hkeys key (.inr hmem))
      fun name hmem => hcalls name (.inr hmem)
    unfold eval
    refine (hvalue π).bind fun π₁ _ v w hv => (hbase π₁).bind fun π₂ hle₂ target target' ht => ?_
    refine (Action.Pairs.ofExcept (R := fun π => π) ht.indexable_rel).bind
      fun π₃ hle₃ i j hpaired => ?_
    refine (hposition π₃).bind fun π₄ hle₄ index index' hindex => ?_
    rw [hindex.position_eq]
    refine (Action.Pairs.ofExcept_same _).bind_same fun π₅ hle₅ at' => ?_
    have hpaired₅ := hle₅ _ _ (hle₄ _ _ hpaired)
    have hv₅ := (((hv.mono hle₂).mono hle₃).mono hle₄).mono hle₅
    exact stored_pairs op (withArrays_pairs fun s t h => h.elementAt_rel hpaired₅ at') hv₅
      fun π₆ hle₆ x y hlike => writeElement_pairs (hle₆ _ _ hpaired₅) at' hlike
  | .call command arguments, hkeys, hcalls, π => by
    simp only [keys, calls, List.mem_cons] at hkeys hcalls
    have harguments := evalList_pairs arguments hkeys fun name hmem => hcalls name (.inr hmem)
    unfold eval
    exact (harguments π).bind fun π₁ _ vs ws hvs => hcalls command (.inl rfl) π₁ vs ws hvs

/-- The expressions of a list go on alike. -/
theorem evalList_pairs : (es : List Expr) → (∀ key ∈ keysList es, C.shared) →
    (∀ name ∈ callsList es, InvokePairs C invoke name) → (π : Pairing) →
      (evalList invoke es).Pairs (Parallels C) (fun π => List.Forall₂ (Value.Like π)) π
        (evalList invoke es)
  | [], _, _, π => by
    unfold evalList
    exact .pure .nil
  | e :: rest, hkeys, hcalls, π => by
    simp only [keysList, callsList, List.mem_append] at hkeys hcalls
    have hfirst := eval_pairs e (fun key hmem => hkeys key (.inl hmem))
      fun name hmem => hcalls name (.inl hmem)
    have hothers := evalList_pairs rest (fun key hmem => hkeys key (.inr hmem))
      fun name hmem => hcalls name (.inr hmem)
    unfold evalList
    exact (hfirst π).bind fun π₁ _ v w hv => (hothers π₁).bind fun π₂ hle vs ws hvs =>
      .pure (.cons (hv.mono hle) hvs)

end

end Expr
end ScriptMachine
