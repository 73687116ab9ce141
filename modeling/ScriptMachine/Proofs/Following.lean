import ScriptMachine.Machine.Tick
import ScriptMachine.Proofs.Performing
import ScriptMachine.Proofs.Timing

/-!
# Runs on machines that match

On machines that match, contexts that are alike take the same steps, so their runs are finished,
parked or failed together.  The same goes for the scripts that they run, as far as they run any, and
for a turn in the background: it ends alike, in contexts that are alike and on machines that match.

Main results:

- {lit}`Execution.step_pairs` and {lit}`Execution.run_pairs`: steps and runs go on alike.
- {lit}`Machine.callee_pairs`: other scripts run alike where everything that programs share is the
  same.
- {lit}`Machine.takeTurn_pairs`: turns end alike.
-/

namespace ScriptMachine

variable {C : Comparison} {π : Pairing} {callee : Callee}

/-! ## Programs that are admitted -/

namespace Comparison

/-- The expression of a node uses globals and outward commands only where everything that programs
share is the same. -/
def AdmitsNode (C : Comparison) (node : Node) : Prop :=
  ∀ code, node.code = some code → (∀ key ∈ code.keys, C.shared) ∧
    ∀ name ∈ code.calls, ∀ command, C.left.commands.lookup? name = some command →
      command.Outward → C.shared

/-- The nodes of an admitted program. -/
theorem Admits.node {program : Program} (h : C.Admits program) {tree : Tree}
    (htree : program.tree = some tree) {id : Nat} {node : Node} (hnode : tree.node? id = some node) :
    C.AdmitsNode node := by
  intro code hcode
  rcases h with hshared | hprivate
  · exact ⟨fun _ _ => hshared, fun _ _ _ _ _ => hshared⟩
  · refine ⟨fun key hmem => ?_, fun name hmem command hlookup houtward => ?_⟩
    · exact absurd ⟨tree, htree, id, node, code, hnode, hcode, hmem⟩ (hprivate.keys key)
    · have hcalls : program.Calls name := ⟨tree, htree, id, node, code, hnode, hcode, hmem⟩
      exact absurd houtward (hprivate.calls name hcalls command hlookup)

end Comparison

/-! ## Expressions of nodes -/

namespace Execution

/-- A node is found alike, and it is admitted. -/
theorem nodeOf_pairs {program : Program} (h : C.Admits program) {tree : Tree}
    (htree : program.tree = some tree) (id : Nat) :
    (Action.ofExcept (nodeOf tree id) : Stepping Node).Pairs (Parallels C)
      (fun _ node node' => node = node' ∧ C.AdmitsNode node) π (Action.ofExcept (nodeOf tree id)) := by
  unfold nodeOf
  cases hnode : tree.node? id with
  | none => exact .fail _
  | some node => exact .pure ⟨rfl, h.node htree hnode⟩

variable {node : Node}

/-- The expression of a node. -/
theorem evaluate_pairs (hcallee : callee.Pairs C) (hnode : C.AdmitsNode node) :
    (evaluate callee node).Pairs (Parallels C) Value.Like π (evaluate callee node) := by
  unfold evaluate
  cases hcode : node.code with
  | none => exact .fail _
  | some code =>
    intro e f h
    rcases hnode code hcode with ⟨hkeys, hcalls⟩
    have herror : e.context.errorAt node.line = f.context.errorAt node.line := by
      unfold Context.errorAt
      rw [h.context.program]
    have hcode := Expr.eval_pairs code hkeys
      (fun name hmem => invokePairs_invoke hcallee node.line (hcalls name hmem)) π
    simp only [herror]
    exact hcode.mapError _ e f h

/-- A failure at a node. -/
theorem failAt_pairs {α : Type} {R : Pairing → α → α → Prop} (node : Node) (cause : RuntimeCause) :
    (failAt node cause : Stepping α).Pairs (Parallels C) R π (failAt node cause) := by
  refine .get_bind fun e f h => ?_
  unfold Context.errorAt
  rw [h.context.program]
  exact .fail _

/-- The condition of a node. -/
theorem evaluateCondition_pairs (hcallee : callee.Pairs C) (hnode : C.AdmitsNode node) :
    (evaluateCondition callee node).Pairs (Parallels C) Pairing.Same π
      (evaluateCondition callee node) := by
  refine (evaluate_pairs hcallee hnode).bind fun π' _ v w hv => ?_
  rw [hv.truth?_eq, hv.dataType_eq]
  cases w.truth? with
  | some b => exact .pure rfl
  | none => exact failAt_pairs node _

/-- The array of a loop. -/
theorem evaluateCollection_pairs (hcallee : callee.Pairs C) (hnode : C.AdmitsNode node) :
    (evaluateCollection callee node).Pairs (Parallels C) (fun π => π) π
      (evaluateCollection callee node) := by
  refine (evaluate_pairs hcallee hnode).bind fun π' _ v w hv => ?_
  cases hv with
  | plain hplain =>
    simp only [hplain]
    exact failAt_pairs node _
  | array hpaired => exact .pure hpaired

/-! ## Frames -/

/-- The phases in which nodes start name no array. -/
theorem start_like (π : Pairing) (kind : NodeKind) : (Phase.start kind).Like π (.start kind) := by
  cases kind with
  | entry | elseIf | otherwise => exact .block 0
  | expression => exact .expression
  | conditional elseIfs elseBranch => exact .branch 0
  | whileLoop => exact .loopTest
  | forEach iterator slot => exact .forEachStart

/-- A child of a body is started. -/
theorem startChild_rel (tree : Tree) (node : Node) (next : Nat) {more more' last last' : List Frame}
    (hmore : List.Forall₂ (Frame.Like π) more more') (hlast : List.Forall₂ (Frame.Like π) last last') :
    ExceptRel (List.Forall₂ (Frame.Like π)) (startChild tree node next more last)
      (startChild tree node next more' last') := by
  unfold startChild
  cases node.children[next]? with
  | none => exact .ok hlast
  | some child => exact .bind_self _ fun node => .ok (.cons ⟨rfl, start_like π node.kind⟩ hmore)

/-- The next branch of a conditional is tested. -/
theorem stepBranch_pairs (hcallee : callee.Pairs C) {program : Program} (hadmits : C.Admits program)
    {tree : Tree} (htree : program.tree = some tree) (id tested : Nat) (elseIfs : List Nat)
    (elseBranch : Option Nat) {rest rest' : List Frame}
    (hrest : List.Forall₂ (Frame.Like π) rest rest') :
    (stepBranch callee tree id tested elseIfs elseBranch rest).Pairs (Parallels C)
      (fun π => List.Forall₂ (Frame.Like π)) π
      (stepBranch callee tree id tested elseIfs elseBranch rest') := by
  unfold stepBranch
  cases (id :: elseIfs)[tested]? with
  | none =>
    cases elseBranch with
    | none => exact .pure hrest
    | some branch => exact .pure (.cons ⟨rfl, .block 0⟩ hrest)
  | some branch =>
    refine (nodeOf_pairs hadmits htree branch).bind
      fun π₁ hle₁ node node' hsame => ?_
    rcases hsame with ⟨rfl, hnode⟩
    refine (evaluateCondition_pairs hcallee hnode).bind_same fun π₂ hle₂ b => ?_
    have hrest₂ := Frame.Like.mono (le_trans hle₁ hle₂) hrest
    cases b with
    | true => exact .pure (.cons ⟨rfl, .block 0⟩ hrest₂)
    | false => exact .pure (.cons ⟨rfl, .branch _⟩ hrest₂)

/-- Alike elements are bound. -/
theorem bindElement_pairs (slot : Nat) {v w : Value} (hv : v.Like π w) :
    (bindElement slot v).Pairs (Parallels C) Pairing.Same π (bindElement slot w) := by
  refine .get_bind_put fun e f h => ?_
  rw [h.length_locals]
  split
  · exact .done (le_refl π) (h.setLocal slot hv) rfl
  · exact .failed (le_refl π) h

/-- The next passes of loops over paired arrays. -/
theorem stepBind_pairs (id slot : Nat) {i j : ArrayId} (hpaired : π i j) (position : Nat)
    {rest rest' : List Frame} (hrest : List.Forall₂ (Frame.Like π) rest rest') :
    (stepBind id slot i position rest).Pairs (Parallels C) (fun π => List.Forall₂ (Frame.Like π)) π
      (stepBind id slot j position rest') := by
  refine .get_bind fun e f h => ?_
  have hat := h.machine.arrays.at?_rel hpaired position
  generalize e.machine.arrays.at? i position = found at hat ⊢
  generalize f.machine.arrays.at? j position = found' at hat ⊢
  cases hat with
  | none => exact .pure hrest
  | some hlike =>
    refine (bindElement_pairs slot hlike).bind_same fun π' hle _ => .pure (.cons ⟨rfl, ?_⟩ ?_)
    · exact .forEachBody (hle _ _ hpaired) 0 (position + 1)
    · exact Frame.Like.mono hle hrest

/-- The work of a frame. -/
theorem stepFrame_pairs (hcallee : callee.Pairs C) {program : Program} (hadmits : C.Admits program)
    {tree : Tree} (htree : program.tree = some tree) (hnode : C.AdmitsNode node)
    {frame frame' : Frame} (hframe : frame.Like π frame') {rest rest' : List Frame}
    (hrest : List.Forall₂ (Frame.Like π) rest rest') :
    (stepFrame callee tree node frame rest).Pairs (Parallels C)
      (fun π => List.Forall₂ (Frame.Like π)) π (stepFrame callee tree node frame' rest') := by
  rcases frame with ⟨id, phase⟩
  rcases frame' with ⟨id', phase'⟩
  rcases hframe with ⟨hid, hphase⟩
  have hid : id = id' := hid
  have hphase : phase.Like π phase' := hphase
  subst hid
  cases hphase with
  | block next =>
    cases hkind : node.kind with
    | entry | conditional _ _ | elseIf | otherwise =>
      simp only [stepFrame, hkind]
      exact .ofExcept (startChild_rel tree node next (.cons ⟨rfl, .block _⟩ hrest) hrest)
    | expression | whileLoop | forEach _ _ =>
      simp only [stepFrame, hkind]
      exact .fail _
  | expression =>
    cases hkind : node.kind with
    | expression =>
      simp only [stepFrame, hkind]
      exact (evaluate_pairs hcallee hnode).bind fun _ hle _ _ _ => .pure (Frame.Like.mono hle hrest)
    | _ =>
      simp only [stepFrame, hkind]
      exact .fail _
  | branch tested =>
    cases hkind : node.kind with
    | conditional elseIfs elseBranch =>
      simp only [stepFrame, hkind]
      exact stepBranch_pairs hcallee hadmits htree id tested elseIfs elseBranch hrest
    | _ =>
      simp only [stepFrame, hkind]
      exact .fail _
  | loopTest =>
    cases hkind : node.kind with
    | whileLoop =>
      simp only [stepFrame, hkind]
      refine (evaluateCondition_pairs hcallee hnode).bind_same fun π' hle b => ?_
      have hrest' := Frame.Like.mono hle hrest
      cases b with
      | true => exact .pure (.cons ⟨rfl, .loopBody 0⟩ hrest')
      | false => exact .pure hrest'
    | _ =>
      simp only [stepFrame, hkind]
      exact .fail _
  | loopBody next =>
    cases hkind : node.kind with
    | whileLoop =>
      simp only [stepFrame, hkind]
      exact .ofExcept (startChild_rel tree node next (.cons ⟨rfl, .loopBody _⟩ hrest)
        (.cons ⟨rfl, .loopTest⟩ hrest))
    | _ =>
      simp only [stepFrame, hkind]
      exact .fail _
  | forEachStart =>
    cases hkind : node.kind with
    | forEach iterator slot =>
      simp only [stepFrame, hkind]
      exact (evaluateCollection_pairs hcallee hnode).bind fun π' hle i j hpaired =>
        .pure (.cons ⟨rfl, .forEachBind hpaired 0⟩ (Frame.Like.mono hle hrest))
    | _ =>
      simp only [stepFrame, hkind]
      exact .fail _
  | forEachBind hpaired position =>
    cases hkind : node.kind with
    | forEach iterator slot =>
      simp only [stepFrame, hkind]
      exact stepBind_pairs id slot hpaired position hrest
    | _ =>
      simp only [stepFrame, hkind]
      exact .fail _
  | forEachBody hpaired next position =>
    cases hkind : node.kind with
    | forEach iterator slot =>
      simp only [stepFrame, hkind]
      exact .ofExcept (startChild_rel tree node next
        (.cons ⟨rfl, .forEachBody hpaired _ position⟩ hrest)
        (.cons ⟨rfl, .forEachBind hpaired position⟩ hrest))
    | _ =>
      simp only [stepFrame, hkind]
      exact .fail _

end Execution

/-! ## Jumps -/

namespace Context

variable {c d : Context}

/-- The innermost frames are at one line. -/
theorem Like.currentLine_eq (h : c.Like π d) (tree : Tree) :
    c.currentLine tree = d.currentLine tree := by
  have hframes := h.frames
  unfold currentLine
  generalize c.frames = frames at hframes ⊢
  generalize d.frames = frames' at hframes ⊢
  cases hframes with
  | nil => rfl
  | cons hhead _ => simp only [List.head?_cons, Option.bind_some, hhead.node]

/-- The frames from the innermost loop on are alike. -/
theorem Like.fromLoop_rel (h : c.Like π d) :
    List.Forall₂ (Frame.Like π) c.fromLoop d.fromLoop := by
  have hframes := h.frames
  unfold fromLoop
  generalize c.frames = frames at hframes ⊢
  generalize d.frames = frames' at hframes ⊢
  induction hframes with
  | nil => exact .nil
  | cons hhead htail ih =>
    have hloop := hhead.phase
    rw [List.dropWhile_cons, List.dropWhile_cons]
    have hsame : ∀ {phase phase' : Phase}, phase.Like π phase' → phase.isLoop = phase'.isLoop := by
      intro phase phase' hphase
      cases hphase <;> rfl
    rw [hsame hloop]
    split
    · exact ih
    · exact .cons hhead htail

/-- The phases in which alike loops start their next passes. -/
theorem nextPass_like {phase phase' : Phase} (h : phase.Like π phase') :
    phase.nextPass.Like π phase'.nextPass := by
  cases h with
  | block next => exact .block next
  | expression => exact .expression
  | branch tested => exact .branch tested
  | loopTest => exact .loopTest
  | loopBody next => exact .loopTest
  | forEachStart => exact .forEachStart
  | forEachBind h position => exact .forEachBind h position
  | forEachBody h next position => exact .forEachBind h position

/-- Runs are under way in both contexts or in neither. -/
theorem Like.isRunning_eq (h : c.Like π d) : c.isRunning = d.isRunning := by
  have hframes := h.frames
  unfold isRunning
  generalize c.frames = frames at hframes ⊢
  generalize d.frames = frames' at hframes ⊢
  cases hframes <;> rfl

/-- Runs are started alike. -/
theorem Like.beginRun (h : c.Like π d) (root : Nat) : (c.beginRun root).Like π (d.beginRun root) :=
  { h with
    frames := .cons ⟨rfl, .block 0⟩ .nil
    pending := rfl
    result := .none
    secondsPassed := h.elapsed
    elapsed := rfl
    runs := congrArg (· + 1) h.runs }

/-- A jump is made alike and stays in the program. -/
theorem Like.unwind_rel (h : c.Like π d) (tree : Tree) (jump : Jump) :
    ExceptRel (fun x y => x.1.Like π y.1 ∧ x.1.program = c.program ∧ x.2 = y.2)
      (c.unwind tree jump) (d.unwind tree jump) := by
  have hloop := h.fromLoop_rel
  have herror : ∀ cause, c.errorAt (c.currentLine tree) cause =
      d.errorAt (d.currentLine tree) cause := by
    intro cause
    unfold errorAt
    rw [h.program, h.currentLine_eq]
  unfold unwind
  generalize c.fromLoop = frames at hloop ⊢
  generalize d.fromLoop = frames' at hloop ⊢
  cases jump with
  | returnValue => exact .ok ⟨{ h with frames := .nil }, rfl, rfl⟩
  | breakLoop =>
    cases hloop with
    | nil =>
      simp only [herror]
      exact .error
    | cons _ hrest => exact .ok ⟨{ h with frames := hrest, pending := rfl }, rfl, rfl⟩
  | continueLoop =>
    cases hloop with
    | nil =>
      simp only [herror]
      exact .error
    | cons hhead hrest =>
      refine .ok ⟨{ h with frames := .cons ⟨hhead.node, ?_⟩ hrest, pending := rfl }, rfl, rfl⟩
      exact nextPass_like hhead.phase

end Context

/-! ## Steps and runs -/

namespace Execution

/-- A step without a pending jump. -/
theorem stepStatement_pairs (hcallee : callee.Pairs C) {program : Program}
    (hadmits : C.Admits program) {tree : Tree} (htree : program.tree = some tree) :
    (stepStatement callee tree).Pairs (Parallels C) Pairing.Same π (stepStatement callee tree) := by
  refine .get_bind fun e f h => ?_
  have hframes := h.context.frames
  generalize e.context.frames = frames at hframes ⊢
  generalize f.context.frames = frames' at hframes ⊢
  cases hframes with
  | nil => exact .pure rfl
  | cons hhead hrest =>
    simp only [hhead.node]
    refine (nodeOf_pairs hadmits htree _).bind fun π₁ hle₁ node node' hsame => ?_
    rcases hsame with ⟨rfl, hnode⟩
    have hhead₁ : Frame.Like π₁ _ _ := ⟨hhead.node, hhead.phase.mono hle₁⟩
    refine (stepFrame_pairs hcallee hadmits htree hnode hhead₁ (Frame.Like.mono hle₁ hrest)).bind
      fun π₂ _ frames frames' hframes => ?_
    refine Action.Pairs.bind_same (.change fun e f h => ?_) fun _ _ _ => .pure rfl
    exact ⟨h.machine, { h.context with frames := hframes }, h.admits⟩

/-- A pending jump is made. -/
theorem stepJump_pairs (tree : Tree) (jump : Jump) :
    (stepJump tree jump).Pairs (Parallels C) Pairing.Same π (stepJump tree jump) := by
  refine .get_bind_put fun e f h => ?_
  have hunwind := h.context.unwind_rel tree jump
  generalize e.context.unwind tree jump = unwound at hunwind ⊢
  generalize f.context.unwind tree jump = unwound' at hunwind ⊢
  cases hunwind with
  | error => exact .failed (le_refl π) h
  | @ok x y hok =>
    rcases hok with ⟨hlike, hprogram, hstatus⟩
    have hadmits := h.admits
    rw [← hprogram] at hadmits
    exact .done (le_refl π) ⟨h.machine, hlike, hadmits⟩ hstatus

/-- A step goes on alike. -/
theorem step_pairs (hcallee : callee.Pairs C) :
    (step callee).Pairs (Parallels C) Pairing.Same π (step callee) := by
  refine .get_bind fun e f h => ?_
  simp only [h.machine.raised, h.context.program, h.context.pending]
  split
  · exact .fail _
  · have hadmits := h.admits
    rw [h.context.program] at hadmits
    cases htree : f.context.program.tree with
    | none => exact .fail _
    | some tree =>
      cases f.context.pending with
      | none => exact stepStatement_pairs hcallee hadmits htree
      | some jump => exact stepJump_pairs tree jump

/-- Runs end in contexts that are alike. -/
theorem Parallels.endRun {e f : Execution} (h : e.Parallels C π f) :
    (e.onContext Context.endRun).Parallels C π (f.onContext Context.endRun) :=
  ⟨h.machine, { h.context with frames := .nil, pending := rfl }, h.admits⟩

/-- A run goes on alike. -/
theorem run_pairs (hcallee : callee.Pairs C) (budget fuel taken : Nat) :
    (run callee budget fuel taken).Pairs (Parallels C) Pairing.Same π (run callee budget fuel taken) := by
  induction fuel generalizing π taken with
  | zero => exact .starve
  | succ fuel ih =>
    intro e f h
    have hstep := step_pairs hcallee e f h
    unfold run
    generalize step callee e = outcome at hstep ⊢
    generalize step callee f = outcome' at hstep ⊢
    cases hstep with
    | exhausted => exact .exhausted
    | failed hle hstate => exact .failed hle hstate.endRun
    | @done π' status status' e' f' hle hstate hsame =>
      have hsame : status = status' := hsame
      subst hsame
      cases status with
      | finished => exact .done hle hstate.endRun rfl
      | running =>
        simp only
        split
        · exact .done hle hstate rfl
        · exact (ih (taken + 1) e' f' hstate).of_le hle

end Execution

/-! ## Contexts and programs -/

namespace Machine

variable {m n : Machine}

/-- Calls are entered. -/
theorem Parallels.enter (h : m.Parallels C π n) : m.enter.Parallels C π n.enter :=
  { h with
    depth := congrArg (· + 1) h.depth
    mingles := fun hshared => { h.mingles hshared with }
    left := { h.left with }
    right := { h.right with } }

/-- Calls are left. -/
theorem Parallels.leave (h : m.Parallels C π n) : m.leave.Parallels C π n.leave :=
  { h with
    depth := congrArg (· - 1) h.depth
    raised := by simp only [Machine.leave, h.depth, h.raised]
    mingles := fun hshared => { h.mingles hshared with }
    left := { h.left with }
    right := { h.right with } }

/-- Contexts come to life. -/
theorem Parallels.beginExecution (h : m.Parallels C π n) (program : Nat) :
    (m.beginExecution program).Parallels C π (n.beginExecution program) :=
  { h with
    mingles := fun hshared => { h.mingles hshared with }
    left := { h.left with }
    right := { h.right with } }

/-- Contexts are gone. -/
theorem Parallels.endExecution (h : m.Parallels C π n) (program : Nat) :
    (m.endExecution program).Parallels C π (n.endExecution program) :=
  { h with
    mingles := fun hshared => { h.mingles hshared with }
    left := { h.left with }
    right := { h.right with } }

/-- Contexts are numbered. -/
theorem Parallels.countContext (h : m.Parallels C π n) (hshared : C.shared) :
    Machine.Parallels C π { m with contextCount := m.contextCount + 1 }
      { n with contextCount := n.contextCount + 1 } :=
  { h with
    mingles := fun _ => { h.mingles hshared with
      contextCount := congrArg (· + 1) (h.mingles hshared).contextCount }
    left := { h.left with contextCount := fun hprivate => absurd hshared hprivate }
    right := { h.right with contextCount := fun hprivate => absurd hshared hprivate } }

/-- Initializers are evaluated. -/
theorem prepare_pairs (hcallee : callee.Pairs C) (program : Program) (hadmits : C.Admits program) :
    (prepare callee program).Pairs (Execution.Parallels C) Pairing.Same π (prepare callee program) := by
  unfold prepare
  cases htree : program.tree with
  | none => exact .fail _
  | some tree =>
    simp only
    generalize tree.initializers = ids
    induction ids generalizing π with
    | nil => exact .pure rfl
    | cons id rest ih =>
      refine Action.Pairs.bind_same ?_ fun _ _ _ => ih
      refine (Execution.nodeOf_pairs hadmits htree id).bind
        fun π₁ hle₁ node node' hsame => ?_
      rcases hsame with ⟨rfl, hnode⟩
      refine (Execution.evaluate_pairs hcallee hnode).bind fun π₂ _ _ _ _ => .get_bind fun e f h => ?_
      simp only [h.machine.raised, h.context.program]
      split
      · exact .fail _
      · exact .pure rfl

/-- Arguments that are alike are bound alike. -/
theorem bindArguments_rel (program : Program) {vs ws : List Value}
    (h : List.Forall₂ (Value.Like π) vs ws) :
    ExceptRel (List.Forall₂ (Value.Like π)) (Context.bindArguments program vs)
      (Context.bindArguments program ws) := by
  have hbind : ∀ (slots : List Nat) {locals locals' : List Value},
      List.Forall₂ (Value.Like π) locals locals' →
        ExceptRel (List.Forall₂ (Value.Like π))
          ((slots.zip vs).foldlM Context.bindArgument locals)
          ((slots.zip ws).foldlM Context.bindArgument locals') := by
    induction h with
    | nil =>
      intro slots locals locals' hlocals
      rw [List.zip_nil_right]
      exact .ok hlocals
    | cons hhead _ ih =>
      intro slots locals locals' hlocals
      cases slots with
      | nil => exact .ok hlocals
      | cons slot slots =>
        rw [List.zip_cons_cons, List.zip_cons_cons, List.foldlM_cons, List.foldlM_cons]
        refine ExceptRel.bind (R := List.Forall₂ (Value.Like π)) ?_ fun _ _ hnext => ih slots hnext
        unfold Context.bindArgument
        rw [hlocals.length_eq]
        split
        · exact .ok (forall₂_set hlocals slot hhead)
        · exact .error
  refine hbind _ ?_
  generalize program.declarations.length = count
  induction count with
  | zero => exact .nil
  | succ count ih => exact .cons (.plain rfl) ih

/-- Arguments are bound to a program that can be executed with them. -/
theorem Parallels.bindChecked_rel (h : m.Parallels C π n) (program : Program) {vs ws : List Value}
    (hvalues : List.Forall₂ (Value.Like π) vs ws) :
    ExceptRel (List.Forall₂ (Value.Like π)) (m.bindChecked program vs) (n.bindChecked program ws) := by
  have hbound := bindArguments_rel program hvalues
  unfold bindChecked
  rw [h.isValid_eq, hvalues.length_eq]
  split
  · exact .error
  · split
    · exact .error
    · generalize Context.bindArguments program vs = bound at hbound ⊢
      generalize Context.bindArguments program ws = bound' at hbound ⊢
      cases hbound with
      | ok hlocals => exact .ok hlocals
      | error => exact .error

/-- What is left of contexts when their initializers have been evaluated. -/
theorem afterPreparing_pairs (program : Program) {first second : Outcome Execution MachineError Unit}
    (h : Outcome.Pairs (Execution.Parallels C) Pairing.Same π first second) :
    Outcome.Pairs (Parallels C) Context.Like π (afterPreparing program first)
      (afterPreparing program second) := by
  cases h with
  | done hle hstate _ => exact .done hle hstate.machine.leave hstate.context
  | failed hle hstate => exact .failed hle (hstate.machine.leave.endExecution program.id)
  | exhausted => exact .exhausted

/-- A context is created alike. -/
theorem createContext_pairs (hcallee : callee.Pairs C) (hshared : C.shared) (program : Program)
    {vs ws : List Value} (hvalues : List.Forall₂ (Value.Like π) vs ws) :
    (createContext callee program vs).Pairs (Parallels C) Context.Like π
      (createContext callee program ws) := by
  intro m n h
  have hcounted := h.countContext hshared
  have hbound := h.bindChecked_rel program hvalues
  cases hm : m.bindChecked program vs with
  | error e =>
    rw [hm] at hbound
    generalize hn : n.bindChecked program ws = bound at hbound
    cases hbound
    rw [createContext_of_error hm, createContext_of_error hn]
    exact .failed (le_refl π) hcounted
  | ok locals =>
    rw [hm] at hbound
    generalize hn : n.bindChecked program ws = bound at hbound
    cases hbound with
    | @ok _ locals' hlocals =>
      have hcontext : (Context.create (m.contextCount + 1) program locals).Like π
          (Context.create (n.contextCount + 1) program locals') :=
        ⟨congrArg (· + 1) (h.mingles hshared).contextCount, rfl, hlocals, .nil, rfl, .none, rfl, rfl,
          rfl, rfl, rfl⟩
      have hprepared := prepare_pairs hcallee program (.inl hshared) ⟨_, _⟩ ⟨_, _⟩
        ⟨(hcounted.beginExecution program.id).enter, hcontext, .inl hshared⟩
      rw [createContext_of_ok hm, createContext_of_ok hn]
      exact afterPreparing_pairs program hprepared

/-- Contexts run to their ends alike. -/
theorem runToEnd_pairs (hcallee : callee.Pairs C) (fuel : Nat) :
    (runToEnd callee fuel).Pairs (Execution.Parallels C) Pairing.Same π (runToEnd callee fuel) := by
  intro e f h
  unfold runToEnd
  rw [h.context.program]
  cases f.context.program.tree with
  | none => exact .failed (le_refl π) h
  | some tree =>
    exact Execution.run_pairs hcallee 0 fuel 0 _ _
      ⟨h.machine, h.context.beginRun tree.root, h.admits⟩

/-- Programs run in new contexts alike. -/
theorem runFresh_pairs (hcallee : callee.Pairs C) (hshared : C.shared) (fuel : Nat)
    (program : Program) {vs ws : List Value} (hvalues : List.Forall₂ (Value.Like π) vs ws) :
    (runFresh callee fuel program vs).Pairs (Parallels C) (fun π => Option.Rel (Value.Like π)) π
      (runFresh callee fuel program ws) := by
  intro m n h
  have hcreated := createContext_pairs hcallee hshared program hvalues m n h
  unfold runFresh
  generalize createContext callee program vs m = outcome at hcreated ⊢
  generalize createContext callee program ws n = outcome' at hcreated ⊢
  cases hcreated with
  | exhausted => exact .exhausted
  | failed hle hstate => exact .failed hle hstate
  | @done π' c d m' n' hle hstate hcontext =>
    have hrun := runToEnd_pairs hcallee fuel ⟨m', c⟩ ⟨n', d⟩ ⟨hstate, hcontext, .inl hshared⟩
    simp only
    generalize runToEnd callee fuel ⟨m', c⟩ = outcome at hrun ⊢
    generalize runToEnd callee fuel ⟨n', d⟩ = outcome' at hrun ⊢
    cases hrun with
    | exhausted => exact .exhausted
    | failed hle' hstate => exact .failed (le_trans hle hle') (hstate.machine.endExecution _)
    | done hle' hstate _ =>
      exact .done (le_trans hle hle') (hstate.machine.endExecution _) hstate.context.result

/-- Programs run alike, unless calls nest too deeply. -/
theorem runProgram_pairs (hcallee : callee.Pairs C) (hshared : C.shared) (fuel : Nat)
    (program : Program) {vs ws : List Value} (hvalues : List.Forall₂ (Value.Like π) vs ws) :
    (runProgram callee fuel program vs).Pairs (Parallels C) (fun π => Option.Rel (Value.Like π)) π
      (runProgram callee fuel program ws) := by
  intro m n h
  unfold runProgram
  rw [h.settings, h.depth]
  split
  · exact .failed (le_refl π) h
  · have hrun := runFresh_pairs hcallee hshared fuel program hvalues _ _ h.enter
    unfold nested
    generalize runFresh callee fuel program vs m.enter = outcome at hrun ⊢
    generalize runFresh callee fuel program ws n.enter = outcome' at hrun ⊢
    cases hrun with
    | exhausted => exact .exhausted
    | failed hle hstate => exact .failed hle hstate.leave
    | done hle hstate hanswer => exact .done hle hstate.leave hanswer

/-- Other scripts run alike where everything that programs share is the same. -/
theorem callee_pairs (C : Comparison) (fuel : Nat) : (Machine.callee fuel).Pairs C := by
  induction fuel with
  | zero => exact fun _ _ _ _ _ _ => .starve
  | succ fuel ih =>
    exact fun hshared _ program _ _ hvalues => runProgram_pairs ih hshared fuel program hvalues

end Machine

/-! ## Turns -/

/-- Turns that end alike. -/
inductive Turn.Like (π : Pairing) : Turn → Turn → Prop where
  | waiting : Like π .waiting .waiting
  | parked : Like π .parked .parked
  | completed {v w : Option Value} (h : Option.Rel (Value.Like π) v w) :
      Like π (.completed v) (.completed w)
  | retired (reason : RetireReason) : Like π (.retired reason) (.retired reason)

namespace Machine

/-- Turns that end alike, in contexts that are alike and still admitted. -/
structure TurnLike (C : Comparison) (π : Pairing) (first second : Context × Turn) : Prop where
  context : first.1.Like π second.1
  turn : first.2.Like π second.2
  admits : C.Admits first.1.program

/-- Contexts are taken out of the background alike. -/
theorem retire_pairs {c d : Context} (h : c.Like π d) (hadmits : C.Admits c.program)
    (reason : RetireReason) :
    (retire c reason).Pairs (Parallels C) (TurnLike C) π (retire d reason) := by
  unfold retire
  rw [h.program]
  exact Action.Pairs.bind_same (.change fun m n hboth => hboth.endExecution _)
    fun π' hle _ => .pure ⟨h.mono hle, .retired reason, hadmits⟩

/-- The runs of contexts that are alike end alike. -/
theorem runTurn_pairs (fuel : Nat) {c d : Context} (h : c.Like π d) (hadmits : C.Admits c.program) :
    (runTurn fuel c).Pairs (Parallels C) (TurnLike C) π (runTurn fuel d) := by
  intro m n hboth
  have hrun := Execution.run_pairs (callee_pairs C fuel) m.settings.stepBudget fuel 0
    ⟨m.enter, c⟩ ⟨n.enter, d⟩ ⟨hboth.enter, h, hadmits⟩
  unfold runTurn
  rw [← hboth.settings]
  generalize Execution.run (callee fuel) m.settings.stepBudget fuel 0 ⟨m.enter, c⟩ = outcome
    at hrun ⊢
  generalize Execution.run (callee fuel) m.settings.stepBudget fuel 0 ⟨n.enter, d⟩ = outcome'
    at hrun ⊢
  cases hrun with
  | exhausted => exact .exhausted
  | failed hle hstate =>
    exact (retire_pairs hstate.context hstate.admits _ _ _ hstate.machine.leave).of_le hle
  | @done π' state state' e f hle hstate hsame =>
    have hsame : state = state' := hsame
    subst hsame
    cases state with
    | parked => exact .done hle hstate.machine.leave ⟨hstate.context, .parked, hstate.admits⟩
    | finished =>
      have hcontext : Context.Like π' { e.context with result := none }
          { f.context with result := none } := { hstate.context with result := .none }
      by_cases hsecond : f.context.halt = true
      · have hfirst : e.context.halt = true := hstate.context.halt.trans hsecond
        simp only [Context.finishedTurn, if_pos hfirst, if_pos hsecond]
        exact (retire_pairs hcontext hstate.admits _ _ _ hstate.machine.leave).of_le hle
      · have hfirst : ¬e.context.halt = true := hstate.context.halt ▸ hsecond
        simp only [Context.finishedTurn, if_neg hfirst, if_neg hsecond]
        exact .done hle hstate.machine.leave
          ⟨hcontext, .completed hstate.context.result, hstate.admits⟩

/-- Contexts resume their runs alike, or have no tree. -/
theorem resume_rel {c d : Context} (h : c.Like π d) :
    ExceptRel (fun c' d' => c'.Like π d' ∧ c'.program = c.program) c.resume d.resume := by
  unfold Context.resume
  rw [h.isRunning_eq, h.program]
  split
  · exact .ok ⟨h, h.program⟩
  · cases d.program.tree with
    | none => exact .error
    | some tree => exact .ok ⟨h.beginRun tree.root, h.program⟩

/-- The turns of contexts that are alike end alike. -/
theorem takeTurn_pairs (fuel : Nat) (seconds : Float) {c d : Context} (h : c.Like π d)
    (hadmits : C.Admits c.program) :
    (takeTurn fuel seconds c).Pairs (Parallels C) (TurnLike C) π (takeTurn fuel seconds d) := by
  intro m n hboth
  have hwaited : (c.wait seconds).Like π (d.wait seconds) :=
    { h with elapsed := congrArg (· + seconds) h.elapsed }
  have hresume := resume_rel hwaited
  have hdue : (c.wait seconds).isDue = (d.wait seconds).isDue := by
    unfold Context.isDue
    rw [hwaited.runs, hwaited.program, hwaited.elapsed]
  unfold takeTurn
  simp only [hwaited.isRunning_eq, hdue, hwaited.program, hboth.isValid_eq]
  split
  · exact .done (le_refl π) hboth ⟨hwaited, .waiting, hadmits⟩
  · split
    · exact retire_pairs hwaited hadmits _ m n hboth
    · generalize (c.wait seconds).resume = resumed at hresume ⊢
      generalize (d.wait seconds).resume = resumed' at hresume ⊢
      cases hresume with
      | error => exact retire_pairs hwaited hadmits _ m n hboth
      | @ok c' d' hok =>
        rcases hok with ⟨hlike, hprogram⟩
        have hprogram : c'.program = c.program := hprogram
        rw [← hprogram] at hadmits
        exact runTurn_pairs fuel hlike hadmits m n hboth

end Machine
end ScriptMachine
