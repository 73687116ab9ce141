import ScriptMachine.Proofs.Bearing
import ScriptMachine.Proofs.Returning
import ScriptMachine.Proofs.Stacking

/-!
# Lines of script errors

A script error names the program of the context that failed and has the line of a node.  When an
evaluation fails, that is the node whose expression was evaluated.  A break or a continue without a
loop only fails in the step behind the expression that has requested it, and then the innermost frame
that is left gives the line: for a statement it is that of the body in which the statement stands.

Main results:

- {lit}`Tree.Linked`: every frame that is no block belongs to a child of the node below it.
- {lit}`Execution.Blames`: the node whose line is given for a jump without a loop.
- {lit}`Execution.StopsAt`: where a run stops with a script error.
- {lit}`scriptErrors_located`: all runs stop so, those of programs and those of ticks.
-/

namespace ScriptMachine

variable {σ ε α β : Type}

/-! ## Answers of actions -/

/-- Every answer of an action has a property. -/
def Action.Answers (P : β → Prop) (action : Action σ ε β) : Prop :=
  ∀ s x t, action s = .done x t → P x

namespace Action.Answers

variable {P : β → Prop}

theorem pure {x : β} (h : P x) : Answers P (pure x : Action σ ε β) :=
  fun _ _ _ hrun => by cases hrun; exact h

theorem fail {error : ε} : Answers P (fail error : Action σ ε β) :=
  fun _ _ _ hrun => by cases hrun

theorem ofExcept {result : Except ε β} (h : ∀ x, result = .ok x → P x) :
    Answers P (ofExcept result : Action σ ε β) := by
  intro s x t hrun
  cases result with
  | ok y =>
    cases hrun
    exact h x rfl
  | error e => cases hrun

/-- A sequence answers with what its second part answers. -/
theorem behind {action : Action σ ε α} {next : α → Action σ ε β} (hnext : ∀ x, (next x).Answers P) :
    (action >>= next).Answers P := by
  intro s y t hrun
  rcases exists_of_bind_done hrun with ⟨x, u, -, hlast⟩
  exact hnext x u y t hlast

end Action.Answers

/-! ## Frames above frames -/

namespace Tree

/-- A node stands in the body of another one. -/
def StandsIn (tree : Tree) (node outer : Node) : Prop :=
  ∃ id outerId, tree.node? id = some node ∧ tree.node? outerId = some outer ∧ id ∈ outer.children

/-- A conditional tests the condition of a node: its own or that of a branch. -/
def Tests (tree : Tree) (conditional node : Node) : Prop :=
  ∃ id elseIfs elseBranch, tree.node? id = some conditional ∧
    conditional.kind = .conditional elseIfs elseBranch ∧
      ∃ branch ∈ id :: elseIfs, tree.node? branch = some node

/-- Every frame that is no block belongs to a child of the node of the frame below it; at the bottom
there is a block. -/
inductive Linked (tree : Tree) : List Frame → Prop
  | nil : Linked tree []
  | bottom (id next : Nat) : Linked tree [⟨id, .block next⟩]
  | above {frame below : Frame} {rest : List Frame}
      (hlink : (∃ next, frame.phase = .block next) ∨
        ∃ node, tree.node? below.node = some node ∧ frame.node ∈ node.children)
      (h : Linked tree (below :: rest)) : Linked tree (frame :: below :: rest)

namespace Linked

variable {tree : Tree} {frame : Frame} {rest : List Frame}

theorem tail (h : tree.Linked (frame :: rest)) : tree.Linked rest := by
  cases h with
  | bottom id next => exact .nil
  | above _ h => exact h

/-- The innermost frames may be dropped. -/
theorem dropWhile {frames : List Frame} (h : tree.Linked frames) (drop : Frame → Bool) :
    tree.Linked (frames.dropWhile drop) := by
  induction frames with
  | nil => exact h
  | cons first rest ih =>
    rw [List.dropWhile_cons]
    split
    · exact ih h.tail
    · exact h

/-- The innermost frame goes to another phase; a block stays a block. -/
theorem withPhase {id : Nat} {phase phase' : Phase} (h : tree.Linked (⟨id, phase⟩ :: rest))
    (hblock : ∀ next, phase = .block next → ∃ next', phase' = .block next') :
    tree.Linked (⟨id, phase'⟩ :: rest) := by
  cases h with
  | bottom _ next =>
    rcases hblock next rfl with ⟨next', rfl⟩
    exact .bottom id next'
  | above hlink h =>
    refine .above (hlink.imp_left ?_) h
    rintro ⟨next, hphase⟩
    exact hblock next hphase

/-- A block takes the place of the innermost frame. -/
theorem withBlock (h : tree.Linked (frame :: rest)) (branch : Nat) :
    tree.Linked (⟨branch, .block 0⟩ :: rest) := by
  cases h with
  | bottom => exact .bottom branch 0
  | above _ h => exact .above (.inl ⟨0, rfl⟩) h

/-- A frame that is no block lies above that of the node in whose body its own node stands. -/
theorem exists_outer (h : tree.Linked (frame :: rest)) (hphase : ∀ next, frame.phase ≠ .block next)
    {node : Node} (hnode : tree.node? frame.node = some node) :
    ∃ below others outer, rest = below :: others ∧ tree.node? below.node = some outer ∧
      tree.StandsIn node outer := by
  cases h with
  | bottom id next => exact absurd rfl (hphase next)
  | @above _ below others hlink h =>
    rcases hlink with ⟨next, hblock⟩ | ⟨outer, houter, hchild⟩
    · exact absurd hblock (hphase next)
    · exact ⟨below, others, outer, rfl, houter, frame.node, below.node, hnode, houter, hchild⟩

end Linked
end Tree

namespace Execution

section Steps

variable {tree : Tree} {node : Node} {frame : Frame} {rest : List Frame}

/-- Starting a child links it to its parent. -/
theorem startChild_linked {id next : Nat} {phase : Phase} {last : List Frame}
    (hnode : tree.node? id = some node) (hmore : tree.Linked (⟨id, phase⟩ :: rest))
    (hlast : tree.Linked last) :
    (Action.ofExcept (startChild tree node next (⟨id, phase⟩ :: rest) last) :
      Stepping (List Frame)).Answers tree.Linked := by
  refine .ofExcept fun frames hstart => ?_
  unfold startChild at hstart
  split at hstart
  · next child hchild =>
    simp only [startNode] at hstart
    cases hfound : nodeOf tree child with
    | error error =>
      rw [hfound] at hstart
      cases hstart
    | ok found =>
      rw [hfound] at hstart
      cases hstart
      exact .above (.inr ⟨node, hnode, List.mem_of_getElem? hchild⟩) hmore
  · cases hstart
    exact hlast

/-- The work of the innermost frame keeps the frames linked. -/
theorem stepFrame_linked (callee : Callee) (h : tree.Linked (frame :: rest))
    (hnode : tree.node? frame.node = some node) :
    (stepFrame callee tree node frame rest).Answers tree.Linked := by
  rcases frame with ⟨id, phase⟩
  have hblock : ∀ next, phase = .block next → tree.Linked (⟨id, .block (next + 1)⟩ :: rest) :=
    fun next _ => h.withPhase fun _ _ => ⟨_, rfl⟩
  -- A frame that is no block may go to any phase.
  have hother : (∀ next, phase ≠ .block next) → ∀ phase', tree.Linked (⟨id, phase'⟩ :: rest) :=
    fun hphase phase' => h.withPhase fun next heq => absurd heq (hphase next)
  unfold stepFrame
  simp only
  split
  · exact startChild_linked hnode (hblock _ rfl) h.tail
  · exact startChild_linked hnode (hblock _ rfl) h.tail
  · exact startChild_linked hnode (hblock _ rfl) h.tail
  · exact startChild_linked hnode (hblock _ rfl) h.tail
  · exact .behind fun _ => .pure h.tail
  · next tested elseIfs elseBranch _ =>
    unfold stepBranch
    split
    · cases elseBranch with
      | none => exact .pure h.tail
      | some branch => exact .pure (h.withBlock branch)
    · next branch _ =>
      refine .behind fun found => .behind fun b => ?_
      split
      · exact .pure (h.withBlock branch)
      · exact .pure (hother (fun _ heq => by cases heq) _)
  · refine .behind fun b => ?_
    split
    · exact .pure (hother (fun _ heq => by cases heq) _)
    · exact .pure h.tail
  · exact startChild_linked hnode (hother (fun _ heq => by cases heq) _)
      (hother (fun _ heq => by cases heq) _)
  · exact .behind fun _ => .pure (hother (fun _ heq => by cases heq) _)
  · refine .behind fun e => ?_
    split
    · exact .pure h.tail
    · exact .behind fun _ => .pure (hother (fun _ heq => by cases heq) _)
  · exact startChild_linked hnode (hother (fun _ heq => by cases heq) _)
      (hother (fun _ heq => by cases heq) _)
  · exact .fail

end Steps

/-! ## Steps without a pending jump -/

/-- What a step does without a pending jump: the work of a frame, or nothing. -/
inductive Works (callee : Callee) (tree : Tree) (e : Execution) : Outcome Execution MachineError Status → Prop
  | refused (error : MachineError) (hline : ∀ name runtime, error ≠ .runtime name runtime) :
      Works callee tree e (.failed error e)
  | finished (hframes : e.context.frames = []) : Works callee tree e (.done .finished e)
  | work {frame : Frame} {rest : List Frame} {top : Node} (hframes : e.context.frames = frame :: rest)
      (htop : tree.node? frame.node = some top) (hevaluated : e.evaluated? = evaluatedBy? tree frame top) :
      Works callee tree e (match stepFrame callee tree top frame rest e with
        | .done frames t => .done .running (t.onContext fun context => { context with frames := frames })
        | .failed error t => .failed error t
        | .exhausted => .exhausted)

/-- A step without a pending jump does one of these things. -/
theorem step_works (callee : Callee) {e : Execution} {tree : Tree} (hidle : e.context.pending = none)
    (htree : e.context.program.tree = some tree) : Works callee tree e (step callee e) := by
  unfold step
  rw [Action.bind_run, Action.get_run]
  simp only [hidle, htree]
  cases hraised : e.machine.raised with
  | true => exact .refused _ fun _ _ h => by cases h
  | false =>
    show Works callee tree e (stepStatement callee tree e)
    unfold stepStatement
    rw [Action.bind_run, Action.get_run]
    simp only
    cases hframes : e.context.frames with
    | nil => exact .finished hframes
    | cons frame rest =>
      simp only [Action.bind_run]
      cases htop : tree.node? frame.node with
      | none =>
        simp only [nodeOf, htop]
        exact .refused _ fun _ _ h => by cases h
      | some top =>
        simp only [nodeOf, htop, Action.ofExcept_ok_run]
        have hevaluated := evaluated?_of_frame hraised hidle htree hframes htop
        have hwork : Works callee tree e _ := .work hframes htop hevaluated
        cases hrun : stepFrame callee tree top frame rest e <;> rw [hrun] at hwork <;> exact hwork

/-- A jump keeps the frames linked. -/
theorem unwind_linked {tree : Tree} {context context' : Context} {jump : Jump} {status : Status}
    (h : tree.Linked context.frames) (hunwind : context.unwind tree jump = .ok (context', status)) :
    tree.Linked context'.frames := by
  have hloop : tree.Linked context.fromLoop := h.dropWhile _
  cases Context.Unwinds.of_unwind hunwind with
  | left => exact .nil
  | broken hfrom =>
    rw [hfrom] at hloop
    exact hloop.tail
  | continued hfrom =>
    rw [hfrom] at hloop
    refine hloop.withPhase fun next hphase => ⟨next, ?_⟩
    rw [hphase]
    rfl

/-- A step keeps the frames linked. -/
theorem step_linked {callee : Callee} {e e' : Execution} {tree : Tree} {status : Status}
    (htree : e.context.program.tree = some tree) (h : tree.Linked e.context.frames)
    (hstep : step callee e = .done status e') : tree.Linked e'.context.frames := by
  cases hpending : e.context.pending with
  | some jump =>
    rcases unwind_of_step_done hpending hstep with ⟨other, hother, hunwind⟩
    cases htree.symm.trans hother
    exact unwind_linked h hunwind
  | none =>
    have hworks := step_works callee hpending htree
    rw [hstep] at hworks
    generalize houtcome : Outcome.done status e' = outcome at hworks
    cases hworks with
    | refused => cases houtcome
    | finished =>
      cases houtcome
      exact h
    | @work frame rest top hframes htop _ =>
      rw [hframes] at h
      cases hrun : stepFrame callee tree top frame rest e with
      | done frames t =>
        rw [hrun] at houtcome
        cases houtcome
        exact stepFrame_linked callee h htop e frames t hrun
      | failed error t =>
        rw [hrun] at houtcome
        cases houtcome
      | exhausted =>
        rw [hrun] at houtcome
        cases houtcome

/-- The frames of a run are linked. -/
theorem Underway.linked {log : List JumpRequest} {e : Execution} (h : Underway log e) {tree : Tree}
    (htree : e.context.program.tree = some tree) : tree.Linked e.context.frames := by
  induction h with
  | begun => exact .bottom _ 0
  | stepped h hcallee hstep ih =>
    rw [((step_continues hcallee).of_done hstep).context.program] at htree
    exact step_linked htree (ih htree) hstep
  | meanwhile h hlater ih =>
    rw [hlater.program] at htree
    rw [hlater.frames]
    exact ih htree

/-! ## Errors of evaluations -/

end Execution

/-! ## Errors of evaluations -/

/-- If an error is a script error, it names a program and has the line of a node. -/
def MachineError.IsLocated (program : Program) (node? : Option Node) (error : MachineError) : Prop :=
  ∀ name raised, error = .runtime name raised →
    name = program.name ∧ node?.map Node.line = some raised.line

/-- The script errors of an action name the program of the context and have the line of a node. -/
def Stepping.RaisesAt (node? : Option Node) (action : Stepping α) : Prop :=
  ∀ e, (action e).Yields (fun _ t => t.context.program = e.context.program)
    fun error => error.IsLocated e.context.program node?

namespace Stepping.RaisesAt

variable {node? : Option Node}

theorem pure (x : α) : RaisesAt node? (pure x : Stepping α) :=
  fun _ => rfl

theorem fault (fault : Fault) : RaisesAt node? (Action.fail (.fault fault) : Stepping α) :=
  fun _ _ _ h => by cases h

/-- The errors of a check are faults. -/
theorem ofExcept {result : Except MachineError α}
    (h : ∀ error, result = .error error → ∃ fault, error = .fault fault) :
    RaisesAt node? (Action.ofExcept result : Stepping α) := by
  intro e
  cases result with
  | ok x => exact rfl
  | error error =>
    rcases h error rfl with ⟨found, rfl⟩
    exact RaisesAt.fault (α := α) found e

/-- The errors of a sequence are those of its parts. -/
theorem bind {action : Stepping α} {next : α → Stepping β} (h : RaisesAt node? action)
    (hnext : ∀ x, RaisesAt node? (next x)) : RaisesAt node? (action >>= next) := by
  intro e
  refine Action.yields_bind (h e) fun x t hprogram => ?_
  have hbehind := hnext x t
  rw [hprogram] at hbehind
  exact hbehind

end Stepping.RaisesAt

namespace Execution

open Stepping (RaisesAt)

/-- A script error at the line of a node. -/
theorem failAt_raisesAt (node : Node) (cause : RuntimeCause) :
    RaisesAt (some node) (failAt node cause : Stepping α) := by
  intro e name raised h
  cases h
  exact ⟨rfl, rfl⟩

/-- Binding an element fails with nothing but a fault. -/
theorem bindElement_raisesAt (node? : Option Node) (slot : Nat) (element : Value) :
    RaisesAt node? (bindElement slot element) := by
  intro e
  unfold bindElement
  rw [Action.bind_run, Action.get_run]
  simp only
  by_cases hslot : slot < e.context.locals.length
  · rw [if_pos hslot]
    exact rfl
  · rw [if_neg hslot]
    exact RaisesAt.fault (α := Unit) _ e

section Evaluate

variable {callee : Callee} (hcallee : callee.Keeps)
include hcallee

/-- The errors of the expression of a node have its line. -/
theorem evaluate_raisesAt (node : Node) : RaisesAt (some node) (evaluate callee node) := by
  intro e
  have hevolves := evaluate_evolves hcallee node e
  cases hrun : evaluate callee node e with
  | done v t =>
    rw [hrun] at hevolves
    exact hevolves.context.program
  | exhausted => trivial
  | failed error t =>
    unfold evaluate at hrun
    cases hcode : node.code with
    | none =>
      rw [hcode] at hrun
      cases hrun
      exact fun _ _ h => by cases h
    | some code =>
      rw [hcode] at hrun
      simp only [Action.mapError_run] at hrun
      cases heval : code.eval (invoke callee node.line) e with
      | failed cause u =>
        rw [heval] at hrun
        cases hrun
        exact fun _ _ h => by cases h; exact ⟨rfl, rfl⟩
      | done v u =>
        rw [heval] at hrun
        cases hrun
      | exhausted =>
        rw [heval] at hrun
        cases hrun

/-- The errors of a condition have the line of its node. -/
theorem evaluateCondition_raisesAt (node : Node) :
    RaisesAt (some node) (evaluateCondition callee node) := by
  refine .bind (evaluate_raisesAt hcallee node) fun v => ?_
  split
  · exact .pure _
  · exact failAt_raisesAt node _

/-- The errors of a collection have the line of its node. -/
theorem evaluateCollection_raisesAt (node : Node) :
    RaisesAt (some node) (evaluateCollection callee node) := by
  refine .bind (evaluate_raisesAt hcallee node) fun v => ?_
  split
  · exact .pure _
  · exact failAt_raisesAt node _

/-- The errors of the work of a frame have the line of the node that it evaluates. -/
theorem stepFrame_raisesAt (tree : Tree) (top : Node) (frame : Frame) (rest : List Frame) :
    RaisesAt (evaluatedBy? tree frame top) (stepFrame callee tree top frame rest) := by
  rcases frame with ⟨id, phase⟩
  have hchild : ∀ {node? next more last}, RaisesAt node?
      (Action.ofExcept (startChild tree top next more last) : Stepping (List Frame)) :=
    .ofExcept fun error h => by
      rcases error_of_startChild h with ⟨child, rfl⟩
      exact ⟨_, rfl⟩
  unfold stepFrame
  simp only
  split
  · exact hchild
  · exact hchild
  · exact hchild
  · exact hchild
  · next hkind =>
    simp only [evaluatedBy?, hkind]
    exact .bind (evaluate_raisesAt hcallee top) fun _ => .pure _
  · next tested elseIfs elseBranch hkind =>
    simp only [evaluatedBy?, hkind]
    unfold stepBranch
    split
    · exact .pure _
    · next branch hbranch =>
      rw [hbranch, Option.bind_some]
      unfold nodeOf
      cases tree.node? branch with
      | none => exact fun e _ _ h => by cases h
      | some found =>
        have hcondition : RaisesAt (some found) (do
            if (← evaluateCondition callee found) then return (⟨branch, .block 0⟩ :: rest)
            else return (⟨id, .branch (tested + 1)⟩ :: rest)) := by
          refine .bind (evaluateCondition_raisesAt hcallee found) fun b => ?_
          split <;> exact .pure _
        exact fun e => hcondition e
  · next hkind =>
    simp only [evaluatedBy?, hkind]
    refine .bind (evaluateCondition_raisesAt hcallee top) fun b => ?_
    split <;> exact .pure _
  · exact hchild
  · next hkind =>
    simp only [evaluatedBy?, hkind]
    exact .bind (evaluateCollection_raisesAt hcallee top) fun _ => .pure _
  · refine .bind (fun _ => rfl) fun e => ?_
    split
    · exact .pure _
    · exact .bind (bindElement_raisesAt _ _ _) fun _ => .pure _
  · exact hchild
  · exact .fault _

end Evaluate
end Execution

/-! ## Jumps without a loop -/

namespace Execution

/-- The innermost node under way behind the evaluation of a node. -/
inductive Blames (callee : Callee) (tree : Tree) (e : Execution) (asked : Node) : Node → Prop
  /-- Behind a statement, the node in whose body it stands. -/
  | statement {outer : Node} (hkind : asked.kind = .expression) (hin : tree.StandsIn asked outer) :
      Blames callee tree e asked outer
  /-- Behind a loop whose condition does not hold, the node in whose body the loop stands. -/
  | loop {outer : Node} {t : Execution} (hkind : asked.kind = .whileLoop)
      (hcondition : evaluateCondition callee asked e = .done false t)
      (hin : tree.StandsIn asked outer) : Blames callee tree e asked outer
  /-- Behind a condition that holds, its own branch. -/
  | branch {conditional : Node} {t : Execution} (htests : tree.Tests conditional asked)
      (hcondition : evaluateCondition callee asked e = .done true t) :
      Blames callee tree e asked asked
  /-- Behind a condition that does not hold, the conditional, whatever branch was tested. -/
  | conditional {conditional : Node} {t : Execution} (htests : tree.Tests conditional asked)
      (hcondition : evaluateCondition callee asked e = .done false t) :
      Blames callee tree e asked conditional

/-- Behind the evaluation of a node, a loop is innermost or the node that is blamed. -/
theorem stepFrame_blames {callee : Callee} {tree : Tree} {top asked : Node} {frame : Frame}
    {rest frames : List Frame} {e t : Execution} (hlinked : tree.Linked (frame :: rest))
    (htop : tree.node? frame.node = some top) (hevaluated : evaluatedBy? tree frame top = some asked)
    (hrun : stepFrame callee tree top frame rest e = .done frames t) :
    ∃ innermost others, frames = innermost :: others ∧ (innermost.phase.isLoop = true ∨
      ∃ owner, tree.node? innermost.node = some owner ∧ Blames callee tree e asked owner) := by
  rcases frame with ⟨id, phase⟩
  unfold evaluatedBy? at hevaluated
  split at hevaluated
  · next hphase hkind =>
    cases hevaluated
    simp only at hphase
    subst hphase
    simp only [stepFrame, hkind] at hrun
    rcases Action.exists_of_bind_done hrun with ⟨v, u, -, hlast⟩
    cases hlast
    rcases hlinked.exists_outer (fun _ h => by cases h) htop with
      ⟨below, others, outer, rfl, houter, hin⟩
    exact ⟨below, others, rfl, .inr ⟨outer, houter, .statement hkind hin⟩⟩
  · next tested elseIfs elseBranch hphase hkind =>
    simp only at hphase hevaluated
    subst hphase
    rcases Option.bind_eq_some_iff.1 hevaluated with ⟨branch, hbranch, hfound⟩
    have htests : tree.Tests top asked :=
      ⟨id, elseIfs, elseBranch, htop, hkind, branch, List.mem_of_getElem? hbranch, hfound⟩
    simp only [stepFrame, hkind, stepBranch, hbranch, nodeOf, hfound] at hrun
    rcases Action.exists_of_bind_done hrun with ⟨_, _, hnode, hrest⟩
    cases hnode
    rcases Action.exists_of_bind_done hrest with ⟨b, u, hcondition, hlast⟩
    cases b with
    | true =>
      cases hlast
      exact ⟨_, _, rfl, .inr ⟨asked, hfound, .branch htests hcondition⟩⟩
    | false =>
      cases hlast
      exact ⟨_, _, rfl, .inr ⟨top, htop, .conditional htests hcondition⟩⟩
  · next hphase hkind =>
    cases hevaluated
    simp only at hphase
    subst hphase
    simp only [stepFrame, hkind] at hrun
    rcases Action.exists_of_bind_done hrun with ⟨b, u, hcondition, hlast⟩
    cases b with
    | true =>
      cases hlast
      exact ⟨_, _, rfl, .inl rfl⟩
    | false =>
      cases hlast
      rcases hlinked.exists_outer (fun _ h => by cases h) htop with
        ⟨below, others, outer, rfl, houter, hin⟩
      exact ⟨below, others, rfl, .inr ⟨outer, houter, .loop hkind hcondition hin⟩⟩
  · next iterator slot hphase hkind =>
    cases hevaluated
    simp only at hphase
    subst hphase
    simp only [stepFrame, hkind] at hrun
    rcases Action.exists_of_bind_done hrun with ⟨collection, u, -, hlast⟩
    cases hlast
    exact ⟨_, _, rfl, .inl rfl⟩
  · cases hevaluated

/-- A step that answers behind the evaluation of a node leaves a loop or the node that is blamed. -/
theorem step_blames {callee : Callee} {tree : Tree} {e e' : Execution} {asked : Node} {status : Status}
    (htree : e.context.program.tree = some tree) (hlinked : tree.Linked e.context.frames)
    (hevaluated : e.evaluated? = some asked) (hstep : step callee e = .done status e') :
    ∃ innermost others, e'.context.frames = innermost :: others ∧ (innermost.phase.isLoop = true ∨
      ∃ owner, tree.node? innermost.node = some owner ∧ Blames callee tree e asked owner) := by
  have hidle : e.context.pending = none := by
    cases hpending : e.context.pending with
    | none => rfl
    | some jump =>
      rw [evaluated?_of_pending hpending] at hevaluated
      cases hevaluated
  have hworks := step_works callee hidle htree
  rw [hstep] at hworks
  generalize houtcome : Outcome.done status e' = outcome at hworks
  cases hworks with
  | refused => cases houtcome
  | finished hframes => simp [evaluated?, htree, hframes] at hevaluated
  | @work frame rest top hframes htop hsame =>
    rw [hframes] at hlinked
    rw [hsame] at hevaluated
    cases hrun : stepFrame callee tree top frame rest e with
    | done frames t =>
      rw [hrun] at houtcome
      cases houtcome
      exact stepFrame_blames hlinked htop hevaluated hrun
    | failed error t =>
      rw [hrun] at houtcome
      cases houtcome
    | exhausted =>
      rw [hrun] at houtcome
      cases houtcome

/-! ## Where runs stop -/

/-- What happens between two steps may happen in parts. -/
theorem Meanwhile.trans {e later last : Execution} (h : e.Meanwhile later) (h' : later.Meanwhile last) :
    e.Meanwhile last :=
  ⟨h'.program.trans h.program, h'.frames.trans h.frames, h'.pending.trans h.pending,
    h'.result.trans h.result⟩

/-- A run that goes on behind a jump has no jump pending. -/
theorem unwind_pending {tree : Tree} {context context' : Context} {jump : Jump}
    (h : context.unwind tree jump = .ok (context', .running)) : context'.pending = none := by
  cases Context.Unwinds.of_unwind h <;> rfl

/-- A pending jump is the last one that the last evaluation of the run has requested. -/
theorem Underway.exists_request {log : List JumpRequest} {e : Execution} {jump : Jump}
    (h : Underway log e) (hpending : e.context.pending = some jump) :
    ∃ earlier before after callee asked request, Underway earlier before ∧ callee.Keeps ∧
      before.evaluated? = some asked ∧ step callee before = .done .running after ∧
        (before.requests callee).getLast? = some request ∧ request.jump = jump ∧ after.Meanwhile e := by
  induction h with
  | begun => cases hpending
  | @stepped log e e' callee h hcallee hstep ih =>
    cases hbefore : e.context.pending with
    | none =>
      have hobeys := (step_requests hcallee hbefore hstep).pending
      rw [hpending, hbefore, Option.or_none] at hobeys
      rcases Option.map_eq_some_iff.1 hobeys.symm with ⟨request, hlast, hjump⟩
      cases hevaluated : e.evaluated? with
      | none =>
        unfold requests at hlast
        rw [hevaluated] at hlast
        cases hlast
      | some asked =>
        exact ⟨log, e, e', callee, asked, request, h, hcallee, hevaluated, hstep, hlast, hjump,
          ⟨rfl, rfl, rfl, rfl⟩⟩
    | some earlier =>
      rcases unwind_of_step_done hbefore hstep with ⟨tree, -, hunwind⟩
      rw [unwind_pending hunwind] at hpending
      cases hpending
  | meanwhile h hlater ih =>
    rw [hlater.pending] at hpending
    rcases ih hpending with ⟨earlier, before, after, callee, asked, request, hbefore, hcallee,
      hevaluated, hstep, hlast, hjump, hmeanwhile⟩
    exact ⟨earlier, before, after, callee, asked, request, hbefore, hcallee, hevaluated, hstep, hlast,
      hjump, hmeanwhile.trans hlater⟩

/-- A jump is refused where there is no loop, with the line of the innermost frame. -/
theorem refused_of_unwind {tree : Tree} {context : Context} {jump : Jump} {name : String}
    {error : RuntimeError} (h : context.unwind tree jump = .error (.runtime name error)) :
    context.fromLoop = [] ∧ name = context.program.name ∧
      ∃ cause, jump.outsideLoop? = some cause ∧ error = ⟨context.currentLine tree, cause⟩ := by
  cases Context.Unwinds.of_unwind h with
  | refused hloop hcause => exact ⟨hloop, rfl, _, hcause, rfl⟩

/-- A step without a pending jump that fails with a script error fails in the evaluation of a node. -/
theorem raised_of_step {callee : Callee} (hcallee : callee.Keeps) {tree : Tree} {e last : Execution}
    {name : String} {error : RuntimeError} (hidle : e.context.pending = none)
    (htree : e.context.program.tree = some tree)
    (hstep : step callee e = .failed (.runtime name error) last) :
    name = last.context.program.name ∧ ∃ node, e.evaluated? = some node ∧ node.line = error.line := by
  have hprogram := ((step_continues hcallee).of_failed hstep).context.program
  have hworks := step_works callee hidle htree
  rw [hstep] at hworks
  generalize houtcome : Outcome.failed (MachineError.runtime name error) last = outcome at hworks
  cases hworks with
  | refused _ hline =>
    cases houtcome
    exact absurd rfl (hline name error)
  | finished => cases houtcome
  | @work frame rest top hframes htop hsame =>
    have hraises := stepFrame_raisesAt hcallee tree top frame rest e
    cases hrun : stepFrame callee tree top frame rest e with
    | done frames t =>
      rw [hrun] at houtcome
      cases houtcome
    | exhausted =>
      rw [hrun] at houtcome
      cases houtcome
    | failed raised t =>
      rw [hrun] at houtcome hraises
      cases houtcome
      rcases hraises name error rfl with ⟨rfl, hline⟩
      rw [← hsame] at hline
      exact ⟨by rw [hprogram], Option.map_eq_some_iff.1 hline⟩

/-- A step with a pending jump that fails with a script error has refused the jump. -/
theorem refused_of_step {callee : Callee} {tree : Tree} {e last : Execution} {jump : Jump}
    {name : String} {error : RuntimeError} (hpending : e.context.pending = some jump)
    (htree : e.context.program.tree = some tree)
    (hstep : step callee e = .failed (.runtime name error) last) :
    last = e ∧ e.context.unwind tree jump = .error (.runtime name error) := by
  have hcalm : e.machine.raised = false := by
    cases hraised : e.machine.raised with
    | false => rfl
    | true =>
      rw [step_of_raised callee e hraised] at hstep
      cases hstep
  rw [step_of_pending hcalm htree hpending] at hstep
  simp only [stepJump, Action.bind_run, Action.get_run] at hstep
  cases hunwind : e.context.unwind tree jump with
  | ok answer =>
    rw [hunwind] at hstep
    cases hstep
  | error found =>
    rw [hunwind] at hstep
    cases hstep
    exact ⟨rfl, rfl⟩

/-- Where a run stops with a script error. -/
inductive StopsAt (last : Execution) : RuntimeError → Prop
  /-- In the evaluation of a node; the error has the line of the node. -/
  | raised {log : List JumpRequest} {e : Execution} {callee : Callee} {node : Node}
      {cause : RuntimeCause} (h : Underway log e) (hcallee : callee.Keeps)
      (hevaluated : e.evaluated? = some node)
      (hstep : step callee e = .failed (last.context.errorAt node.line cause) last) :
      StopsAt last ⟨node.line, cause⟩
  /-- In front of a jump that the last evaluation has requested where there is no loop; the error has
  the line of the node that is innermost behind that evaluation. -/
  | jumped {log : List JumpRequest} {before after : Execution} {callee : Callee} {tree : Tree}
      {asked owner : Node} {request : JumpRequest} {cause : RuntimeCause}
      (h : Underway log before) (hcallee : callee.Keeps)
      (htree : last.context.program.tree = some tree) (hevaluated : before.evaluated? = some asked)
      (hstep : step callee before = .done .running after) (hlater : after.Meanwhile last)
      (hrequest : (before.requests callee).getLast? = some request)
      (hcause : request.jump.outsideLoop? = some cause) (hloop : last.context.fromLoop = [])
      (howner : Blames callee tree before asked owner) : StopsAt last ⟨owner.line, cause⟩

/-- A jump that is refused was requested by the last evaluation, and the node that is blamed for it has
the line of the error. -/
theorem Underway.jumped {log : List JumpRequest} {e : Execution} {tree : Tree} {jump : Jump}
    {name : String} {error : RuntimeError} (h : Underway log e)
    (htree : e.context.program.tree = some tree) (hpending : e.context.pending = some jump)
    (hunwind : e.context.unwind tree jump = .error (.runtime name error)) :
    name = e.context.program.name ∧ e.StopsAt error := by
  rcases refused_of_unwind hunwind with ⟨hloop, hname, cause, hcause, rfl⟩
  refine ⟨hname, ?_⟩
  rcases h.exists_request hpending with ⟨earlier, before, after, callee, asked, request, hbefore,
    hcallee, hevaluated, hasked, hrequest, rfl, hlater⟩
  have htree' : before.context.program.tree = some tree := by
    rw [← ((step_continues hcallee).of_done hasked).context.program, ← hlater.program, htree]
  rcases step_blames htree' (hbefore.linked htree') hevaluated hasked with
    ⟨innermost, others, hframes, hinnermost⟩
  rw [← hlater.frames] at hframes
  rcases hinnermost with hisLoop | ⟨owner, hnode, howner⟩
  · simp [Context.fromLoop, hframes, hisLoop] at hloop
  · have hline : e.context.currentLine tree = owner.line := by
      simp [Context.currentLine, hframes, hnode]
    rw [hline]
    exact .jumped hbefore hcallee htree hevaluated hasked hlater hrequest hcause hloop howner

/-- A step that fails with a script error names the program of its context and is located. -/
theorem Underway.stopsAt {log : List JumpRequest} {e last : Execution} {callee : Callee}
    {name : String} {error : RuntimeError} (h : Underway log e) (hcallee : callee.Keeps)
    (hstep : step callee e = .failed (.runtime name error) last) :
    name = last.context.program.name ∧ last.StopsAt error := by
  rcases h.exists_tree with ⟨tree, htree⟩
  cases hpending : e.context.pending with
  | none =>
    rcases raised_of_step hcallee hpending htree hstep with ⟨rfl, node, hevaluated, hline⟩
    rcases error with ⟨line, cause⟩
    cases hline
    exact ⟨rfl, .raised h hcallee hevaluated hstep⟩
  | some jump =>
    rcases refused_of_step hpending htree hstep with ⟨rfl, hunwind⟩
    exact h.jumped htree hpending hunwind

/-- Some steps of a run. -/
theorem Underway.steps {log : List JumpRequest} {e e' : Execution} {callee : Callee} {n : Nat}
    (h : Underway log e) (hcallee : callee.Keeps) (hsteps : Steps callee n e e') :
    ∃ more, Underway (log ++ more) e' := by
  induction hsteps generalizing log with
  | refl e => exact ⟨[], by rwa [List.append_nil]⟩
  | step hstep _ ih =>
    rcases ih (h.stepped hcallee hstep) with ⟨more, hmore⟩
    exact ⟨_, by rwa [List.append_assoc] at hmore⟩

/-- A run that fails with a script error stops somewhere. -/
theorem Underway.run_stopsAt {log : List JumpRequest} {e e' : Execution} {callee : Callee}
    {budget fuel : Nat} {name : String} {error : RuntimeError} (h : Underway log e)
    (hcallee : callee.Keeps) (hrun : run callee budget fuel 0 e = .failed (.runtime name error) e') :
    ∃ last, e' = last.onContext Context.endRun ∧ e.Continues last ∧ name = last.context.program.name ∧
      last.StopsAt error := by
  rcases run_ends hrun (by simp) with ⟨n, t, hsteps, hend⟩
  cases hend with
  | @failed _ _ last _ _ hstep =>
    rcases h.steps hcallee hsteps with ⟨more, hmore⟩
    have hcontinues := Lasting.trans (hsteps.continues hcallee) ((step_continues hcallee).of_failed hstep)
    exact ⟨last, rfl, hcontinues, hmore.stopsAt hcallee hstep⟩

/-- Where the initializers of a program stop with a script error: in the evaluation of one of them;
the error has its line. -/
def PreparationStopsAt (last : Execution) (error : RuntimeError) : Prop :=
  ∃ (callee : Callee) (tree : Tree) (id : Nat) (node : Node) (e : Execution),
    last.context.program.tree = some tree ∧ id ∈ tree.initializers ∧ tree.node? id = some node ∧
      error.line = node.line ∧
        evaluate callee node e = .failed (last.context.errorAt node.line error.cause) last

end Execution

/-! ## Runs of programs -/

namespace Machine

open Execution

section Callee

variable {callee : Callee} (hcallee : callee.Keeps)
include hcallee

/-- An initializer stops in the evaluation of its node. -/
theorem prepareOne_stops {tree : Tree} {id : Nat} {e last : Execution} {name : String}
    {error : RuntimeError} (h : prepareOne callee tree id e = .failed (.runtime name error) last) :
    name = last.context.program.name ∧ ∃ node, tree.node? id = some node ∧ error.line = node.line ∧
      evaluate callee node e = .failed (last.context.errorAt node.line error.cause) last := by
  rcases error with ⟨line, cause⟩
  rcases Action.of_bind_failed h with hmissing | ⟨node, t, hfound, hrest⟩
  · cases hnode : nodeOf tree id with
    | ok node =>
      rw [hnode] at hmissing
      cases hmissing
    | error found =>
      rw [hnode, error_of_nodeOf hnode] at hmissing
      cases hmissing
  · have hnode : tree.node? id = some node ∧ t = e := by
      unfold nodeOf at hfound
      split at hfound
      · next other hother =>
        cases hfound
        exact ⟨hother, rfl⟩
      · cases hfound
    rcases hnode with ⟨hnode, rfl⟩
    rcases Action.of_bind_failed hrest with hfailed | ⟨v, u, -, hraised⟩
    · have hraises := evaluate_raisesAt hcallee node t
      have hprogram := ((evaluate_evolves hcallee node).of_failed hfailed).context.program
      rw [hfailed] at hraises
      rcases hraises name _ rfl with ⟨rfl, hline⟩
      cases hline
      rw [← hprogram] at hfailed ⊢
      exact ⟨rfl, node, hnode, rfl, hfailed⟩
    · rw [Action.bind_run, Action.get_run] at hraised
      simp only at hraised
      split at hraised <;> cases hraised

/-- Initializers stop at one of them. -/
theorem prepareAll_stops {tree : Tree} {ids : List Nat} {e last : Execution} {name : String}
    {error : RuntimeError} (h : prepareAll callee tree ids e = .failed (.runtime name error) last) :
    name = last.context.program.name ∧ ∃ id ∈ ids, ∃ node t, tree.node? id = some node ∧
      error.line = node.line ∧
        evaluate callee node t = .failed (last.context.errorAt node.line error.cause) last := by
  induction ids generalizing e with
  | nil => cases h
  | cons id rest ih =>
    rcases Action.of_bind_failed h with hone | ⟨_, t, -, hrest⟩
    · rcases prepareOne_stops hcallee hone with ⟨hname, node, hnode, hline, hevaluate⟩
      exact ⟨hname, id, List.mem_cons_self .., node, e, hnode, hline, hevaluate⟩
    · rcases ih hrest with ⟨hname, other, hmem, hfound⟩
      exact ⟨hname, other, List.mem_cons_of_mem id hmem, hfound⟩

/-- The creation of a context stops at an initializer. -/
theorem createContext_stops {program : Program} {arguments : List Value} {m m' : Machine}
    {name : String} {error : RuntimeError}
    (h : createContext callee program arguments m = .failed (.runtime name error) m') :
    ∃ last : Execution, last.context.program = program ∧ name = program.name ∧
      last.PreparationStopsAt error ∧ m' = last.machine.leave.endExecution program.id := by
  cases Creates.of_createContext h with
  | unbound hbind => rcases error_of_bindChecked hbind with hfault | hfault | ⟨_, hfault⟩ <;> cases hfault
  | @failed locals _ last _ hprepare =>
    have hprogram : last.context.program = program :=
      ((prepare_evolves hcallee program).of_failed hprepare).context.program
    unfold prepare at hprepare
    cases htree : program.tree with
    | none =>
      rw [htree] at hprepare
      cases hprepare
    | some tree =>
      rw [htree] at hprepare
      rcases prepareAll_stops hcallee hprepare with ⟨hname, id, hmem, node, e, hnode, hline, hevaluate⟩
      rw [hprogram] at hname
      exact ⟨last, hprogram, hname, ⟨callee, tree, id, node, e, by rw [hprogram, htree], hmem, hnode,
        hline, hevaluate⟩, rfl⟩

/-- A run of a program that fails with a script error stops at an initializer or in the run. -/
theorem runProgram_stops {fuel : Nat} {program : Program} {arguments : List Value} {m m' : Machine}
    {name : String} {error : RuntimeError}
    (h : runProgram callee fuel program arguments m = .failed (.runtime name error) m') :
    name = program.name ∧ ∃ last : Execution, last.context.program = program ∧
      (last.PreparationStopsAt error ∧ m' = (last.machine.leave.endExecution program.id).leave ∨
        last.StopsAt error ∧ m' = (last.machine.endExecution program.id).leave) := by
  cases RunsProgram.of_runProgram h with
  | failed _ hfresh =>
    cases RunsFresh.of_runFresh hfresh with
    | uncreated hcreate =>
      rcases createContext_stops hcallee hcreate with ⟨last, hprogram, hname, hstops, rfl⟩
      exact ⟨hname, last, hprogram, .inl ⟨hstops, rfl⟩⟩
    | @failed context k _ e hcreate hrun =>
      have hbelongs := (createContext_locals hcallee hcreate).1
      unfold runToEnd at hrun
      cases htree : context.program.tree with
      | none => simp [htree] at hrun
      | some tree =>
        simp only [htree] at hrun
        have hbegun : Underway [] ⟨k, context.beginRun tree.root⟩ := .begun htree
        rcases hbegun.run_stopsAt hcallee hrun with ⟨last, rfl, hcontinues, hname, hstops⟩
        have hprogram : last.context.program = program := hcontinues.context.program.trans hbelongs
        rw [hprogram] at hname
        exact ⟨hname, last, hprogram, .inr ⟨hstops, rfl⟩⟩

end Callee
end Machine

/-! ## Runs of contexts in the background -/

namespace Context

/-- If a run of a context is under way, it was begun and is where its steps have led. -/
def IsUnderway (context : Context) : Prop :=
  context.isRunning = true → ∃ log machine, Execution.Underway log ⟨machine, context⟩

/-- A context without frames has no run under way. -/
theorem IsUnderway.of_frames {context : Context} (h : context.frames = []) : context.IsUnderway := by
  intro hrunning
  rw [isRunning_of_frames h] at hrunning
  cases hrunning

end Context

namespace Execution

/-- The run with which a turn goes on is under way. -/
theorem Underway.of_turnStart {seconds : Float} {context : Context} {m : Machine} {e : Execution}
    (h : context.IsUnderway) (hstart : Machine.turnStart seconds context m = some e) :
    ∃ log, Underway log e := by
  rcases Machine.context_of_turnStart hstart with ⟨hrunning, rfl⟩ | ⟨-, tree, htree, rfl⟩
  · rcases h hrunning with ⟨log, machine, hunderway⟩
    exact ⟨log, hunderway.meanwhile ⟨rfl, rfl, rfl, rfl⟩⟩
  · have hwaited : (context.wait seconds).program.tree = some tree := htree
    exact ⟨[], .begun hwaited⟩

/-- A run that is parked is under way. -/
theorem Underway.parked {log : List JumpRequest} {e e' : Execution} {callee : Callee}
    {budget fuel : Nat} (h : Underway log e) (hcallee : callee.Keeps)
    (hrun : run callee budget fuel 0 e = .done .parked e') : ∃ more, Underway (log ++ more) e' := by
  rcases run_ends hrun (by simp) with ⟨n, t, hsteps, hend⟩
  cases hend with
  | parked hbudget => exact h.steps hcallee hsteps

end Execution

namespace TakenTurn

open Execution

variable {fuel : Nat} {taken : TakenTurn}

/-- Every turn leaves a context that has no run under way or is where its steps have led. -/
theorem IsTaken.isUnderway (h : taken.IsTaken fuel) (hbefore : taken.before.IsUnderway) :
    taken.after.IsUnderway := by
  rcases h with ⟨m, hturn⟩
  have hwaits : (taken.before.wait taken.seconds).IsUnderway := by
    intro hrunning
    rcases hbefore hrunning with ⟨log, machine, hunderway⟩
    exact ⟨log, machine, hunderway.meanwhile ⟨rfl, rfl, rfl, rfl⟩⟩
  generalize hafter : taken.after = after at hturn ⊢
  generalize taken.turn = turn at hturn
  cases Machine.takeTurn_ends hturn with
  | waiting | stale | treeless => exact hwaits
  | failed hstart hrun =>
    rcases run_ends hrun (by simp) with ⟨n, t, -, hend⟩
    cases hend with
    | failed => exact .of_frames rfl
  | parked hstart hrun =>
    rcases Underway.of_turnStart hbefore hstart with ⟨log, hunderway⟩
    rcases hunderway.parked (Machine.callee_keeps fuel) hrun with ⟨more, hmore⟩
    exact fun _ => ⟨_, _, hmore⟩
  | halted hstart hrun => exact .of_frames (run_finished_frames hrun)
  | completed hstart hrun => exact .of_frames (run_finished_frames hrun)

/-- A turn whose run fails with a script error stops somewhere. -/
theorem IsTaken.stopsAt (h : taken.IsTaken fuel) (hbefore : taken.before.IsUnderway) {name : String}
    {error : RuntimeError} (hfailed : taken.turn = .retired (.failed (.runtime name error))) :
    name = taken.after.program.name ∧
      ∃ last : Execution, taken.after = last.context.endRun ∧ last.StopsAt error := by
  rcases h with ⟨m, hturn⟩
  rw [hfailed] at hturn
  generalize taken.after = after at hturn ⊢
  cases Machine.takeTurn_ends hturn with
  | failed hstart hrun =>
    rcases Underway.of_turnStart hbefore hstart with ⟨log, hunderway⟩
    rcases hunderway.run_stopsAt (Machine.callee_keeps fuel) hrun with ⟨last, rfl, -, hname, hstops⟩
    exact ⟨hname, last, rfl, hstops⟩

end TakenTurn

/-- In every history from an empty background, all runs are where their steps have led. -/
theorem turnInvariant_isUnderway (fuel : Nat) : TurnInvariant fuel fun _ context => context.IsUnderway where
  made := by
    rintro creation context ⟨created, m, hcreate, rfl⟩
    have hframes := (Machine.createContext_locals (Machine.callee_keeps creation.fuel) hcreate).2.1
    exact .of_frames hframes
  turned htaken _ h := htaken.isUnderway h

/-- **Where script errors are located.**  A run that fails with a script error names the program of
its context, whether it is the run of a program or that of a context in the background, parked or not.
When the error was raised in the evaluation of a statement, of a condition, of a collection or of an
initializer, it has the line of that node.  When a break or a continue was requested where there is no
loop, it has the line of the node that is innermost behind the evaluation that has requested it: for
a statement, or for a loop that ends, that of the body in which it stands, and for a condition its own
or that of its conditional. -/
theorem scriptErrors_located (fuel : Nat) (name : String) (error : RuntimeError) :
    (∀ {callee : Callee} {budget : Nat} {log : List JumpRequest} {e e' : Execution},
      callee.Keeps → Execution.Underway log e →
      Execution.run callee budget fuel 0 e = .failed (.runtime name error) e' →
        ∃ last : Execution, e' = last.onContext Context.endRun ∧ name = last.context.program.name ∧
          last.StopsAt error) ∧
    (∀ {program : Program} {arguments : List Value} {m m' : Machine},
      Machine.run fuel program arguments m = .failed (.runtime name error) m' →
        name = program.name ∧ ∃ last : Execution, last.context.program = program ∧
          (last.PreparationStopsAt error ∧ m' = (last.machine.leave.endExecution program.id).leave ∨
            last.StopsAt error ∧ m' = (last.machine.endExecution program.id).leave)) ∧
    ∀ {first last : Session} {log : List (List TakenTurn)} {taken : TakenTurn},
      first.machine.background = [] → Session.History fuel first log last → taken ∈ log.flatten →
      taken.turn = .retired (.failed (.runtime name error)) →
        name = taken.after.program.name ∧
          ∃ e : Execution, taken.after = e.context.endRun ∧ e.StopsAt error := by
  refine ⟨fun hcallee h hrun => ?_, fun hrun => ?_, fun hempty h hmem hfailed => ?_⟩
  · rcases h.run_stopsAt hcallee hrun with ⟨last, hlast, -, hstops⟩
    exact ⟨last, hlast, hstops⟩
  · cases fuel with
    | zero => cases hrun
    | succ fuel => exact Machine.runProgram_stops (Machine.callee_keeps fuel) hrun
  · rcases List.mem_flatten.1 hmem with ⟨turns, hturns, hin⟩
    rcases List.append_of_mem hturns with ⟨earlier, later, hlog⟩
    rcases h.upholds_turn (turnInvariant_isUnderway _) hempty hlog hin with ⟨htaken, hbefore⟩
    exact htaken.stopsAt hbefore hfailed

/-- A script that asks for a break where there is no loop, in its third line. -/
def Program.straying : Program :=
  { Program.fresh 1 none with
    name := "Early"
    tree := some ⟨#[⟨.entry, [], none, 2, [1], none⟩,
      ⟨.expression, [], none, 3, [], some (.call "Break" [])⟩], 0, []⟩
    state := .valid }

/-- A session with that script. -/
def Session.straying : Session :=
  { Session.start (.start Settings.standard .empty) with
    programs := Names.empty.set "early" Program.straying }

/-- The error has the line of the body, whether the script is run by itself or in the background. -/
theorem scriptErrors_located_straying : ∃ taken last m' error,
    error = ⟨2, .breakOutsideLoop⟩ ∧
      Machine.run 4 Program.straying [] Session.straying.machine =
        .failed (.runtime "Early" error) m' ∧
      (∃ e : Execution, e.context.program = Program.straying ∧
        (e.PreparationStopsAt error ∨ e.StopsAt error)) ∧
      Session.History 4 Session.straying [[taken]] last ∧
        taken.turn = .retired (.failed (.runtime "Early" error)) ∧
          ∃ e : Execution, taken.after = e.context.endRun ∧ e.StopsAt error := by
  have hstart : Session.History 4 Session.straying [] Session.straying := .start
  have hsent := hstart.answered (.background "early" []) (by simp) rfl
  have hticked := hsent.tick 10000000 rfl
  have hrun : ∃ m', Machine.run 4 Program.straying [] Session.straying.machine =
      .failed (.runtime "Early" ⟨2, .breakOutsideLoop⟩) m' := ⟨_, rfl⟩
  rcases hrun with ⟨m', hrun⟩
  rcases scriptErrors_located 4 "Early" ⟨2, .breakOutsideLoop⟩ with ⟨-, hlocated, hreported⟩
  rcases hlocated hrun with ⟨-, last, hprogram, hwhere⟩
  rcases hreported rfl hticked (List.mem_singleton_self _) rfl with ⟨-, e, hafter, hstops⟩
  exact ⟨_, _, m', _, rfl, hrun, ⟨last, hprogram, hwhere.imp And.left And.left⟩, hticked, rfl, e, hafter,
    hstops⟩

end ScriptMachine
