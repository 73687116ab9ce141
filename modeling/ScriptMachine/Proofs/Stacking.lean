import ScriptMachine.Proofs.Compiling
import ScriptMachine.Proofs.Stepping
import ScriptMachine.Proofs.Structured

/-!
# Frames of a run

The frames of a run form a stack over the tree of its program: the entry block lies at the
bottom, and every other frame belongs to a statement in the body of the frame below it, or to
a branch of such a statement.  Every frame fits its node.  Steps keep this, whatever the
expressions answer and whichever jumps they request, and so nothing in a step can be missing:
no step of a compiled program ends with a fault.

Main results:

- {lit}`Tree.Stacked`: the stack of frames.
- {lit}`Execution.step_stacked`: a step keeps the stack and does not end with a fault.
- {lit}`Execution.Reached.wellFormed`: every context of a valid program is well formed.
-/

namespace ScriptMachine

variable {σ ε α β : Type}

/-! ## Answers and errors -/

/-- The answer of an outcome has a property, and so does its error. -/
def Outcome.Yields (P : α → σ → Prop) (E : ε → Prop) : Outcome σ ε α → Prop
  | .done x s => P x s
  | .failed e _ => E e
  | .exhausted => True

namespace Action

variable {P : β → σ → Prop} {E : ε → Prop}

/-- A sequence answers with what its second part makes of the answer of the first. -/
theorem yields_bind {Q : α → σ → Prop} {action : Action σ ε α} {next : α → Action σ ε β} {s : σ}
    (h : (action s).Yields Q E) (hnext : ∀ x t, Q x t → (next x t).Yields P E) :
    ((action >>= next) s).Yields P E := by
  rw [bind_run]
  cases hrun : action s with
  | done x t =>
    rw [hrun] at h
    exact hnext x t h
  | failed e t =>
    rw [hrun] at h
    exact h
  | exhausted => trivial

end Action

/-- An error that is no fault of the machine. -/
def MachineError.IsNoFault (error : MachineError) : Prop :=
  ∀ fault, error ≠ .fault fault

/-! ## Frames that fit -/

/-- A phase fits a node: it is one that nodes of its kind go through, and it counts no further
than there are children and branches. -/
def Phase.Fits (node : Node) : Phase → Prop
  | .block next => node.kind.hasBody = true ∧ next ≤ node.children.length
  | .expression => node.kind = .expression
  | .branch tested => node.kind.isConditional = true ∧ tested ≤ node.kind.elseIfs.length + 1
  | .loopTest => node.kind = .whileLoop
  | .loopBody next => node.kind = .whileLoop ∧ next ≤ node.children.length
  | .forEachStart | .forEachBind _ _ => node.kind.slot?.isSome = true
  | .forEachBody next _ _ => node.kind.slot?.isSome = true ∧ next ≤ node.children.length

/-- A node with the slot of a loop variable is a loop over an array. -/
theorem NodeKind.exists_of_isSome_slot? {kind : NodeKind} (h : kind.slot?.isSome = true) :
    ∃ iterator slot, kind = .forEach iterator slot := by
  cases kind with
  | forEach iterator slot => exact ⟨iterator, slot, rfl⟩
  | _ => cases h

/-- The phase in which a node starts fits it. -/
theorem Phase.fits_start (node : Node) : (Phase.start node.kind).Fits node := by
  rcases node with ⟨kind, source, expression, line, children, code⟩
  cases kind with
  | entry | elseIf | otherwise => exact ⟨rfl, Nat.zero_le _⟩
  | conditional elseIfs elseBranch => exact ⟨rfl, Nat.zero_le _⟩
  | expression | whileLoop | forEach iterator slot => rfl

/-- The phase in which a loop starts its next pass fits its node. -/
theorem Phase.Fits.nextPass {node : Node} {phase : Phase} (h : phase.Fits node) :
    phase.nextPass.Fits node := by
  cases phase with
  | loopBody next => exact h.1
  | forEachBody next collection position => exact h.1
  | _ => exact h

/-- A loop over an array that is past its start holds the array. -/
theorem Phase.Fits.isSome_collection? {node : Node} {phase : Phase} (h : phase.Fits node)
    (hkind : node.kind.slot?.isSome = true) (hphase : phase ≠ .forEachStart) :
    phase.collection?.isSome = true := by
  rcases node with ⟨kind, source, expression, line, children, code⟩
  cases kind with
  | forEach iterator slot =>
    cases phase with
    | forEachStart => exact absurd rfl hphase
    | forEachBind collection position => rfl
    | forEachBody next collection position => rfl
    | block next => cases h.1
    | branch tested => cases h.1
    | loopBody next => cases h.1
    | expression => cases h
    | loopTest => cases h
  | _ => cases hkind

namespace Tree

/-- A frame fits its node. -/
def Fits (tree : Tree) (frame : Frame) : Prop :=
  ∃ node, tree.node? frame.node = some node ∧ frame.phase.Fits node

/-- A node is a branch of another one. -/
def IsBranch (tree : Tree) (owner branch : Nat) : Prop :=
  ∃ node, tree.node? owner = some node ∧ (branch ∈ node.kind.elseIfs ∨ branch ∈ node.kind.elseBranch?)

/-- A node is a statement in the body of another one, or a branch of such a statement. -/
def Encloses (tree : Tree) (outer inner : Nat) : Prop :=
  ∃ node, tree.node? outer = some node ∧
    (inner ∈ node.children ∨ ∃ child ∈ node.children, tree.IsBranch child inner)

/-- Frames, innermost first, form a stack: none, or the entry block at the bottom, and above
each frame one that it encloses.  All of them fit their nodes. -/
inductive Stacked (tree : Tree) : List Frame → Prop
  | nil : Stacked tree []
  | bottom {next : Nat} (hfits : tree.Fits ⟨tree.root, .block next⟩) :
      Stacked tree [⟨tree.root, .block next⟩]
  | above {frame below : Frame} {rest : List Frame} (hfits : tree.Fits frame)
      (hinner : tree.Encloses below.node frame.node) (hstacked : Stacked tree (below :: rest)) :
      Stacked tree (frame :: below :: rest)

namespace Stacked

variable {tree : Tree} {frame : Frame} {rest : List Frame}

/-- What is left of a stack is a stack. -/
theorem tail (h : tree.Stacked (frame :: rest)) : tree.Stacked rest := by
  cases h with
  | bottom => exact .nil
  | above _ _ hstacked => exact hstacked

/-- The innermost frame fits. -/
theorem fits (h : tree.Stacked (frame :: rest)) : tree.Fits frame := by
  cases h with
  | bottom hfits => exact hfits
  | above hfits _ _ => exact hfits

/-- Every frame of a stack fits. -/
theorem fits_of_mem {frames : List Frame} (h : tree.Stacked frames) :
    ∀ frame ∈ frames, tree.Fits frame := by
  induction frames with
  | nil =>
    intro frame hmem
    cases hmem
  | cons first rest ih =>
    intro frame hmem
    rcases List.mem_cons.1 hmem with rfl | hmem
    · exact h.fits
    · exact ih h.tail frame hmem

/-- The innermost frames of a stack may be dropped. -/
theorem dropWhile {frames : List Frame} (h : tree.Stacked frames) (drop : Frame → Bool) :
    tree.Stacked (frames.dropWhile drop) := by
  induction frames with
  | nil => exact h
  | cons first rest ih =>
    rw [List.dropWhile_cons]
    split
    · exact ih h.tail
    · exact h

/-- The innermost frame goes to another phase that fits; a body stays a body. -/
theorem withPhase {phase : Phase} (h : tree.Stacked (frame :: rest))
    (hfits : tree.Fits ⟨frame.node, phase⟩)
    (hblock : ∀ next, frame.phase = .block next → ∃ next', phase = .block next') :
    tree.Stacked (⟨frame.node, phase⟩ :: rest) := by
  cases h with
  | bottom =>
    rcases hblock _ rfl with ⟨next', rfl⟩
    exact .bottom hfits
  | above _ hinner hstacked => exact .above hfits hinner hstacked

end Stacked
end Tree

/-! ## Frames of a sound tree -/

section Steps

variable {tree : Tree} {slots : Nat} {frame : Frame} {rest : List Frame} {node : Node}

/-- The branch of a conditional takes the place of its frame. -/
theorem Tree.Stacked.withBranch (hsound : tree.Sound slots) (h : tree.Stacked (frame :: rest))
    (hnode : tree.node? frame.node = some node) (hkind : node.kind.isConditional = true)
    {branch : Nat} (hbranch : branch ∈ node.kind.elseIfs ∨ branch ∈ node.kind.elseBranch?)
    {below : Node} (hbelow : tree.node? branch = some below)
    (hbody : below.kind.hasBody = true) : tree.Stacked (⟨branch, .block 0⟩ :: rest) := by
  have hfits : tree.Fits ⟨branch, .block 0⟩ := ⟨below, hbelow, hbody, Nat.zero_le _⟩
  cases h with
  | bottom =>
    -- The entry block is no conditional.
    rcases hsound.root with ⟨entry, hentry, hentryKind⟩
    have hsame : tree.node? tree.root = some entry := hentry
    rw [hsame] at hnode
    cases hnode
    rw [hentryKind] at hkind
    cases hkind
  | above _ hinner hstacked =>
    rcases hinner with ⟨outer, houter, hchild | ⟨child, hchild, owner, howner, hlinked⟩⟩
    · exact .above hfits ⟨outer, houter, .inr ⟨_, hchild, node, hnode, hbranch⟩⟩ hstacked
    · -- A branch of a conditional is no conditional.
      have hlinks := hsound.nodes child owner howner
      rcases hlinked with hlinked | hlinked
      · rcases hlinks.elseIfs _ hlinked with ⟨found, hfound, hfoundKind⟩
        have hsame : tree.node? _ = some found := hfound
        rw [hsame] at hnode
        cases hnode
        rw [hfoundKind] at hkind
        cases hkind
      · rcases hlinks.elseBranch _ hlinked with ⟨found, hfound, hfoundKind⟩
        have hsame : tree.node? _ = some found := hfound
        rw [hsame] at hnode
        cases hnode
        rw [hfoundKind] at hkind
        cases hkind

namespace Execution

/-! ## Evaluations -/

/-- The expression of a compiled node does not end with a fault. -/
theorem evaluate_noFault (callee : Callee) (hcode : node.code.isSome = true) (e : Execution) :
    (evaluate callee node e).Yields (fun _ _ => True) MachineError.IsNoFault := by
  rcases Option.isSome_iff_exists.1 hcode with ⟨code, hsome⟩
  unfold evaluate
  rw [hsome]
  simp only [Action.mapError_run]
  cases code.eval (invoke callee node.line) e with
  | done v t => trivial
  | failed cause t => exact fun fault hfault => by cases hfault
  | exhausted => trivial

/-- A condition does not end with a fault. -/
theorem evaluateCondition_noFault (callee : Callee) (hcode : node.code.isSome = true)
    (e : Execution) :
    (evaluateCondition callee node e).Yields (fun _ _ => True) MachineError.IsNoFault := by
  refine Action.yields_bind (evaluate_noFault callee hcode e) fun v t _ => ?_
  cases v.truth? with
  | some b => trivial
  | none => exact fun fault hfault => by cases hfault

/-- The collection of a loop does not end with a fault. -/
theorem evaluateCollection_noFault (callee : Callee) (hcode : node.code.isSome = true)
    (e : Execution) :
    (evaluateCollection callee node e).Yields (fun _ _ => True) MachineError.IsNoFault := by
  refine Action.yields_bind (evaluate_noFault callee hcode e) fun v t _ => ?_
  cases v.array? with
  | some id => trivial
  | none => exact fun fault hfault => by cases hfault

/-! ## Single frames -/

/-- Starting a child of a body answers with a stack: the frame of the child exists, and it comes
above that of the body. -/
theorem startChild_stacked (hsound : tree.Sound slots) {id next : Nat}
    (hnode : tree.node? id = some node) {phase : Phase} {last : List Frame}
    (hmore : next < node.children.length → tree.Stacked (⟨id, phase⟩ :: rest))
    (hlast : tree.Stacked last) (e : Execution) :
    (Action.ofExcept (startChild tree node next (⟨id, phase⟩ :: rest) last) e).Yields
      (fun frames _ => tree.Stacked frames) MachineError.IsNoFault := by
  unfold startChild
  cases hchild : node.children[next]? with
  | none => exact hlast
  | some child =>
    have hlt : next < node.children.length := (List.getElem?_eq_some_iff.1 hchild).1
    have hmem : child ∈ node.children := List.mem_of_getElem? hchild
    rcases (hsound.nodes id node hnode).children child hmem with ⟨below, hbelow, -⟩
    have hfound : tree.node? child = some below := hbelow
    have hinner : tree.Encloses id child := ⟨node, hnode, .inl hmem⟩
    simp only [startNode, nodeOf, hfound]
    exact .above ⟨below, hfound, Phase.fits_start below⟩ hinner (hmore hlt)

/-- Testing a branch of a conditional answers with a stack. -/
theorem stepBranch_stacked (callee : Callee) (hsound : tree.Sound slots)
    (hcompiled : tree.IsCompiled) {id tested : Nat}
    (h : tree.Stacked (⟨id, .branch tested⟩ :: rest)) (hnode : tree.node? id = some node)
    {elseIfs : List Nat} {elseBranch : Option Nat}
    (hkind : node.kind = .conditional elseIfs elseBranch) (e : Execution) :
    (stepBranch callee tree id tested elseIfs elseBranch rest e).Yields
      (fun frames _ => tree.Stacked frames) MachineError.IsNoFault := by
  have hlinks := hsound.nodes id node hnode
  have hconditional : node.kind.isConditional = true := by rw [hkind]; rfl
  have hbody : node.kind.hasBody = true := by rw [hkind]; rfl
  have helseIfs : node.kind.elseIfs = elseIfs := by rw [hkind]; rfl
  have helseBranch : node.kind.elseBranch? = elseBranch := by rw [hkind]; rfl
  unfold stepBranch
  cases hbranch : (id :: elseIfs)[tested]? with
  | none =>
    -- No branch is left but the one without a condition.
    cases elseBranch with
    | none => exact h.tail
    | some branch =>
      rcases hlinks.elseBranch branch helseBranch with ⟨below, hbelow, hbelowKind⟩
      exact Tree.Stacked.withBranch hsound h hnode hconditional (.inr helseBranch) hbelow
        (by rw [hbelowKind]; rfl)
  | some branch =>
    have hlt : tested < elseIfs.length + 1 := (List.getElem?_eq_some_iff.1 hbranch).1
    -- The branch is the conditional itself or one of those behind it.
    have hfound : ∃ below, tree.node? branch = some below ∧ below.kind.isEvaluated = true ∧
        tree.Stacked (⟨branch, .block 0⟩ :: rest) := by
      cases tested with
      | zero =>
        cases hbranch
        refine ⟨node, hnode, by rw [hkind]; rfl, ?_⟩
        exact h.withPhase ⟨node, hnode, hbody, Nat.zero_le _⟩ fun _ hphase => by cases hphase
      | succ tested =>
        have hmem : branch ∈ node.kind.elseIfs := by
          rw [helseIfs]
          exact List.mem_of_getElem? hbranch
        rcases hlinks.elseIfs branch hmem with ⟨below, hbelow, hbelowKind⟩
        refine ⟨below, hbelow, by rw [hbelowKind]; rfl, ?_⟩
        exact Tree.Stacked.withBranch hsound h hnode hconditional (.inl hmem) hbelow
          (by rw [hbelowKind]; rfl)
    rcases hfound with ⟨below, hbelow, hevaluated, htaken⟩
    simp only [nodeOf, hbelow]
    refine Action.yields_bind (Q := fun found _ => found = below) rfl ?_
    rintro found t rfl
    refine Action.yields_bind
      (evaluateCondition_noFault callee (hcompiled branch found hbelow hevaluated) t) ?_
    intro b u _
    cases b with
    | true => exact htaken
    | false =>
      refine h.withPhase ⟨node, hnode, hconditional, ?_⟩ fun _ hphase => by cases hphase
      rw [helseIfs]
      omega

/-- Binding the next element of a loop answers with a stack. -/
theorem stepBind_stacked (hsound : tree.Sound slots) {id slot position : Nat}
    {collection : ArrayId} (h : tree.Stacked (⟨id, .forEachBind collection position⟩ :: rest))
    (hnode : tree.node? id = some node) {iterator : String}
    (hkind : node.kind = .forEach iterator slot) (e : Execution)
    (hlocals : e.context.locals.length = slots) :
    (stepBind id slot collection position rest e).Yields (fun frames _ => tree.Stacked frames)
      MachineError.IsNoFault := by
  have hslot : slot < e.context.locals.length := by
    rw [hlocals]
    exact (hsound.nodes id node hnode).slot slot (by rw [hkind]; rfl)
  unfold stepBind
  rw [Action.bind_run, Action.get_run]
  simp only
  cases e.machine.arrays.at? collection position with
  | none => exact h.tail
  | some element =>
    unfold bindElement
    simp only [Action.bind_run, Action.get_run, if_pos hslot, Action.put_run]
    refine h.withPhase ⟨node, hnode, ?_, Nat.zero_le _⟩ fun _ hphase => by cases hphase
    rw [hkind]
    rfl

/-- The work of the innermost frame answers with a stack and does not end with a fault. -/
theorem stepFrame_stacked (callee : Callee) (hsound : tree.Sound slots)
    (hcompiled : tree.IsCompiled) (h : tree.Stacked (frame :: rest))
    (hnode : tree.node? frame.node = some node) (e : Execution)
    (hlocals : e.context.locals.length = slots) :
    (stepFrame callee tree node frame rest e).Yields (fun frames _ => tree.Stacked frames)
      MachineError.IsNoFault := by
  rcases frame with ⟨id, phase⟩
  rcases h.fits with ⟨found, hfound, hfits⟩
  rw [show tree.node? id = some node from hnode] at hfound
  cases hfound
  cases phase with
  | block next =>
    have hmore : next < node.children.length → tree.Stacked (⟨id, .block (next + 1)⟩ :: rest) :=
      fun hlt => h.withPhase ⟨node, hnode, hfits.1, hlt⟩ fun _ _ => ⟨next + 1, rfl⟩
    have hbody := startChild_stacked hsound hnode hmore h.tail e
    cases hkind : node.kind with
    | entry | elseIf | otherwise => simpa only [stepFrame, hkind] using hbody
    | conditional elseIfs elseBranch => simpa only [stepFrame, hkind] using hbody
    | expression | whileLoop | forEach iterator slot =>
      have himpossible := hfits.1
      rw [hkind] at himpossible
      cases himpossible
  | expression =>
    have hkind : node.kind = .expression := hfits
    simp only [stepFrame, hkind]
    refine Action.yields_bind
      (evaluate_noFault callee (hcompiled id node hnode (by rw [hkind]; rfl)) e) ?_
    intro _ _ _
    exact h.tail
  | branch tested =>
    rcases NodeKind.exists_of_isConditional hfits.1 with ⟨elseIfs, elseBranch, hkind⟩
    simp only [stepFrame, hkind]
    exact stepBranch_stacked callee hsound hcompiled h hnode hkind e
  | loopTest =>
    have hkind : node.kind = .whileLoop := hfits
    simp only [stepFrame, hkind]
    refine Action.yields_bind
      (evaluateCondition_noFault callee (hcompiled id node hnode (by rw [hkind]; rfl)) e) ?_
    intro b _ _
    cases b with
    | true =>
      exact h.withPhase ⟨node, hnode, hkind, Nat.zero_le _⟩ fun _ hphase => by cases hphase
    | false => exact h.tail
  | loopBody next =>
    have hkind : node.kind = .whileLoop := hfits.1
    simp only [stepFrame, hkind]
    refine startChild_stacked hsound hnode (fun hlt => ?_) ?_ e
    · exact h.withPhase ⟨node, hnode, hkind, hlt⟩ fun _ hphase => by cases hphase
    · exact h.withPhase ⟨node, hnode, hkind⟩ fun _ hphase => by cases hphase
  | forEachStart =>
    rcases NodeKind.exists_of_isSome_slot? hfits with ⟨iterator, slot, hkind⟩
    simp only [stepFrame, hkind]
    refine Action.yields_bind
      (evaluateCollection_noFault callee (hcompiled id node hnode (by rw [hkind]; rfl)) e) ?_
    intro collection _ _
    exact h.withPhase ⟨node, hnode, hfits⟩ fun _ hphase => by cases hphase
  | forEachBind collection position =>
    rcases NodeKind.exists_of_isSome_slot? hfits with ⟨iterator, slot, hkind⟩
    simp only [stepFrame, hkind]
    exact stepBind_stacked hsound h hnode hkind e hlocals
  | forEachBody next collection position =>
    rcases NodeKind.exists_of_isSome_slot? hfits.1 with ⟨iterator, slot, hkind⟩
    simp only [stepFrame, hkind]
    refine startChild_stacked hsound hnode (fun hlt => ?_) ?_ e
    · exact h.withPhase ⟨node, hnode, hfits.1, hlt⟩ fun _ hphase => by cases hphase
    · exact h.withPhase ⟨node, hnode, hfits.1⟩ fun _ hphase => by cases hphase

/-! ## Steps -/

/-- A step without a pending jump keeps the stack and does not end with a fault. -/
theorem stepStatement_stacked (callee : Callee) (hsound : tree.Sound slots)
    (hcompiled : tree.IsCompiled) (e : Execution) (h : tree.Stacked e.context.frames)
    (hlocals : e.context.locals.length = slots) :
    (stepStatement callee tree e).Yields (fun _ e' => tree.Stacked e'.context.frames)
      MachineError.IsNoFault := by
  unfold stepStatement
  rw [Action.bind_run, Action.get_run]
  simp only
  cases hframes : e.context.frames with
  | nil =>
    show tree.Stacked e.context.frames
    exact h
  | cons frame rest =>
    rw [hframes] at h
    rcases h.fits with ⟨node, hnode, -⟩
    simp only [nodeOf, hnode]
    refine Action.yields_bind (Q := fun found t => found = node ∧ t = e) ⟨rfl, rfl⟩ ?_
    rintro found t ⟨rfl, rfl⟩
    refine Action.yields_bind
      (stepFrame_stacked callee hsound hcompiled h hnode t hlocals) ?_
    intro frames u hstacked
    exact hstacked

/-- A jump keeps the stack. -/
theorem unwind_stacked {context : Context} (h : tree.Stacked context.frames) (jump : Jump)
    (e : Execution) :
    (Action.ofExcept (context.unwind tree jump) e).Yields
      (fun answer _ => tree.Stacked answer.1.frames) MachineError.IsNoFault := by
  have hloop : tree.Stacked context.fromLoop := h.dropWhile _
  have hends : Context.Unwinds tree context jump (context.unwind tree jump) := .of_unwind rfl
  generalize context.unwind tree jump = result at hends ⊢
  cases hends with
  | left => exact .nil
  | broken hfrom =>
    rw [hfrom] at hloop
    exact hloop.tail
  | continued hfrom =>
    rw [hfrom] at hloop
    rcases hloop.fits with ⟨node, hnode, hfits⟩
    refine hloop.withPhase ⟨node, hnode, hfits.nextPass⟩ fun next hphase => ⟨next, ?_⟩
    rw [hphase]
    rfl
  | refused => exact fun fault hfault => by cases hfault

/-- Making a pending jump keeps the stack and does not end with a fault. -/
theorem stepJump_stacked {e : Execution} (h : tree.Stacked e.context.frames) (jump : Jump) :
    (stepJump tree jump e).Yields (fun _ e' => tree.Stacked e'.context.frames)
      MachineError.IsNoFault := by
  unfold stepJump
  rw [Action.bind_run, Action.get_run]
  refine Action.yields_bind (unwind_stacked h jump e) ?_
  rintro ⟨context, status⟩ t hstacked
  exact hstacked

/-- A step keeps the stack and does not end with a fault. -/
theorem step_stacked (callee : Callee) (hsound : tree.Sound slots) (hcompiled : tree.IsCompiled)
    {e : Execution} (hprogram : e.context.program.tree = some tree)
    (h : tree.Stacked e.context.frames) (hlocals : e.context.locals.length = slots) :
    (step callee e).Yields (fun _ e' => tree.Stacked e'.context.frames)
      MachineError.IsNoFault := by
  unfold step
  rw [Action.bind_run, Action.get_run]
  simp only [hprogram]
  split
  · exact fun fault hfault => by cases hfault
  · cases e.context.pending with
    | some jump => exact stepJump_stacked h jump
    | none => exact stepStatement_stacked callee hsound hcompiled e h hlocals

/-- A step that fails leaves the frames as they were. -/
theorem frames_of_step_failed {callee : Callee} (hcallee : callee.Keeps) {e e' : Execution}
    {error : MachineError} (h : step callee e = .failed error e') :
    e'.context.frames = e.context.frames := by
  unfold step at h
  rw [Action.bind_run, Action.get_run] at h
  simp only at h
  split at h
  · cases h
    rfl
  · cases htree : e.context.program.tree with
    | none =>
      rw [htree] at h
      cases h
      rfl
    | some tree =>
      rw [htree] at h
      simp only at h
      cases hpending : e.context.pending with
      | some jump =>
        rw [hpending] at h
        simp only [stepJump, Action.bind_run, Action.get_run] at h
        cases hunwind : e.context.unwind tree jump with
        | error error =>
          rw [hunwind] at h
          cases h
          rfl
        | ok answer =>
          rw [hunwind] at h
          cases h
      | none =>
        rw [hpending] at h
        simp only [stepStatement, Action.bind_run, Action.get_run] at h
        cases hframes : e.context.frames with
        | nil =>
          rw [hframes] at h
          cases h
        | cons frame rest =>
          rw [hframes] at h
          simp only [Action.bind_run] at h
          cases hnode : nodeOf tree frame.node with
          | error error =>
            rw [hnode] at h
            cases h
            exact hframes
          | ok node =>
            rw [hnode] at h
            simp only [Action.ofExcept_ok_run] at h
            have hevolves := stepFrame_evolves hcallee tree node frame rest
            cases hrun : stepFrame callee tree node frame rest e with
            | done frames t =>
              rw [hrun] at h
              cases h
            | failed error t =>
              rw [hrun] at h
              cases h
              exact (hevolves.of_failed hrun).context.frames.trans hframes
            | exhausted =>
              rw [hrun] at h
              cases h

end Execution
end Steps

/-! ## Contexts of a program -/

/-- There is one local per variable when the arguments are bound. -/
theorem Machine.length_of_bindChecked {machine : Machine} {program : Program}
    {arguments locals : List Value} (h : machine.bindChecked program arguments = .ok locals) :
    locals.length = program.declarations.length := by
  unfold bindChecked at h
  split at h
  · cases h
  · split at h
    · cases h
    · split at h
      · next found hfound =>
        cases h
        exact Context.length_bindArguments program arguments locals hfound
      · cases h

/-- A created context belongs to its program, has not started a run, and has one local per
variable. -/
theorem Machine.createContext_locals {callee : Callee} (hcallee : callee.Keeps)
    {program : Program} {arguments : List Value} {machine machine' : Machine} {context : Context}
    (h : createContext callee program arguments machine = .done context machine') :
    context.program = program ∧ context.frames = [] ∧
      context.locals.length = program.declarations.length := by
  cases Machine.Creates.of_createContext h with
  | done hbound hprepare =>
    have hevolves := (prepare_evolves hcallee program).of_done hprepare
    exact ⟨hevolves.context.program, hevolves.context.frames,
      hevolves.context.locals.trans (length_of_bindChecked hbound)⟩

namespace Execution

/-- What can become of a context of a program.  Expressions may do what evaluations can do, and
between two steps the machine may change in any way, and so may everything in the context but
its program, its frames and the number of its variables: it may have been parked, time may have
passed, jumps may have been requested. -/
inductive Reached (program : Program) : Execution → Prop
  | created {callee : Callee} {arguments : List Value} {machine machine' : Machine}
      {context : Context} (hcallee : callee.Keeps)
      (hcreate : Machine.createContext callee program arguments machine = .done context machine') :
      Reached program ⟨machine', context⟩
  | begun {e : Execution} {tree : Tree} (h : Reached program e)
      (htree : program.tree = some tree) :
      Reached program (e.onContext fun context => context.beginRun tree.root)
  | stepped {e e' : Execution} {callee : Callee} {status : Status} (h : Reached program e)
      (hcallee : callee.Keeps) (hstep : step callee e = .done status e') : Reached program e'
  | failed {e e' : Execution} {callee : Callee} {error : MachineError} (h : Reached program e)
      (hcallee : callee.Keeps) (hstep : step callee e = .failed error e') : Reached program e'
  | ended {e : Execution} (h : Reached program e) : Reached program (e.onContext Context.endRun)
  | meanwhile {e : Execution} {machine : Machine} {context : Context} (h : Reached program e)
      (hprogram : context.program = e.context.program)
      (hframes : context.frames = e.context.frames)
      (hlocals : context.locals.length = e.context.locals.length) :
      Reached program ⟨machine, context⟩

end Execution

/-- A context of a program with a given tree is well formed. -/
structure Context.WellFormed (program : Program) (tree : Tree) (context : Context) : Prop where
  belongs : context.program = program
  /-- No frame at all, or the entry block at the bottom; every other frame is that of a statement
  in the body of the frame below it, or of a branch of such a statement. -/
  stacked : tree.Stacked context.frames
  /-- The node of every frame exists, and the frame fits it. -/
  fits : ∀ frame ∈ context.frames, tree.Fits frame
  /-- A loop over an array that is past its start holds the array. -/
  collections : ∀ frame ∈ context.frames, ∀ node, tree.node? frame.node = some node →
    node.kind.slot?.isSome = true → frame.phase ≠ .forEachStart →
    frame.phase.collection?.isSome = true
  locals : context.locals.length = program.declarations.length
  /-- The variable of every loop over an array exists. -/
  slots : ∀ id node, tree.node? id = some node →
    ∀ slot ∈ node.kind.slot?, slot < context.locals.length

section Reached

variable {program : Program} {tree : Tree}

/-- A context is well formed when its frames form a stack and it has one local per variable. -/
theorem Context.WellFormed.of_stacked (hsound : tree.Sound program.declarations.length)
    {context : Context} (hprogram : context.program = program)
    (hstacked : tree.Stacked context.frames)
    (hlocals : context.locals.length = program.declarations.length) :
    context.WellFormed program tree where
  belongs := hprogram
  stacked := hstacked
  fits := hstacked.fits_of_mem
  collections := by
    intro frame hframe node hnode hkind hphase
    rcases hstacked.fits_of_mem frame hframe with ⟨found, hfound, hfits⟩
    rw [hnode] at hfound
    cases hfound
    exact hfits.isSome_collection? hkind hphase
  locals := hlocals
  slots := by
    intro id node hnode slot hslot
    rw [hlocals]
    exact (hsound.nodes id node hnode).slot slot hslot

/-- Whatever became of a context of a program with a sound and compiled tree, it is well
formed. -/
theorem Execution.Reached.wellFormed_of_sound (htree : program.tree = some tree)
    (hsound : tree.Sound program.declarations.length) (hcompiled : tree.IsCompiled)
    {e : Execution} (h : Reached program e) : e.context.WellFormed program tree := by
  induction h with
  | created hcallee hcreate =>
    rcases Machine.createContext_locals hcallee hcreate with ⟨hprogram, hframes, hlocals⟩
    exact .of_stacked hsound hprogram (hframes ▸ .nil) hlocals
  | begun h hroot ih =>
    rw [htree] at hroot
    cases hroot
    rcases hsound.root with ⟨entry, hentry, hkind⟩
    have hbody : entry.kind.hasBody = true := by rw [hkind]; rfl
    exact .of_stacked hsound ih.belongs (.bottom ⟨entry, hentry, hbody, Nat.zero_le _⟩) ih.locals
  | @stepped e e' callee status h hcallee hstep ih =>
    have hcontinues := (step_continues hcallee).of_done hstep
    have hyields := step_stacked callee hsound hcompiled (by rw [ih.belongs, htree]) ih.stacked
      ih.locals
    rw [hstep] at hyields
    exact .of_stacked hsound (hcontinues.context.program.trans ih.belongs) hyields
      (hcontinues.context.locals.trans ih.locals)
  | @failed e e' callee error h hcallee hstep ih =>
    have hcontinues := (step_continues hcallee).of_failed hstep
    have hframes := frames_of_step_failed hcallee hstep
    exact .of_stacked hsound (hcontinues.context.program.trans ih.belongs)
      (hframes ▸ ih.stacked) (hcontinues.context.locals.trans ih.locals)
  | ended h ih => exact .of_stacked hsound ih.belongs .nil ih.locals
  | meanwhile h hprogram hframes hlocals ih =>
    exact .of_stacked hsound (hprogram.trans ih.belongs) (hframes ▸ ih.stacked)
      (hlocals.trans ih.locals)

end Reached

/-- A script that walks through the elements of an array. -/
def walking : List Char :=
  "scriptname Walking\nvariable item\nbegin\nforeach item in ArrayCreate(item)\nPrintToConsole(item)\nloop\nend".toList

/-- Whether the walking script is valid and has a context. -/
def walks : Bool :=
  match Program.compile .empty .standard 1 none walking with
  | .ok program =>
    decide (program.state = .valid) &&
      match Machine.createContext (Machine.callee 0) program [] (.start .standard .empty) with
      | .done _ _ => true
      | _ => false
  | .error _ => false

end ScriptMachine
