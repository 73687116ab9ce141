import ScriptMachine.Proofs.Simulation

/-!
# Runs agree with structured execution

Every part of a script is simulated by the steps of the machine.  The proof is by induction on
the fuel of structured execution; where structured execution needs more fuel than it was
given, the machine takes at least half as many steps, so neither of the two ends without the
other one.

Main results:

- {lit}`Structured.simulates_all`: every part of a script is simulated.
- {lit}`Machine.runToEnd_iff_structured`: a run ends in an outcome if and only if structured
  execution does.
-/

namespace ScriptMachine

open Execution

namespace Structured

variable {callee : Callee} {tree : Tree}

/-! ## Parts of a script -/

/-- The children of a node are simulated, in whatever kind of body they stand. -/
def ChildrenSimulated (callee : Callee) (tree : Tree) (fuel : Nat) : Prop :=
  ∀ {s : Execution} {id next : Nat} {node : Node} {phase : Nat → Phase} {last rest : List Frame},
    Ready tree s → tree.node? id = some node →
    (∀ next, stepFrame callee tree node ⟨id, phase next⟩ rest =
      Action.ofExcept (startChild tree node next (⟨id, phase (next + 1)⟩ :: rest) last)) →
    Simulates callee tree fuel last (fun below => ∃ next, below = ⟨id, phase next⟩ :: rest)
      (s.withFrames (⟨id, phase next⟩ :: rest))
      (children callee tree fuel node.line (node.children.drop next) s)

/-- Statements are simulated. -/
def StatementSimulated (callee : Callee) (tree : Tree) (fuel : Nat) : Prop :=
  ∀ {s : Execution} {id : Nat} {node : Node} {rest : List Frame},
    Ready tree s → tree.node? id = some node →
    Simulates callee tree (fuel - 1) rest (fun below => below = rest)
      (s.withFrames (⟨id, .start node.kind⟩ :: rest))
      (statement callee tree fuel (lineOf tree rest) id node s)

/-- The branches of a conditional are simulated. -/
def ConditionalSimulated (callee : Callee) (tree : Tree) (fuel : Nat) : Prop :=
  ∀ {s : Execution} {id tested : Nat} {node : Node} {elseIfs : List Nat} {elseBranch : Option Nat}
    {rest : List Frame},
    Ready tree s → tree.node? id = some node → node.kind = .conditional elseIfs elseBranch →
    Simulates callee tree fuel rest (fun below => below = rest)
      (s.withFrames (⟨id, .branch tested⟩ :: rest))
      (conditional callee tree fuel elseBranch ((id :: elseIfs).drop tested) s)

/-- The passes of a loop with a condition are simulated. -/
def WhileSimulated (callee : Callee) (tree : Tree) (fuel : Nat) : Prop :=
  ∀ {s : Execution} {id : Nat} {node : Node} {rest : List Frame},
    Ready tree s → tree.node? id = some node → node.kind = .whileLoop →
    Simulates callee tree fuel rest (fun below => below = rest)
      (s.withFrames (⟨id, .loopTest⟩ :: rest)) (whileLoop callee tree fuel node s)

/-- The passes of a loop over an array are simulated. -/
def ForEachSimulated (callee : Callee) (tree : Tree) (fuel : Nat) : Prop :=
  ∀ {s : Execution} {id slot position : Nat} {iterator : String} {collection : ArrayId}
    {node : Node} {rest : List Frame},
    Ready tree s → tree.node? id = some node → node.kind = .forEach iterator slot →
    Simulates callee tree fuel rest (fun below => below = rest)
      (s.withFrames (⟨id, .forEachBind collection position⟩ :: rest))
      (forEach callee tree fuel slot node collection position s)

/-- The line of a frame on top. -/
theorem lineOf_cons {id : Nat} {node : Node} (hnode : tree.node? id = some node) (phase : Phase)
    (rest : List Frame) : lineOf tree (⟨id, phase⟩ :: rest) = node.line := by
  unfold lineOf
  rw [List.head?_cons, Option.bind_some, hnode]
  rfl

/-- The first child that is left. -/
theorem getElem?_of_drop {ids more : List Nat} {next child : Nat}
    (h : ids.drop next = child :: more) : ids[next]? = some child ∧ ids.drop (next + 1) = more := by
  constructor
  · rw [← List.head?_drop, h]
    rfl
  · rw [← List.drop_drop, h]
    rfl

/-- Children are simulated when statements are. -/
theorem ChildrenSimulated.succ {fuel : Nat} (hstatement : StatementSimulated callee tree fuel)
    (hchildren : ChildrenSimulated callee tree fuel) :
    ChildrenSimulated callee tree (fuel + 1) := by
  intro s id next node phase last rest h hnode hbody
  have hframe := hbody next
  unfold startChild at hframe
  cases hleft : node.children.drop next with
  | nil =>
    have hnone : node.children[next]? = none := by
      rw [← List.head?_drop, hleft]
      rfl
    rw [hnone] at hframe
    have hstep := step_of_ok h hnode hframe
    rw [children]
    exact Simulates.behind_step hstep (.of_normal h) (Nat.le_add_right (fuel + 1) 2)
  | cons child more =>
    rcases getElem?_of_drop hleft with ⟨hsome, hmore⟩
    rw [hsome] at hframe
    unfold children
    cases hfound : tree.node? child with
    | none =>
      simp only [startNode, nodeOf_of_none hfound] at hframe
      rw [Action.bind_run, nodeOf_of_none hfound]
      exact .of_failed (step_of_error h hnode hframe) rfl
    | some found =>
      simp only [startNode, nodeOf_of_some hfound] at hframe
      rw [Action.bind_run, nodeOf_of_some hfound]
      have hstep := step_of_ok h hnode hframe
      have hchild := @hstatement s child found (⟨id, phase (next + 1)⟩ :: rest) h hfound
      rw [lineOf_cons hnode] at hchild
      refine Simulates.behind_step hstep (hchild.andThen (Nat.le_refl _) ?_ ?_) (by omega)
      · intro t hready
        have hrest := @hchildren t id (next + 1) node phase last rest hready hnode hbody
        rw [hmore] at hrest
        exact hrest.behind (.refl _) (by omega)
      · intro jump line t frames hready hinterrupts
        refine .of_jumped hready ⟨hinterrupts.1, ?_⟩
        rcases hinterrupts.2 with hreturn | ⟨inner, below, hframes, hbelow, hinner⟩
        · exact .inl hreturn
        · exact .inr ⟨inner, below, hframes, ⟨next + 1, hbelow⟩, hinner⟩

/-- The children of a body are simulated. -/
theorem ChildrenSimulated.inBody {fuel : Nat} (hchildren : ChildrenSimulated callee tree fuel)
    {s : Execution} {id : Nat} {node : Node} (rest : List Frame) (h : Ready tree s)
    (hnode : tree.node? id = some node) (hkind : node.kind.hasBody = true) :
    Simulates callee tree fuel rest (fun below => below = rest)
      (s.withFrames (⟨id, .block 0⟩ :: rest))
      (children callee tree fuel node.line node.children s) := by
  have hbody : ∀ next, stepFrame callee tree node ⟨id, .block next⟩ rest =
      Action.ofExcept (startChild tree node next (⟨id, .block (next + 1)⟩ :: rest) rest) := by
    intro next
    unfold stepFrame
    cases hnodeKind : node.kind with
    | entry => rfl
    | conditional elseIfs elseBranch => rfl
    | elseIf => rfl
    | otherwise => rfl
    | _ =>
      rw [hnodeKind] at hkind
      cases hkind
  have hall := @hchildren s id 0 node Phase.block rest rest h hnode hbody
  rw [List.drop_zero] at hall
  exact hall.below_block

/-- The body of a node is simulated. -/
theorem ChildrenSimulated.body {fuel : Nat} (hchildren : ChildrenSimulated callee tree fuel)
    {s : Execution} {id : Nat} {node : Node} (rest : List Frame) (h : Ready tree s)
    (hnode : tree.node? id = some node) :
    Simulates callee tree fuel rest (fun below => below = rest)
      (s.withFrames (⟨id, .block 0⟩ :: rest)) (body (children callee tree fuel) node s) := by
  unfold Structured.body
  by_cases hkind : node.kind.hasBody = true
  · rw [if_pos hkind]
    exact hchildren.inBody rest h hnode hkind
  · rw [if_neg hkind]
    have hframe : stepFrame callee tree node ⟨id, .block 0⟩ rest =
        Action.ofExcept (.error (.fault (.frameMismatch node.line))) := by
      unfold stepFrame
      cases hnodeKind : node.kind with
      | expression => rfl
      | whileLoop => rfl
      | forEach iterator slot => rfl
      | _ =>
        rw [hnodeKind] at hkind
        exact absurd rfl hkind
    exact .of_failed (step_of_error h hnode hframe) rfl

/-- A statement without parts is simulated. -/
theorem simulates_leaf (hcallee : callee.Keeps) {s : Execution} {id : Nat} {node : Node}
    (rest : List Frame) (h : Ready tree s) (hnode : tree.node? id = some node)
    (hkind : node.kind = .expression) (bound : Nat) :
    Simulates callee tree bound rest (fun below => below = rest)
      (s.withFrames (⟨id, .expression⟩ :: rest)) (leaf callee (lineOf tree rest) node s) := by
  have hframe : stepFrame callee tree node ⟨id, .expression⟩ rest = (do
      let _ ← evaluate callee node
      return rest) := by
    unfold stepFrame
    simp only [hkind]
  apply Simulates.evaluated h hnode hframe (fun _ => evaluate_ignores _ callee node)
    (Nat.le_add_right bound 2)
  intro v t hrun hcalm
  have hevolves := (evaluate_evolves hcallee node).of_done hrun
  have hready := h.of_evolves hevolves hcalm
  cases hpending : t.context.pending with
  | none =>
    have hsame : t.onContext (fun context => { context with pending := none }) = t := by
      show Execution.mk t.machine { t.context with pending := none } = t
      rw [← hpending]
    rw [takeJump_of_idle hpending]
    rw [hsame] at hready
    exact .of_normal hready
  | some jump =>
    have hsame : (t.onContext fun context => { context with pending := none }).withPending jump =
        t := by
      show Execution.mk t.machine { t.context with pending := some jump } = t
      rw [← hpending]
    have hinterrupts : Interrupts tree (fun below => below = rest) rest jump (lineOf tree rest) :=
      ⟨rfl, .inr ⟨[], rest, rfl, rfl, by simp⟩⟩
    have hjumped : Simulates callee tree bound rest (fun below => below = rest) _ _ :=
      .of_jumped hready hinterrupts
    rw [hsame] at hjumped
    rw [takeJump_of_pending hpending]
    exact hjumped

/-- A branch without a condition is simulated. -/
theorem ChildrenSimulated.otherwise {fuel : Nat} (hchildren : ChildrenSimulated callee tree fuel)
    {s : Execution} (branch : Nat) (rest : List Frame) (h : Ready tree s) :
    Simulates callee tree fuel rest (fun below => below = rest)
      (s.withFrames (⟨branch, .block 0⟩ :: rest))
      ((do
        let node ← Action.ofExcept (nodeOf tree branch)
        Structured.body (Structured.children callee tree fuel) node : Stepping Completion) s) := by
  rw [Action.bind_run]
  cases hnode : tree.node? branch with
  | none =>
    rw [nodeOf_of_none hnode]
    exact .of_failed (step_of_missing h hnode (.block 0) rest) rfl
  | some node =>
    rw [nodeOf_of_some hnode]
    exact hchildren.body rest h hnode

/-- The frames behind the test of a branch. -/
theorem stepFrame_branch {id tested branch : Nat} {node other : Node} {elseIfs : List Nat}
    {elseBranch : Option Nat} (hkind : node.kind = .conditional elseIfs elseBranch)
    (hbranch : (id :: elseIfs)[tested]? = some branch) (hother : tree.node? branch = some other)
    (rest : List Frame) :
    stepFrame callee tree node ⟨id, .branch tested⟩ rest = (do
      let holds ← evaluateCondition callee other
      return if holds then ⟨branch, .block 0⟩ :: rest
        else ⟨id, .branch (tested + 1)⟩ :: rest) := by
  unfold stepFrame
  simp only [hkind]
  unfold stepBranch
  simp only [hbranch, nodeOf_of_some hother]
  show (evaluateCondition callee other >>= _) = _
  congr
  funext holds
  cases holds with
  | true => rfl
  | false => rfl

/-- The branches of a conditional are simulated when the bodies of its branches are. -/
theorem ConditionalSimulated.succ (hcallee : callee.Keeps) {fuel : Nat}
    (hchildren : ChildrenSimulated callee tree fuel)
    (hconditional : ConditionalSimulated callee tree fuel) :
    ConditionalSimulated callee tree (fuel + 1) := by
  intro s id tested node elseIfs elseBranch rest h hnode hkind
  have hframe : stepFrame callee tree node ⟨id, .branch tested⟩ rest =
      stepBranch callee tree id tested elseIfs elseBranch rest := by
    unfold stepFrame
    simp only [hkind]
  unfold stepBranch at hframe
  cases hleft : (id :: elseIfs).drop tested with
  | nil =>
    have hnone : (id :: elseIfs)[tested]? = none := by
      rw [← List.head?_drop, hleft]
      rfl
    rw [hnone] at hframe
    have hstep := step_of_ok h hnode hframe
    cases elseBranch with
    | none =>
      rw [conditional]
      exact Simulates.behind_step hstep (.of_normal h) (Nat.le_add_right (fuel + 1) 2)
    | some branch =>
      rw [conditional]
      exact Simulates.behind_step hstep (hchildren.otherwise branch rest h) (Nat.le_succ (fuel + 1))
  | cons branch more =>
    rcases getElem?_of_drop hleft with ⟨hsome, hmore⟩
    rw [hsome] at hframe
    rw [conditional, Action.bind_run]
    cases hother : tree.node? branch with
    | none =>
      simp only [nodeOf_of_none hother] at hframe
      rw [nodeOf_of_none hother]
      exact .of_failed (step_of_error h hnode hframe) rfl
    | some other =>
      have hpart : branch ∈ node.kind.evaluated id := by
        rw [hkind]
        exact List.mem_of_getElem? hsome
      rw [nodeOf_of_some hother]
      apply Simulates.evaluated_quiet h hnode (stepFrame_branch hkind hsome hother rest)
        (fun _ => evaluateCondition_ignores _ callee other)
        (evaluateCondition_quiet hcallee other s (h.jumpFree hnode hpart hother))
        (Nat.le_succ (fuel + 1))
      intro holds t hready
      cases holds with
      | true => exact hchildren.body rest hready hother
      | false =>
        have hbranches := @hconditional t id (tested + 1) node elseIfs elseBranch rest hready
          hnode hkind
        rw [hmore] at hbranches
        exact hbranches

/-- The passes of a loop with a condition are simulated. -/
theorem WhileSimulated.succ (hcallee : callee.Keeps) {fuel : Nat}
    (hchildren : ChildrenSimulated callee tree fuel) (hwhile : WhileSimulated callee tree fuel) :
    WhileSimulated callee tree (fuel + 1) := by
  intro s id node rest h hnode hkind
  have htest : stepFrame callee tree node ⟨id, .loopTest⟩ rest =
      (do
        let holds ← evaluateCondition callee node
        return if holds then ⟨id, .loopBody 0⟩ :: rest else rest) := by
    unfold stepFrame
    simp only [hkind]
    congr
    funext holds
    cases holds with
    | true => rfl
    | false => rfl
  have hpart : id ∈ node.kind.evaluated id := by
    rw [hkind]
    exact List.mem_singleton_self id
  rw [whileLoop]
  apply Simulates.evaluated_quiet h hnode htest (fun _ => evaluateCondition_ignores _ callee node)
    (evaluateCondition_quiet hcallee node s (h.jumpFree hnode hpart hnode)) (Nat.le_succ (fuel + 1))
  intro holds t hready
  cases holds with
  | false => exact .of_normal hready
  | true =>
    have hbody : ∀ next, stepFrame callee tree node ⟨id, .loopBody next⟩ rest =
        Action.ofExcept (startChild tree node next (⟨id, .loopBody (next + 1)⟩ :: rest)
          (⟨id, .loopTest⟩ :: rest)) := by
      intro next
      unfold stepFrame
      simp only [hkind]
    have hpass := @hchildren t id 0 node Phase.loopBody (⟨id, .loopTest⟩ :: rest) rest hready
      hnode hbody
    rw [List.drop_zero] at hpass
    apply hpass.behindPass (fun _ => rfl) (fun _ => rfl) (Nat.le_refl fuel)
    intro u hu
    exact hwhile hu hnode hkind

/-- What binding an element does. -/
theorem bindElement_run (slot : Nat) (element : Value) (s : Execution) :
    bindElement slot element s =
      if slot < s.context.locals.length then
        .done () (s.onContext fun context =>
          { context with locals := context.locals.set slot element })
      else .failed (.fault (.iteratorSlot slot)) s := by
  unfold bindElement
  rw [Action.bind_run, Action.get_run]
  by_cases hslot : slot < s.context.locals.length
  · simp only [if_pos hslot]
    rfl
  · simp only [if_neg hslot]
    rfl

/-- The passes of a loop over an array are simulated. -/
theorem ForEachSimulated.succ {fuel : Nat} (hchildren : ChildrenSimulated callee tree fuel)
    (hforEach : ForEachSimulated callee tree fuel) : ForEachSimulated callee tree (fuel + 1) := by
  intro s id slot position iterator collection node rest h hnode hkind
  have hframe : stepFrame callee tree node ⟨id, .forEachBind collection position⟩ rest =
      stepBind id slot collection position rest := by
    unfold stepFrame
    simp only [hkind]
  have hstep := @step_withFrames callee tree s h id node hnode
    (.forEachBind collection position) rest
  rw [hframe, Action.bind_run] at hstep
  unfold stepBind at hstep
  rw [Action.bind_run, Action.get_run] at hstep
  rw [forEach, Action.bind_run, Action.get_run]
  cases helement : s.machine.arrays.at? collection position with
  | none =>
    simp only [machine_withFrames, helement] at hstep ⊢
    exact Simulates.behind_step hstep (.of_normal h) (Nat.le_add_right (fuel + 1) 2)
  | some element =>
    simp only [machine_withFrames, helement] at hstep ⊢
    rw [Action.bind_run, bindElement_ignores] at hstep
    rw [Action.bind_run]
    rw [bindElement_run] at hstep ⊢
    by_cases hslot : slot < s.context.locals.length
    · rw [if_pos hslot] at hstep ⊢
      have hready : Ready tree (s.onContext fun context =>
          { context with locals := context.locals.set slot element }) :=
        ⟨h.program, h.calm, h.idle, h.free⟩
      have hbody : ∀ next,
          stepFrame callee tree node ⟨id, .forEachBody next collection (position + 1)⟩ rest =
            Action.ofExcept (startChild tree node next
              (⟨id, .forEachBody (next + 1) collection (position + 1)⟩ :: rest)
              (⟨id, .forEachBind collection (position + 1)⟩ :: rest)) := by
        intro next
        unfold stepFrame
        simp only [hkind]
      have hpass := @hchildren _ id 0 node (fun next => .forEachBody next collection (position + 1))
        (⟨id, .forEachBind collection (position + 1)⟩ :: rest) rest hready hnode hbody
      rw [List.drop_zero] at hpass
      refine Simulates.behind_step hstep ?_ (Nat.le_succ (fuel + 1))
      apply hpass.behindPass (fun _ => rfl) (fun _ => rfl) (Nat.le_refl fuel)
      intro u hu
      exact hforEach hu hnode hkind
    · rw [if_neg hslot] at hstep ⊢
      exact .of_failed hstep rfl

/-- Statements are simulated when their parts are. -/
theorem StatementSimulated.succ (hcallee : callee.Keeps) {fuel : Nat}
    (hchildren : ChildrenSimulated callee tree fuel)
    (hconditional : ConditionalSimulated callee tree fuel)
    (hwhile : WhileSimulated callee tree fuel) (hforEach : ForEachSimulated callee tree fuel) :
    StatementSimulated callee tree (fuel + 1) := by
  intro s id node rest h hnode
  rw [Nat.add_sub_cancel, statement]
  cases hkind : node.kind with
  | expression => exact simulates_leaf hcallee rest h hnode hkind fuel
  | entry => exact hchildren.inBody rest h hnode (by rw [hkind]; rfl)
  | elseIf => exact hchildren.inBody rest h hnode (by rw [hkind]; rfl)
  | otherwise => exact hchildren.inBody rest h hnode (by rw [hkind]; rfl)
  | conditional elseIfs elseBranch =>
    exact @hconditional s id 0 node elseIfs elseBranch rest h hnode hkind
  | whileLoop => exact hwhile h hnode hkind
  | forEach iterator slot =>
    have hframe : stepFrame callee tree node ⟨id, .forEachStart⟩ rest = (do
        let collection ← evaluateCollection callee node
        return ⟨id, .forEachBind collection 0⟩ :: rest) := by
      unfold stepFrame
      simp only [hkind]
    have hpart : id ∈ node.kind.evaluated id := by
      rw [hkind]
      exact List.mem_singleton_self id
    apply Simulates.evaluated_quiet h hnode hframe
      (fun _ => evaluateCollection_ignores _ callee node)
      (evaluateCollection_quiet hcallee node s (h.jumpFree hnode hpart hnode))
      (Nat.le_add_right fuel 2)
    intro collection t hready
    exact hforEach hready hnode hkind

/-- Every part of a script is simulated. -/
structure AllSimulated (callee : Callee) (tree : Tree) (fuel : Nat) : Prop where
  children : ChildrenSimulated callee tree fuel
  statement : StatementSimulated callee tree fuel
  conditional : ConditionalSimulated callee tree fuel
  whileLoop : WhileSimulated callee tree fuel
  forEach : ForEachSimulated callee tree fuel

/-- Every part of a script is simulated, however much fuel there is. -/
theorem simulates_all (hcallee : callee.Keeps) (tree : Tree) (fuel : Nat) :
    AllSimulated callee tree fuel := by
  induction fuel with
  | zero =>
    constructor
    · intro s id next node phase last rest _ _ _
      rw [Structured.children]
      exact simulates_starve _ _ _ _ _
    · intro s id node rest _ _
      rw [Structured.statement]
      exact simulates_starve _ _ _ _ _
    · intro s id tested node elseIfs elseBranch rest _ _ _
      rw [Structured.conditional]
      exact simulates_starve _ _ _ _ _
    · intro s id node rest _ _ _
      rw [Structured.whileLoop]
      exact simulates_starve _ _ _ _ _
    · intro s id slot position iterator collection node rest _ _ _
      rw [Structured.forEach]
      exact simulates_starve _ _ _ _ _
  | succ fuel ih =>
    constructor
    · exact ChildrenSimulated.succ ih.statement ih.children
    · exact StatementSimulated.succ hcallee ih.children ih.conditional ih.whileLoop ih.forEach
    · exact ConditionalSimulated.succ hcallee ih.children ih.conditional
    · exact WhileSimulated.succ hcallee ih.children ih.whileLoop
    · exact ForEachSimulated.succ ih.children ih.forEach

/-! ## Whole runs -/

/-- What the steps of a run do compared to the outcome of a structured one. -/
def RunSimulates (callee : Callee) (bound : Nat) (e : Execution) :
    Outcome Execution MachineError RunState → Prop
  | .done state t => state = .finished ∧ ∃ n e' e'', Steps callee n e e' ∧
    step callee e' = .done .finished e'' ∧ e''.onContext Context.endRun = t.onContext Context.endRun
  | .failed error t => ∃ n e' e'', Steps callee n e e' ∧ step callee e' = .failed error e'' ∧
    e''.onContext Context.endRun = t.onContext Context.endRun
  | .exhausted => ∃ n e', Steps callee n e e' ∧ (bound ≤ 2 * n ∨ step callee e' = .exhausted)

/-- A step without a frame ends the run. -/
theorem step_of_bottom {t : Execution} (h : Ready tree t) :
    step callee (t.withFrames []) = .done .finished (t.withFrames []) := by
  have hprogram : (t.withFrames []).context.program.tree = some tree := h.program
  have hcalm : (t.withFrames []).machine.raised = false := h.calm
  have hidle : (t.withFrames []).context.pending = none := h.idle
  unfold step
  rw [Action.bind_run, Action.get_run]
  simp only [hcalm, hprogram, hidle, Bool.false_eq_true, if_false]
  unfold stepStatement
  rw [Action.bind_run, Action.get_run]
  simp only [frames_withFrames]
  rfl

/-- A return ends the run. -/
theorem step_return {t : Execution} (h : Ready tree t) (frames : List Frame) :
    ∃ t', step callee ((t.withPending .returnValue).withFrames frames) = .done .finished t' ∧
      t'.onContext Context.endRun = t.onContext Context.endRun := by
  refine ⟨(t.withPending .returnValue).withFrames [], ?_, rfl⟩
  rw [step_withPending h]
  rfl

/-- Jumps that have met no loop down to the bottom stand outside of all loops, unless they
return. -/
theorem Interrupts.outside {frames : List Frame} {jump : Jump} {line : Nat}
    (h : Interrupts tree (fun below => below = []) frames jump line)
    (hjump : jump ≠ .returnValue) :
    lineOf tree frames = line ∧ ∀ frame ∈ frames, frame.phase.isLoop = false := by
  rcases h with ⟨hline, hreturn | ⟨inner, below, hframes, hbelow, hinner⟩⟩
  · exact absurd hreturn hjump
  · subst hbelow
    rw [List.append_nil] at hframes
    subst hframes
    exact ⟨hline, hinner⟩

/-- A break or a continue outside of all loops is an error at the innermost frame. -/
theorem step_outside (callee : Callee) {t : Execution} (h : Ready tree t) {frames : List Frame}
    (hframes : ∀ frame ∈ frames, frame.phase.isLoop = false) {jump : Jump} {cause : RuntimeCause}
    (hjump : jump = .breakLoop ∧ cause = .breakOutsideLoop ∨
      jump = .continueLoop ∧ cause = .continueOutsideLoop) :
    step callee ((t.withPending jump).withFrames frames) =
      .failed (t.context.errorAt (lineOf tree frames) cause)
        ((t.withPending jump).withFrames frames) := by
  rw [step_withPending h]
  unfold stepJump
  rw [Action.bind_run, Action.get_run]
  rcases hjump with ⟨hjump, hcause⟩ | ⟨hjump, hcause⟩
  · subst hjump hcause
    simp only [Context.unwind, Context.fromLoop, frames_withFrames, dropWhile_outside hframes]
    rfl
  · subst hjump hcause
    simp only [Context.unwind, Context.fromLoop, frames_withFrames, dropWhile_outside hframes]
    rfl

/-- The entry block is simulated from its frame on. -/
theorem simulates_entry (hcallee : callee.Keeps) (fuel : Nat) {s : Execution}
    (hprogram : s.context.program.tree = some tree) (hidle : s.context.pending = none)
    (hjumps : tree.JumpsAreStatements s.machine.commands) :
    RunSimulates callee fuel (s.withFrames [⟨tree.root, .block 0⟩]) (entry callee tree fuel s) := by
  unfold entry
  rw [Action.bind_run]
  cases hcalm : s.machine.raised with
  | true =>
    rw [settle_of_raised hcalm]
    have hstep := step_of_raised callee (s.withFrames [⟨tree.root, .block 0⟩]) hcalm
    exact ⟨0, _, _, .refl _, hstep, rfl⟩
  | false =>
    have hready : Ready tree s := ⟨hprogram, hcalm, hidle, hjumps⟩
    rw [settle_of_calm hcalm]
    simp only
    rw [Action.bind_run]
    cases hnode : tree.node? tree.root with
    | none =>
      rw [nodeOf_of_none hnode]
      exact ⟨0, _, _, .refl _, step_of_missing hready hnode (.block 0) [], rfl⟩
    | some node =>
      rw [nodeOf_of_some hnode, Action.ofExcept_ok_run]
      simp only
      have hchildren : ChildrenSimulated callee tree fuel :=
        (simulates_all hcallee tree fuel).children
      have hbody := hchildren.body [] hready hnode
      rw [Action.bind_run]
      cases hrun : body (children callee tree fuel) node s with
      | exhausted =>
        rw [hrun] at hbody
        exact hbody
      | failed error t =>
        rw [hrun] at hbody
        exact hbody
      | done completion t =>
        rw [hrun] at hbody
        cases completion with
        | normal =>
          rcases hbody with ⟨ht, n, hsteps⟩
          exact ⟨rfl, n, _, _, hsteps, step_of_bottom ht, rfl⟩
        | jumped jump line =>
          rcases hbody with ⟨ht, n, frames, hsteps, hinterrupts⟩
          cases jump with
          | returnValue =>
            rcases @step_return callee tree t ht frames with ⟨t', hstep, hsame⟩
            exact ⟨rfl, n, _, t', hsteps, hstep, hsame⟩
          | breakLoop =>
            rcases hinterrupts.outside (by simp) with ⟨hline, houtside⟩
            subst hline
            exact ⟨n, _, _, hsteps, step_outside callee ht houtside (.inl ⟨rfl, rfl⟩), rfl⟩
          | continueLoop =>
            rcases hinterrupts.outside (by simp) with ⟨hline, houtside⟩
            subst hline
            exact ⟨n, _, _, hsteps, step_outside callee ht houtside (.inr ⟨rfl, rfl⟩), rfl⟩

end Structured

/-! ## Runs without a budget -/

namespace Execution

variable {callee : Callee}

/-- A run goes on behind its steps. -/
theorem run_of_steps {n taken : Nat} {e e' : Execution} (h : Steps callee n e e') (fuel : Nat) :
    run callee 0 (n + fuel) taken e = run callee 0 fuel (taken + n) e' :=
  run_behind_steps h (.inl rfl) fuel

/-- More fuel changes no answer. -/
theorem run_mono {fuel taken : Nat} {e : Execution}
    {outcome : Outcome Execution MachineError RunState} (h : run callee 0 fuel taken e = outcome)
    (hdone : outcome ≠ .exhausted) (more : Nat) : run callee 0 (fuel + more) taken e = outcome := by
  induction fuel generalizing taken e with
  | zero => exact absurd h.symm hdone
  | succ fuel ih =>
    rw [Nat.add_right_comm]
    unfold run at h ⊢
    cases hstep : step callee e with
    | exhausted =>
      rw [hstep] at h
      exact h
    | failed error t =>
      rw [hstep] at h
      exact h
    | done status t =>
      rw [hstep] at h
      cases status with
      | finished => exact h
      | running =>
        simp only [usedUp_zero, Bool.false_eq_true, if_false] at h ⊢
        exact ih h

/-- A run with less fuel than steps has no answer. -/
theorem run_of_few {n fuel taken : Nat} {e e' : Execution} (h : Steps callee n e e')
    (hfew : fuel ≤ n) : run callee 0 fuel taken e = .exhausted := by
  by_cases hdone : run callee 0 fuel taken e = .exhausted
  · exact hdone
  · -- With as much fuel as steps the answer would be the same, but there is none.
    have hmore := run_mono rfl hdone (n - fuel)
    have hlast := @run_of_steps callee n taken e e' h 0
    rw [Nat.add_sub_cancel' hfew] at hmore
    rw [Nat.add_zero, hmore, run] at hlast
    exact hlast

/-- A run without an answer at some step has no answer. -/
theorem run_of_exhausted {n fuel : Nat} {e e' : Execution} (h : Steps callee n e e')
    (hstep : step callee e' = .exhausted) : run callee 0 fuel 0 e = .exhausted := by
  by_cases hfew : fuel ≤ n
  · exact run_of_few h hfew
  · rcases Nat.exists_eq_add_of_lt (Nat.not_le.1 hfew) with ⟨more, hmore⟩
    rw [hmore, Nat.add_assoc, run_of_steps h, run]
    simp only [hstep]

end Execution

/-! ## Agreement -/

namespace Structured

variable {callee : Callee} {tree : Tree}

/-- A run that starts at the entry block. -/
theorem runToEnd_eq {e : Execution} (htree : e.context.program.tree = some tree) (fuel : Nat) :
    Machine.runToEnd callee fuel e = Execution.run callee 0 fuel 0
      ((e.onContext fun context => (context.beginRun tree.root).endRun).withFrames
        [⟨tree.root, .block 0⟩]) := by
  unfold Machine.runToEnd
  rw [htree]
  rfl

/-- What the machine does when structured execution has an answer. -/
theorem exists_runToEnd (hcallee : callee.Keeps) {e : Execution}
    (htree : e.context.program.tree = some tree)
    (hjumps : tree.JumpsAreStatements e.machine.commands) {fuel : Nat}
    {outcome : Outcome Execution MachineError RunState} (hrun : run callee fuel e = outcome)
    (hdone : outcome ≠ .exhausted) : ∃ fuel, Machine.runToEnd callee fuel e = outcome := by
  have hsimulates := @simulates_entry callee tree hcallee fuel
    (e.onContext fun context => (context.beginRun tree.root).endRun) htree rfl hjumps
  unfold run at hrun
  simp only [htree] at hrun
  cases hentry : entry callee tree fuel
      (e.onContext fun context => (context.beginRun tree.root).endRun) with
  | exhausted =>
    rw [hentry] at hrun
    exact absurd hrun.symm hdone
  | failed error t =>
    rw [hentry] at hrun hsimulates
    rcases hsimulates with ⟨n, e', e'', hsteps, hstep, hsame⟩
    refine ⟨n + 1, ?_⟩
    rw [runToEnd_eq htree, run_of_steps hsteps, Execution.run, ← hrun]
    simp only [hstep, hsame]
  | done state t =>
    rw [hentry] at hrun hsimulates
    rcases hsimulates with ⟨hstate, n, e', e'', hsteps, hstep, hsame⟩
    subst hstate
    refine ⟨n + 1, ?_⟩
    rw [runToEnd_eq htree, run_of_steps hsteps, Execution.run, ← hrun]
    simp only [hstep, hsame]

/-- What structured execution does when the machine has an answer. -/
theorem run_ne_exhausted (hcallee : callee.Keeps) {e : Execution}
    (htree : e.context.program.tree = some tree)
    (hjumps : tree.JumpsAreStatements e.machine.commands) {fuel : Nat}
    (hdone : Machine.runToEnd callee fuel e ≠ .exhausted) :
    run callee (2 * fuel) e ≠ .exhausted := by
  intro hrun
  have hsimulates := @simulates_entry callee tree hcallee (2 * fuel)
    (e.onContext fun context => (context.beginRun tree.root).endRun) htree rfl hjumps
  unfold run at hrun
  simp only [htree] at hrun
  cases hentry : entry callee tree (2 * fuel)
      (e.onContext fun context => (context.beginRun tree.root).endRun) with
  | done state t =>
    rw [hentry] at hrun
    cases hrun
  | failed error t =>
    rw [hentry] at hrun
    cases hrun
  | exhausted =>
    rw [hentry] at hsimulates
    rw [runToEnd_eq htree] at hdone
    rcases hsimulates with ⟨n, e', hsteps, hlong | hstarved⟩
    · exact hdone (run_of_few hsteps (by omega))
    · exact hdone (run_of_exhausted hsteps hstarved)

end Structured

/-- A run ends in an outcome if and only if structured execution does: with the same result or
error, and with the same variables, globals, arrays and console, provided that only statements
without parts call the jumps. -/
theorem Machine.runToEnd_iff_structured (calls : Nat) {e : Execution} {tree : Tree}
    (htree : e.context.program.tree = some tree)
    (hjumps : tree.JumpsAreStatements e.machine.commands)
    {outcome : Outcome Execution MachineError RunState} (hdone : outcome ≠ .exhausted) :
    (∃ fuel, Machine.runToEnd (Machine.callee calls) fuel e = outcome) ↔
      ∃ fuel, Structured.run (Machine.callee calls) fuel e = outcome := by
  have hcallee := Machine.callee_keeps calls
  constructor
  · intro h
    rcases h with ⟨fuel, hrun⟩
    have hanswer : Structured.run (Machine.callee calls) (2 * fuel) e ≠ .exhausted :=
      Structured.run_ne_exhausted hcallee htree hjumps (by rw [hrun]; exact hdone)
    rcases Structured.exists_runToEnd hcallee htree hjumps rfl hanswer with ⟨other, hother⟩
    refine ⟨2 * fuel, ?_⟩
    rw [Structured.runToEnd_eq htree] at hrun hother
    -- Both runs have the answer that they would have with all of the fuel.
    have hfirst := run_mono hrun hdone other
    have hsecond := run_mono hother hanswer fuel
    rw [Nat.add_comm] at hsecond
    rw [← hsecond, hfirst]
  · intro h
    rcases h with ⟨fuel, hrun⟩
    exact Structured.exists_runToEnd hcallee htree hjumps hrun hdone

/-- A tree with a loop over two names, each of which is printed before a continue. -/
def Tree.listing : Tree :=
  ⟨#[⟨.entry, [], none, 2, [1], none⟩,
    ⟨.forEach "name" 0, [], none, 3, [2, 3],
      some (.call "ArrayCreate" [.text "one", .text "two"])⟩,
    ⟨.expression, [], none, 4, [], some (.call "PrintToConsole" [.slot 0])⟩,
    ⟨.expression, [], none, 5, [], some (.call "Continue" [])⟩], 0, []⟩

/-- An execution that prints two names. -/
def Execution.listing : Execution :=
  let program : Program := { Program.fresh 1 none with tree := some .listing, state := .valid }
  ⟨.start .standard .empty, .create 1 program [.text ""]⟩

/-- Structured execution prints the names as the run does. -/
theorem Machine.runToEnd_iff_structured_listing : ∃ t : Execution,
    Machine.runToEnd (Machine.callee 1) 20 .listing = .done .finished t ∧
      ∃ fuel, Structured.run (Machine.callee 1) fuel .listing = .done .finished t := by
  have hjumps : Tree.listing.JumpsAreStatements Execution.listing.machine.commands := by
    intro id node hnode part hpart other hother code hcode
    match id with
    | 0 | 2 | 3 =>
      cases hnode
      cases hpart
    | 1 =>
      cases hnode
      cases List.mem_singleton.1 hpart
      cases hother
      cases hcode
      unfold CommandTable.JumpFree
      decide +kernel
    | _ + 4 => cases hnode
  have hrun : ∃ t, Machine.runToEnd (Machine.callee 1) 20 .listing = .done .finished t := ⟨_, rfl⟩
  rcases hrun with ⟨t, hrun⟩
  have hiff := Machine.runToEnd_iff_structured 1 rfl hjumps (show .done .finished t ≠ _ by simp)
  exact ⟨t, hrun, hiff.1 ⟨20, hrun⟩⟩

end ScriptMachine
