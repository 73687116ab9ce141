import ScriptMachine.Proofs.Structured

/-!
# Simulating structured execution

Whatever lies below the frame of a statement, the steps of the statement end with that frame
popped, or with a jump under way that no loop inside of the statement takes.  What was
simulated composes: steps in front of it, a sequence of two parts, an evaluation with the
check of the global exception behind it, and the passes of a loop.

Main results:

- {lit}`Structured.Simulates`: what steps do compared to a structured outcome.
- {lit}`Structured.Simulates.andThen`: sequences.
- {lit}`Structured.Simulates.evaluated`: evaluations.
- {lit}`Structured.Simulates.behindPass`: loops.
-/

namespace ScriptMachine

open Execution

/-! ## Trees whose jumps are statements -/

/-- The nodes whose expressions a node tests or loops over. -/
def NodeKind.evaluated (id : Nat) : NodeKind → List Nat
  | .conditional elseIfs _ => id :: elseIfs
  | .whileLoop | .forEach _ _ => [id]
  | .entry | .expression | .elseIf | .otherwise => []

/-- Only statements without parts call the jumps: no condition and no array of a loop does. -/
def Tree.JumpsAreStatements (tree : Tree) (commands : CommandTable) : Prop :=
  ∀ id node, tree.node? id = some node → ∀ part ∈ node.kind.evaluated id, ∀ other,
    tree.node? part = some other → ∀ code, other.code = some code → commands.JumpFree code.calls

/-- With fewer commands there are no more jumps. -/
theorem Tree.JumpsAreStatements.of_subset {tree : Tree} {table smaller : CommandTable}
    (h : tree.JumpsAreStatements table)
    (hsub : ∀ command ∈ smaller.commands, command ∈ table.commands) :
    tree.JumpsAreStatements smaller := by
  intro id node hnode part hpart other hother code hcode
  exact (h id node hnode part hpart other hother code hcode).of_subset hsub

/-- The execution with a pending jump. -/
def Execution.withPending (jump : Jump) (execution : Execution) : Execution :=
  execution.onContext fun context => { context with pending := some jump }

/-- The line of the innermost frame; zero when there is none. -/
def lineOf (tree : Tree) (frames : List Frame) : Nat :=
  ((frames.head?.bind fun frame => tree.node? frame.node).map Node.line).getD 0

namespace Structured

/-- An execution of a tree between two statements: no jump is pending, the global exception is
not raised, and only statements call jumps. -/
structure Ready (tree : Tree) (s : Execution) : Prop where
  program : s.context.program.tree = some tree
  calm : s.machine.raised = false
  idle : s.context.pending = none
  free : tree.JumpsAreStatements s.machine.commands

/-- Frames in which a jump is under way that has met no loop above the frames of some set. -/
def Interrupts (tree : Tree) (under : List Frame → Prop) (frames : List Frame) (jump : Jump)
    (line : Nat) : Prop :=
  lineOf tree frames = line ∧ (jump = .returnValue ∨ ∃ inner below, frames = inner ++ below ∧
    under below ∧ ∀ frame ∈ inner, frame.phase.isLoop = false)

variable {callee : Callee} {tree : Tree}

/-- What the steps from an execution do compared to a structured outcome: they come to the last
frames, interrupt the frames below with a jump, or fail in the same way; and when the fuel
ran out, they go on for half of it. -/
def Simulates (callee : Callee) (tree : Tree) (bound : Nat) (last : List Frame)
    (under : List Frame → Prop) (e : Execution) : Outcome Execution MachineError Completion → Prop
  | .done .normal t => Ready tree t ∧ ∃ n, Steps callee n e (t.withFrames last)
  | .done (.jumped jump line) t => Ready tree t ∧ ∃ n frames,
    Steps callee n e ((t.withPending jump).withFrames frames) ∧
      Interrupts tree under frames jump line
  | .failed error t => ∃ n e' e'', Steps callee n e e' ∧ step callee e' = .failed error e'' ∧
    e''.onContext Context.endRun = t.onContext Context.endRun
  | .exhausted => ∃ n e', Steps callee n e e' ∧ (bound ≤ 2 * n ∨ step callee e' = .exhausted)

variable {bound : Nat} {last : List Frame} {under : List Frame → Prop}

/-! ## Sequences of steps -/

/-- Steps in front of what is simulated. -/
theorem Simulates.behind {n : Nat} {e e' : Execution} {more : Nat}
    {outcome : Outcome Execution MachineError Completion} (hsteps : Steps callee n e e')
    (h : Simulates callee tree bound last under e' outcome) (hmore : more ≤ bound + 2 * n) :
    Simulates callee tree more last under e outcome := by
  cases outcome with
  | done completion t =>
    cases completion with
    | normal =>
      rcases h with ⟨hready, m, hrest⟩
      exact ⟨hready, n + m, hsteps.append hrest⟩
    | jumped jump line =>
      rcases h with ⟨hready, m, frames, hrest, hinterrupts⟩
      exact ⟨hready, n + m, frames, hsteps.append hrest, hinterrupts⟩
  | failed error t =>
    rcases h with ⟨m, e₁, e₂, hrest, hfailed, hsame⟩
    exact ⟨n + m, e₁, e₂, hsteps.append hrest, hfailed, hsame⟩
  | exhausted =>
    rcases h with ⟨m, e₁, hrest, hexhausted⟩
    refine ⟨n + m, e₁, hsteps.append hrest, ?_⟩
    rcases hexhausted with hlong | hstarved
    · left
      omega
    · exact .inr hstarved

/-- One step in front of what is simulated. -/
theorem Simulates.behind_step {e e' : Execution} {more : Nat}
    {outcome : Outcome Execution MachineError Completion}
    (hstep : step callee e = .done .running e')
    (h : Simulates callee tree bound last under e' outcome) (hmore : more ≤ bound + 2) :
    Simulates callee tree more last under e outcome :=
  h.behind (.step hstep (.refl e')) (by omega)

/-- The last frames are reached. -/
theorem Simulates.of_normal {t : Execution} (h : Ready tree t) :
    Simulates callee tree bound last under (t.withFrames last) (.done .normal t) :=
  ⟨h, 0, .refl _⟩

/-- A jump is under way. -/
theorem Simulates.of_jumped {t : Execution} (h : Ready tree t) {frames : List Frame} {jump : Jump}
    {line : Nat} (hinterrupts : Interrupts tree under frames jump line) :
    Simulates callee tree bound last under ((t.withPending jump).withFrames frames)
      (.done (.jumped jump line) t) :=
  ⟨h, 0, frames, .refl _, hinterrupts⟩

/-- A step that fails. -/
theorem Simulates.of_failed {e e' t : Execution} {error : MachineError}
    (hstep : step callee e = .failed error e')
    (hsame : e'.onContext Context.endRun = t.onContext Context.endRun) :
    Simulates callee tree bound last under e (.failed error t) :=
  ⟨0, e, e', .refl e, hstep, hsame⟩

/-- A step that has no answer. -/
theorem Simulates.of_exhausted {e : Execution} (hstep : step callee e = .exhausted) :
    Simulates callee tree bound last under e .exhausted :=
  ⟨0, e, .refl e, .inr hstep⟩

/-- Without fuel anything is simulated. -/
theorem simulates_starve (callee : Callee) (tree : Tree) (last : List Frame)
    (under : List Frame → Prop) (e : Execution) :
    Simulates callee tree 0 last under e .exhausted :=
  ⟨0, e, .refl e, .inl (Nat.zero_le _)⟩

/-- A sequence is simulated when its first part is, and its second part behind every way in
which the first one completes. -/
theorem Simulates.andThen {action : Stepping Completion}
    {next : Completion → Stepping Completion} {e s : Execution} {more : Nat} {last' : List Frame}
    {under' : List Frame → Prop}
    (h : Simulates callee tree bound last under e (action s)) (hmore : more ≤ bound)
    (hnormal : ∀ t, Ready tree t →
      Simulates callee tree more last' under' (t.withFrames last) (next .normal t))
    (hjumped : ∀ jump line t frames, Ready tree t → Interrupts tree under frames jump line →
      Simulates callee tree more last' under' ((t.withPending jump).withFrames frames)
        (next (.jumped jump line) t)) :
    Simulates callee tree more last' under' e ((action >>= next) s) := by
  rw [Action.bind_run]
  cases hrun : action s with
  | done completion t =>
    rw [hrun] at h
    cases completion with
    | normal =>
      rcases h with ⟨hready, n, hsteps⟩
      exact (hnormal t hready).behind hsteps (by omega)
    | jumped jump line =>
      rcases h with ⟨hready, n, frames, hsteps, hinterrupts⟩
      exact (hjumped jump line t frames hready hinterrupts).behind hsteps (by omega)
  | failed error t =>
    rw [hrun] at h
    exact h
  | exhausted =>
    rw [hrun] at h
    rcases h with ⟨n, e', hsteps, hlong | hstarved⟩
    · exact ⟨n, e', hsteps, .inl (by omega)⟩
    · exact ⟨n, e', hsteps, .inr hstarved⟩

/-! ## Single steps -/

/-- The node of a tree. -/
theorem nodeOf_of_some {id : Nat} {node : Node} (h : tree.node? id = some node) :
    nodeOf tree id = .ok node := by
  unfold nodeOf
  rw [h]

/-- A node that is missing. -/
theorem nodeOf_of_none {id : Nat} (h : tree.node? id = none) :
    nodeOf tree id = .error (.fault (.missingNode id)) := by
  unfold nodeOf
  rw [h]

/-- A step of a frame. -/
theorem step_withFrames {s : Execution} (h : Ready tree s) {id : Nat} {node : Node}
    (hnode : tree.node? id = some node) (phase : Phase) (rest : List Frame) :
    step callee (s.withFrames (⟨id, phase⟩ :: rest)) =
      (do
        let frames ← stepFrame callee tree node ⟨id, phase⟩ rest
        Action.change (withFrames frames)
        return .running : Stepping Status) (s.withFrames (⟨id, phase⟩ :: rest)) := by
  have hprogram : (s.withFrames (⟨id, phase⟩ :: rest)).context.program.tree = some tree := h.program
  have hcalm : (s.withFrames (⟨id, phase⟩ :: rest)).machine.raised = false := h.calm
  have hidle : (s.withFrames (⟨id, phase⟩ :: rest)).context.pending = none := h.idle
  unfold step
  rw [Action.bind_run, Action.get_run]
  simp only [hcalm, hprogram, hidle, Bool.false_eq_true, if_false]
  unfold stepStatement
  rw [Action.bind_run, Action.get_run]
  simp only [frames_withFrames, nodeOf_of_some hnode]
  rfl

/-- A step of a frame whose node is missing. -/
theorem step_of_missing {s : Execution} (h : Ready tree s) {id : Nat} (hnode : tree.node? id = none)
    (phase : Phase) (rest : List Frame) :
    step callee (s.withFrames (⟨id, phase⟩ :: rest)) =
      .failed (.fault (.missingNode id)) (s.withFrames (⟨id, phase⟩ :: rest)) := by
  have hprogram : (s.withFrames (⟨id, phase⟩ :: rest)).context.program.tree = some tree := h.program
  have hcalm : (s.withFrames (⟨id, phase⟩ :: rest)).machine.raised = false := h.calm
  have hidle : (s.withFrames (⟨id, phase⟩ :: rest)).context.pending = none := h.idle
  unfold step
  rw [Action.bind_run, Action.get_run]
  simp only [hcalm, hprogram, hidle, Bool.false_eq_true, if_false]
  unfold stepStatement
  rw [Action.bind_run, Action.get_run]
  simp only [frames_withFrames, nodeOf_of_none hnode]
  rfl

/-- A step of a frame that evaluates nothing and goes on. -/
theorem step_of_ok {s : Execution} (h : Ready tree s) {id : Nat} {node : Node}
    (hnode : tree.node? id = some node) {phase : Phase} {rest frames : List Frame}
    (hframe : stepFrame callee tree node ⟨id, phase⟩ rest = Action.ofExcept (.ok frames)) :
    step callee (s.withFrames (⟨id, phase⟩ :: rest)) = .done .running (s.withFrames frames) := by
  rw [step_withFrames h hnode, Action.bind_run, hframe]
  rfl

/-- A step of a frame that evaluates nothing and fails. -/
theorem step_of_error {s : Execution} (h : Ready tree s) {id : Nat} {node : Node}
    (hnode : tree.node? id = some node) {phase : Phase} {rest : List Frame} {error : MachineError}
    (hframe : stepFrame callee tree node ⟨id, phase⟩ rest = Action.ofExcept (.error error)) :
    step callee (s.withFrames (⟨id, phase⟩ :: rest)) =
      .failed error (s.withFrames (⟨id, phase⟩ :: rest)) := by
  rw [step_withFrames h hnode, Action.bind_run, hframe]
  rfl

/-- The global exception ends the run. -/
theorem settle_of_raised {s : Execution} (h : s.machine.raised = true) :
    settle s = .failed (.globalException s.context.program.name) s := by
  unfold settle
  rw [Action.bind_run, Action.get_run]
  simp only [h]
  rfl

/-- Without the global exception the run goes on. -/
theorem settle_of_calm {s : Execution} (h : s.machine.raised = false) : settle s = .done () s := by
  unfold settle
  rw [Action.bind_run, Action.get_run]
  simp only [h]
  rfl

/-- While the global exception is raised, a step fails. -/
theorem simulates_raised {s : Execution} (hraised : s.machine.raised = true) (frames : List Frame) :
    Simulates callee tree bound last under (s.withFrames frames)
      (.failed (.globalException s.context.program.name) s) :=
  .of_failed (step_of_raised callee (s.withFrames frames) hraised) rfl

/-! ## Between two statements -/

/-- Behind an evaluation that requests no jump. -/
theorem Ready.of_quiet {s t : Execution} (h : Ready tree s) (hquiet : s.Quiet t)
    (hcalm : t.machine.raised = false) : Ready tree t := by
  have hprogram : t.context.program.tree = some tree := by
    rw [hquiet.context.program]
    exact h.program
  exact ⟨hprogram, hcalm, hquiet.pending.trans h.idle, h.free.of_subset hquiet.machine.commands⟩

/-- Behind an evaluation whose request is taken. -/
theorem Ready.of_evolves {s t : Execution} (h : Ready tree s) (hevolves : s.Evolves t)
    (hcalm : t.machine.raised = false) :
    Ready tree (t.onContext fun context => { context with pending := none }) := by
  have hprogram : t.context.program.tree = some tree := by
    rw [hevolves.context.program]
    exact h.program
  exact ⟨hprogram, hcalm, rfl, h.free.of_subset hevolves.machine.commands⟩

/-- What a node tests or loops over calls no jump. -/
theorem Ready.jumpFree {s : Execution} (h : Ready tree s) {id part : Nat} {node other : Node}
    (hnode : tree.node? id = some node) (hpart : part ∈ node.kind.evaluated id)
    (hother : tree.node? part = some other) :
    ∀ code, other.code = some code → s.machine.commands.JumpFree code.calls :=
  h.free id node hnode part hpart other hother

/-! ## Evaluations -/

/-- A step that evaluates something is simulated when what comes behind it is. -/
theorem Simulates.evaluated {α : Type} {s : Execution} (h : Ready tree s) {id : Nat} {node : Node}
    (hnode : tree.node? id = some node) {phase : Phase} {rest : List Frame} {action : Stepping α}
    {between : α → List Frame} {next : α → Stepping Completion} {more : Nat}
    (hframe : stepFrame callee tree node ⟨id, phase⟩ rest = (do
      let x ← action
      return between x))
    (hignores : ∀ frames, action.Ignores (withFrames frames)) (hmore : more ≤ bound + 2)
    (hnext : ∀ x t, action s = .done x t → t.machine.raised = false →
      Simulates callee tree bound last under (t.withFrames (between x)) (next x t)) :
    Simulates callee tree more last under (s.withFrames (⟨id, phase⟩ :: rest))
      ((do
        let x ← action
        settle
        next x : Stepping Completion) s) := by
  have hstep := @step_withFrames callee tree s h id node hnode phase rest
  rw [hframe, Action.bind_assoc, Action.bind_run, hignores _ s] at hstep
  rw [Action.bind_run]
  cases hrun : action s with
  | exhausted =>
    rw [hrun] at hstep
    exact .of_exhausted hstep
  | failed error t =>
    rw [hrun] at hstep
    exact .of_failed hstep rfl
  | done x t =>
    rw [hrun] at hstep
    have hrunning : step callee (s.withFrames (⟨id, phase⟩ :: rest)) =
        .done .running (t.withFrames (between x)) :=
      hstep
    show Simulates callee tree more last under _ ((settle >>= fun _ => next x) t)
    rw [Action.bind_run]
    cases hraised : t.machine.raised with
    | true =>
      rw [settle_of_raised hraised]
      exact (simulates_raised hraised (between x)).behind_step hrunning hmore
    | false =>
      rw [settle_of_calm hraised]
      exact (hnext x t hrun hraised).behind_step hrunning hmore

/-- A step that evaluates something without a jump is simulated when what comes behind it is. -/
theorem Simulates.evaluated_quiet {α : Type} {s : Execution} (h : Ready tree s) {id : Nat}
    {node : Node} (hnode : tree.node? id = some node) {phase : Phase} {rest : List Frame}
    {action : Stepping α} {between : α → List Frame} {next : α → Stepping Completion} {more : Nat}
    (hframe : stepFrame callee tree node ⟨id, phase⟩ rest = (do
      let x ← action
      return between x))
    (hignores : ∀ frames, action.Ignores (withFrames frames)) (hquiet : (action s).Ends s.Quiet)
    (hmore : more ≤ bound + 2)
    (hnext : ∀ x t, Ready tree t →
      Simulates callee tree bound last under (t.withFrames (between x)) (next x t)) :
    Simulates callee tree more last under (s.withFrames (⟨id, phase⟩ :: rest))
      ((do
        let x ← action
        settle
        next x : Stepping Completion) s) := by
  apply Simulates.evaluated h hnode hframe hignores hmore
  intro x t hrun hcalm
  rw [hrun] at hquiet
  exact hnext x t (h.of_quiet hquiet hcalm)

/-! ## Jumps -/

/-- Without a request there is no jump. -/
theorem takeJump_of_idle {t : Execution} (h : t.context.pending = none) (line : Nat) :
    takeJump line t = .done .normal t := by
  unfold takeJump
  rw [Action.bind_run, Action.get_run]
  simp only [h]
  rfl

/-- A request is taken. -/
theorem takeJump_of_pending {t : Execution} {jump : Jump} (h : t.context.pending = some jump)
    (line : Nat) :
    takeJump line t =
      .done (.jumped jump line) (t.onContext fun context => { context with pending := none }) := by
  unfold takeJump
  rw [Action.bind_run, Action.get_run]
  simp only [h]
  rfl

/-- A step with a pending jump. -/
theorem step_withPending {t : Execution} (h : Ready tree t) (jump : Jump) (frames : List Frame) :
    step callee ((t.withPending jump).withFrames frames) =
      stepJump tree jump ((t.withPending jump).withFrames frames) := by
  have hprogram : ((t.withPending jump).withFrames frames).context.program.tree = some tree :=
    h.program
  have hcalm : ((t.withPending jump).withFrames frames).machine.raised = false := h.calm
  have hpending : ((t.withPending jump).withFrames frames).context.pending = some jump := rfl
  unfold step
  rw [Action.bind_run, Action.get_run]
  simp only [hcalm, hprogram, hpending, Bool.false_eq_true, if_false]

/-- The frames of statements inside of a loop are dropped. -/
theorem dropWhile_inner {inner below : List Frame}
    (hinner : ∀ frame ∈ inner, frame.phase.isLoop = false) :
    (inner ++ below).dropWhile (fun frame => !frame.phase.isLoop) =
      below.dropWhile fun frame => !frame.phase.isLoop := by
  apply List.dropWhile_append_of_pos
  intro frame hframe
  rw [hinner frame hframe]
  rfl

/-- The frames from the innermost loop on. -/
theorem dropWhile_loop {inner : List Frame} {loop : Frame} (rest : List Frame)
    (hinner : ∀ frame ∈ inner, frame.phase.isLoop = false) (hloop : loop.phase.isLoop = true) :
    (inner ++ loop :: rest).dropWhile (fun frame => !frame.phase.isLoop) = loop :: rest := by
  rw [dropWhile_inner hinner, List.dropWhile_cons, hloop]
  rfl

/-- Outside of all loops there are no such frames. -/
theorem dropWhile_outside {frames : List Frame}
    (hframes : ∀ frame ∈ frames, frame.phase.isLoop = false) :
    frames.dropWhile (fun frame => !frame.phase.isLoop) = [] := by
  have hall := @dropWhile_inner frames [] hframes
  rw [List.append_nil] at hall
  exact hall

/-- Between two statements a jump that is taken back leaves no trace. -/
theorem Ready.idle_frames {t : Execution} (h : Ready tree t) (frames : List Frame) :
    Execution.mk t.machine { t.context with frames := frames, pending := none } =
      t.withFrames frames := by
  have hidle : { t.context with frames := frames, pending := none } =
      { t.context with frames := frames } := by
    rw [← h.idle]
  rw [hidle]
  rfl

/-- A break drops the frames through the innermost loop. -/
theorem step_break (callee : Callee) {t : Execution} (h : Ready tree t) (rest : List Frame)
    {inner : List Frame} {loop : Frame}
    (hinner : ∀ frame ∈ inner, frame.phase.isLoop = false) (hloop : loop.phase.isLoop = true) :
    step callee ((t.withPending .breakLoop).withFrames (inner ++ loop :: rest)) =
      .done .running (t.withFrames rest) := by
  rw [step_withPending h]
  unfold stepJump
  rw [Action.bind_run, Action.get_run]
  simp only [Context.unwind, Context.fromLoop, frames_withFrames, dropWhile_loop rest hinner hloop]
  rw [← h.idle_frames rest]
  rfl

/-- A continue drops the frames above the innermost loop, which starts its next pass. -/
theorem step_continue (callee : Callee) {t : Execution} (h : Ready tree t) (rest : List Frame)
    {inner : List Frame} {loop : Frame}
    (hinner : ∀ frame ∈ inner, frame.phase.isLoop = false) (hloop : loop.phase.isLoop = true) :
    step callee ((t.withPending .continueLoop).withFrames (inner ++ loop :: rest)) =
      .done .running (t.withFrames (⟨loop.node, loop.phase.nextPass⟩ :: rest)) := by
  rw [step_withPending h]
  unfold stepJump
  rw [Action.bind_run, Action.get_run]
  simp only [Context.unwind, Context.fromLoop, frames_withFrames, dropWhile_loop rest hinner hloop]
  rw [← h.idle_frames]
  rfl

/-- A jump that no frame of a body takes interrupts the frames below the body. -/
theorem Interrupts.below_block {id : Nat} {rest frames : List Frame} {jump : Jump} {line : Nat}
    (h : Interrupts tree (fun below => ∃ next, below = ⟨id, .block next⟩ :: rest) frames
      jump line) :
    Interrupts tree (fun below => below = rest) frames jump line := by
  rcases h with ⟨hline, hreturn | ⟨inner, below, hframes, ⟨next, hbelow⟩, hinner⟩⟩
  · exact ⟨hline, .inl hreturn⟩
  · refine ⟨hline, .inr ⟨inner ++ [⟨id, .block next⟩], rest, ?_, rfl, ?_⟩⟩
    · rw [hframes, hbelow]
      simp
    · intro frame hframe
      rcases List.mem_append.1 hframe with hframe | hframe
      · exact hinner frame hframe
      · rw [List.mem_singleton] at hframe
        rw [hframe]
        rfl

/-- What interrupts the frame of a body interrupts the frames below it. -/
theorem Simulates.below_block {id : Nat} {rest : List Frame} {e : Execution}
    {outcome : Outcome Execution MachineError Completion}
    (h : Simulates callee tree bound last (fun below => ∃ next, below = ⟨id, .block next⟩ :: rest) e
      outcome) :
    Simulates callee tree bound last (fun below => below = rest) e outcome := by
  cases outcome with
  | done completion t =>
    cases completion with
    | normal => exact h
    | jumped jump line =>
      rcases h with ⟨hready, n, frames, hsteps, hinterrupts⟩
      exact ⟨hready, n, frames, hsteps, hinterrupts.below_block⟩
  | failed error t => exact h
  | exhausted => exact h

/-- A loop behind one of its passes. -/
theorem Simulates.behindPass {id : Nat} {phase : Nat → Phase} {pass : Phase} {rest : List Frame}
    {action again : Stepping Completion} {e s : Execution} {more : Nat}
    (h : Simulates callee tree bound (⟨id, pass⟩ :: rest)
      (fun below => ∃ next, below = ⟨id, phase next⟩ :: rest) e (action s))
    (hloop : ∀ next, (phase next).isLoop = true) (hpass : ∀ next, (phase next).nextPass = pass)
    (hmore : more ≤ bound)
    (hagain : ∀ t, Ready tree t → Simulates callee tree more rest (fun below => below = rest)
      (t.withFrames (⟨id, pass⟩ :: rest)) (again t)) :
    Simulates callee tree more rest (fun below => below = rest) e
      ((action >>= Structured.behindPass again) s) := by
  apply h.andThen hmore
  · intro t hready
    exact hagain t hready
  · intro jump line t frames hready hinterrupts
    rcases hinterrupts with ⟨hline, hreturn | ⟨inner, below, hframes, ⟨next, hbelow⟩, hinner⟩⟩
    · subst hreturn
      exact .of_jumped hready ⟨hline, .inl rfl⟩
    · subst hframes hbelow
      have hframe : (⟨id, phase next⟩ : Frame).phase.isLoop = true := hloop next
      cases jump with
      | returnValue => exact .of_jumped hready ⟨hline, .inl rfl⟩
      | breakLoop =>
        have hstep := step_break callee hready rest hinner hframe
        exact Simulates.behind_step hstep (.of_normal hready) (Nat.le_add_right more 2)
      | continueLoop =>
        have hstep := step_continue callee hready rest hinner hframe
        rw [show (⟨id, phase next⟩ : Frame).phase.nextPass = pass from hpass next] at hstep
        exact (hagain t hready).behind_step hstep (by omega)

end Structured
end ScriptMachine
