import ScriptMachine.Proofs.Forest
import ScriptMachine.Proofs.Locating
import ScriptMachine.Proofs.Simulation

/-!
# Scripts without loops

A step of a script without loops puts other frames in the place of the innermost one: that of a
child, say, and what is left of its parent.  They rank below the frame that was there, since links
lead further behind and the phases of a node only go forward.  Whatever the expressions answer, this
cannot go on forever.  A jump that is requested ends the run or makes it fail, for there is no loop
to break or to continue.  So such a run takes finitely many steps.

Main results:

- {lit}`Program.IsStraight`: a compiled program whose tree has no loop.
- {lit}`Frame.rank`: how much is left to do from a frame on.
- {lit}`Execution.stepFrame_lowers`: what takes the place of the innermost frame ranks below it.
- {lit}`acc_frames`: frames cannot be replaced by lower ones forever.
- {lit}`Execution.Straight.acc`: the steps of a script without loops come to an end.
-/

namespace ScriptMachine

/-! ## Trees without loops -/

/-- Whether a node is a loop. -/
def NodeKind.isLoop : NodeKind → Bool
  | .whileLoop | .forEach _ _ => true
  | .entry | .expression | .conditional _ _ | .elseIf | .otherwise => false

/-- A node starts in the phase of a loop if it is one. -/
theorem Phase.isLoop_start (kind : NodeKind) : (Phase.start kind).isLoop = kind.isLoop := by
  cases kind <;> rfl

/-- Links lead further behind, and no node is a loop. -/
structure Tree.IsStraight (tree : Tree) : Prop where
  onward : ∀ id node, tree.node? id = some node → ∀ link ∈ node.links, id < link
  noLoop : ∀ id node, tree.node? id = some node → node.kind.isLoop = false

/-- A program that was compiled from a source text and has no loop in its tree. -/
structure Program.IsStraight (program : Program) : Prop where
  compiled : ∃ globals commands number path source,
    compile globals commands number path source = .ok program
  noLoop : ∀ tree, program.tree = some tree → ∀ node ∈ tree.nodes.toList, node.kind.isLoop = false

/-- The tree of a compiled program is that of a script, so its links lead further behind. -/
theorem Program.IsStraight.tree {program : Program} (h : program.IsStraight) {tree : Tree}
    (htree : program.tree = some tree) : tree.IsStraight := by
  rcases h.compiled with ⟨globals, commands, number, path, source, hcompile⟩
  rcases exists_ofTree hcompile htree with
    ⟨script, compilation, hderives, -, -, hcompiled, rfl, -, -, -⟩
  rcases Compilation.ofTree_of_sound (program.scope globals commands)
    (script.tree_sound hderives.2) with ⟨other, hother, hshape, -⟩
  cases hcompiled.symm.trans hother
  refine ⟨fun id node hnode link hlink => ?_, fun id node hnode => ?_⟩
  · have hback : SameShape compilation.nodes script.tree.nodes := fun id => (hshape id).symm
    rcases hback.find hnode with ⟨bare, hbare, hkind, hchildren, -⟩
    rw [Node.links, ← hkind, ← hchildren] at hlink
    have honward := script.linkedOnward id bare (Array.getElem?_toList.trans hbare) link hlink
    rwa [Nat.zero_add] at honward
  · exact h.noLoop _ htree node (Array.mem_toList_iff.2 (Array.mem_of_getElem? hnode))

namespace Tree

/-- No node has more links than there is room for. -/
def HasRoom (tree : Tree) (room : Nat) : Prop :=
  ∀ id node, tree.node? id = some node → node.links.length ≤ room

/-- There is room for the links of all nodes. -/
theorem exists_hasRoom (tree : Tree) : ∃ room, tree.HasRoom room := by
  refine ⟨(tree.nodes.toList.map Node.links).flatten.length, fun id node hnode => ?_⟩
  have hmem : node ∈ tree.nodes.toList := Array.mem_toList_iff.2 (Array.mem_of_getElem? hnode)
  exact (List.sublist_flatten_of_mem (List.mem_map_of_mem hmem)).length_le

/-- The number of a node is below the number of nodes. -/
theorem lt_size_of_node? {tree : Tree} {id : Nat} {node : Node} (h : tree.node? id = some node) :
    id < tree.nodes.size :=
  (Array.getElem?_eq_some_iff.1 h).1

end Tree

/-! ## Ranks of frames -/

/-- What is left to do in a phase, if no node has more links than there is room for. -/
def Phase.left (room : Nat) : Phase → Nat
  | .block next => room - next
  | .branch tested => 2 * room + 1 - tested
  | .expression | .loopTest | .loopBody _ | .forEachStart | .forEachBind _ _
  | .forEachBody _ _ _ => 0

/-- How much is left to do from a frame on: nodes further behind come first, then phases. -/
def Frame.rank (size room : Nat) (frame : Frame) : Nat :=
  (size - frame.node) * (2 * room + 2) + frame.phase.left room

/-- What is left in a phase is less than one node further in front counts. -/
theorem Phase.left_lt (room : Nat) (phase : Phase) : phase.left room < 2 * room + 2 := by
  cases phase <;> simp only [left] <;> omega

section Ranks

variable {size room : Nat} {frame other : Frame}

/-- A frame of a node further behind ranks lower. -/
theorem Frame.rank_lt_of_node (hlink : frame.node < other.node) (hsize : frame.node < size) :
    other.rank size room < frame.rank size room := by
  have hnodes : size - other.node + 1 ≤ size - frame.node := by omega
  have hscaled := Nat.mul_le_mul_right (2 * room + 2) hnodes
  rw [Nat.succ_mul] at hscaled
  have hleft := other.phase.left_lt room
  unfold rank
  omega

/-- A later phase of a node ranks lower. -/
theorem Frame.rank_lt_of_phase (hnode : other.node = frame.node)
    (hphase : other.phase.left room < frame.phase.left room) :
    other.rank size room < frame.rank size room := by
  unfold rank
  rw [hnode]
  exact Nat.add_lt_add_left hphase _

end Ranks

/-- Lower frames take the place of a frame, and none of them is in the phase of a loop. -/
def Frame.Lowers (size room : Nat) (frame : Frame) (rest frames : List Frame) : Prop :=
  ∃ fresh, frames = fresh ++ rest ∧
    ∀ other ∈ fresh, other.phase.isLoop = false ∧ other.rank size room < frame.rank size room

/-- Frames that come of others when lower ones take the place of the innermost one. -/
def FramesLower (size room : Nat) (later earlier : List Frame) : Prop :=
  ∃ frame rest, earlier = frame :: rest ∧ frame.Lowers size room rest later

/-- A frame on top of others does not go on forever if those do not. -/
theorem acc_cons {size room : Nat} (frame : Frame) {rest : List Frame}
    (hrest : Acc (FramesLower size room) rest) : Acc (FramesLower size room) (frame :: rest) := by
  generalize hrank : frame.rank size room = rank
  induction rank using Nat.strongRecOn generalizing frame rest with
  | ind rank ih =>
    refine .intro _ ?_
    rintro frames ⟨_, _, heq, fresh, rfl, hfresh⟩
    cases heq
    -- The new frames are put on top of the old ones one by one.
    induction fresh with
    | nil => exact hrest
    | cons other fresh ih' =>
      have hlower := (hfresh other List.mem_cons_self).2
      exact ih _ (hrank ▸ hlower) other (ih' fun f hf => hfresh f (List.mem_cons_of_mem _ hf)) rfl

/-- Lower frames cannot take the place of others forever. -/
theorem acc_frames (size room : Nat) (frames : List Frame) :
    Acc (FramesLower size room) frames := by
  induction frames with
  | nil =>
    refine .intro _ ?_
    rintro frames ⟨_, _, heq, -⟩
    cases heq
  | cons frame rest ih => exact acc_cons frame ih

/-! ## Steps -/

namespace Execution

section Frames

variable {tree : Tree} {room : Nat} (hstraight : tree.IsStraight) (hroom : tree.HasRoom room)
  {node : Node} {frame : Frame} (hnode : tree.node? frame.node = some node) (rest : List Frame)
include hstraight hroom hnode

/-- A body puts the frame of its next child on its own, or ends. -/
theorem startChild_lowers {next : Nat} (hphase : frame.phase = .block next) :
    (Action.ofExcept (startChild tree node next (⟨frame.node, .block (next + 1)⟩ :: rest) rest) :
      Stepping (List Frame)).Answers (frame.Lowers tree.nodes.size room rest) := by
  refine .ofExcept fun frames hstart => ?_
  unfold startChild at hstart
  split at hstart
  · next child hchild =>
    unfold startNode nodeOf at hstart
    cases hfound : tree.node? child with
    | none =>
      rw [hfound] at hstart
      cases hstart
    | some found =>
      rw [hfound] at hstart
      cases hstart
      have hlinked : child ∈ node.links := List.mem_append_left _ (List.mem_of_getElem? hchild)
      have hnext : next < room :=
        Nat.lt_of_lt_of_le (List.getElem?_eq_some_iff.1 hchild).1
          (Nat.le_trans (by simp [Node.links]) (hroom _ _ hnode))
      refine ⟨[⟨child, .start found.kind⟩, ⟨frame.node, .block (next + 1)⟩], rfl, ?_⟩
      intro other hother
      rcases List.mem_cons.1 hother with rfl | hother
      · exact ⟨(Phase.isLoop_start _).trans (hstraight.noLoop _ _ hfound),
          Frame.rank_lt_of_node (hstraight.onward _ _ hnode child hlinked)
            (Tree.lt_size_of_node? hnode)⟩
      · rw [List.mem_singleton.1 hother]
        refine ⟨rfl, Frame.rank_lt_of_phase rfl ?_⟩
        simp only [hphase, Phase.left]
        omega
  · cases hstart
    exact ⟨[], rfl, fun other hother => by cases hother⟩

/-- A conditional goes on with its next branch, or the branch that is taken takes its place. -/
theorem stepBranch_lowers (callee : Callee) {tested : Nat} {elseIfs : List Nat}
    {elseBranch : Option Nat} (hphase : frame.phase = .branch tested)
    (hkind : node.kind = .conditional elseIfs elseBranch) :
    (stepBranch callee tree frame.node tested elseIfs elseBranch rest).Answers
      (frame.Lowers tree.nodes.size room rest) := by
  have hsize := Tree.lt_size_of_node? hnode
  have honly : ∀ {other : Frame}, other.phase.isLoop = false →
      other.rank tree.nodes.size room < frame.rank tree.nodes.size room →
        frame.Lowers tree.nodes.size room rest (other :: rest) :=
    fun {other} hloop hrank => ⟨[other], rfl, fun _ h => by
      rw [List.mem_singleton.1 h]
      exact ⟨hloop, hrank⟩⟩
  have hlinked : ∀ link ∈ elseIfs ++ elseBranch.toList, frame.node < link := fun link hlink =>
    hstraight.onward _ _ hnode link (List.mem_append_right _ (by
      simpa [hkind, NodeKind.elseIfs, NodeKind.elseBranch?] using hlink))
  unfold stepBranch
  split
  · cases elseBranch with
    | none => exact .pure ⟨[], rfl, fun other hother => by cases hother⟩
    | some branch =>
      refine .pure (honly rfl (Frame.rank_lt_of_node (hlinked branch ?_) hsize))
      exact List.mem_append_right _ (List.mem_singleton.2 rfl)
  · next branch hbranch =>
    have htested : tested ≤ room := by
      have hlength := (List.getElem?_eq_some_iff.1 hbranch).1
      have hlinks := hroom _ _ hnode
      simp only [Node.links, hkind, NodeKind.elseIfs, List.length_append] at hlinks
      rw [List.length_cons] at hlength
      omega
    refine .behind fun found => .behind fun b => ?_
    split
    · refine .pure (honly rfl ?_)
      rcases List.mem_cons.1 (List.mem_of_getElem? hbranch) with rfl | hmem
      · refine Frame.rank_lt_of_phase rfl ?_
        simp only [hphase, Phase.left]
        omega
      · exact Frame.rank_lt_of_node (hlinked branch (List.mem_append_left _ hmem)) hsize
    · refine .pure (honly rfl (Frame.rank_lt_of_phase rfl ?_))
      simp only [hphase, Phase.left]
      omega

/-- What takes the place of the innermost frame ranks below it. -/
theorem stepFrame_lowers (callee : Callee) :
    (stepFrame callee tree node frame rest).Answers (frame.Lowers tree.nodes.size room rest) := by
  have hnone : frame.Lowers tree.nodes.size room rest rest :=
    ⟨[], rfl, fun other hother => by cases hother⟩
  have hloop := hstraight.noLoop _ _ hnode
  unfold stepFrame
  simp only
  split
  · next hphase _ => exact startChild_lowers hstraight hroom hnode rest hphase
  · next hphase _ => exact startChild_lowers hstraight hroom hnode rest hphase
  · next hphase _ => exact startChild_lowers hstraight hroom hnode rest hphase
  · next hphase _ => exact startChild_lowers hstraight hroom hnode rest hphase
  · exact .behind fun _ => .pure hnone
  · next hphase hkind => exact stepBranch_lowers hstraight hroom hnode rest callee hphase hkind
  · next hkind => exact absurd hloop (by simp [hkind, NodeKind.isLoop])
  · next hkind => exact absurd hloop (by simp [hkind, NodeKind.isLoop])
  · next hkind => exact absurd hloop (by simp [hkind, NodeKind.isLoop])
  · next hkind => exact absurd hloop (by simp [hkind, NodeKind.isLoop])
  · next hkind => exact absurd hloop (by simp [hkind, NodeKind.isLoop])
  · exact .fail

end Frames
end Execution

/-! ## Runs -/

namespace Execution

/-- A step leads on from one execution to another, whatever runs other scripts. -/
def StepsTo (e e' : Execution) : Prop :=
  ∃ callee : Callee, callee.Keeps ∧ step callee e = .done .running e'

/-- The tree of an execution, and that no frame is in the phase of a loop. -/
structure Straight (tree : Tree) (e : Execution) : Prop where
  tree : e.context.program.tree = some tree
  outside : ∀ frame ∈ e.context.frames, frame.phase.isLoop = false

/-- A step outside of loops is the work of the innermost frame. -/
theorem exists_frame_of_step {callee : Callee} {tree : Tree} {e e' : Execution}
    (h : e.Straight tree) (hstep : step callee e = .done .running e') :
    ∃ frame rest top t, e.context.frames = frame :: rest ∧ tree.node? frame.node = some top ∧
      stepFrame callee tree top frame rest e = .done e'.context.frames t := by
  cases hpending : e.context.pending with
  | some jump =>
    rcases unwind_of_step_done hpending hstep with ⟨other, -, hunwind⟩
    have hfrom : e.context.fromLoop = [] := Structured.dropWhile_outside h.outside
    cases jump <;> simp [Context.unwind, hfrom] at hunwind
  | none =>
    have hworks := step_works callee hpending h.tree
    rw [hstep] at hworks
    generalize houtcome : Outcome.done Status.running e' = outcome at hworks
    cases hworks with
    | refused => cases houtcome
    | finished => cases houtcome
    | @work frame rest top hframes htop _ =>
      refine ⟨frame, rest, top, ?_⟩
      cases hrun : stepFrame callee tree top frame rest e with
      | done frames t =>
        rw [hrun] at houtcome
        cases houtcome
        exact ⟨t, hframes, htop, rfl⟩
      | failed error t =>
        rw [hrun] at houtcome
        cases houtcome
      | exhausted =>
        rw [hrun] at houtcome
        cases houtcome

/-- After a step outside of loops there are lower frames, and no loop has been entered. -/
theorem Straight.step {tree : Tree} (hstraight : tree.IsStraight) {room : Nat}
    (hroom : tree.HasRoom room) {e e' : Execution} (h : e.Straight tree) (hstep : e.StepsTo e') :
    e'.Straight tree ∧ FramesLower tree.nodes.size room e'.context.frames e.context.frames := by
  rcases hstep with ⟨callee, hcallee, hstep⟩
  rcases exists_frame_of_step h hstep with ⟨frame, rest, top, t, hframes, htop, hwork⟩
  have hlowers := stepFrame_lowers hstraight hroom htop rest callee e _ t hwork
  have hprogram := ((step_continues hcallee).of_done hstep).context.program
  refine ⟨⟨by rw [hprogram]; exact h.tree, fun other hother => ?_⟩, frame, rest, hframes, hlowers⟩
  rcases hlowers with ⟨fresh, hfresh, hlower⟩
  rw [hfresh] at hother
  rcases List.mem_append.1 hother with hother | hother
  · exact (hlower other hother).1
  · exact h.outside other (by rw [hframes]; exact List.mem_cons_of_mem _ hother)

/-- The steps of a script without loops come to an end. -/
theorem Straight.acc {tree : Tree} (hstraight : tree.IsStraight) {e : Execution}
    (h : e.Straight tree) : Acc (fun later earlier => StepsTo earlier later) e := by
  rcases tree.exists_hasRoom with ⟨room, hroom⟩
  generalize hframes : e.context.frames = frames
  have hacc := acc_frames tree.nodes.size room frames
  induction hacc generalizing e with
  | intro frames _ ih =>
    refine .intro e fun later hstep => ?_
    rcases h.step hstraight hroom hstep with ⟨hlater, hlower⟩
    exact ih _ (hframes ▸ hlower) hlater rfl

/-- A run from the entry block starts outside of all loops. -/
theorem straight_beginRun {tree : Tree} {context : Context} (m : Machine)
    (htree : context.program.tree = some tree) (root : Nat) :
    Straight tree ⟨m, context.beginRun root⟩ where
  tree := htree
  outside := fun frame hframe => by
    rw [List.mem_singleton.1 hframe]
    rfl

end Execution
end ScriptMachine
