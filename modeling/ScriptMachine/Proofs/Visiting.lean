import Mathlib.Logic.Relation
import ScriptMachine.Proofs.Forest
import ScriptMachine.Proofs.Translating

/-!
# Every expression is compiled once

Compilation walks through a syntax tree along its links, and nothing keeps it from walking on for
ever, or from meeting a node twice, but the shape of the tree.  In a forest links lead further
behind, so the walk ends, and what lies below two links of a node is apart, so every node is met once
at most.  As every node hangs below the entry block, each of them is met.

What becomes of a node is decided by its own expression: what was referred to before has no part in
it, and an expression that does not compile leaves all others as they are.

Main results:

- {lit}`Tree.Walk`: a walk through a tree, however deep it is.
- {lit}`Tree.IsForest.walk`: in a forest the walk ends.
- {lit}`Tree.Walk.mem_iff` and {lit}`Tree.Walk.nodup`: the nodes that it meets.
- {lit}`Expr.resolve_oblivious`: what an expression compiles to, or why it does not, does not depend on
  what was referred to before.
- {lit}`Compilation.diagnostics_foldlM`: the complaints about some nodes.
- {lit}`Program.generate_exact`: what compilation makes of a script that is parsed.
-/

namespace ScriptMachine

open Source Text

/-! ## Nodes below others -/

namespace Tree

/-- A node has a link to another. -/
def Links (tree : Tree) (id link : Nat) : Prop :=
  ∃ node, tree.node? id = some node ∧ link ∈ node.links

/-- A node lies at or below another. -/
abbrev Reaches (tree : Tree) : Nat → Nat → Prop :=
  Relation.ReflTransGen tree.Links

/-- What lies at or below a node. -/
theorem reaches_iff {tree : Tree} {id below : Nat} {node : Node} (hnode : tree.node? id = some node) :
    tree.Reaches id below ↔ below = id ∨ ∃ link ∈ node.links, tree.Reaches link below := by
  refine Relation.ReflTransGen.cases_head_iff.trans ⟨?_, ?_⟩
  · rintro (rfl | ⟨link, ⟨found, hfound, hlink⟩, hbelow⟩)
    · exact .inl rfl
    · rw [hnode] at hfound
      cases hfound
      exact .inr ⟨link, hlink, hbelow⟩
  · rintro (rfl | ⟨link, hlink, hbelow⟩)
    · exact .inl rfl
    · exact .inr ⟨link, ⟨node, hnode, hlink⟩, hbelow⟩

namespace IsForest

variable {tree : Tree}

/-- A link leads further behind, and no other node has it. -/
theorem of_links (h : tree.IsForest) {id link : Nat} (hlink : tree.Links id link) :
    id < link ∧ link < tree.nodes.size ∧ ∀ other, tree.Links other link → other = id := by
  rcases hlink with ⟨node, hnode, hmem⟩
  have hlt := h.links_lt id node hnode link hmem
  rcases h.links_free id node hnode link hmem with ⟨hroot, hinitializer⟩
  rcases h.exists_parent link hlt hroot hinitializer with ⟨parent, -, -, hless, -, hunique⟩
  rcases hunique id node hnode hmem with rfl
  exact ⟨hless, hlt, fun other ⟨above, habove, hother⟩ => hunique other above habove hother⟩

/-- The links of a node are different. -/
theorem nodup_links (h : tree.IsForest) {id : Nat} {node : Node} (hnode : tree.node? id = some node) :
    node.links.Nodup := by
  rw [List.nodup_iff_count_le_one]
  intro link
  by_cases hmem : link ∈ node.links
  · have hlt := h.links_lt id node hnode link hmem
    rcases h.links_free id node hnode link hmem with ⟨hroot, hinitializer⟩
    rcases h.exists_parent link hlt hroot hinitializer with
      ⟨parent, above, habove, -, hcount, hunique⟩
    rcases hunique id node hnode hmem with rfl
    rw [hnode] at habove
    cases habove
    exact Nat.le_of_eq hcount
  · rw [List.count_eq_zero_of_not_mem hmem]
    exact Nat.zero_le 1

/-- What lies at or below a node does not come in front of it. -/
theorem le_of_reaches (h : tree.IsForest) {id below : Nat} (hbelow : tree.Reaches id below) :
    id ≤ below := by
  induction hbelow with
  | refl => exact Nat.le_refl id
  | tail _ hlink ih => exact Nat.le_of_lt (Nat.lt_of_le_of_lt ih (h.of_links hlink).1)

/-- Of two nodes with a common node below them, one lies below the other. -/
theorem reaches_or_reaches (h : tree.IsForest) {first second below : Nat}
    (hfirst : tree.Reaches first below) (hsecond : tree.Reaches second below) :
    tree.Reaches first second ∨ tree.Reaches second first := by
  induction hfirst with
  | refl => exact .inr hsecond
  | tail hmiddle hlink ih =>
    rcases Relation.ReflTransGen.cases_tail hsecond with rfl | ⟨parent, hparent, hlink'⟩
    · exact .inl (hmiddle.tail hlink)
    · rcases (h.of_links hlink).2.2 parent hlink' with rfl
      exact ih hparent

/-- A link of a node lies below no other link of it. -/
theorem not_reaches_of_links (h : tree.IsForest) {id first second : Nat}
    (hfirst : tree.Links id first) (hsecond : tree.Links id second) (hne : first ≠ second) :
    ¬ tree.Reaches first second := by
  intro hbelow
  rcases Relation.ReflTransGen.cases_tail hbelow with hsame | ⟨parent, hparent, hlink⟩
  · exact hne hsame.symm
  · rcases (h.of_links hsecond).2.2 parent hlink with rfl
    exact absurd (h.of_links hfirst).1 (Nat.not_lt.2 (h.le_of_reaches hparent))

/-- Nothing lies below two links of a node. -/
theorem apart_of_links (h : tree.IsForest) {id first second below : Nat}
    (hfirst : tree.Links id first) (hsecond : tree.Links id second) (hne : first ≠ second)
    (hbelow : tree.Reaches first below) : ¬ tree.Reaches second below := by
  intro hbelow'
  rcases h.reaches_or_reaches hbelow hbelow' with hunder | hunder
  · exact h.not_reaches_of_links hfirst hsecond hne hunder
  · exact h.not_reaches_of_links hsecond hfirst hne.symm hunder

/-- Everything but the initializers lies below the root, when nothing lies below initializers. -/
theorem reaches_root (h : tree.IsForest)
    (hleaves : ∀ id ∈ tree.initializers, ∀ link, ¬ tree.Links id link) (id : Nat)
    (hid : id < tree.nodes.size) (hinitializer : id ∉ tree.initializers) :
    tree.Reaches tree.root id := by
  induction id using Nat.strongRecOn with
  | _ id ih =>
    by_cases hroot : id = tree.root
    · rw [hroot]
    · rcases h.exists_parent id hid hroot hinitializer with ⟨parent, above, habove, hless, hcount, -⟩
      have hmem : id ∈ above.links := List.count_pos_iff.1 (by omega)
      have hlink : tree.Links parent id := ⟨above, habove, hmem⟩
      have hparent : parent ∉ tree.initializers := fun hparent => hleaves parent hparent id hlink
      exact (ih parent hless (Nat.lt_trans hless hid) hparent).tail hlink

/-- No initializer lies below the root. -/
theorem not_mem_initializers_of_reaches (h : tree.IsForest) (hroot : tree.root ∉ tree.initializers)
    {id : Nat} (hbelow : tree.Reaches tree.root id) : id ∉ tree.initializers := by
  rcases Relation.ReflTransGen.cases_tail hbelow with rfl | ⟨parent, -, above, habove, hlink⟩
  · exact hroot
  · exact (h.links_free parent above habove id hlink).2

end IsForest
end Tree

/-! ## Walks -/

/-- Where compilation goes from a node: a conditional is followed by its else branch, that by the
other branches, and the body comes last. -/
def Node.next (node : Node) : List Nat :=
  match node.kind with
  | .expression => []
  | .conditional elseIfs elseBranch => elseBranch.toList ++ elseIfs ++ node.children
  | .entry | .elseIf | .otherwise | .whileLoop | .forEach _ _ => node.children

/-- Compilation goes along every link of a node, if leaves have none. -/
theorem Node.next_perm {node : Node} (hleaf : node.kind = .expression → node.links = []) :
    node.next.Perm node.links := by
  rcases node with ⟨kind, source, expression, line, children, code⟩
  cases kind with
  | expression =>
    rw [hleaf rfl]
    exact .refl _
  | conditional elseIfs elseBranch =>
    have hbranches : (elseBranch.toList ++ elseIfs).Perm (elseIfs ++ elseBranch.toList) :=
      List.perm_append_comm
    exact (hbranches.append_right children).trans List.perm_append_comm
  | entry | elseIf | otherwise | whileLoop | forEach => simp [next, links, NodeKind.elseIfs,
      NodeKind.elseBranch?]

namespace Tree

mutual

/-- A walk through a tree from a node, with the nodes that it hands over: the node itself if it has an
expression to evaluate, and then those of the walks from everything that follows. -/
inductive Walk (tree : Tree) : Nat → List Nat → Prop
  | node {id : Nat} {node : Node} {walked : List Nat} (hnode : tree.node? id = some node)
      (hnext : WalkAll tree node.next walked) :
      Walk tree id ((if node.kind.isEvaluated then [id] else []) ++ walked)

/-- Walks from several nodes, one after the other. -/
inductive WalkAll (tree : Tree) : List Nat → List Nat → Prop
  | nil : WalkAll tree [] []
  | cons {id : Nat} {rest first others : List Nat} (hfirst : Walk tree id first)
      (hrest : WalkAll tree rest others) : WalkAll tree (id :: rest) (first ++ others)

end

/-- Leaves have no links. -/
def EndsAtLeaves (tree : Tree) : Prop :=
  ∀ (id : Nat) (node : Node), tree.node? id = some node → node.kind = .expression → node.links = []

section Walks

variable {tree : Tree} {id visited : Nat} {ids walked : List Nat}

/-- One step of compilation. -/
theorem visitsFrom_eq {node : Node} (hnode : tree.node? id = some node) (depth : Nat) :
    visitsFrom tree.nodes (depth + 1) id =
      (if node.kind.isEvaluated then [id] else []) ++
        node.next.flatMap (visitsFrom tree.nodes depth) := by
  have hnode' : tree.nodes[id]? = some node := hnode
  rw [visitsFrom_succ hnode']
  unfold Node.next
  cases node.kind <;> simp [NodeKind.isEvaluated, NodeKind.elseBranch?, NodeKind.elseIfs]

/-- Walks from several nodes are there if there is one from each of them. -/
theorem WalkAll.of_forall (visits : Nat → List Nat) (h : ∀ id ∈ ids, tree.Walk id (visits id)) :
    tree.WalkAll ids (ids.flatMap visits) := by
  induction ids with
  | nil => exact .nil
  | cons first rest ih =>
    exact .cons (h first (List.mem_cons_self ..))
      (ih fun id hid => h id (List.mem_cons_of_mem _ hid))

/-- In a forest a walk ends: as links lead further behind, it goes no deeper than there are nodes
left. -/
theorem IsForest.walk (h : tree.IsForest) (hleaf : tree.EndsAtLeaves) (depth id : Nat)
    (hid : id < tree.nodes.size) (hdepth : tree.nodes.size ≤ id + depth) :
    tree.Walk id (visitsFrom tree.nodes depth id) := by
  induction depth generalizing id with
  | zero => omega
  | succ depth ih =>
    have hnode : tree.node? id = some tree.nodes[id] := Array.getElem?_eq_getElem hid
    rw [visitsFrom_eq hnode]
    refine .node hnode (.of_forall _ fun link hlink => ?_)
    have hmem := (Node.next_perm (hleaf id _ hnode)).subset hlink
    rcases h.of_links ⟨_, hnode, hmem⟩ with ⟨hless, hlt, -⟩
    exact ih link hlt (by omega)

mutual

/-- A walk hands over the evaluated nodes that lie at or below its start. -/
theorem Walk.mem_iff (hleaf : tree.EndsAtLeaves) : {id : Nat} → {walked : List Nat} →
    tree.Walk id walked → (visited ∈ walked ↔ tree.Reaches id visited ∧
      Leads tree.nodes (fun kind => kind.isEvaluated = true) visited)
  | id, _, @Walk.node _ _ node _ hnode hnext => by
    have hself : (visited ∈ if node.kind.isEvaluated then [id] else []) ↔
        visited = id ∧ Leads tree.nodes (fun kind => kind.isEvaluated = true) visited := by
      cases hkind : node.kind.isEvaluated with
      | false =>
        refine ⟨fun hmem => absurd hmem List.not_mem_nil, ?_⟩
        rintro ⟨rfl, found, hfound, hevaluated⟩
        rw [show tree.nodes[visited]? = some node from hnode] at hfound
        cases hfound
        rw [hkind] at hevaluated
        cases hevaluated
      | true =>
        refine List.mem_singleton.trans ⟨?_, And.left⟩
        rintro rfl
        exact ⟨rfl, node, hnode, hkind⟩
    simp only [List.mem_append, hself, WalkAll.mem_iff hleaf hnext, reaches_iff hnode, or_and_right,
      (Node.next_perm (hleaf id node hnode)).mem_iff]

/-- Walks from several nodes hand over the evaluated nodes at or below them. -/
theorem WalkAll.mem_iff (hleaf : tree.EndsAtLeaves) : {ids walked : List Nat} →
    tree.WalkAll ids walked → (visited ∈ walked ↔ (∃ id ∈ ids, tree.Reaches id visited) ∧
      Leads tree.nodes (fun kind => kind.isEvaluated = true) visited)
  | _, _, .nil => by simp
  | _, _, .cons hfirst hrest => by
    rw [List.mem_append, Walk.mem_iff hleaf hfirst, WalkAll.mem_iff hleaf hrest, ← or_and_right]
    simp

end

mutual

/-- In a forest a walk hands over no node twice. -/
theorem Walk.nodup (h : tree.IsForest) (hleaf : tree.EndsAtLeaves) : {id : Nat} →
    {walked : List Nat} → tree.Walk id walked → walked.Nodup
  | id, _, @Walk.node _ _ node walked hnode hnext => by
    have hperm := Node.next_perm (hleaf id node hnode)
    have hlinks : ∀ {link : Nat}, link ∈ node.next → tree.Links id link := fun hlink =>
      ⟨node, hnode, hperm.subset hlink⟩
    have hapart : node.next.Pairwise fun first second =>
        ∀ below, tree.Reaches first below → ¬ tree.Reaches second below :=
      (hperm.nodup_iff.2 (h.nodup_links hnode)).imp_of_mem
        fun hfirst hsecond hne _ => h.apart_of_links (hlinks hfirst) (hlinks hsecond) hne
    -- The node itself does not come again, since everything that follows lies behind it.
    have hself : id ∉ walked := by
      intro hmem
      rcases ((WalkAll.mem_iff hleaf hnext).1 hmem).1 with ⟨link, hlink, hback⟩
      exact absurd (h.of_links (hlinks hlink)).1 (Nat.not_lt.2 (h.le_of_reaches hback))
    have hrest := WalkAll.nodup h hleaf hnext hapart
    cases node.kind.isEvaluated with
    | false => exact hrest
    | true => exact List.nodup_cons.2 ⟨hself, hrest⟩

/-- In a forest walks from nodes without a common node below them hand over no node twice. -/
theorem WalkAll.nodup (h : tree.IsForest) (hleaf : tree.EndsAtLeaves) : {ids walked : List Nat} →
    tree.WalkAll ids walked → ids.Pairwise (fun first second => ∀ below, tree.Reaches first below →
      ¬ tree.Reaches second below) → walked.Nodup
  | _, _, .nil, _ => List.nodup_nil
  | _, _, .cons hfirst hrest, hapart => by
    rcases List.pairwise_cons.1 hapart with ⟨hhead, htail⟩
    refine List.nodup_append.2 ⟨Walk.nodup h hleaf hfirst, WalkAll.nodup h hleaf hrest htail, ?_⟩
    rintro visited hvisited _ hothers rfl
    rcases ((WalkAll.mem_iff hleaf hrest).1 hothers).1 with ⟨id, hid, hbelow⟩
    exact hhead id hid visited ((Walk.mem_iff hleaf hfirst).1 hvisited).1 hbelow

end

end Walks

/-! ## Visits -/

/-- Compilation visits a tree: its walk from the root ends, everything but the initializers lies below
the root, and the nodes that it hands over, behind the initializers, are those with an expression, each
of them once. -/
structure IsVisited (tree : Tree) : Prop where
  walk : ∃ walked, tree.Walk tree.root walked ∧ tree.visits = tree.initializers ++ walked
  reached : ∀ id < tree.nodes.size, id ∈ tree.initializers ∨ tree.Reaches tree.root id
  nodup : tree.visits.Nodup
  mem_visits : ∀ id : Nat, id ∈ tree.visits ↔
    ∃ node, tree.node? id = some node ∧ node.expression.isSome = true

/-- The initializers of a proper tree are leaves with an expression. -/
theorem Proper.leaf_of_mem_initializers {tree : Tree} {declarations : List Variable}
    {parameters : List Nat} (h : tree.Proper declarations parameters) {id : Nat}
    (hid : id ∈ tree.initializers) : ∃ node, tree.node? id = some node ∧ node.kind = .expression ∧
      node.links = [] := by
  have hmem : tree.node? id ∈ tree.initializers.map tree.node? := List.mem_map_of_mem hid
  rw [h.initializers] at hmem
  rcases List.mem_map.1 hmem with ⟨node, hfound, hnode⟩
  refine ⟨node, hnode.symm, ?_⟩
  rcases List.mem_filterMap.1 hfound with ⟨⟨declared, slot⟩, -, hinitializer⟩
  simp only at hinitializer
  split at hinitializer
  · cases hinitializer
  · rcases Option.map_eq_some_iff.1 hinitializer with ⟨text, -, rfl⟩
    exact ⟨rfl, rfl⟩

/-- Compilation visits a proper tree. -/
theorem Proper.isVisited {tree : Tree} {declarations : List Variable} {parameters : List Nat}
    (h : tree.Proper declarations parameters) : tree.IsVisited := by
  have hwalk := h.forest.walk h.leaf tree.nodes.size tree.root h.forest.root_lt (by omega)
  have hleaves : ∀ id ∈ tree.initializers, ∀ link, ¬ tree.Links id link := by
    rintro id hid link ⟨node, hnode, hlink⟩
    rcases h.leaf_of_mem_initializers hid with ⟨found, hfound, -, hnone⟩
    rw [hnode] at hfound
    cases hfound
    rw [hnone] at hlink
    cases hlink
  have hroot : tree.root ∉ tree.initializers := by
    intro hid
    rcases h.leaf_of_mem_initializers hid with ⟨found, hfound, hkind, -⟩
    rw [(h.entry _ found hfound).2 rfl] at hkind
    cases hkind
  have hevaluated : ∀ {id : Nat} {node : Node}, tree.node? id = some node →
      (node.expression.isSome = true ↔ node.kind.isEvaluated = true) := by
    intro id node hnode
    rw [← not_iff_not, Bool.not_eq_true, Option.isSome_eq_false_iff, Option.isNone_iff_eq_none,
      h.expression id node hnode]
    cases node.kind <;> simp [NodeKind.isEvaluated]
  have hreached : ∀ id < tree.nodes.size, id ∈ tree.initializers ∨ tree.Reaches tree.root id :=
    fun id hid => or_iff_not_imp_left.2 fun hinitializer =>
      h.forest.reaches_root hleaves id hid hinitializer
  refine ⟨⟨_, hwalk, rfl⟩, hreached, ?_, fun id => ?_⟩
  · refine List.nodup_append.2 ⟨h.forest.initializers_nodup, hwalk.nodup h.forest h.leaf, ?_⟩
    rintro id hid _ hwalked rfl
    exact h.forest.not_mem_initializers_of_reaches hroot ((hwalk.mem_iff h.leaf).1 hwalked).1 hid
  · unfold visits
    rw [List.mem_append, hwalk.mem_iff h.leaf]
    constructor
    · rintro (hid | ⟨-, node, hnode, hkind⟩)
      · rcases h.leaf_of_mem_initializers hid with ⟨node, hnode, hkind, -⟩
        exact ⟨node, hnode, (hevaluated hnode).2 (by rw [hkind]; rfl)⟩
      · exact ⟨node, hnode, (hevaluated hnode).2 hkind⟩
    · rintro ⟨node, hnode, hexpression⟩
      have hlt : id < tree.nodes.size := (Array.getElem?_eq_some_iff.1 hnode).1
      exact (hreached id hlt).imp_right fun hbelow =>
        ⟨hbelow, node, hnode, (hevaluated hnode).1 hexpression⟩

end Tree

/-! ## Complaints -/

section Oblivious

variable {α β : Type}

/-- What a compilation step answers, or why it fails, apart from the references. -/
def Resolve.verdict (step : Resolve α) (before : References) : Except ExprError α :=
  match step.run before with
  | .ok x _ => .ok x
  | .error e _ => .error e

/-- A compilation step comes out the same whatever was referred to before. -/
def Resolve.Oblivious (step : Resolve α) : Prop :=
  ∀ before other, step.verdict before = step.verdict other

namespace Resolve.Oblivious

theorem pure (x : α) : Resolve.Oblivious (pure x : Resolve α) :=
  fun _ _ => rfl

theorem throw (e : ExprError) : Resolve.Oblivious (throw e : Resolve α) :=
  fun _ _ => rfl

theorem modify (change : References → References) :
    Resolve.Oblivious (modify change : Resolve PUnit) :=
  fun _ _ => rfl

/-- A sequence of steps comes out the same. -/
theorem bind {step : Resolve α} {next : α → Resolve β} (h : step.Oblivious)
    (hnext : ∀ x, (next x).Oblivious) : (step >>= next).Oblivious := by
  intro before other
  have hsame := h before other
  unfold verdict at hsame ⊢
  rw [EStateM.run_bind, EStateM.run_bind]
  cases hstep : step.run before with
  | ok x after =>
    cases hstep' : step.run other with
    | ok y after' =>
      rw [hstep, hstep'] at hsame
      cases hsame
      exact hnext x after after'
    | error e after' =>
      rw [hstep, hstep'] at hsame
      cases hsame
  | error e after =>
    cases hstep' : step.run other with
    | ok y after' =>
      rw [hstep, hstep'] at hsame
      cases hsame
    | error e' after' =>
      rw [hstep, hstep'] at hsame
      cases hsame
      rfl

end Resolve.Oblivious
end Oblivious

namespace Expr

variable {scope : Scope}

/-- What a name stands for. -/
theorem resolveName_oblivious (name : String) : (resolveName scope name).Oblivious := by
  unfold resolveName
  split
  · exact .pure _
  · split
    · exact .bind (.modify _) fun _ => .pure _
    · exact .throw _

/-- What a call comes to. -/
theorem resolveCall_oblivious (name : String) (arguments : List Expr) :
    (resolveCall scope name arguments).Oblivious := by
  unfold resolveCall
  split
  · exact .throw _
  · have hcall (command : Command) : Resolve.Oblivious (do
        modify fun references => references.addCommand command.signature.name
        return call command.signature.name arguments) := .bind (.modify _) fun _ => .pure _
    dsimp only
    split
    · split
      · exact .bind (.throw _) fun _ => hcall _
      · exact hcall _
    · exact hcall _

mutual

/-- What a term comes to does not depend on what was referred to before. -/
theorem resolve_oblivious : (term : Term) → (resolve scope term).Oblivious
  | .number digits => by
    unfold resolve resolveNumber
    split
    · exact .pure _
    · exact .throw _
  | .text s => by
    unfold resolve
    exact .pure _
  | .reference digits => by
    unfold resolve resolveReference
    split
    · exact .pure _
    · exact .throw _
  | .name identifier => by
    unfold resolve
    exact .bind (resolveName_oblivious identifier) fun _ => .pure _
  | .index target position => by
    unfold resolve
    exact .bind (resolve_oblivious target) fun _ => .bind (resolve_oblivious position) fun _ => .pure _
  | .unary op operand => by
    unfold resolve
    exact .bind (resolve_oblivious operand) fun _ => .pure _
  | .binary op left right => by
    unfold resolve
    exact .bind (resolve_oblivious left) fun _ => .bind (resolve_oblivious right) fun _ => .pure _
  | .assign identifier positions op value => by
    unfold resolve
    exact .bind (resolve_oblivious value) fun _ => .bind (resolveName_oblivious identifier) fun _ =>
      .bind (resolveList_oblivious positions) fun _ => .pure _
  | .call identifier arguments => by
    unfold resolve
    exact .bind (resolveList_oblivious arguments) fun _ => resolveCall_oblivious identifier _

/-- So it is with lists of terms. -/
theorem resolveList_oblivious : (terms : List Term) → (resolveList scope terms).Oblivious
  | [] => by
    unfold resolveList
    exact .pure _
  | term :: rest => by
    unfold resolveList
    exact .bind (resolve_oblivious term) fun _ => .bind (resolveList_oblivious rest) fun _ => .pure _

end

/-- What a text comes to does not depend on what was referred to before. -/
theorem compile_oblivious (source : List Char) : (compile scope source).Oblivious := by
  unfold compile
  split
  · exact .throw _
  · exact resolve_oblivious _

/-- Why a text does not compile, if it does not. -/
def complaintOf (scope : Scope) (source : List Char) : Option ExprError :=
  match (compile scope source).run .empty with
  | .ok _ _ => none
  | .error e _ => some e

/-- There is a complaint about a text without code. -/
theorem isSome_complaintOf (scope : Scope) (source : List Char) :
    (complaintOf scope source).isSome = (codeOf scope source).isNone := by
  unfold complaintOf codeOf
  cases (compile scope source).run .empty <;> rfl

/-- The complaint about a text is the same whatever was referred to before. -/
theorem complaintOf_eq (before : References) (source : List Char) : complaintOf scope source =
    match (compile scope source).run before with
    | .ok _ _ => none
    | .error e _ => some e := by
  have hsame := @compile_oblivious scope source .empty before
  unfold Resolve.verdict at hsame
  unfold complaintOf
  cases hempty : (compile scope source).run .empty <;>
    cases hbefore : (compile scope source).run before <;> simp_all

end Expr

/-- The complaint about the expression of a node. -/
def Node.complaint? (scope : Scope) (node : Node) : Option Diagnostic :=
  (node.expression.bind (Expr.complaintOf scope)).map fun e => ⟨node.line, .expression e⟩

/-- There is a complaint about a node if and only if it has an expression that has no code. -/
theorem Node.isSome_complaint? (scope : Scope) (node : Node) :
    (node.complaint? scope).isSome = true ↔
      node.expression.isSome = true ∧ node.translation scope = none := by
  unfold complaint? translation
  cases node.expression with
  | none => simp
  | some source => simp [Expr.isSome_complaintOf]

/-- There are the same complaints about nodes of the same shape. -/
theorem SameShape.complaint? {scope : Scope} {nodes later : Array Node} (h : SameShape nodes later)
    (id : Nat) : later[id]?.bind (Node.complaint? scope) = nodes[id]?.bind (Node.complaint? scope) := by
  have hbare : ∀ found : Option Node,
      found.bind (Node.complaint? scope) = (found.map Node.bare).bind (Node.complaint? scope) := by
    intro found
    cases found <;> rfl
  rw [hbare later[id]?, hbare nodes[id]?, h id]

namespace Compilation

variable {scope : Scope} {nodes : Array Node} {before after : Compilation}

/-- Compiling a node adds the complaint about it. -/
theorem diagnostics_compileNode {id : Nat} (hcompile : compileNode scope before id = .ok after) :
    SameShape before.nodes after.nodes ∧ after.diagnostics = before.diagnostics ++
      (before.nodes[id]?.bind (Node.complaint? scope)).toList := by
  unfold compileNode at hcompile
  cases hnode : before.nodes[id]? with
  | none =>
    rw [hnode] at hcompile
    cases hcompile
  | some node =>
    rw [hnode] at hcompile
    simp only at hcompile
    cases hexpression : node.expression with
    | none =>
      rw [hexpression] at hcompile
      cases hcompile
    | some source =>
      have hcomplaint : node.complaint? scope = (Expr.complaintOf scope source).map fun e =>
          ⟨node.line, .expression e⟩ := by
        unfold Node.complaint?
        rw [hexpression, Option.bind_some]
      have hreason := @Expr.complaintOf_eq scope before.references source
      rw [hexpression] at hcompile
      cases hrun : (Expr.compile scope source).run before.references with
      | ok code references =>
        rw [hrun] at hreason
        simp only [hrun] at hcompile
        cases hcompile
        rw [Option.bind_some, hcomplaint, hreason, ← hexpression]
        exact ⟨.setCode hnode code, (List.append_nil _).symm⟩
      | error e references =>
        rw [hrun] at hreason
        simp only [hrun] at hcompile
        cases hcompile
        rw [Option.bind_some, hcomplaint, hreason]
        exact ⟨fun _ => rfl, rfl⟩

/-- Compiling nodes one after the other adds the complaints about them. -/
theorem diagnostics_foldlM (ids : List Nat) (hshape : SameShape nodes before.nodes)
    (hcompile : ids.foldlM (compileNode scope) before = .ok after) :
    after.diagnostics = before.diagnostics ++
      ids.filterMap fun id => nodes[id]?.bind (Node.complaint? scope) := by
  induction ids generalizing before with
  | nil =>
    cases hcompile
    simp
  | cons first rest ih =>
    rw [List.foldlM_cons] at hcompile
    cases hfirst : compileNode scope before first with
    | error fault =>
      rw [hfirst] at hcompile
      cases hcompile
    | ok next =>
      rw [hfirst] at hcompile
      rcases diagnostics_compileNode hfirst with ⟨hnext, hdiagnostics⟩
      have hrest := ih (fun id => (hshape id).trans (hnext id)) hcompile
      rw [hrest, hdiagnostics, hshape.complaint? first, List.append_assoc]
      cases h : nodes[first]?.bind (Node.complaint? scope) <;> simp [h]

end Compilation

/-- The complaints about the nodes of a tree, in the order in which they are visited. -/
def Tree.complaints (tree : Tree) (scope : Scope) : List Diagnostic :=
  tree.visits.filterMap fun id => (tree.node? id).bind (Node.complaint? scope)

/-- A tree whose nodes have the code of their own expressions. -/
def Tree.translated (tree : Tree) (scope : Scope) : Tree :=
  { tree with nodes := tree.nodes.map fun node => { node with code := node.translation scope } }

namespace Program

/-- What compilation makes of a script that is parsed, whatever globals and commands there are.  It
ends, and nodes are compiled one after the other in the order in which they are visited, which are
those with an expression, each of them once.  Behind it every node has the code of its own expression,
if that has one.  There is one more diagnostic for each node whose expression has no code, at its line;
without any the program is valid, and otherwise it is a compile error, with its tree in both cases. -/
theorem generate_exact {globals : Globals} {program parsed : Program} (source : List Char)
    (hparsed : program.parse globals (logicalLines source) = .ok parsed)
    (hstate : parsed.state = .parsed) (present : Globals) (commands : CommandTable) :
    ∃ (tree : Tree) (compilation : Compilation) (finished : Program),
      parsed.tree = some tree ∧ tree.IsVisited ∧
      tree.visits.foldlM (Compilation.compileNode (parsed.scope present commands))
        ⟨tree.nodes, .empty, []⟩ = .ok compilation ∧
      parsed.generate present commands = .ok finished ∧
      finished.references = some compilation.references ∧
      finished.tree = some (tree.translated (parsed.scope present commands)) ∧
      finished.diagnostics = parsed.diagnostics ++ tree.complaints (parsed.scope present commands) ∧
      finished.state = (if (tree.complaints (parsed.scope present commands)).isEmpty then .valid
        else .compileError) := by
  rcases exists_derives hparsed hstate with ⟨script, hscript⟩
  rcases hscript.parse hparsed with ⟨-, htree, -, -, -⟩
  have hproper := hscript.2.proper (by rw [hscript.1]; exact pairwise_logicalLines source)
  generalize hscope : parsed.scope present commands = scope
  rcases Compilation.ofTree_of_sound scope (Script.tree_sound hscript.2) with
    ⟨compilation, hcompiled, -, -⟩
  have hnodes := (Compilation.translates_ofTree hscript.2 hcompiled).1
  have hdiagnostics : compilation.diagnostics = script.tree.complaints scope :=
    Compilation.diagnostics_foldlM script.tree.visits (fun _ => rfl) hcompiled
  have hcoded : compilation.nodes = (script.tree.translated scope).nodes := by
    refine Array.ext_getElem? fun id => ?_
    rw [hnodes id, Tree.translated, Array.getElem?_map]
  have hgenerate : parsed.generate present commands = .ok { parsed with
      tree := some (script.tree.translated scope)
      references := some compilation.references
      diagnostics := parsed.diagnostics ++ script.tree.complaints scope
      state := if (script.tree.complaints scope).isEmpty then .valid else .compileError } := by
    unfold generate
    rw [if_pos hstate, htree]
    simp only [hscope, hcompiled, bind, Except.bind, hdiagnostics, hcoded]
    rfl
  exact ⟨script.tree, compilation, _, htree, hproper.isVisited, hcompiled, hgenerate, rfl, rfl, rfl,
    rfl⟩

/-- A script with two mistakes, in an initializer and in a branch, and other expressions around. -/
def mistaken : List Char :=
  "scriptname A\nvariable n = nothing\nvariable k = 1\nbegin\nif n\nn = missing\nelse\nn = k\nendif\nend".toList

/-- Whether the script is parsed, and compiles with two diagnostics at lines 2 and 6. -/
def isMistaken : Bool :=
  match (fresh 1 none).parse .empty (logicalLines mistaken) with
  | .ok parsed =>
    match parsed.generate .empty .standard with
    | .ok finished => decide (parsed.state = .parsed ∧ finished.state = .compileError ∧
        parsed.diagnostics = [] ∧ finished.diagnostics.map Diagnostic.line = [2, 6])
    | .error _ => false
  | .error _ => false

/-- The script is parsed.  The complaints about its tree are those about the initializer and the
branch. -/
theorem generate_exact_mistaken : ∃ (parsed : Program) (tree : Tree) (finished : Program),
    (fresh 1 none).parse .empty (logicalLines mistaken) = .ok parsed ∧ parsed.state = .parsed ∧
      parsed.tree = some tree ∧ tree.IsVisited ∧ parsed.generate .empty .standard = .ok finished ∧
      (tree.complaints (parsed.scope .empty .standard)).map Diagnostic.line = [2, 6] ∧
      finished.tree = some (tree.translated (parsed.scope .empty .standard)) ∧
      finished.state = .compileError := by
  have hmistaken : isMistaken = true := by decide +kernel
  unfold isMistaken at hmistaken
  split at hmistaken
  case h_1 parsed hparsed =>
    split at hmistaken
    case h_1 finished hfinished =>
      rcases of_decide_eq_true hmistaken with ⟨hstate, hbad, hnone, hlines⟩
      rcases generate_exact mistaken hparsed hstate .empty .standard with
        ⟨tree, -, found, htree, hvisited, -, hfound, -, htranslated, hdiagnostics, -⟩
      rw [hfinished] at hfound
      cases hfound
      rw [hnone, List.nil_append] at hdiagnostics
      rw [hdiagnostics] at hlines
      exact ⟨parsed, tree, finished, hparsed, hstate, htree, hvisited, hfinished, hlines,
        htranslated, hbad⟩
    case h_2 => cases hmistaken
  case h_2 => cases hmistaken

end Program
end ScriptMachine
