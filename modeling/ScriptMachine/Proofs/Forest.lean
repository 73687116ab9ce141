import Mathlib.Data.List.Nodup
import Mathlib.Data.List.Perm.Basic
import ScriptMachine.Proofs.Linkage
import ScriptMachine.Proofs.Recognition

/-!
# Syntax trees are forests

A syntax tree is read off by following links from its entry block.  That this comes to an end, and
to every part of the script once, rests on how nodes are numbered: each of them gets its number
when its line is read, and right then one node in front of it gets a link to it.  So the links of
all nodes together are the numbers of everything inside of the entry block, each of them once.

Main results:

- {lit}`Block.links_perm`: the links inside of a block are the numbers of its nodes.
- {lit}`Block.linkedOnward`: every link leads to a node further behind.
- {lit}`Source.pairwise_logicalLines`: the lines of a source are numbered in ascending order.
- {lit}`Tree.IsForest` and {lit}`Tree.Proper`: what is meant by a proper syntax tree.
- {lit}`Program.parse_proper`: every script that is parsed has one.
-/

namespace ScriptMachine

open Source Text

/-! ## Links -/

/-- The numbers of the nodes that a node refers to. -/
def Node.links (node : Node) : List Nat :=
  node.children ++ (node.kind.elseIfs ++ node.kind.elseBranch?.toList)

/-- Links of two kinds in two places, sorted by place. -/
theorem perm_exchange (first second third fourth : List Nat) :
    ((first ++ second) ++ (third ++ fourth)).Perm ((first ++ third) ++ (second ++ fourth)) := by
  rw [List.perm_iff_count]
  intro id
  simp only [List.count_append]
  omega

mutual

/-- The first node of a statement and the links inside of the statement are all its numbers. -/
theorem Statement.links_perm (start : Nat) : (statement : Statement) →
    (start :: (statement.nodes start).flatMap Node.links).Perm (List.range' start statement.size)
  | .leaf line expression => .refl _
  | .whileLoop line condition body closing => by
    have hbody := Block.links_perm (start + 1) body
    simp only [Statement.nodes, Statement.size, Nat.add_comm 1, List.range'_succ]
    simpa [Node.links, Outline.newNode, NodeKind.elseIfs, NodeKind.elseBranch?] using hbody
  | .forEach line iterator slot collection body closing => by
    have hbody := Block.links_perm (start + 1) body
    simp only [Statement.nodes, Statement.size, Nat.add_comm 1, List.range'_succ]
    simpa [Node.links, Outline.newNode, NodeKind.elseIfs, NodeKind.elseBranch?] using hbody
  | .conditional line condition body branches closing => by
    have hbody := Block.links_perm (start + 1) body
    have hbranches := Branches.links_perm (start + 1 + body.size) branches
    have hsize : List.range' start (1 + body.size + branches.size) =
        start :: (List.range' (start + 1) body.size ++
          List.range' (start + 1 + body.size) branches.size) := by
      rw [List.range'_append_1, Nat.add_assoc, Nat.add_comm 1, List.range'_succ]
    simp only [Statement.nodes, Statement.size, hsize, List.cons_append, List.flatMap_cons,
      List.flatMap_append]
    exact ((perm_exchange _ _ _ _).trans (hbody.append hbranches)).cons start

/-- The numbers of statements in a row and the links inside of them are all their numbers. -/
theorem Block.links_perm (start : Nat) : (block : Block) →
    (block.ids start ++ (block.nodes start).flatMap Node.links).Perm
      (List.range' start block.size)
  | .nil => .refl _
  | .cons first rest => by
    have hfirst := Statement.links_perm start first
    have hrest := Block.links_perm (start + first.size) rest
    simp only [Block.ids, Block.nodes, Block.size, List.flatMap_append]
    rw [← List.range'_append_1]
    exact (perm_exchange [start] _ _ _).trans (hfirst.append hrest)

/-- The numbers of branches and the links inside of them are all their numbers. -/
theorem Branches.links_perm (start : Nat) : (branches : Branches) →
    ((branches.elseIfs start ++ (branches.otherwise? start).toList) ++
      (branches.nodes start).flatMap Node.links).Perm (List.range' start branches.size)
  | .none => .refl _
  | .otherwise line body => by
    have hbody := Block.links_perm (start + 1) body
    simp only [Branches.nodes, Branches.size, Branches.elseIfs, Branches.otherwise?,
      Nat.add_comm 1, List.range'_succ]
    simpa [Node.links, Outline.newNode, NodeKind.elseIfs, NodeKind.elseBranch?] using hbody
  | .elseIf line condition body rest => by
    have hbody := Block.links_perm (start + 1) body
    have hrest := Branches.links_perm (start + 1 + body.size) rest
    have hsize : List.range' start (1 + body.size + rest.size) =
        start :: (List.range' (start + 1) body.size ++
          List.range' (start + 1 + body.size) rest.size) := by
      rw [List.range'_append_1, Nat.add_assoc, Nat.add_comm 1, List.range'_succ]
    have hhead : ({ Outline.newNode .elseIf line (some condition) with
        children := body.ids (start + 1) } : Node).links = body.ids (start + 1) := by
      simp [Node.links, Outline.newNode, NodeKind.elseIfs, NodeKind.elseBranch?]
    simp only [Branches.nodes, Branches.size, hsize, Branches.elseIfs, Branches.otherwise?,
      List.cons_append, List.flatMap_cons, List.flatMap_append, hhead]
    have hall := (perm_exchange [start] _ (_ ++ _) _).trans ((hbody.cons start).append hrest)
    simpa only [List.cons_append, List.nil_append, List.append_assoc] using hall

end

/-- Statements in a row are numbered from the first number on. -/
theorem Block.le_of_mem_ids {start id : Nat} {block : Block} (h : id ∈ block.ids start) :
    start ≤ id := by
  have hmem := (block.links_perm start).subset (List.mem_append_left _ h)
  exact (List.mem_range'_1.1 hmem).1

/-! ## Links lead further behind -/

/-- Nodes that lie from a place on refer only to nodes behind themselves. -/
def LinkedOnward (start : Nat) (nodes : List Node) : Prop :=
  ∀ (i : Nat) (node : Node), nodes[i]? = some node → ∀ link ∈ node.links, start + i < link

section Onward

variable {start : Nat} {node : Node} {first rest : List Node}

/-- A node in front of others. -/
theorem LinkedOnward.cons (hnode : ∀ link ∈ node.links, start < link)
    (hrest : LinkedOnward (start + 1) rest) : LinkedOnward start (node :: rest) := by
  intro i found hfound link hlink
  cases i with
  | zero =>
    cases hfound
    exact hnode link hlink
  | succ i =>
    have hbehind := hrest i found hfound link hlink
    omega

/-- Nodes in front of others. -/
theorem LinkedOnward.append (hfirst : LinkedOnward start first)
    (hrest : LinkedOnward (start + first.length) rest) : LinkedOnward start (first ++ rest) := by
  intro i found hfound link hlink
  by_cases hi : i < first.length
  · rw [List.getElem?_append_left hi] at hfound
    exact hfirst i found hfound link hlink
  · rw [List.getElem?_append_right (by omega)] at hfound
    have hbehind := hrest _ found hfound link hlink
    omega

/-- Nodes without links. -/
theorem LinkedOnward.of_leaves (h : ∀ node ∈ first, node.links = []) : LinkedOnward start first := by
  intro i node hnode link hlink
  rw [h node (List.mem_of_getElem? hnode)] at hlink
  cases hlink

end Onward

/-- The links of a node that has a body only. -/
theorem Node.links_of_body {node : Node} (helseIfs : node.kind.elseIfs = [])
    (helseBranch : node.kind.elseBranch? = none) : node.links = node.children := by
  simp [links, helseIfs, helseBranch]

/-- The head of a block with a body in front of everything inside of it. -/
theorem LinkedOnward.of_body {start : Nat} {head : Node} {body : Block}
    (hlinks : head.links = body.ids (start + 1))
    (hbody : LinkedOnward (start + 1) (body.nodes (start + 1))) :
    LinkedOnward start (head :: body.nodes (start + 1)) :=
  .cons (fun _ hlink => Block.le_of_mem_ids (hlinks ▸ hlink)) hbody

mutual

/-- Inside of a statement links lead further behind. -/
theorem Statement.linkedOnward (start : Nat) : (statement : Statement) →
    LinkedOnward start (statement.nodes start)
  | .leaf line expression =>
    .of_leaves fun _ hnode => by
      rw [List.mem_singleton.1 hnode]
      rfl
  | .whileLoop line condition body closing =>
    .of_body (Node.links_of_body rfl rfl) (Block.linkedOnward (start + 1) body)
  | .forEach line iterator slot collection body closing =>
    .of_body (Node.links_of_body rfl rfl) (Block.linkedOnward (start + 1) body)
  | .conditional line condition body branches closing => by
    have hbranches := Branches.linkedOnward (start + 1 + body.size) branches
    -- Branches are numbered behind the body.
    have hnumbers : ∀ link ∈ branches.elseIfs (start + 1 + body.size) ++
        (branches.otherwise? (start + 1 + body.size)).toList, start < link := by
      intro link hlink
      have hmem := (branches.links_perm (start + 1 + body.size)).subset
        (List.mem_append_left _ hlink)
      have hbounds := List.mem_range'_1.1 hmem
      omega
    refine .append (.cons (fun link hlink => ?_) (Block.linkedOnward (start + 1) body)) ?_
    · rcases List.mem_append.1 hlink with hchild | hbranch
      · exact Block.le_of_mem_ids hchild
      · exact hnumbers link hbranch
    · rw [List.length_cons, Block.length_nodes, Nat.add_comm body.size, ← Nat.add_assoc]
      exact hbranches

/-- Inside of statements in a row links lead further behind. -/
theorem Block.linkedOnward (start : Nat) : (block : Block) →
    LinkedOnward start (block.nodes start)
  | .nil => .of_leaves fun _ hnode => by cases hnode
  | .cons first rest => by
    refine .append (Statement.linkedOnward start first) ?_
    rw [Statement.length_nodes]
    exact Block.linkedOnward (start + first.size) rest

/-- Inside of branches links lead further behind. -/
theorem Branches.linkedOnward (start : Nat) : (branches : Branches) →
    LinkedOnward start (branches.nodes start)
  | .none => .of_leaves fun _ hnode => by cases hnode
  | .otherwise line body =>
    .of_body (Node.links_of_body rfl rfl) (Block.linkedOnward (start + 1) body)
  | .elseIf line condition body rest => by
    refine .append (.of_body (Node.links_of_body rfl rfl) (Block.linkedOnward (start + 1) body)) ?_
    rw [List.length_cons, Block.length_nodes, Nat.add_comm body.size, ← Nat.add_assoc]
    exact Branches.linkedOnward (start + 1 + body.size) rest

end

/-! ## Lines of nodes -/

mutual

/-- The nodes of a statement come in the order of its lines. -/
theorem Statement.lines_sublist (start : Nat) : (statement : Statement) →
    ((statement.nodes start).map Node.line).Sublist (statement.lines.map Line.number)
  | .leaf line expression => .refl _
  | .whileLoop line condition body closing => by
    simp only [Statement.nodes, Statement.lines, List.cons_append, List.map_cons, List.map_append]
    exact ((Block.lines_sublist (start + 1) body).trans (List.sublist_append_left _ _)).cons_cons _
  | .forEach line iterator slot collection body closing => by
    simp only [Statement.nodes, Statement.lines, List.cons_append, List.map_cons, List.map_append]
    exact ((Block.lines_sublist (start + 1) body).trans (List.sublist_append_left _ _)).cons_cons _
  | .conditional line condition body branches closing => by
    simp only [Statement.nodes, Statement.lines, List.cons_append, List.map_cons, List.map_append]
    have hparts := (Block.lines_sublist (start + 1) body).append
      (Branches.lines_sublist (start + 1 + body.size) branches)
    exact (hparts.trans (List.sublist_append_left _ _)).cons_cons _

/-- The nodes of statements in a row come in the order of their lines. -/
theorem Block.lines_sublist (start : Nat) : (block : Block) →
    ((block.nodes start).map Node.line).Sublist (block.lines.map Line.number)
  | .nil => .refl _
  | .cons first rest => by
    simp only [Block.nodes, Block.lines, List.map_append]
    exact (Statement.lines_sublist start first).append
      (Block.lines_sublist (start + first.size) rest)

/-- The nodes of branches come in the order of their lines. -/
theorem Branches.lines_sublist (start : Nat) : (branches : Branches) →
    ((branches.nodes start).map Node.line).Sublist (branches.lines.map Line.number)
  | .none => .refl _
  | .otherwise line body => (Block.lines_sublist (start + 1) body).cons_cons _
  | .elseIf line condition body rest => by
    simp only [Branches.nodes, Branches.lines, List.cons_append, List.map_cons, List.map_append]
    exact ((Block.lines_sublist (start + 1) body).append
      (Branches.lines_sublist (start + 1 + body.size) rest)).cons_cons _

end

/-! ## What nodes say -/

/-- The slot of a variable does not depend on letter case. -/
@[simp] theorem Program.slotIn?_fold (declared : List Variable) (name : String) :
    slotIn? declared (fold name) = slotIn? declared name := by
  unfold slotIn? sameName
  rw [fold_fold]

/-- What is said of a node inside of the entry block: it is no entry block, it has no links when it
is a leaf, and the folded name of its loop variable is found at its slot. -/
structure Node.Inside (declared : List Variable) (node : Node) : Prop where
  kind : node.kind ≠ .entry
  leaf : node.kind = .expression → node.links = []
  iterator : ∀ name slot, node.kind = .forEach name slot →
    fold name = name ∧ Program.slotIn? declared name = some slot

section Inside

variable {declared : List Variable}

/-- A leaf inside of the entry block. -/
theorem Node.Inside.of_leaf {node : Node} (hkind : node.kind = .expression) (hlinks : node.links = []) :
    node.Inside declared where
  kind := by
    rw [hkind]
    exact NodeKind.noConfusion
  leaf := fun _ => hlinks
  iterator := by
    intro name slot hloop
    rw [hkind] at hloop
    cases hloop

/-- The head of a block inside of the entry block that binds no variable. -/
theorem Node.Inside.of_head {node : Node} (hkind : node.kind ≠ .entry)
    (hleaf : node.kind ≠ .expression) (hslot : node.kind.slot? = none) : node.Inside declared where
  kind := hkind
  leaf := fun h => absurd h hleaf
  iterator := by
    intro name slot hloop
    rw [hloop] at hslot
    cases hslot

/-- The head of a loop over an array. -/
theorem Node.Inside.of_forEach {line : Line} {name : String} {slot : Nat} {collection : List Char}
    (hline : line.IsForEach declared name slot collection) {node : Node}
    (hkind : node.kind = .forEach name slot) : node.Inside declared where
  kind := by
    rw [hkind]
    exact NodeKind.noConfusion
  leaf := by
    intro hleaf
    rw [hkind] at hleaf
    cases hleaf
  iterator := by
    intro found slot' hloop
    rw [hkind] at hloop
    cases hloop
    rcases hline with ⟨-, _, token, _, _, _, -, -, rfl, hslot, -⟩
    exact ⟨fold_fold _, by rw [Program.slotIn?_fold, hslot]⟩

mutual

/-- What is said of the nodes of a statement. -/
theorem Statement.inside {inLoop : Bool} (start : Nat) : (statement : Statement) →
    statement.Conforms declared inLoop → ∀ node ∈ statement.nodes start, node.Inside declared
  | .leaf line expression, _ => by
    intro node hnode
    rw [List.mem_singleton.1 hnode]
    exact .of_leaf rfl rfl
  | .whileLoop line condition body closing, ⟨_, hbody, _⟩ => by
    intro node hnode
    rcases List.mem_cons.1 hnode with rfl | hnode
    · exact .of_head NodeKind.noConfusion NodeKind.noConfusion rfl
    · exact Block.inside (start + 1) body hbody node hnode
  | .forEach line iterator slot collection body closing, ⟨hline, hbody, _⟩ => by
    intro node hnode
    rcases List.mem_cons.1 hnode with rfl | hnode
    · exact .of_forEach hline rfl
    · exact Block.inside (start + 1) body hbody node hnode
  | .conditional line condition body branches closing, ⟨_, hbody, hbranches, _⟩ => by
    intro node hnode
    rcases List.mem_append.1 hnode with hnode | hnode
    · rcases List.mem_cons.1 hnode with rfl | hnode
      · exact .of_head NodeKind.noConfusion NodeKind.noConfusion rfl
      · exact Block.inside (start + 1) body hbody node hnode
    · exact Branches.inside (start + 1 + body.size) branches hbranches node hnode

/-- What is said of the nodes of statements in a row. -/
theorem Block.inside {inLoop : Bool} (start : Nat) : (block : Block) →
    block.Conforms declared inLoop → ∀ node ∈ block.nodes start, node.Inside declared
  | .nil, _ => by
    intro node hnode
    cases hnode
  | .cons first rest, ⟨hfirst, hrest⟩ => by
    intro node hnode
    rcases List.mem_append.1 hnode with hnode | hnode
    · exact Statement.inside start first hfirst node hnode
    · exact Block.inside (start + first.size) rest hrest node hnode

/-- What is said of the nodes of branches. -/
theorem Branches.inside {inLoop : Bool} (start : Nat) : (branches : Branches) →
    branches.Conforms declared inLoop → ∀ node ∈ branches.nodes start, node.Inside declared
  | .none, _ => by
    intro node hnode
    cases hnode
  | .otherwise line body, ⟨_, hbody⟩ => by
    intro node hnode
    rcases List.mem_cons.1 hnode with rfl | hnode
    · exact .of_head NodeKind.noConfusion NodeKind.noConfusion rfl
    · exact Block.inside (start + 1) body hbody node hnode
  | .elseIf line condition body rest, ⟨_, hbody, hrest⟩ => by
    intro node hnode
    rcases List.mem_append.1 hnode with hnode | hnode
    · rcases List.mem_cons.1 hnode with rfl | hnode
      · exact .of_head NodeKind.noConfusion NodeKind.noConfusion rfl
      · exact Block.inside (start + 1) body hbody node hnode
    · exact Branches.inside (start + 1 + body.size) rest hrest node hnode

end

end Inside

/-! ## Lines of a source -/

namespace Source

/-- Joined lines are numbered in the order of the lines from which they are joined. -/
theorem foldContinuations_sublist (unfinished : Option Line) (physical : List Line) :
    ((foldContinuations unfinished physical).map Line.number).Sublist
      ((unfinished.toList ++ physical).map Line.number) := by
  induction physical generalizing unfinished with
  | nil => simp [foldContinuations]
  | cons line rest ih =>
    -- A joined line is numbered like the first of its parts.
    have hjoined : ((joinLine unfinished line).number :: rest.map Line.number).Sublist
        ((unfinished.toList ++ line :: rest).map Line.number) := by
      cases unfinished with
      | none => exact .refl _
      | some first => exact (List.sublist_cons_self _ _).cons_cons _
    unfold foldContinuations
    split
    · exact (ih (some (joinLine unfinished line))).trans hjoined
    · exact ((ih none).cons_cons _).trans hjoined

/-- Lines that are numbered like their origins are in ascending order when those are. -/
theorem pairwise_filterMap_number {α : Type} (number : α → Nat) {line? : α → Option Line}
    (hnumber : ∀ origin line, line? origin = some line → line.number = number origin)
    {origins : List α} (h : (origins.map number).Pairwise (· < ·)) :
    ((origins.filterMap line?).map Line.number).Pairwise (· < ·) := by
  rw [List.pairwise_map] at h ⊢
  rw [List.pairwise_filterMap]
  refine h.imp fun hless line hline line' hline' => ?_
  rw [hnumber _ _ hline, hnumber _ _ hline']
  exact hless

/-- The lines of a source are numbered in ascending order. -/
theorem pairwise_logicalLines (source : List Char) :
    ((logicalLines source).map Line.number).Pairwise (· < ·) := by
  have hphysical : ((physicalLines source).map Line.number).Pairwise (· < ·) := by
    refine pairwise_filterMap_number Prod.snd ?_ ?_
    · rintro ⟨text, number⟩ line hline
      simp only at hline
      split at hline
      · cases hline
      · cases hline
        rfl
    · rw [List.zipIdx_map_snd]
      exact List.pairwise_lt_range'
  have hjoined := hphysical.sublist (foldContinuations_sublist none (physicalLines source))
  refine pairwise_filterMap_number Line.number (fun origin line hline => ?_) hjoined
  split at hline
  · cases hline
  · cases hline
    rfl

end Source

/-! ## Forests -/

/-- The nodes of a tree form a forest: links lead to nodes, and every node but the root and the
initializers, to which no link leads, hangs on a single link of a single node in front of it. -/
structure Tree.IsForest (tree : Tree) : Prop where
  root_lt : tree.root < tree.nodes.size
  initializers_lt : ∀ id ∈ tree.initializers, id < tree.nodes.size
  initializers_nodup : tree.initializers.Nodup
  links_lt : ∀ (id : Nat) (node : Node), tree.node? id = some node →
    ∀ link ∈ node.links, link < tree.nodes.size
  links_free : ∀ (id : Nat) (node : Node), tree.node? id = some node →
    ∀ link ∈ node.links, link ≠ tree.root ∧ link ∉ tree.initializers
  exists_parent : ∀ id < tree.nodes.size, id ≠ tree.root → id ∉ tree.initializers →
    ∃ parent above, tree.node? parent = some above ∧ parent < id ∧ above.links.count id = 1 ∧
      ∀ (other : Nat) (node : Node), tree.node? other = some node → id ∈ node.links →
        other = parent

/-- A proper syntax tree of a script with some variables and parameters: a forest in which every
node stands where its kind asks for, with the expression, the line and the slot that it should
have. -/
structure Tree.Proper (tree : Tree) (declarations : List Variable) (parameters : List Nat) :
    Prop where
  forest : tree.IsForest
  entry : ∀ (id : Nat) (node : Node), tree.node? id = some node →
    (node.kind = .entry ↔ id = tree.root)
  children : ∀ (id : Nat) (node : Node), tree.node? id = some node → ∀ child ∈ node.children,
    Leads tree.nodes (fun kind => kind.isStatement = true) child
  elseIfs : ∀ (id : Nat) (node : Node), tree.node? id = some node →
    ∀ branch ∈ node.kind.elseIfs, Leads tree.nodes (fun kind => kind = .elseIf) branch
  elseBranch : ∀ (id : Nat) (node : Node), tree.node? id = some node →
    ∀ branch ∈ node.kind.elseBranch?, Leads tree.nodes (fun kind => kind = .otherwise) branch
  leaf : ∀ (id : Nat) (node : Node), tree.node? id = some node → node.kind = .expression →
    node.links = []
  expression : ∀ (id : Nat) (node : Node), tree.node? id = some node →
    (node.expression = none ↔ node.kind = .entry ∨ node.kind = .otherwise)
  lines : ∀ (id other : Nat) (node behind : Node), tree.node? id = some node →
    tree.node? other = some behind → id ≤ other → id ∉ tree.initializers →
      other ∉ tree.initializers → node.line ≤ behind.line
  iterator : ∀ (id : Nat) (node : Node), tree.node? id = some node → ∀ name slot,
    node.kind = .forEach name slot → fold name = name ∧ Program.slotIn? declarations name = some slot
  /-- One leaf for each variable with an initializer that is no parameter, in order. -/
  initializers : tree.initializers.map tree.node? =
    (declarations.zipIdx.filterMap fun (declared, slot) =>
      if parameters.contains slot then none
      else declared.initializer.map (Outline.initializerNode declared)).map some

section Parents

variable {nodes : List Node} {id : Nat}

/-- No two nodes have the same link when all links are different. -/
theorem eq_of_mem_links (h : (nodes.flatMap Node.links).Nodup) {i j : Nat} {first second : Node}
    (hfirst : nodes[i]? = some first) (hsecond : nodes[j]? = some second) (hid : id ∈ first.links)
    (hid' : id ∈ second.links) : i = j := by
  rcases List.getElem?_eq_some_iff.1 hfirst with ⟨hi, rfl⟩
  rcases List.getElem?_eq_some_iff.1 hsecond with ⟨hj, rfl⟩
  have hapart := List.pairwise_iff_getElem.1 (List.nodup_flatMap.1 h).2
  rcases Nat.lt_trichotomy i j with hless | hsame | hmore
  · exact (hapart i j hi hj hless hid hid').elim
  · exact hsame
  · exact (hapart j i hj hi hmore hid' hid).elim

/-- A number that is a link is one of a single node, when all links are different. -/
theorem exists_parent_of_nodup (h : (nodes.flatMap Node.links).Nodup)
    (hid : id ∈ nodes.flatMap Node.links) :
    ∃ (parent : Nat) (above : Node), nodes[parent]? = some above ∧ id ∈ above.links ∧
      above.links.count id = 1 ∧
      ∀ (other : Nat) (node : Node), nodes[other]? = some node → id ∈ node.links →
        other = parent := by
  rcases List.mem_flatMap.1 hid with ⟨above, hmem, hlink⟩
  rcases List.getElem?_of_mem hmem with ⟨parent, hparent⟩
  have hdifferent := (List.nodup_flatMap.1 h).1 above hmem
  exact ⟨parent, above, hparent, hlink, List.count_eq_one_of_mem hdifferent hlink,
    fun other node hother hid' => eq_of_mem_links h hother hparent hid' hlink⟩

end Parents

namespace Script

variable {script : Script}

/-- The links of all nodes are the numbers of everything inside of the entry block. -/
theorem links_perm (script : Script) : (script.tree.nodes.toList.flatMap Node.links).Perm
    (List.range' 1 script.body.size) := by
  have hbody := script.body.links_perm 1
  have hleaves : script.initializerNodes.flatMap Node.links = [] := by
    rw [List.flatMap_eq_nil_iff]
    intro node hnode
    rcases leaf_of_mem_initializerNodes hnode with ⟨hkind, hchildren, -⟩
    simp [Node.links, hkind, hchildren, NodeKind.elseIfs, NodeKind.elseBranch?]
  rw [tree_toList]
  simpa [hleaves, Node.links, Outline.newNode, NodeKind.elseIfs, NodeKind.elseBranch?] using hbody

/-- Links of the tree lead further behind. -/
theorem linkedOnward (script : Script) : LinkedOnward 0 script.tree.nodes.toList := by
  rw [tree_toList]
  refine .append (.of_body (Node.links_of_body rfl rfl) (script.body.linkedOnward 1)) ?_
  refine .of_leaves fun node hnode => ?_
  rcases leaf_of_mem_initializerNodes hnode with ⟨hkind, hchildren, -⟩
  simp [Node.links, hkind, hchildren, NodeKind.elseIfs, NodeKind.elseBranch?]

/-- The number of nodes of the tree. -/
theorem size_tree (script : Script) :
    script.tree.nodes.size = 1 + script.body.size + script.initializerNodes.length := by
  rw [← Array.length_toList, tree_toList]
  simp
  omega

/-- The initializers are numbered behind everything else. -/
theorem mem_initializers_iff {id : Nat} : id ∈ script.tree.initializers ↔
    1 + script.body.size ≤ id ∧ id < script.tree.nodes.size := by
  rw [size_tree]
  simp only [tree, List.mem_map, List.mem_range]
  constructor
  · rintro ⟨i, hi, rfl⟩
    omega
  · rintro ⟨hfirst, hlast⟩
    exact ⟨id - (1 + script.body.size), by omega, by omega⟩

/-- The tree of a script is a forest. -/
theorem isForest (script : Script) : script.tree.IsForest := by
  have hperm := script.links_perm
  have hnodup := hperm.nodup_iff.2 List.nodup_range'
  have hsize := script.size_tree
  have hlinks : ∀ (id : Nat) (node : Node), script.tree.node? id = some node →
      ∀ link ∈ node.links, 1 ≤ link ∧ link < 1 + script.body.size := by
    intro id node hnode link hlink
    have hmem := Array.mem_toList_iff.2 (Array.mem_of_getElem? hnode)
    exact List.mem_range'_1.1 (hperm.subset (List.mem_flatMap.2 ⟨node, hmem, hlink⟩))
  refine ⟨?_, ?_, ?_, ?_, ?_, ?_⟩
  · show 0 < script.tree.nodes.size
    omega
  · intro id hid
    exact (mem_initializers_iff.1 hid).2
  · exact (List.nodup_range).map fun i j hsame => by simpa using hsame
  · intro id node hnode link hlink
    have hbounds := hlinks id node hnode link hlink
    omega
  · intro id node hnode link hlink
    have hbounds := hlinks id node hnode link hlink
    refine ⟨?_, fun hinitializer => ?_⟩
    · show link ≠ 0
      omega
    · have hbehind := (mem_initializers_iff.1 hinitializer).1
      omega
  · intro id hlt hroot hinitializer
    have hinside : 1 ≤ id ∧ id < 1 + script.body.size := by
      have hfirst : id ≠ 0 := hroot
      rw [mem_initializers_iff] at hinitializer
      omega
    have hid := hperm.mem_iff.2 (List.mem_range'_1.2 hinside)
    rcases exists_parent_of_nodup hnodup hid with ⟨parent, above, hparent, hlink, hcount, hunique⟩
    simp only [Array.getElem?_toList] at hparent hunique
    have hbehind := script.linkedOnward parent above (by simpa using hparent) id hlink
    exact ⟨parent, above, hparent, by omega, hcount, hunique⟩

/-- Variables that are declared in front of the entry block are found among all of them. -/
theorem slotIn?_declaredVariables {name : String} {slot : Nat}
    (h : Program.slotIn? (script.before.map Prod.snd) name = some slot) :
    Program.slotIn? script.declaredVariables name = some slot := by
  unfold Program.slotIn? declaredVariables at *
  rw [List.map_append, List.findIdx?_append, h]
  rfl

/-- What is said of the nodes of a tree: the first is the entry block, some lie inside of it, and the
others are leaves. -/
theorem Conforms.node_cases {globals : Globals} (h : script.Conforms globals) {id : Nat} {node : Node}
    (hnode : script.tree.node? id = some node) :
    (id = 0 ∧ node.kind = .entry) ∨
      (id ≠ 0 ∧ node.Inside (script.before.map Prod.snd)) := by
  have hlist : script.tree.nodes.toList[id]? = some node := by
    rw [Array.getElem?_toList]
    exact hnode
  rw [tree_toList] at hlist
  cases id with
  | zero =>
    cases hlist
    exact .inl ⟨rfl, rfl⟩
  | succ id =>
    refine .inr ⟨Nat.succ_ne_zero id, ?_⟩
    have hrest : (script.body.nodes 1 ++ script.initializerNodes)[id]? = some node := hlist
    rcases List.mem_append.1 (List.mem_of_getElem? hrest) with hmem | hmem
    · exact script.body.inside 1 h.body node hmem
    · rcases leaf_of_mem_initializerNodes hmem with ⟨hkind, hchildren, -⟩
      refine .of_leaf hkind ?_
      simp [Node.links, hkind, hchildren, NodeKind.elseIfs, NodeKind.elseBranch?]

/-- In front of the initializers, nodes come in the order of the lines of the script. -/
theorem lines_sublist (script : Script) :
    ((script.tree.nodes.toList.take (1 + script.body.size)).map Node.line).Sublist
      (script.lines.map Line.number) := by
  have hinside : script.tree.nodes.toList.take (1 + script.body.size) =
      { Outline.newNode .entry script.opening none with children := script.body.ids 1 } ::
        script.body.nodes 1 := by
    rw [tree_toList, List.take_left' (by simp [Nat.add_comm])]
  have hbody : ((script.opening.number :: (script.body.nodes 1).map Node.line)).Sublist
      ((script.opening :: script.body.lines).map Line.number) :=
    (script.body.lines_sublist 1).cons_cons _
  rw [hinside]
  refine hbody.trans (.map Line.number ?_)
  unfold lines
  rw [List.append_assoc]
  exact (List.sublist_append_left _ _).trans (List.sublist_append_right _ _)

/-- The tree of a script that conforms to the grammar is proper, if its lines are numbered in
ascending order. -/
theorem Conforms.proper {globals : Globals} (h : script.Conforms globals)
    (hlines : (script.lines.map Line.number).Pairwise (· < ·)) :
    script.tree.Proper script.declaredVariables script.parameters where
  forest := script.isForest
  entry := by
    intro id node hnode
    rcases h.node_cases hnode with ⟨hid, hkind⟩ | ⟨hid, hinside⟩
    · exact ⟨fun _ => hid, fun _ => hkind⟩
    · exact ⟨fun hkind => absurd hkind hinside.kind, fun hroot => absurd hroot hid⟩
  children := fun id node hnode => ((tree_sound h).nodes id node hnode).children
  elseIfs := fun id node hnode => ((tree_sound h).nodes id node hnode).elseIfs
  elseBranch := fun id node hnode => ((tree_sound h).nodes id node hnode).elseBranch
  leaf := by
    intro id node hnode hleaf
    rcases h.node_cases hnode with ⟨-, hkind⟩ | ⟨-, hinside⟩
    · rw [hkind] at hleaf
      cases hleaf
    · exact hinside.leaf hleaf
  expression := by
    intro id node hnode
    rw [← Option.not_isSome_iff_eq_none, ((tree_sound h).nodes id node hnode).expression]
    cases node.kind <;> simp [NodeKind.isEvaluated]
  lines := by
    intro id other node behind hnode hbehind hle hid hother
    have hascending := List.pairwise_iff_getElem.1 (hlines.sublist script.lines_sublist)
    -- Both nodes lie in front of the initializers.
    have hline : ∀ {place : Nat} {found : Node}, script.tree.node? place = some found →
        place ∉ script.tree.initializers →
        ((script.tree.nodes.toList.take (1 + script.body.size)).map Node.line)[place]? =
          some found.line := by
      intro place found hfound hplace
      have hlt := (Array.getElem?_eq_some_iff.1 hfound).1
      rw [mem_initializers_iff] at hplace
      rw [List.getElem?_map, List.getElem?_take_of_lt (by omega), Array.getElem?_toList]
      exact congrArg (Option.map Node.line) hfound
    rcases List.getElem?_eq_some_iff.1 (hline hnode hid) with ⟨hlt, hnumber⟩
    rcases List.getElem?_eq_some_iff.1 (hline hbehind hother) with ⟨hlt', hnumber'⟩
    rcases Nat.lt_or_eq_of_le hle with hless | rfl
    · have hnumbers := hascending id other hlt hlt' hless
      rw [hnumber, hnumber'] at hnumbers
      exact Nat.le_of_lt hnumbers
    · exact Nat.le_of_eq (hnumber.symm.trans hnumber')
  iterator := by
    intro id node hnode name slot hloop
    rcases h.node_cases hnode with ⟨-, hkind⟩ | ⟨-, hinside⟩
    · rw [hkind] at hloop
      cases hloop
    · rcases hinside.iterator name slot hloop with ⟨hfolded, hslot⟩
      exact ⟨hfolded, slotIn?_declaredVariables hslot⟩
  initializers := script.isIn_tree.2

end Script

namespace Program

/-- A script that is parsed has a proper syntax tree. -/
theorem parse_proper {globals : Globals} {program parsed : Program} (source : List Char)
    (hparsed : program.parse globals (logicalLines source) = .ok parsed)
    (hstate : parsed.state = .parsed) :
    ∃ tree, parsed.tree = some tree ∧ tree.Proper parsed.declarations parsed.parameters := by
  rcases exists_derives hparsed hstate with ⟨script, hscript⟩
  rcases hscript.parse hparsed with ⟨-, htree, -, hdeclarations, hparameters⟩
  have hproper := hscript.2.proper (by rw [hscript.1]; exact pairwise_logicalLines source)
  exact ⟨script.tree, htree, by rw [hdeclarations, hparameters]; exact hproper⟩

/-- A script with a parameter, two initializers, a loop over an array and a conditional of three
branches. -/
def branching : List Char :=
  "scriptname A\nvariable key = 1\nvariable Item\nvariable n = 2\nbegin key\nforeach ITEM in #ff\nif key\nn = 3\nelseif n\nn = 4\nelse\nn = 5\nendif\nloop\nend\nvariable m = 6".toList

/-- Whether the script is parsed to a tree of ten nodes, the last two of which are initializers. -/
def isBranching : Bool :=
  match (fresh 1 none).parse .empty (logicalLines branching) with
  | .ok parsed => decide (parsed.state = .parsed ∧ parsed.tree.map Tree.initializers = some [8, 9] ∧
      parsed.tree.map (fun tree => tree.nodes.size) = some 10)
  | .error _ => false

/-- The script is parsed to a proper tree of ten nodes, the last two of which are initializers. -/
theorem parse_proper_branching : ∃ parsed tree,
    (fresh 1 none).parse .empty (logicalLines branching) = .ok parsed ∧ parsed.state = .parsed ∧
      parsed.tree = some tree ∧ tree.nodes.size = 10 ∧ tree.initializers = [8, 9] ∧
      tree.Proper parsed.declarations parsed.parameters := by
  have hbranching : isBranching = true := by decide +kernel
  unfold isBranching at hbranching
  split at hbranching
  case h_1 parsed hparsed =>
    rcases of_decide_eq_true hbranching with ⟨hstate, hinitializers, hsize⟩
    rcases parse_proper branching hparsed hstate with ⟨tree, htree, hproper⟩
    rw [htree] at hinitializers hsize
    exact ⟨parsed, tree, hparsed, hstate, htree, Option.some.inj hsize,
      Option.some.inj hinitializers, hproper⟩
  case h_2 => cases hbranching

end Program
end ScriptMachine
