import ScriptMachine.Proofs.Syntax

/-!
# The links of a syntax tree

Nodes refer to each other by number.  In the tree of a script every number leads to a node
of the kind that the link asks for, and exactly the nodes that are evaluated have an
expression.  Compilation visits the nodes with an expression, all of them and no others: no
path is cut short, since none is longer than the number of nodes below its start.

Main results:

- {lit}`Tree.Sound`: links lead to nodes of the right kinds.
- {lit}`Script.tree_sound`: the tree of a script is sound.
- {lit}`Tree.Sound.of_mem_visits`: compilation visits evaluated nodes only.
- {lit}`Script.mem_visits`: compilation visits all of them.
-/

namespace ScriptMachine

open Source Text

/-! ## Kinds of nodes -/

namespace NodeKind

/-- Whether a node stands among the statements of a block. -/
def isStatement : NodeKind → Bool
  | .expression | .conditional _ _ | .whileLoop | .forEach _ _ => true
  | .entry | .elseIf | .otherwise => false

/-- Whether a node has an expression that is evaluated. -/
def isEvaluated : NodeKind → Bool
  | .entry | .otherwise => false
  | .expression | .conditional _ _ | .elseIf | .whileLoop | .forEach _ _ => true

/-- The branches with conditions. -/
def elseIfs : NodeKind → List Nat
  | .conditional elseIfs _ => elseIfs
  | _ => []

/-- The branch without a condition. -/
def elseBranch? : NodeKind → Option Nat
  | .conditional _ elseBranch => elseBranch
  | _ => none

/-- The slot of a loop variable. -/
def slot? : NodeKind → Option Nat
  | .forEach _ slot => some slot
  | _ => none

end NodeKind

/-! ## Sound trees -/

/-- A number leads to a node of a certain kind. -/
def Leads (nodes : Array Node) (fits : NodeKind → Prop) (id : Nat) : Prop :=
  ∃ node, nodes[id]? = some node ∧ fits node.kind

/-- The links of a node lead to nodes of the right kinds, and it has an expression when it is
evaluated. -/
structure Node.Sound (nodes : Array Node) (slots : Nat) (node : Node) : Prop where
  children : ∀ id ∈ node.children, Leads nodes (fun kind => kind.isStatement = true) id
  elseIfs : ∀ id ∈ node.kind.elseIfs, Leads nodes (fun kind => kind = .elseIf) id
  elseBranch : ∀ id ∈ node.kind.elseBranch?, Leads nodes (fun kind => kind = .otherwise) id
  slot : ∀ slot ∈ node.kind.slot?, slot < slots
  expression : node.expression.isSome = node.kind.isEvaluated

/-- All links of a tree lead to nodes of the right kinds. -/
structure Tree.Sound (tree : Tree) (slots : Nat) : Prop where
  root : Leads tree.nodes (fun kind => kind = .entry) tree.root
  nodes : ∀ (id : Nat) (node : Node), tree.nodes[id]? = some node → node.Sound tree.nodes slots
  initializers : ∀ id ∈ tree.initializers, Leads tree.nodes (fun kind => kind = .expression) id

section Placed

variable {nodes : Array Node} {slots : Nat}

/-! ## Where numbers lead -/

/-- The first node of a statement stands among statements. -/
theorem Statement.exists_first (start : Nat) (statement : Statement) :
    ∃ node rest, statement.nodes start = node :: rest ∧ node.kind.isStatement = true := by
  cases statement with
  | leaf line expression => exact ⟨_, _, rfl, rfl⟩
  | whileLoop line condition body closing => exact ⟨_, _, rfl, rfl⟩
  | forEach line iterator slot collection body closing => exact ⟨_, _, rfl, rfl⟩
  | conditional line condition body branches closing => exact ⟨_, _, rfl, rfl⟩

/-- The numbers of statements in a row lead to statements. -/
theorem Block.ids_lead (start : Nat) (block : Block)
    (h : (block.nodes start).IsPrefix (nodes.toList.drop start)) :
    ∀ id ∈ block.ids start, Leads nodes (fun kind => kind.isStatement = true) id := by
  cases block with
  | nil =>
    intro id hid
    cases hid
  | cons first rest =>
    have hsplit := isPrefix_drop_of_append h
    rw [Statement.length_nodes] at hsplit
    intro id hid
    rcases List.mem_cons.1 hid with rfl | hid
    · rcases first.exists_first id with ⟨node, others, hnodes, hkind⟩
      have hplaced := hsplit.1
      rw [hnodes] at hplaced
      exact ⟨node, getElem?_of_isPrefix hplaced, hkind⟩
    · exact Block.ids_lead (start + first.size) rest hsplit.2 id hid

/-- The numbers of the branches with conditions lead to such branches. -/
theorem Branches.elseIfs_lead (start : Nat) (branches : Branches)
    (h : (branches.nodes start).IsPrefix (nodes.toList.drop start)) :
    ∀ id ∈ branches.elseIfs start, Leads nodes (fun kind => kind = .elseIf) id := by
  cases branches with
  | none =>
    intro id hid
    cases hid
  | otherwise line body =>
    intro id hid
    cases hid
  | elseIf line condition body rest =>
    have hsplit := isPrefix_drop_of_append h
    have hrest := hsplit.2
    rw [List.length_cons, Block.length_nodes, Nat.add_comm body.size, ← Nat.add_assoc] at hrest
    intro id hid
    rcases List.mem_cons.1 hid with rfl | hid
    · exact ⟨_, getElem?_of_isPrefix hsplit.1, rfl⟩
    · exact Branches.elseIfs_lead (start + 1 + body.size) rest hrest id hid

/-- The number of the branch without a condition leads to such a branch. -/
theorem Branches.otherwise_leads (start : Nat) (branches : Branches)
    (h : (branches.nodes start).IsPrefix (nodes.toList.drop start)) :
    ∀ id ∈ branches.otherwise? start, Leads nodes (fun kind => kind = .otherwise) id := by
  cases branches with
  | none =>
    intro id hid
    cases hid
  | otherwise line body =>
    intro id hid
    cases hid
    exact ⟨_, getElem?_of_isPrefix h, rfl⟩
  | elseIf line condition body rest =>
    have hrest := (isPrefix_drop_of_append h).2
    rw [List.length_cons, Block.length_nodes, Nat.add_comm body.size, ← Nat.add_assoc] at hrest
    exact Branches.otherwise_leads (start + 1 + body.size) rest hrest

/-! ## Every node is sound -/

/-- A node with statements below it and no other links is sound. -/
theorem Node.Sound.of_body {node : Node} (start : Nat) {body : Block}
    (hbody : (body.nodes start).IsPrefix (nodes.toList.drop start))
    (hchildren : node.children = body.ids start) (helseIfs : node.kind.elseIfs = [])
    (helseBranch : node.kind.elseBranch? = none) (hslot : ∀ slot ∈ node.kind.slot?, slot < slots)
    (hexpression : node.expression.isSome = node.kind.isEvaluated) : node.Sound nodes slots where
  children := by
    rw [hchildren]
    exact body.ids_lead start hbody
  elseIfs := by
    rw [helseIfs]
    intro id hid
    cases hid
  elseBranch := by
    rw [helseBranch]
    intro id hid
    cases hid
  slot := hslot
  expression := hexpression

/-- A node without links is sound. -/
theorem Node.Sound.of_leaf {node : Node} (hkind : node.kind = .expression)
    (hchildren : node.children = []) (hexpression : node.expression.isSome = true) :
    node.Sound nodes slots := by
  have hbody : (Block.nil.nodes 0).IsPrefix (nodes.toList.drop 0) := ⟨_, rfl⟩
  refine Node.Sound.of_body 0 hbody hchildren ?_ ?_ ?_ ?_
  · rw [hkind]
    rfl
  · rw [hkind]
    rfl
  · rw [hkind]
    intro slot hslot
    cases hslot
  · rw [hkind, hexpression]
    rfl

section Conforming

variable {declared : List Variable}

mutual

/-- The nodes of a statement are sound where they lie. -/
theorem Statement.nodes_sound (hslots : declared.length ≤ slots) (start : Nat) (inLoop : Bool) :
    (statement : Statement) → statement.Conforms declared inLoop →
    (statement.nodes start).IsPrefix (nodes.toList.drop start) →
    ∀ node ∈ statement.nodes start, node.Sound nodes slots
  | .leaf line expression, _, _ => by
    intro node hnode
    rw [List.mem_singleton.1 hnode]
    exact .of_leaf rfl rfl rfl
  | .whileLoop line condition body closing, hconforms, h => by
    have hbody := isPrefix_drop_of_cons h
    intro node hnode
    rcases List.mem_cons.1 hnode with rfl | hnode
    · exact .of_body (start + 1) hbody rfl rfl rfl (fun _ hslot => by cases hslot) rfl
    · exact Block.nodes_sound hslots (start + 1) true body hconforms.2.1 hbody node hnode
  | .forEach line iterator slot collection body closing, hconforms, h => by
    have hbody := isPrefix_drop_of_cons h
    have hslot : slot < slots := by
      rcases hconforms.1 with ⟨_, _, _, _, _, _, _, _, _, hfound, _⟩
      exact Nat.lt_of_lt_of_le (List.findIdx?_eq_some_iff_getElem.1 hfound).1 hslots
    intro node hnode
    rcases List.mem_cons.1 hnode with rfl | hnode
    · refine .of_body (start + 1) hbody rfl rfl rfl (fun other hother => ?_) rfl
      cases hother
      exact hslot
    · exact Block.nodes_sound hslots (start + 1) true body hconforms.2.1 hbody node hnode
  | .conditional line condition body branches closing, hconforms, h => by
    have hsplit := isPrefix_drop_of_append h
    have hbody := isPrefix_drop_of_cons hsplit.1
    have hbranches := hsplit.2
    rw [List.length_cons, Block.length_nodes, Nat.add_comm body.size, ← Nat.add_assoc] at hbranches
    intro node hnode
    rcases List.mem_append.1 hnode with hnode | hnode
    · rcases List.mem_cons.1 hnode with rfl | hnode
      · exact {
          children := body.ids_lead (start + 1) hbody
          elseIfs := branches.elseIfs_lead (start + 1 + body.size) hbranches
          elseBranch := branches.otherwise_leads (start + 1 + body.size) hbranches
          slot := fun _ hslot => by cases hslot
          expression := rfl }
      · exact Block.nodes_sound hslots (start + 1) inLoop body hconforms.2.1 hbody node hnode
    · exact Branches.nodes_sound hslots (start + 1 + body.size) inLoop branches hconforms.2.2.1 hbranches
        node hnode

/-- The nodes of statements in a row are sound where they lie. -/
theorem Block.nodes_sound (hslots : declared.length ≤ slots) (start : Nat) (inLoop : Bool) :
    (block : Block) → block.Conforms declared inLoop → (block.nodes start).IsPrefix (nodes.toList.drop start) →
    ∀ node ∈ block.nodes start, node.Sound nodes slots
  | .nil, _, _ => by
    intro node hnode
    cases hnode
  | .cons first rest, hconforms, h => by
    have hsplit := isPrefix_drop_of_append h
    rw [Statement.length_nodes] at hsplit
    intro node hnode
    rcases List.mem_append.1 hnode with hnode | hnode
    · exact Statement.nodes_sound hslots start inLoop first hconforms.1 hsplit.1 node hnode
    · exact Block.nodes_sound hslots (start + first.size) inLoop rest hconforms.2 hsplit.2 node hnode

/-- The nodes of branches are sound where they lie. -/
theorem Branches.nodes_sound (hslots : declared.length ≤ slots) (start : Nat) (inLoop : Bool) :
    (branches : Branches) → branches.Conforms declared inLoop →
    (branches.nodes start).IsPrefix (nodes.toList.drop start) →
    ∀ node ∈ branches.nodes start, node.Sound nodes slots
  | .none, _, _ => by
    intro node hnode
    cases hnode
  | .otherwise line body, hconforms, h => by
    have hbody := isPrefix_drop_of_cons h
    intro node hnode
    rcases List.mem_cons.1 hnode with rfl | hnode
    · exact .of_body (start + 1) hbody rfl rfl rfl (fun _ hslot => by cases hslot) rfl
    · exact Block.nodes_sound hslots (start + 1) inLoop body hconforms.2 hbody node hnode
  | .elseIf line condition body rest, hconforms, h => by
    have hsplit := isPrefix_drop_of_append h
    have hbody := isPrefix_drop_of_cons hsplit.1
    have hrest := hsplit.2
    rw [List.length_cons, Block.length_nodes, Nat.add_comm body.size, ← Nat.add_assoc] at hrest
    intro node hnode
    rcases List.mem_append.1 hnode with hnode | hnode
    · rcases List.mem_cons.1 hnode with rfl | hnode
      · exact .of_body (start + 1) hbody rfl rfl rfl (fun _ hslot => by cases hslot) rfl
      · exact Block.nodes_sound hslots (start + 1) inLoop body hconforms.2.1 hbody node hnode
    · exact Branches.nodes_sound hslots (start + 1 + body.size) inLoop rest hconforms.2.2 hrest node hnode

end

end Conforming

/-! ## Visits -/

/-- Below a node, compilation visits the node itself, its branches and its body. -/
theorem visitsFrom_succ {id : Nat} {node : Node} (h : nodes[id]? = some node) (depth : Nat) :
    Tree.visitsFrom nodes (depth + 1) id =
      (if node.kind.isEvaluated then [id] else []) ++
        (node.kind.elseBranch?.toList ++ node.kind.elseIfs).flatMap (Tree.visitsFrom nodes depth) ++
        if node.kind = .expression then [] else
          node.children.flatMap (Tree.visitsFrom nodes depth) := by
  unfold Tree.visitsFrom
  rw [h]
  rcases node with ⟨kind, source, expression, line, children, code⟩
  cases kind <;> simp [NodeKind.isEvaluated, NodeKind.elseBranch?, NodeKind.elseIfs]

/-- Only evaluated nodes are visited below a node, when all nodes are sound. -/
theorem leads_of_mem_visitsFrom
    (hsound : ∀ (id : Nat) (node : Node), nodes[id]? = some node → node.Sound nodes slots)
    (depth id : Nat) (hid : Leads nodes (fun _ => True) id) :
    ∀ visited ∈ Tree.visitsFrom nodes depth id,
      Leads nodes (fun kind => kind.isEvaluated = true) visited := by
  induction depth generalizing id with
  | zero =>
    intro visited hvisited
    cases hvisited
  | succ depth ih =>
    rcases hid with ⟨node, hnode, -⟩
    have hlinks := hsound id node hnode
    intro visited hvisited
    rw [visitsFrom_succ hnode] at hvisited
    rcases List.mem_append.1 hvisited with hvisited | hbody
    · rcases List.mem_append.1 hvisited with hself | hbranch
      · cases hkind : node.kind.isEvaluated with
        | false => simp [hkind] at hself
        | true =>
          rw [hkind, if_pos rfl, List.mem_singleton] at hself
          subst hself
          exact ⟨node, hnode, hkind⟩
      · rcases List.mem_flatMap.1 hbranch with ⟨branch, hbranch, hvisited⟩
        rcases List.mem_append.1 hbranch with helse | helseIf
        · rcases hlinks.elseBranch branch (Option.mem_toList.1 helse) with ⟨below, hbelow, -⟩
          exact ih branch ⟨below, hbelow, trivial⟩ visited hvisited
        · rcases hlinks.elseIfs branch helseIf with ⟨below, hbelow, -⟩
          exact ih branch ⟨below, hbelow, trivial⟩ visited hvisited
    · by_cases hleaf : node.kind = .expression
      · simp [hleaf] at hbody
      · rw [if_neg hleaf] at hbody
        rcases List.mem_flatMap.1 hbody with ⟨child, hchild, hvisited⟩
        rcases hlinks.children child hchild with ⟨below, hbelow, -⟩
        exact ih child ⟨below, hbelow, trivial⟩ visited hvisited

/-- Compilation visits evaluated nodes only. -/
theorem Tree.Sound.of_mem_visits {tree : Tree} (h : tree.Sound slots) :
    ∀ id ∈ tree.visits, Leads tree.nodes (fun kind => kind.isEvaluated = true) id := by
  intro id hid
  rcases List.mem_append.1 hid with hid | hid
  · rcases h.initializers id hid with ⟨node, hnode, hkind⟩
    exact ⟨node, hnode, by rw [hkind]; rfl⟩
  · rcases h.root with ⟨entry, hentry, -⟩
    exact leads_of_mem_visitsFrom h.nodes _ _ ⟨entry, hentry, trivial⟩ id hid

/-- The body of a visited node is visited, in a tree where the node is no leaf. -/
theorem mem_visitsFrom_of_body {id visited depth : Nat} {node : Node}
    (h : nodes[id]? = some node) (hleaf : node.kind ≠ .expression)
    (hbody : visited ∈ node.children.flatMap (Tree.visitsFrom nodes depth)) :
    visited ∈ Tree.visitsFrom nodes (depth + 1) id := by
  rw [visitsFrom_succ h, if_neg hleaf]
  exact List.mem_append_right _ hbody

/-- A node is visited below itself when it is evaluated. -/
theorem mem_visitsFrom_self {id : Nat} (h : Leads nodes (fun kind => kind.isEvaluated = true) id)
    (depth : Nat) : id ∈ Tree.visitsFrom nodes (depth + 1) id := by
  rcases h with ⟨node, hnode, hkind⟩
  rw [visitsFrom_succ hnode, hkind]
  simp

mutual

/-- Every evaluated node of a statement is visited below it. -/
theorem Statement.mem_visitsFrom {id : Nat}
    (hid : Leads nodes (fun kind => kind.isEvaluated = true) id) (start depth : Nat) :
    (statement : Statement) → statement.size ≤ depth →
    (statement.nodes start).IsPrefix (nodes.toList.drop start) →
    start ≤ id → id < start + statement.size → id ∈ Tree.visitsFrom nodes depth start
  | statement, hdepth, h, hfirst, hlast => by
    obtain ⟨depth, rfl⟩ : ∃ less, depth = less + 1 := by
      have hpos : 0 < statement.size := by
        cases statement <;> simp only [Statement.size] <;> omega
      exact ⟨depth - 1, by omega⟩
    by_cases hself : id = start
    · subst hself
      exact mem_visitsFrom_self hid depth
    · match statement with
      | .leaf line expression =>
        simp only [Statement.size] at hlast
        omega
      | .whileLoop line condition body closing =>
        simp only [Statement.size] at hdepth hlast
        refine mem_visitsFrom_of_body (getElem?_of_isPrefix h) (by simp [Outline.newNode]) ?_
        exact Block.mem_visitsFrom hid (start + 1) depth body (by omega)
          (isPrefix_drop_of_cons h) (by omega) (by omega)
      | .forEach line iterator slot collection body closing =>
        simp only [Statement.size] at hdepth hlast
        refine mem_visitsFrom_of_body (getElem?_of_isPrefix h) (by simp [Outline.newNode]) ?_
        exact Block.mem_visitsFrom hid (start + 1) depth body (by omega)
          (isPrefix_drop_of_cons h) (by omega) (by omega)
      | .conditional line condition body branches closing =>
        simp only [Statement.size] at hdepth hlast
        have hsplit := isPrefix_drop_of_append h
        have hbranches := hsplit.2
        rw [List.length_cons, Block.length_nodes, Nat.add_comm body.size, ← Nat.add_assoc]
          at hbranches
        by_cases hbody : id < start + 1 + body.size
        · refine mem_visitsFrom_of_body (getElem?_of_isPrefix hsplit.1)
            (by simp [Outline.newNode]) ?_
          exact Block.mem_visitsFrom hid (start + 1) depth body (by omega)
            (isPrefix_drop_of_cons hsplit.1) (by omega) (by omega)
        · rw [visitsFrom_succ (getElem?_of_isPrefix hsplit.1)]
          refine List.mem_append_left _ (List.mem_append_right _ ?_)
          exact Branches.mem_visitsFrom hid (start + 1 + body.size) depth branches (by omega)
            hbranches (by omega) (by omega)

/-- Every evaluated node of statements in a row is visited below one of them. -/
theorem Block.mem_visitsFrom {id : Nat}
    (hid : Leads nodes (fun kind => kind.isEvaluated = true) id) (start depth : Nat) :
    (block : Block) → block.size ≤ depth →
    (block.nodes start).IsPrefix (nodes.toList.drop start) →
    start ≤ id → id < start + block.size →
    id ∈ (block.ids start).flatMap (Tree.visitsFrom nodes depth)
  | .nil, _, _, hfirst, hlast => by
    simp only [Block.size] at hlast
    omega
  | .cons first rest, hdepth, h, hfirst, hlast => by
    simp only [Block.size] at hdepth hlast
    have hsplit := isPrefix_drop_of_append h
    rw [Statement.length_nodes] at hsplit
    simp only [Block.ids, List.flatMap_cons]
    by_cases hinside : id < start + first.size
    · exact List.mem_append_left _ (Statement.mem_visitsFrom hid start depth first (by omega)
        hsplit.1 hfirst hinside)
    · exact List.mem_append_right _ (Block.mem_visitsFrom hid (start + first.size) depth rest
        (by omega) hsplit.2 (by omega) (by omega))

/-- Every evaluated node of branches is visited below one of them. -/
theorem Branches.mem_visitsFrom {id : Nat}
    (hid : Leads nodes (fun kind => kind.isEvaluated = true) id) (start depth : Nat) :
    (branches : Branches) → branches.size ≤ depth →
    (branches.nodes start).IsPrefix (nodes.toList.drop start) →
    start ≤ id → id < start + branches.size →
    id ∈ ((branches.otherwise? start).toList ++ branches.elseIfs start).flatMap
      (Tree.visitsFrom nodes depth)
  | .none, _, _, hfirst, hlast => by
    simp only [Branches.size] at hlast
    omega
  | .otherwise line body, hdepth, h, hfirst, hlast => by
    simp only [Branches.size] at hdepth hlast
    have hhead := getElem?_of_isPrefix h
    -- The head of the branch is not evaluated.
    have hother : id ≠ start := by
      intro hself
      subst hself
      rcases hid with ⟨node, hnode, hkind⟩
      rw [hhead] at hnode
      cases hnode
      cases hkind
    obtain ⟨depth, rfl⟩ : ∃ less, depth = less + 1 := ⟨depth - 1, by omega⟩
    simp only [Branches.otherwise?, Branches.elseIfs, Option.toList_some, List.append_nil,
      List.flatMap_cons, List.flatMap_nil]
    refine mem_visitsFrom_of_body hhead (by simp [Outline.newNode]) ?_
    exact Block.mem_visitsFrom hid (start + 1) depth body (by omega) (isPrefix_drop_of_cons h)
      (by omega) (by omega)
  | .elseIf line condition body rest, hdepth, h, hfirst, hlast => by
    simp only [Branches.size] at hdepth hlast
    have hsplit := isPrefix_drop_of_append h
    have hrest := hsplit.2
    rw [List.length_cons, Block.length_nodes, Nat.add_comm body.size, ← Nat.add_assoc] at hrest
    rw [List.mem_flatMap]
    by_cases hinside : id < start + 1 + body.size
    · -- The node is this branch or inside of it.
      obtain ⟨depth, rfl⟩ : ∃ less, depth = less + 1 := ⟨depth - 1, by omega⟩
      refine ⟨start, List.mem_append_right _ (List.mem_cons_self ..), ?_⟩
      by_cases hself : id = start
      · subst hself
        exact mem_visitsFrom_self hid depth
      · refine mem_visitsFrom_of_body (getElem?_of_isPrefix hsplit.1)
          (by simp [Outline.newNode]) ?_
        exact Block.mem_visitsFrom hid (start + 1) depth body (by omega)
          (isPrefix_drop_of_cons hsplit.1) (by omega) (by omega)
    · have hvisited := Branches.mem_visitsFrom hid (start + 1 + body.size) depth rest (by omega)
        hrest (by omega) (by omega)
      rcases List.mem_flatMap.1 hvisited with ⟨branch, hbranch, hvisited⟩
      refine ⟨branch, ?_, hvisited⟩
      rcases List.mem_append.1 hbranch with hbranch | hbranch
      · exact List.mem_append_left _ hbranch
      · exact List.mem_append_right _ (List.mem_cons_of_mem _ hbranch)

end

end Placed

/-! ## The tree of a script -/

namespace Script

/-- The entry block, the statements inside of it and the initializers, one behind the other. -/
theorem tree_toList (script : Script) : script.tree.nodes.toList =
    { Outline.newNode .entry script.opening none with children := script.body.ids 1 } ::
      script.body.nodes 1 ++ script.initializerNodes := by
  simp [tree]

/-- The body of a script lies behind its entry block. -/
theorem body_isPrefix (script : Script) :
    (script.body.nodes 1).IsPrefix (script.tree.nodes.toList.drop 1) := by
  rw [tree_toList]
  exact ⟨script.initializerNodes, rfl⟩

/-- The declarations on both sides of the entry block are at least those in front of it. -/
theorem length_before_le (script : Script) :
    (script.before.map Prod.snd).length ≤ script.declaredVariables.length := by
  simp [declaredVariables]

/-- The node of an initializer is a leaf with an expression. -/
theorem leaf_of_mem_initializerNodes {script : Script} {node : Node}
    (h : node ∈ script.initializerNodes) :
    node.kind = .expression ∧ node.children = [] ∧ node.expression.isSome = true := by
  rcases List.mem_filterMap.1 h with ⟨⟨declared, slot⟩, -, hinitializer⟩
  simp only at hinitializer
  split at hinitializer
  · cases hinitializer
  · rcases Option.map_eq_some_iff.1 hinitializer with ⟨text, -, rfl⟩
    exact ⟨rfl, rfl, rfl⟩

/-- The tree of a script that conforms to the grammar is sound. -/
theorem tree_sound {globals : Globals} {script : Script} (h : script.Conforms globals) :
    script.tree.Sound script.declaredVariables.length where
  root := by
    rcases script.isIn_tree.1 with ⟨children, hroot, -⟩
    exact ⟨_, hroot, rfl⟩
  nodes := by
    intro id node hnode
    rw [← Array.getElem?_toList, tree_toList] at hnode
    rcases List.mem_append.1 (List.mem_of_getElem? hnode) with hmem | hmem
    · rcases List.mem_cons.1 hmem with rfl | hmem
      · exact .of_body 1 script.body_isPrefix rfl rfl rfl (fun _ hslot => by cases hslot) rfl
      · exact Block.nodes_sound script.length_before_le 1 false script.body h.body
          script.body_isPrefix node hmem
    · rcases leaf_of_mem_initializerNodes hmem with ⟨hkind, hchildren, hexpression⟩
      exact .of_leaf hkind hchildren hexpression
  initializers := by
    intro id hid
    have hfound : script.tree.nodes[id]? ∈ script.initializerNodes.map some := by
      rw [← script.isIn_tree.2]
      exact List.mem_map_of_mem hid
    rcases List.mem_map.1 hfound with ⟨node, hmem, hnode⟩
    exact ⟨node, hnode.symm, (leaf_of_mem_initializerNodes hmem).1⟩

/-- Compilation visits every evaluated node of a script. -/
theorem mem_visits (script : Script) {id : Nat}
    (h : Leads script.tree.nodes (fun kind => kind.isEvaluated = true) id) :
    id ∈ script.tree.visits := by
  have hsize : script.tree.nodes.size = 1 + script.body.size + script.initializerNodes.length := by
    rw [← Array.length_toList, tree_toList]
    simp
    omega
  have hlt : id < script.tree.nodes.size := by
    rcases h with ⟨node, hnode, -⟩
    exact (Array.getElem?_eq_some_iff.1 hnode).1
  by_cases hinside : id < 1 + script.body.size
  · refine List.mem_append_right _ ?_
    have hroot : script.tree.nodes[0]? =
        some { Outline.newNode .entry script.opening none with children := script.body.ids 1 } := by
      simp [tree]
    have hother : 1 ≤ id := by
      rcases Nat.eq_zero_or_pos id with rfl | hpos
      · rcases h with ⟨node, hnode, hkind⟩
        rw [hroot] at hnode
        cases hnode
        cases hkind
      · exact hpos
    obtain ⟨depth, hdepth⟩ : ∃ less, script.tree.nodes.size = less + 1 :=
      ⟨script.tree.nodes.size - 1, by omega⟩
    rw [hdepth]
    refine mem_visitsFrom_of_body hroot (by simp [Outline.newNode]) ?_
    exact Block.mem_visitsFrom h 1 depth script.body (by omega) script.body_isPrefix hother hinside
  · refine List.mem_append_left _ (List.mem_map.2 ⟨id - (1 + script.body.size), ?_, by omega⟩)
    rw [List.mem_range]
    omega

end Script
end ScriptMachine
