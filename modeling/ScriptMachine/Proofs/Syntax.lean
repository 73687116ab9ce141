import ScriptMachine.Proofs.Wording

/-!
# The grammar of scripts

A derivation tree keeps the lines of a script in the structure that the grammar gives them.
It has a yield, the lines themselves, and it conforms to the grammar when every line says
what its place in the tree asks for.  The syntax tree of a script is a numbering of the
derivation tree: every statement comes before its parts, and the parts come in their order.

Main results:

- {lit}`Statement`, {lit}`Block`, {lit}`Branches` and {lit}`Script`: derivation trees.
- {lit}`Script.Conforms`: the grammar.
- {lit}`Script.tree`: the syntax tree of a derivation tree.
- {lit}`Block.length_nodes`: the nodes of a block are as many as its size says.
-/

namespace ScriptMachine

open Source Text

/-! ## Derivation trees -/

mutual

/-- A statement with the lines from which it is read. -/
inductive Statement where
  /-- A statement without parts. -/
  | leaf (line : Line) (expression : List Char)
  | whileLoop (line : Line) (condition : List Char) (body : Block) (closing : Line)
  /-- A loop over an array, with the folded name of its variable and the slot of it. -/
  | forEach (line : Line) (iterator : String) (slot : Nat) (collection : List Char) (body : Block)
      (closing : Line)
  | conditional (line : Line) (condition : List Char) (body : Block) (branches : Branches)
      (closing : Line)

/-- Statements in a row. -/
inductive Block where
  | nil
  | cons (first : Statement) (rest : Block)

/-- The branches of a conditional behind its own body. -/
inductive Branches where
  | none
  | otherwise (line : Line) (body : Block)
  | elseIf (line : Line) (condition : List Char) (body : Block) (rest : Branches)

end

/-- A script: its header, declarations on both sides of the entry block, and the entry block
with the slots of its parameters. -/
structure Script where
  header : Line
  before : List (Line × Variable)
  opening : Line
  parameters : List Nat
  body : Block
  closing : Line
  after : List (Line × Variable)

/-! ## Yields -/

mutual

/-- The lines of a statement. -/
def Statement.lines : Statement → List Line
  | .leaf line _ => [line]
  | .whileLoop line _ body closing => line :: body.lines ++ [closing]
  | .forEach line _ _ _ body closing => line :: body.lines ++ [closing]
  | .conditional line _ body branches closing =>
    line :: body.lines ++ branches.lines ++ [closing]

/-- The lines of statements in a row. -/
def Block.lines : Block → List Line
  | .nil => []
  | .cons first rest => first.lines ++ rest.lines

/-- The lines of branches. -/
def Branches.lines : Branches → List Line
  | .none => []
  | .otherwise line body => line :: body.lines
  | .elseIf line _ body rest => line :: body.lines ++ rest.lines

end

/-- The lines of a script. -/
def Script.lines (script : Script) : List Line :=
  script.header :: script.before.map Prod.fst ++ script.opening :: script.body.lines ++
    script.closing :: script.after.map Prod.fst

/-! ## The grammar -/

namespace Source.Keyword

/-- Whether a keyword is part of the structure of a script. -/
def isStructural : Keyword → Bool
  | .returnStatement | .breakStatement | .continueStatement => false
  | _ => true

/-- Whether a keyword leaves or repeats a loop. -/
def isLoopJump : Keyword → Bool
  | .breakStatement | .continueStatement => true
  | _ => false

end Source.Keyword

namespace Source.Line

/-- A line is a statement, or its keyword is part of the structure of a script. -/
theorem plain_or_structural (line : Line) :
    (∀ keyword, line.keyword? = some keyword → keyword.isStructural = false) ∨
      ∃ keyword, line.keyword? = some keyword ∧ keyword.isStructural = true := by
  cases hkeyword : line.keyword? with
  | none => exact .inl fun keyword hsome => by cases hsome
  | some keyword =>
    cases hstructural : keyword.isStructural with
    | true => exact .inr ⟨keyword, rfl, hstructural⟩
    | false =>
      refine .inl fun found hfound => ?_
      cases hfound
      exact hstructural

/-- A line of a keyword and a condition that is not empty. -/
def IsConditioned (line : Line) (keyword : Keyword) (condition : List Char) : Prop :=
  line.keyword? = some keyword ∧ keyword.remainder? line.text = some condition ∧ condition ≠ []

/-- The head of a loop over an array: a declared variable, the word {lit}`in` in any letter
case, and the text of the array. -/
def IsForEach (line : Line) (declared : List Variable) (iterator : String) (slot : Nat)
    (collection : List Char) : Prop :=
  line.keyword? = some .forEachLoop ∧ ∃ keyword name preposition array more,
    line.tokens = keyword :: name :: preposition :: array :: more ∧
      sameName (String.ofList preposition.text) "in" = true ∧
      iterator = fold (String.ofList name.text) ∧
      Program.slotIn? declared (String.ofList name.text) = some slot ∧
      dropBytes? array.offset (clean .everything line.text) = some collection

/-- A statement without parts: its first word is no structural keyword, and a loop jump stands
inside of a loop. -/
def IsLeaf (line : Line) (inLoop : Bool) (expression : List Char) : Prop :=
  (∀ keyword, line.keyword? = some keyword → keyword.isStructural = false ∧
    (keyword.isLoopJump = true → inLoop = true)) ∧
  Outline.statementText line line.keyword? = .ok expression

/-- A declaration of a variable: an identifier that is neither declared already, in any letter
case, nor a global. -/
def IsDeclaration (line : Line) (globals : Globals) (declared : List Variable)
    (fresh : Variable) : Prop :=
  line.keyword? = some .declaration ∧ ∃ token, line.tokens[1]? = some token ∧
    isIdentifier token.text = true ∧
    Program.slotIn? declared (String.ofList token.text) = none ∧
    globals.contains (String.ofList token.text) = false ∧
    fresh.name = fold (String.ofList token.text) ∧ fresh.line = line.number ∧
    if 2 < line.tokens.length then ∃ text, fresh.initializer = some text ∧
      dropBytes? token.offset (clean .everything line.text) = some text
    else fresh.initializer = none

/-- The opening line of the entry block, with the slots of its parameters: at most ten
different variables that are declared already. -/
def IsOpening (line : Line) (declared : List Variable) (parameters : List Nat) : Prop :=
  line.keyword? = some .beginBlock ∧ parameters.length ≤ maxParameters ∧ parameters.Nodup ∧
    (line.tokens.drop 1).map (fun token => Program.slotIn? declared (String.ofList token.text)) =
      parameters.map some

/-- The header of a script. -/
def IsHeader (line : Line) : Prop :=
  line.keyword? = some .header ∧ line.tokens[1]?.isSome = true

end Source.Line

section Grammar

variable (declared : List Variable)

mutual

/-- A statement conforms to the grammar, inside or outside of loops. -/
def Statement.Conforms (inLoop : Bool) : Statement → Prop
  | .leaf line expression => line.IsLeaf inLoop expression
  | .whileLoop line condition body closing =>
    line.IsConditioned .whileLoop condition ∧ body.Conforms true ∧
      closing.keyword? = some .endLoop
  | .forEach line iterator slot collection body closing =>
    line.IsForEach declared iterator slot collection ∧ body.Conforms true ∧
      closing.keyword? = some .endLoop
  | .conditional line condition body branches closing =>
    line.IsConditioned .ifBlock condition ∧ body.Conforms inLoop ∧ branches.Conforms inLoop ∧
      closing.keyword? = some .endIf

/-- Statements in a row conform to the grammar. -/
def Block.Conforms (inLoop : Bool) : Block → Prop
  | .nil => True
  | .cons first rest => first.Conforms inLoop ∧ rest.Conforms inLoop

/-- Branches conform to the grammar. -/
def Branches.Conforms (inLoop : Bool) : Branches → Prop
  | .none => True
  | .otherwise line body => line.keyword? = some .elseBranch ∧ body.Conforms inLoop
  | .elseIf line condition body rest =>
    line.IsConditioned .elseIfBranch condition ∧ body.Conforms inLoop ∧ rest.Conforms inLoop

end

/-- Declarations in a row conform to the grammar, behind those that are given. -/
def DeclarationsConform (globals : Globals) : List Variable → List (Line × Variable) → Prop
  | _, [] => True
  | declared, (line, fresh) :: rest =>
    line.IsDeclaration globals declared fresh ∧
      DeclarationsConform globals (declared ++ [fresh]) rest

end Grammar

namespace Script

/-- The variables of a script, in order of declaration. -/
def declaredVariables (script : Script) : List Variable :=
  (script.before ++ script.after).map Prod.snd

/-- A script conforms to the grammar. -/
structure Conforms (globals : Globals) (script : Script) : Prop where
  header : script.header.IsHeader
  before : DeclarationsConform globals [] script.before
  opening : script.opening.IsOpening (script.before.map Prod.snd) script.parameters
  body : script.body.Conforms (script.before.map Prod.snd) false
  closing : script.closing.keyword? = some .endBlock
  after : DeclarationsConform globals (script.before.map Prod.snd) script.after

/-- Lines are derived as a script. -/
def Derives (globals : Globals) (lines : List Line) (script : Script) : Prop :=
  script.lines = lines ∧ script.Conforms globals

end Script

/-! ## Numbering -/

mutual

/-- The number of nodes of a statement. -/
def Statement.size : Statement → Nat
  | .leaf _ _ => 1
  | .whileLoop _ _ body _ => 1 + body.size
  | .forEach _ _ _ _ body _ => 1 + body.size
  | .conditional _ _ body branches _ => 1 + body.size + branches.size

/-- The number of nodes of statements in a row. -/
def Block.size : Block → Nat
  | .nil => 0
  | .cons first rest => first.size + rest.size

/-- The number of nodes of branches. -/
def Branches.size : Branches → Nat
  | .none => 0
  | .otherwise _ body => 1 + body.size
  | .elseIf _ _ body rest => 1 + body.size + rest.size

end

/-- The numbers of statements in a row, when the first of them has the given one. -/
def Block.ids (start : Nat) : Block → List Nat
  | .nil => []
  | .cons first rest => start :: rest.ids (start + first.size)

/-- The numbers of the branches with conditions. -/
def Branches.elseIfs (start : Nat) : Branches → List Nat
  | .none | .otherwise _ _ => []
  | .elseIf _ _ body rest => start :: rest.elseIfs (start + 1 + body.size)

/-- The number of the branch without a condition. -/
def Branches.otherwise? (start : Nat) : Branches → Option Nat
  | .none => .none
  | .otherwise _ _ => some start
  | .elseIf _ _ body rest => rest.otherwise? (start + 1 + body.size)

mutual

/-- The nodes of a statement, when the first of them has the given number. -/
def Statement.nodes (start : Nat) : Statement → List Node
  | .leaf line expression => [Outline.newNode .expression line (some expression)]
  | .whileLoop line condition body _ =>
    { Outline.newNode .whileLoop line (some condition) with children := body.ids (start + 1) } ::
      body.nodes (start + 1)
  | .forEach line iterator slot collection body _ =>
    { Outline.newNode (.forEach iterator slot) line (some collection) with
      children := body.ids (start + 1) } :: body.nodes (start + 1)
  | .conditional line condition body branches _ =>
    let behind := start + 1 + body.size
    let kind := NodeKind.conditional (branches.elseIfs behind) (branches.otherwise? behind)
    { Outline.newNode kind line (some condition) with children := body.ids (start + 1) } ::
      body.nodes (start + 1) ++ branches.nodes behind

/-- The nodes of statements in a row. -/
def Block.nodes (start : Nat) : Block → List Node
  | .nil => []
  | .cons first rest => first.nodes start ++ rest.nodes (start + first.size)

/-- The nodes of branches. -/
def Branches.nodes (start : Nat) : Branches → List Node
  | .none => []
  | .otherwise line body =>
    { Outline.newNode .otherwise line .none with children := body.ids (start + 1) } ::
      body.nodes (start + 1)
  | .elseIf line condition body rest =>
    { Outline.newNode .elseIf line (some condition) with children := body.ids (start + 1) } ::
      body.nodes (start + 1) ++ rest.nodes (start + 1 + body.size)

end

mutual

/-- The nodes of a statement are as many as its size says. -/
@[simp] theorem Statement.length_nodes (start : Nat) :
    (statement : Statement) → (statement.nodes start).length = statement.size
  | .leaf line expression => rfl
  | .whileLoop line condition body closing => by
    simp only [Statement.nodes, Statement.size, List.length_cons, body.length_nodes]
    omega
  | .forEach line iterator slot collection body closing => by
    simp only [Statement.nodes, Statement.size, List.length_cons, body.length_nodes]
    omega
  | .conditional line condition body branches closing => by
    simp only [Statement.nodes, Statement.size, List.cons_append, List.length_cons,
      List.length_append,
      body.length_nodes, branches.length_nodes]
    omega

/-- The nodes of a block are as many as its size says. -/
@[simp] theorem Block.length_nodes (start : Nat) :
    (block : Block) → (block.nodes start).length = block.size
  | .nil => rfl
  | .cons first rest => by
    simp only [Block.nodes, Block.size, List.length_append, first.length_nodes, rest.length_nodes]

/-- The nodes of branches are as many as their size says. -/
@[simp] theorem Branches.length_nodes (start : Nat) :
    (branches : Branches) → (branches.nodes start).length = branches.size
  | .none => rfl
  | .otherwise line body => by
    simp only [Branches.nodes, Branches.size, List.length_cons, body.length_nodes]
    omega
  | .elseIf line condition body rest => by
    simp only [Branches.nodes, Branches.size, List.cons_append, List.length_cons,
      List.length_append,
      body.length_nodes, rest.length_nodes]
    omega

end

namespace Script

/-- The nodes of the initializers of all variables that are no parameters. -/
def initializerNodes (script : Script) : List Node :=
  script.declaredVariables.zipIdx.filterMap fun (declared, slot) =>
    if script.parameters.contains slot then none
    else declared.initializer.map (Outline.initializerNode declared)

/-- The syntax tree of a script: the entry block, everything inside of it, and the
initializers. -/
def tree (script : Script) : Tree where
  nodes :=
    #[{ Outline.newNode .entry script.opening none with children := script.body.ids 1 }] ++
      (script.body.nodes 1).toArray ++ script.initializerNodes.toArray
  root := 0
  initializers :=
    (List.range script.initializerNodes.length).map (1 + script.body.size + ·)

end Script

/-! ## Reading derivations off nodes -/

mutual

/-- A statement is found at a node: its parts are found at the children of the node. -/
def Statement.IsAt (nodes : Array Node) (id : Nat) : Statement → Prop
  | .leaf line expression => nodes[id]? = some (Outline.newNode .expression line (some expression))
  | .whileLoop line condition body _ => ∃ children,
    nodes[id]? =
      some { Outline.newNode .whileLoop line (some condition) with children := children } ∧
      body.AreAt nodes children
  | .forEach line iterator slot collection body _ => ∃ children,
    nodes[id]? = some { Outline.newNode (.forEach iterator slot) line (some collection) with
      children := children } ∧ body.AreAt nodes children
  | .conditional line condition body branches _ => ∃ children elseIfs otherwise,
    nodes[id]? = some { Outline.newNode (.conditional elseIfs otherwise) line (some condition) with
      children := children } ∧ body.AreAt nodes children ∧ branches.AreAt nodes elseIfs otherwise

/-- Statements in a row are found at nodes in the same order. -/
def Block.AreAt (nodes : Array Node) : List Nat → Block → Prop
  | [], .nil => True
  | id :: ids, .cons first rest => first.IsAt nodes id ∧ rest.AreAt nodes ids
  | _, _ => False

/-- Branches are found at the branches of a conditional, in the same order. -/
def Branches.AreAt (nodes : Array Node) : List Nat → Option Nat → Branches → Prop
  | [], none, .none => True
  | [], some id, .otherwise line body => ∃ children,
    nodes[id]? = some { Outline.newNode .otherwise line none with children := children } ∧
      body.AreAt nodes children
  | id :: ids, otherwise, .elseIf line condition body rest =>
    (∃ children, nodes[id]? = some { Outline.newNode .elseIf line (some condition) with
      children := children } ∧ body.AreAt nodes children) ∧ rest.AreAt nodes ids otherwise
  | _, _, _ => False

end

/-- A script is found in a tree: its entry block at the root, and the initializers beside it. -/
def Script.IsIn (script : Script) (tree : Tree) : Prop :=
  (∃ children, tree.nodes[tree.root]? =
      some { Outline.newNode .entry script.opening none with children := children } ∧
    script.body.AreAt tree.nodes children) ∧
  tree.initializers.map (fun id => tree.nodes[id]?) = script.initializerNodes.map some

section Placement

variable {nodes : Array Node} {start : Nat}

/-- The first of the nodes that lie somewhere. -/
theorem getElem?_of_isPrefix {node : Node} {rest : List Node}
    (h : (node :: rest).IsPrefix (nodes.toList.drop start)) : nodes[start]? = some node := by
  rcases h with ⟨last, hlast⟩
  have hfirst : (nodes.toList.drop start)[0]? = some node := by
    rw [← hlast]
    rfl
  rw [List.getElem?_drop] at hfirst
  simpa using hfirst

/-- Nodes in a row lie behind each other. -/
theorem isPrefix_drop_of_append {first rest : List Node}
    (h : (first ++ rest).IsPrefix (nodes.toList.drop start)) :
    first.IsPrefix (nodes.toList.drop start) ∧
      rest.IsPrefix (nodes.toList.drop (start + first.length)) := by
  rcases h with ⟨last, hlast⟩
  refine ⟨⟨rest ++ last, by rw [← hlast]; simp⟩, ⟨last, ?_⟩⟩
  rw [← List.drop_drop, ← hlast]
  simp

/-- The nodes behind the first of them lie behind it. -/
theorem isPrefix_drop_of_cons {node : Node} {rest : List Node}
    (h : (node :: rest).IsPrefix (nodes.toList.drop start)) :
    rest.IsPrefix (nodes.toList.drop (start + 1)) :=
  (@isPrefix_drop_of_append nodes start [node] rest h).2

mutual

/-- A statement is found where its nodes lie. -/
theorem Statement.isAt_of_isPrefix (start : Nat) : (statement : Statement) →
    (statement.nodes start).IsPrefix (nodes.toList.drop start) → statement.IsAt nodes start
  | .leaf line expression, h => getElem?_of_isPrefix h
  | .whileLoop line condition body closing, h => by
    have hbody := isPrefix_drop_of_cons h
    exact ⟨body.ids (start + 1), getElem?_of_isPrefix h,
      Block.areAt_of_isPrefix (start + 1) body hbody⟩
  | .forEach line iterator slot collection body closing, h => by
    have hbody := isPrefix_drop_of_cons h
    exact ⟨body.ids (start + 1), getElem?_of_isPrefix h,
      Block.areAt_of_isPrefix (start + 1) body hbody⟩
  | .conditional line condition body branches closing, h => by
    have hsplit := isPrefix_drop_of_append h
    have hbody := isPrefix_drop_of_cons hsplit.1
    have hbranches := hsplit.2
    rw [List.length_cons, Block.length_nodes, Nat.add_comm body.size, ← Nat.add_assoc] at hbranches
    exact ⟨_, _, _, getElem?_of_isPrefix hsplit.1, Block.areAt_of_isPrefix (start + 1) body hbody,
      Branches.areAt_of_isPrefix (start + 1 + body.size) branches hbranches⟩

/-- Statements in a row are found where their nodes lie. -/
theorem Block.areAt_of_isPrefix (start : Nat) : (block : Block) →
    (block.nodes start).IsPrefix (nodes.toList.drop start) → block.AreAt nodes (block.ids start)
  | .nil, _ => trivial
  | .cons first rest, h => by
    have hsplit := isPrefix_drop_of_append h
    rw [Statement.length_nodes] at hsplit
    exact ⟨Statement.isAt_of_isPrefix start first hsplit.1,
      Block.areAt_of_isPrefix (start + first.size) rest hsplit.2⟩

/-- Branches are found where their nodes lie. -/
theorem Branches.areAt_of_isPrefix (start : Nat) : (branches : Branches) →
    (branches.nodes start).IsPrefix (nodes.toList.drop start) →
    branches.AreAt nodes (branches.elseIfs start) (branches.otherwise? start)
  | .none, _ => trivial
  | .otherwise line body, h => by
    have hbody := isPrefix_drop_of_cons h
    exact ⟨body.ids (start + 1), getElem?_of_isPrefix h,
      Block.areAt_of_isPrefix (start + 1) body hbody⟩
  | .elseIf line condition body rest, h => by
    have hsplit := isPrefix_drop_of_append h
    have hbody := isPrefix_drop_of_cons hsplit.1
    have hrest := hsplit.2
    rw [List.length_cons, Block.length_nodes, Nat.add_comm body.size, ← Nat.add_assoc] at hrest
    exact ⟨⟨_, getElem?_of_isPrefix hsplit.1, Block.areAt_of_isPrefix (start + 1) body hbody⟩,
      Branches.areAt_of_isPrefix (start + 1 + body.size) rest hrest⟩

end

/-- A script is found in its tree. -/
theorem Script.isIn_tree (script : Script) : script.IsIn script.tree := by
  constructor
  · refine ⟨script.body.ids 1, ?_, Block.areAt_of_isPrefix 1 script.body ?_⟩
    · simp [tree]
    · exact ⟨script.initializerNodes, by simp [tree]⟩
  · apply List.ext_getElem
    · simp [tree]
    · intro i hi hj
      rw [List.length_map] at hj
      have hbehind : script.tree.nodes[1 + script.body.size + i]? =
          script.initializerNodes[i]? := by
        have hsize : (#[{ Outline.newNode .entry script.opening none with
            children := script.body.ids 1 }] ++ (script.body.nodes 1).toArray).size =
              1 + script.body.size := by
          simp [Nat.add_comm]
        have hle := Nat.le_trans (Nat.le_of_eq hsize) (Nat.le_add_right _ i)
        unfold tree
        simp only
        rw [Array.getElem?_append_right hle, hsize]
        simp
      simp only [List.getElem_map]
      rw [← List.getElem?_eq_getElem, ← hbehind]
      simp [tree]

end Placement
end ScriptMachine
