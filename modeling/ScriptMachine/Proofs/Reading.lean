import ScriptMachine.Proofs.Syntax

/-!
# Reading a script that conforms to the grammar

The outline takes a statement in one go: whatever is open, its nodes come behind the others
and its number goes to the node that statements go under.  From this, by induction on the
derivation tree, a script that conforms to the grammar is read without a mistake, and its
syntax tree is that of the derivation tree.

Main results:

- {lit}`Statement.read`, {lit}`Block.read` and {lit}`Branches.read`: what reading a part of a
  script does to the outline.
- {lit}`Script.parse`: a script that conforms to the grammar is parsed.
-/

namespace ScriptMachine

open Source Text

namespace Outline

/-! ## Growing outlines -/

/-- The outline with more children for a node, and more nodes. -/
def grow (outline : Outline) (parent : Nat) (above : Node) (ids : List Nat) (added : List Node) :
    Outline :=
  { outline with
    nodes := outline.nodes.setIfInBounds parent { above with children := above.children ++ ids } ++
      added.toArray }

/-- Statements go under a node that may have children, and no mistake was found. -/
structure Under (outline : Outline) (parent : Nat) (above : Node) : Prop where
  unbroken : outline.isBroken = false
  target : outline.blocks.head?.bind OpenBlock.target = some parent
  node : outline.nodes[parent]? = some above
  noLeaf : above.kind ≠ .expression

variable {outline : Outline} {parent : Nat} {above : Node}

/-- A block is open where statements go under a node. -/
theorem Under.isOpen (h : outline.Under parent above) : outline.top?.isSome = true := by
  have htarget := h.target
  unfold top?
  cases hblocks : outline.blocks.head? with
  | none =>
    rw [hblocks] at htarget
    cases htarget
  | some block => rfl

/-- Somewhere a block is open. -/
theorem Under.isNone_top (h : outline.Under parent above) : outline.top?.isNone = false := by
  have hsome := h.isOpen
  cases htop : outline.top? with
  | none =>
    rw [htop] at hsome
    cases hsome
  | some kind => rfl

/-- The node that statements go under exists. -/
theorem Under.lt (h : outline.Under parent above) : parent < outline.nodes.size :=
  (Array.getElem?_eq_some_iff.1 h.node).1

/-- The number of nodes after growth. -/
@[simp] theorem size_grow (outline : Outline) (parent : Nat) (above : Node) (ids : List Nat)
    (added : List Node) :
    (outline.grow parent above ids added).nodes.size = outline.nodes.size + added.length := by
  simp [grow]

/-- Nothing grows without children and nodes. -/
theorem Under.grow_nil (h : outline.Under parent above) :
    outline.grow parent above [] [] = outline := by
  have hsame : outline.nodes.setIfInBounds parent above = outline.nodes := by
    apply Array.ext_getElem?
    intro i
    rw [Array.getElem?_setIfInBounds]
    split
    · next heq =>
      subst heq
      rw [if_pos h.lt, h.node]
    · rfl
  unfold grow
  simp only [List.append_nil, Array.append_empty]
  rw [show ({ above with children := above.children } : Node) = above from rfl, hsame]

/-- Statements go under the same node after growth. -/
theorem Under.grow (h : outline.Under parent above) (ids : List Nat) (added : List Node) :
    (outline.grow parent above ids added).Under parent
      { above with children := above.children ++ ids } := by
  refine ⟨h.unbroken, h.target, ?_, h.noLeaf⟩
  unfold Outline.grow
  rw [Array.getElem?_append_left (by simpa using h.lt),
    Array.getElem?_setIfInBounds_self_of_lt h.lt]

/-- Growth in two steps. -/
theorem Under.grow_grow (h : outline.Under parent above) (ids more : List Nat)
    (added others : List Node) :
    (outline.grow parent above ids added).grow parent
      { above with children := above.children ++ ids }
        more others =
      outline.grow parent above (ids ++ more) (added ++ others) := by
  unfold Outline.grow
  simp only [List.append_assoc]
  congr 1
  rw [Array.setIfInBounds_append_left (by simpa using h.lt), Array.setIfInBounds_setIfInBounds]
  simp

/-- A node is attached where statements go. -/
theorem Under.attach (h : outline.Under parent above) (node : Node) :
    outline.attach node =
      .ok (outline.nodes.size, outline.grow parent above [outline.nodes.size] [node]) := by
  unfold Outline.attach
  simp only [h.target, h.node, if_neg h.noLeaf]
  unfold Outline.grow
  rw [Array.push_eq_append]

/-! ## Blocks inside of an outline -/

/-- A block is opened under a node. -/
theorem Under.openAttached (h : outline.Under parent above) (kind : BlockKind) (head : Node) :
    outline.openAttached kind head =
      .ok ((outline.grow parent above [outline.nodes.size] [head]).openBlock kind
        (some outline.nodes.size)) := by
  unfold Outline.openAttached
  rw [h.unbroken, h.attach]
  rfl

/-- Statements of an open block go under its head. -/
theorem Under.opened (h : outline.Under parent above) (kind : BlockKind) {head : Node}
    (hhead : head.kind ≠ .expression) :
    ((outline.grow parent above [outline.nodes.size] [head]).openBlock kind
      (some outline.nodes.size)).Under outline.nodes.size head := by
  refine ⟨h.unbroken, rfl, ?_, hhead⟩
  show (outline.grow parent above [outline.nodes.size] [head]).nodes[outline.nodes.size]? = _
  unfold Outline.grow
  rw [Array.getElem?_append_right (by simp)]
  simp

/-- A block that grew and is closed leaves its nodes behind. -/
theorem closeBlock_grow (outline : Outline) (parent : Nat) (above : Node) (kind : BlockKind)
    (head : Node) (ids : List Nat) (added : List Node) :
    (((outline.grow parent above [outline.nodes.size] [head]).openBlock kind
      (some outline.nodes.size)).grow outline.nodes.size head ids added).closeBlock =
    outline.grow parent above [outline.nodes.size]
      ({ head with children := head.children ++ ids } :: added) := by
  have hsize : (outline.nodes.setIfInBounds parent
      { above with children := above.children ++ [outline.nodes.size] }).size =
        outline.nodes.size := by simp
  unfold Outline.grow openBlock closeBlock
  simp only [List.tail_cons]
  congr 1
  rw [Array.setIfInBounds_append_right (Nat.le_of_eq hsize), hsize]
  simp

end Outline

/-! ## Branches inside of an outline -/

namespace Outline

/-- A conditional is open to which branches may be added. -/
structure AtBranch (outline : Outline) (owner : Nat) (head : Node) (elseIfs : List Nat)
    (outer : List OpenBlock) : Prop where
  unbroken : outline.isBroken = false
  blocks : ∃ block, outline.blocks = block :: outer ∧ block.node = some owner ∧
    (block.kind = .conditional ∨ block.kind = .branched)
  node : outline.nodes[owner]? = some head
  kind : head.kind = .conditional elseIfs none

/-- The outline with another head for a conditional and more nodes. -/
def rehead (outline : Outline) (owner : Nat) (head : Node) (added : List Node) : Outline :=
  { outline with nodes := outline.nodes.setIfInBounds owner head ++ added.toArray }

/-- The kind of the head of a conditional after it got one more branch. -/
def linkedKind (keyword : Keyword) (elseIfs : List Nat) (branch : Nat) : NodeKind :=
  if keyword = .elseIfBranch then .conditional (elseIfs ++ [branch]) none
  else .conditional elseIfs (some branch)

/-- The outline with another innermost block. -/
def withBlock (outline : Outline) (block : OpenBlock) (outer : List OpenBlock) : Outline :=
  { outline with blocks := block :: outer }

variable {outline : Outline} {owner : Nat} {head : Node} {elseIfs : List Nat}
  {outer : List OpenBlock}

/-- The number of nodes behind another head and more nodes. -/
@[simp] theorem size_rehead (outline : Outline) (owner : Nat) (head : Node) (added : List Node)
    (block : OpenBlock) (outer : List OpenBlock) :
    ((outline.rehead owner head added).withBlock block outer).nodes.size =
      outline.nodes.size + added.length := by
  simp [rehead, withBlock]

/-- Adding a branch. -/
theorem AtBranch.addBranch (h : outline.AtBranch owner head elseIfs outer) (line : Line)
    (keyword : Keyword) (condition : Option (List Char)) {block : OpenBlock}
    (hnode : block.node = some owner) :
    outline.addBranch line keyword condition block outer =
      .ok ((outline.rehead owner { head with kind := linkedKind keyword elseIfs outline.nodes.size }
        [newNode (if keyword = .elseIfBranch then .elseIf else .otherwise) line
          condition]).withBlock
          { block with branch := some outline.nodes.size } outer) := by
  unfold Outline.addBranch
  simp only [hnode, h.node, h.kind]
  simp [rehead, withBlock, linkedKind]

/-- A conditional that is marked as branched is open to the same branches. -/
theorem AtBranch.marked (h : outline.AtBranch owner head elseIfs outer) (block : OpenBlock)
    (hnode : block.node = some owner) (hkind : block.kind = .branched) :
    ({ outline with blocks := block :: outer } : Outline).AtBranch owner head elseIfs outer :=
  ⟨h.unbroken, ⟨block, rfl, hnode, .inr hkind⟩, h.node, h.kind⟩

/-- Reading an {lit}`elseif` line. -/
theorem AtBranch.readElseIf (h : outline.AtBranch owner head elseIfs outer) {line : Line}
    {condition : List Char} (htext : behindKeyword line .elseIfBranch = .ok condition)
    (hne : condition ≠ []) :
    outline.readBranch line .elseIfBranch =
      .ok ((outline.rehead owner
          { head with kind := .conditional (elseIfs ++ [outline.nodes.size]) none }
          [newNode .elseIf line (some condition)]).withBlock
        ⟨.branched, some owner, some outline.nodes.size⟩ outer) := by
  rcases h.blocks with ⟨block, hblocks, hnode, hkind⟩
  have hmarked := h.marked { block with kind := .branched } hnode rfl
  have hadd := hmarked.addBranch line .elseIfBranch (some condition)
    (show ({ block with kind := .branched } : OpenBlock).node = some owner from hnode)
  unfold readBranch
  rw [hblocks]
  simp only [if_pos hkind, if_true, htext]
  simp only [Functor.map, Except.map, bind, Except.bind]
  rw [if_neg (by simpa using hne), hmarked.unbroken, if_neg Bool.false_ne_true, hadd]
  simp [rehead, withBlock, linkedKind, hnode]

/-- Reading an {lit}`else` line. -/
theorem AtBranch.readElse (h : outline.AtBranch owner head elseIfs outer) (line : Line) :
    outline.readBranch line .elseBranch =
      .ok ((outline.rehead owner
        { head with kind := .conditional elseIfs (some outline.nodes.size) }
          [newNode .otherwise line none]).withBlock
        ⟨.branched, some owner, some outline.nodes.size⟩ outer) := by
  rcases h.blocks with ⟨block, hblocks, hnode, hkind⟩
  have hmarked := h.marked { block with kind := .branched } hnode rfl
  have hadd := hmarked.addBranch line .elseBranch none
    (show ({ block with kind := .branched } : OpenBlock).node = some owner from hnode)
  unfold readBranch
  rw [hblocks]
  simp only [if_pos hkind]
  rw [if_neg (by decide)]
  simp only [pure, Except.pure, bind, Except.bind]
  rw [if_neg (by simp), hmarked.unbroken, if_neg Bool.false_ne_true, hadd]
  simp [rehead, withBlock, linkedKind, hnode]

/-- The head of a conditional exists. -/
theorem AtBranch.lt (h : outline.AtBranch owner head elseIfs outer) : owner < outline.nodes.size :=
  (Array.getElem?_eq_some_iff.1 h.node).1

/-- The same head again changes nothing. -/
theorem AtBranch.rehead_same (h : outline.AtBranch owner head elseIfs outer) {block : OpenBlock}
    (hblocks : outline.blocks = block :: outer) :
    (outline.rehead owner
      { head with kind := .conditional elseIfs none } []).withBlock block outer =
      outline := by
  have hhead : ({ head with kind := .conditional elseIfs none } : Node) = head := by
    rw [← h.kind]
  have hsame : outline.nodes.setIfInBounds owner head = outline.nodes := by
    apply Array.ext_getElem?
    intro i
    rw [Array.getElem?_setIfInBounds]
    split
    · next heq =>
      subst heq
      rw [if_pos h.lt, h.node]
    · rfl
  unfold rehead withBlock
  rw [hhead, hsame, ← hblocks]
  simp

/-- The other head of a conditional. -/
theorem AtBranch.node_rehead (h : outline.AtBranch owner head elseIfs outer) (head' : Node)
    (added : List Node) (block : OpenBlock) (outer' : List OpenBlock) :
    ((outline.rehead owner head' added).withBlock block outer').nodes[owner]? = some head' := by
  show (outline.nodes.setIfInBounds owner head' ++ added.toArray)[owner]? = some head'
  rw [Array.getElem?_append_left (by simpa using h.lt),
    Array.getElem?_setIfInBounds_self_of_lt h.lt]

/-- Behind a branch with a condition, more branches may be added. -/
theorem AtBranch.again (h : outline.AtBranch owner head elseIfs outer) (branch : Option Nat)
    (more : List Nat) (added : List Node) :
    ((outline.rehead owner { head with kind := .conditional more none } added).withBlock
      ⟨.branched, some owner, branch⟩ outer).AtBranch owner
        { head with kind := .conditional more none } more outer :=
  ⟨h.unbroken, ⟨_, rfl, rfl, .inr rfl⟩, h.node_rehead _ _ _ _, rfl⟩

/-- Statements go under a branch that was just added. -/
theorem AtBranch.opened (h : outline.AtBranch owner head elseIfs outer) (head' node : Node)
    (hnode : node.kind ≠ .expression) :
    ((outline.rehead owner head' [node]).withBlock
      ⟨.branched, some owner, some outline.nodes.size⟩ outer).Under outline.nodes.size node := by
  refine ⟨h.unbroken, rfl, ?_, hnode⟩
  show (outline.nodes.setIfInBounds owner head' ++ [node].toArray)[outline.nodes.size]? = some node
  rw [Array.getElem?_append_right (by simp)]
  simp

/-- Behind a branch and its body, the nodes of both lie behind the others. -/
theorem grow_rehead (outline : Outline) (owner : Nat) (head node : Node) (block : OpenBlock)
    (outer : List OpenBlock) (ids : List Nat) (added : List Node) :
    ((outline.rehead owner head [node]).withBlock block outer).grow
      outline.nodes.size node ids added =
      (outline.rehead owner head
        ({ node with children := node.children ++ ids } :: added)).withBlock
        block outer := by
  unfold grow rehead withBlock
  simp only
  congr 1
  rw [Array.setIfInBounds_append_right (by simp)]
  simp

/-- Behind the body of a conditional, branches may be added. -/
theorem Under.behindBody (h : outline.Under parent above) (line : Line) (condition : List Char)
    (ids : List Nat) (added : List Node) :
    (((outline.grow parent above [outline.nodes.size]
      [newNode (.conditional [] none) line (some condition)]).openBlock .conditional
        (some outline.nodes.size)).grow outline.nodes.size
          (newNode (.conditional [] none) line (some condition)) ids added).AtBranch
      outline.nodes.size
      { newNode (.conditional [] none) line (some condition) with children := ids } [] 
      outline.blocks := by
  have hopened := h.opened .conditional
    (show (newNode (.conditional [] none) line (some condition)).kind ≠ .expression by
      simp [newNode])
  have hgrown := hopened.grow ids added
  refine ⟨h.unbroken, ⟨_, rfl, rfl, .inl rfl⟩, ?_, rfl⟩
  rw [hgrown.node]
  rfl

/-- A conditional that is closed leaves its nodes and those of its branches behind. -/
theorem closeBlock_rehead (outline : Outline) (parent : Nat) (above : Node) (head head' : Node)
    (ids : List Nat) (added more : List Node) (block : OpenBlock) :
    (((((outline.grow parent above [outline.nodes.size] [head]).openBlock .conditional
      (some outline.nodes.size)).grow outline.nodes.size head ids added).rehead outline.nodes.size
        head' more).withBlock block outline.blocks).closeBlock =
    outline.grow parent above [outline.nodes.size] (head' :: added ++ more) := by
  have hsize : (outline.nodes.setIfInBounds parent
      { above with children := above.children ++ [outline.nodes.size] }).size =
        outline.nodes.size := by simp
  unfold grow openBlock closeBlock rehead withBlock
  simp only [List.tail_cons]
  congr 1
  generalize outline.nodes.setIfInBounds parent _ = linked at hsize ⊢
  have hlast : ∀ node : Node, (linked ++ [head].toArray).setIfInBounds outline.nodes.size node =
      linked ++ [node].toArray := by
    intro node
    rw [← hsize, Array.setIfInBounds_append_right (Nat.le_refl _)]
    simp
  rw [hlast, Array.setIfInBounds_append_left (by simp [hsize]), ← hsize,
    Array.setIfInBounds_append_right (Nat.le_refl _)]
  simp

/-- Two changes of the head of a conditional. -/
theorem rehead_rehead (outline : Outline) (owner : Nat) (head head' : Node)
    (block block' : OpenBlock)
    (outer outer' : List OpenBlock) (added more : List Node) (howner : owner < outline.nodes.size) :
    (((outline.rehead owner head added).withBlock block outer).rehead owner head' more).withBlock
        block' outer' =
      (outline.rehead owner head' (added ++ more)).withBlock block' outer' := by
  unfold rehead withBlock
  simp only
  congr 1
  rw [Array.setIfInBounds_append_left (by simpa using howner), Array.setIfInBounds_setIfInBounds]
  simp

end Outline

/-! ## Lines -/

section Lines

open Outline

variable {globals : Globals} {outline : Outline} {parent : Nat} {above : Node} {line : Line}

/-- A line is a statement when its keyword is not part of the structure of a script. -/
theorem readLine_statement
    (hplain : ∀ keyword, line.keyword? = some keyword → keyword.isStructural = false) :
    readLine globals outline line = outline.readStatement line line.keyword? := by
  unfold readLine
  simp only [show Keyword.ofTokens? (tokenize (clean .everything line.text)) =
    line.keyword? from rfl]
  cases hword : line.keyword? with
  | none => rfl
  | some keyword =>
    have hfree := hplain keyword hword
    cases keyword with
    | returnStatement => rfl
    | breakStatement => rfl
    | continueStatement => rfl
    | _ => cases hfree

/-- Reading a statement without parts. -/
theorem readLine_leaf {inLoop : Bool} {expression : List Char} (h : outline.Under parent above)
    (hline : line.IsLeaf inLoop expression)
    (hloop : inLoop = true → outline.blocks.any (fun block => block.kind == .loop) = true) :
    readLine globals outline line = .ok (outline.grow parent above [outline.nodes.size]
      [newNode .expression line (some expression)]) := by
  rcases hline with ⟨hkeyword, htext⟩
  have hplain : ∀ keyword, line.keyword? = some keyword → keyword.isStructural = false :=
    fun keyword hword => (hkeyword keyword hword).1
  have hjump :
      (line.keyword?.filter fun k => k == .breakStatement || k == .continueStatement) = none ∨
      outline.blocks.all (fun block => block.kind != .loop) = false := by
    cases hword : line.keyword? with
    | none => exact .inl rfl
    | some keyword =>
      by_cases hjumps : keyword.isLoopJump = true
      · right
        have hany := hloop ((hkeyword keyword hword).2 hjumps)
        rw [List.any_eq_true] at hany
        rcases hany with ⟨block, hmem, hkind⟩
        rw [Bool.eq_false_iff]
        intro hall
        have hnot := List.all_eq_true.1 hall block hmem
        simp [beq_iff_eq.1 hkind] at hnot
      · left
        cases keyword with
        | breakStatement => exact absurd rfl hjumps
        | continueStatement => exact absurd rfl hjumps
        | _ => rfl
  rw [readLine_statement hplain]
  unfold readStatement
  rw [h.isNone_top]
  simp only [Bool.false_eq_true, if_false]
  rw [h.unbroken, htext]
  simp only [Bool.false_eq_true, if_false]
  rcases hjump with hnone | hinside
  · rw [hnone]
    simp only [bind, Except.bind, pure, Except.pure]
    rw [h.attach]
  · rw [hinside]
    simp only [bind, Except.bind, pure, Except.pure]
    rw [h.attach]
    split
    · rfl
    · rfl

/-- A line is read by its keyword. -/
theorem readLine_eq (globals : Globals) (outline : Outline) (line : Line) :
    readLine globals outline line =
      match line.keyword? with
      | some .header => .ok (outline.report line.number .headerAgain)
      | some .declaration =>
        outline.readDeclaration globals line (clean .everything line.text) line.tokens
      | some .beginBlock => .ok (outline.readBegin line line.tokens)
      | some .endBlock => .ok (outline.readEnd line.number)
      | some .whileLoop => outline.readConditioned line .whileLoop "While" .loop .whileLoop
      | some .forEachLoop => outline.readForEach line (clean .everything line.text) line.tokens
      | some .endLoop => .ok (outline.readLoop line.number)
      | some .ifBlock =>
        outline.readConditioned line .ifBlock "If" .conditional (.conditional [] none)
      | some .elseIfBranch => outline.readBranch line .elseIfBranch
      | some .elseBranch => outline.readBranch line .elseBranch
      | some .endIf => .ok (outline.readEndIf line.number)
      | keyword => outline.readStatement line keyword := rfl

/-- The text behind a keyword. -/
theorem behindKeyword_eq {keyword : Keyword} {text : List Char}
    (h : keyword.remainder? line.text = some text) : behindKeyword line keyword = .ok text := by
  unfold behindKeyword
  rw [h]

/-- The text from a token on. -/
theorem fromOffset_eq {number offset : Nat} {text rest : List Char}
    (h : dropBytes? offset text = some rest) : fromOffset number text offset = .ok rest := by
  unfold fromOffset
  rw [h]

/-- Reading the head of a block with a condition. -/
theorem readConditioned_eq (h : outline.Under parent above) {keyword : Keyword}
    {condition : List Char} (hline : line.IsConditioned keyword condition) (what : String)
    (block : BlockKind) (kind : NodeKind) :
    outline.readConditioned line keyword what block kind =
      outline.openAttached block (newNode kind line (some condition)) := by
  rcases hline with ⟨_, htext, hne⟩
  have hempty : condition.isEmpty = false := by simpa using hne
  unfold readConditioned
  rw [h.isNone_top, behindKeyword_eq htext]
  simp only [bind, Except.bind, hempty]
  rfl

/-- Reading the head of a loop over an array. -/
theorem readForEach_eq (h : outline.Under parent above) {iterator : String} {slot : Nat}
    {collection : List Char}
    (hline : line.IsForEach outline.declarations iterator slot collection) :
    outline.readForEach line (clean .everything line.text) line.tokens =
      outline.openAttached .loop (newNode (.forEach iterator slot) line (some collection)) := by
  rcases hline with ⟨_, keyword, name, preposition, array, more, htokens, hin, rfl, hslot, htext⟩
  unfold readForEach
  rw [h.isNone_top, htokens]
  simp only [hin, hslot, fromOffset_eq htext]
  rfl

/-- Reading the end of a loop. -/
theorem readLine_endLoop (hline : line.keyword? = some .endLoop)
    (htop : outline.top? = some .loop) :
    readLine globals outline line = .ok outline.closeBlock := by
  rw [readLine_eq, hline]
  simp only [readLoop, if_pos htop]

/-- Reading the end of a conditional. -/
theorem readLine_endIf (hline : line.keyword? = some .endIf)
    (htop : outline.top? = some .conditional ∨ outline.top? = some .branched) :
    readLine globals outline line = .ok outline.closeBlock := by
  rw [readLine_eq, hline]
  simp only [readEndIf, if_pos htop]

end Lines

/-! ## Statements, blocks and branches -/

section Trees

open Outline

variable {globals : Globals} {declared : List Variable}

/-- A block that is open inside of a loop, or is a loop itself. -/
def Outline.InLoop (outline : Outline) : Prop :=
  outline.blocks.any (fun block => block.kind == .loop) = true

mutual

/-- Reading a statement. -/
theorem Statement.read {inLoop : Bool} : (statement : Statement) →
    statement.Conforms declared inLoop → ∀ {outline : Outline} {parent : Nat} {above : Node},
    outline.Under parent above → outline.declarations = declared →
    (inLoop = true → outline.InLoop) →
    statement.lines.foldlM (readLine globals) outline =
      .ok (outline.grow parent above [outline.nodes.size] (statement.nodes outline.nodes.size))
  | .leaf line expression, hconforms, outline, parent, above, h, _, hloop => by
    simp only [Statement.lines, List.foldlM_cons, List.foldlM_nil]
    rw [readLine_leaf h hconforms hloop]
    rfl
  | .whileLoop line condition body closing, ⟨hline, hbody, hclosing⟩, outline, parent, above, h,
      hdeclared, _ => by
    have hopened := h.opened .loop
      (show (newNode .whileLoop line (some condition)).kind ≠ .expression by simp [newNode])
    simp only [Statement.lines, List.cons_append, List.foldlM_cons, List.foldlM_append]
    rw [readLine_eq, hline.1]
    simp only
    rw [readConditioned_eq h hline, h.openAttached]
    simp only [bind, Except.bind]
    rw [Block.read body hbody hopened hdeclared fun _ => by simp [Outline.InLoop, openBlock]]
    simp only [List.foldlM_nil]
    rw [readLine_endLoop hclosing rfl, closeBlock_grow]
    simp [openBlock, Statement.nodes, newNode, pure, Except.pure]
  | .forEach line iterator slot collection body closing, ⟨hline, hbody, hclosing⟩, outline,
      parent, above, h, hdeclared, _ => by
    have hopened := h.opened .loop
      (show (newNode (.forEach iterator slot) line (some collection)).kind ≠ .expression by
        simp [newNode])
    simp only [Statement.lines, List.cons_append, List.foldlM_cons, List.foldlM_append]
    rw [readLine_eq, hline.1]
    simp only
    rw [readForEach_eq h (hdeclared ▸ hline), h.openAttached]
    simp only [bind, Except.bind]
    rw [Block.read body hbody hopened hdeclared fun _ => by simp [Outline.InLoop, openBlock]]
    simp only [List.foldlM_nil]
    rw [readLine_endLoop hclosing rfl, closeBlock_grow]
    simp [openBlock, Statement.nodes, newNode, pure, Except.pure]
  | .conditional line condition body branches closing, ⟨hline, hbody, hbranches, hclosing⟩,
      outline, parent, above, h, hdeclared, hloop => by
    have hopened := h.opened .conditional
      (show (newNode (.conditional [] none) line (some condition)).kind ≠ .expression by
        simp [newNode])
    simp only [Statement.lines, List.cons_append, List.foldlM_cons, List.foldlM_append]
    rw [readLine_eq, hline.1]
    simp only
    rw [readConditioned_eq h hline, h.openAttached]
    simp only [bind, Except.bind]
    rw [Block.read body hbody hopened hdeclared fun hin => by
      simpa [Outline.InLoop, openBlock, Outline.grow] using hloop hin]
    simp only
    obtain ⟨block, hkind, hbranch⟩ := Branches.read branches hbranches
      (h.behindBody _ _ _ _) hdeclared hloop
    rw [hbranch]
    simp only [List.foldlM_nil]
    rw [readLine_endIf hclosing (by simpa [Outline.top?, withBlock] using hkind)]
    rw [closeBlock_rehead]
    simp [openBlock, Statement.nodes, newNode, pure, Except.pure, Nat.add_assoc]

/-- Reading branches of a conditional. -/
theorem Branches.read {inLoop : Bool} : (branches : Branches) → branches.Conforms declared inLoop →
    ∀ {outline : Outline} {owner : Nat} {head : Node} {elseIfs : List Nat} {outer : List OpenBlock},
    outline.AtBranch owner head elseIfs outer → outline.declarations = declared →
    (inLoop = true → outer.any (fun block => block.kind == .loop) = true) →
    ∃ block, (block.kind = .conditional ∨ block.kind = .branched) ∧
      branches.lines.foldlM (readLine globals) outline =
        .ok ((outline.rehead owner
          { head with kind := (.conditional (elseIfs ++ branches.elseIfs outline.nodes.size)
            (branches.otherwise? outline.nodes.size)) }
          (branches.nodes outline.nodes.size)).withBlock block outer)
  | .none, _, outline, owner, head, elseIfs, outer, h, _, _ => by
    rcases h.blocks with ⟨block, hblocks, hnode, hkind⟩
    refine ⟨block, hkind, ?_⟩
    simp only [Branches.lines, Branches.elseIfs, Branches.otherwise?, Branches.nodes,
      List.foldlM_nil, List.append_nil]
    rw [h.rehead_same hblocks]
    rfl
  | .otherwise line body, ⟨hline, hbody⟩, outline, owner, head, elseIfs, outer, h, hdeclared,
      hloop => by
    refine ⟨⟨.branched, some owner, some outline.nodes.size⟩, .inr rfl, ?_⟩
    have hopened := h.opened { head with kind := .conditional elseIfs (some outline.nodes.size) }
      (newNode .otherwise line none) (by simp [newNode])
    simp only [Branches.lines, List.foldlM_cons]
    rw [readLine_eq, hline]
    simp only
    rw [h.readElse line]
    simp only [bind, Except.bind]
    rw [Block.read body hbody hopened hdeclared hloop, grow_rehead]
    simp [Branches.elseIfs, Branches.otherwise?, Branches.nodes, newNode, rehead, withBlock]
  | .elseIf line condition body rest, ⟨hline, hbody, hrest⟩, outline, owner, head, elseIfs, outer,
      h, hdeclared, hloop => by
    have hopened := h.opened
      { head with kind := .conditional (elseIfs ++ [outline.nodes.size]) none }
      (newNode .elseIf line (some condition)) (by simp [newNode])
    simp only [Branches.lines, List.cons_append, List.foldlM_cons, List.foldlM_append]
    rw [readLine_eq, hline.1]
    simp only
    rw [h.readElseIf (behindKeyword_eq hline.2.1) hline.2.2]
    simp only [bind, Except.bind]
    rw [Block.read body hbody hopened hdeclared hloop, grow_rehead]
    simp only
    rcases Branches.read rest hrest (h.again _ _ _) hdeclared hloop with ⟨block, hkind, hread⟩
    refine ⟨block, hkind, ?_⟩
    rw [hread, rehead_rehead _ _ _ _ _ _ _ _ _ _ h.lt]
    simp [Branches.elseIfs, Branches.otherwise?, Branches.nodes, newNode, Nat.add_assoc,
      Nat.add_comm 1]

/-- Reading statements in a row. -/
theorem Block.read {inLoop : Bool} : (block : Block) → block.Conforms declared inLoop →
    ∀ {outline : Outline} {parent : Nat} {above : Node}, outline.Under parent above →
    outline.declarations = declared → (inLoop = true → outline.InLoop) →
    block.lines.foldlM (readLine globals) outline =
      .ok (outline.grow parent above (block.ids outline.nodes.size)
        (block.nodes outline.nodes.size))
  | .nil, _, outline, parent, above, h, _, _ => by
    simp only [Block.lines, Block.ids, Block.nodes, List.foldlM_nil, h.grow_nil]
    rfl
  | .cons first rest, ⟨hfirst, hrest⟩, outline, parent, above, h, hdeclared, hloop => by
    simp only [Block.lines, List.foldlM_append]
    rw [Statement.read first hfirst h hdeclared hloop]
    simp only [bind, Except.bind]
    rw [Block.read rest hrest (h.grow _ _) hdeclared hloop, h.grow_grow]
    simp [Block.ids, Block.nodes]

end

end Trees

/-! ## Declarations and the entry block -/

section Scripts

open Outline

variable {globals : Globals} {outline : Outline} {line : Line}

/-- Reading a declaration outside of the entry block. -/
theorem readLine_declaration {fresh : Variable} (htop : outline.top? = none)
    (hline : line.IsDeclaration globals outline.declarations fresh) :
    readLine globals outline line =
      .ok { outline with declarations := outline.declarations ++ [fresh] } := by
  obtain ⟨hkeyword, token, htoken, hidentifier, hnew, hglobal, hname, hnumber, hinitializer⟩ :=
    hline
  have hfresh : fresh = ⟨fold (String.ofList token.text), fresh.initializer, line.number⟩ := by
    rw [← hname, ← hnumber]
  rw [readLine_eq, hkeyword]
  simp only
  unfold readDeclaration
  rw [htop, htoken]
  simp only [hidentifier, hnew, hglobal]
  rw [hfresh]
  by_cases hmore : 2 < line.tokens.length
  · rw [if_pos hmore] at hinitializer
    rcases hinitializer with ⟨text, hsome, htext⟩
    rw [if_pos hmore, hsome, fromOffset_eq htext]
    rfl
  · rw [if_neg hmore] at hinitializer
    rw [if_neg hmore, hinitializer]
    rfl

/-- Reading declarations in a row. -/
theorem readLines_declarations (htop : outline.top? = none) {entries : List (Line × Variable)}
    (hentries : DeclarationsConform globals outline.declarations entries) :
    (entries.map Prod.fst).foldlM (readLine globals) outline =
      .ok { outline with declarations := outline.declarations ++ entries.map Prod.snd } := by
  induction entries generalizing outline with
  | nil => simp [pure, Except.pure]
  | cons entry rest ih =>
    rcases hentries with ⟨hfirst, hrest⟩
    rw [List.map_cons, List.foldlM_cons, readLine_declaration htop hfirst]
    simp only [bind, Except.bind]
    rw [ih (by exact htop) hrest]
    simp

/-- Reading parameters that are declared and different. -/
theorem foldl_readParameter {number : Nat} {tokens : List Token} {parameters : List Nat}
    (hslots : tokens.map (fun token =>
      Program.slotIn? outline.declarations (String.ofList token.text)) = parameters.map some)
    (hdistinct : (outline.parameters ++ parameters).Nodup) :
    tokens.foldl (readParameter number) outline =
      { outline with parameters := outline.parameters ++ parameters } := by
  induction tokens generalizing outline parameters with
  | nil =>
    have hnil : parameters = [] := by
      cases parameters with
      | nil => rfl
      | cons slot rest => cases hslots
    subst hnil
    simp
  | cons token rest ih =>
    cases parameters with
    | nil => cases hslots
    | cons slot others =>
      rw [List.map_cons, List.map_cons, List.cons.injEq] at hslots
      rcases hslots with ⟨hslot, hothers⟩
      have hnew : outline.parameters.contains slot = false := by
        rw [Bool.eq_false_iff]
        intro hmem
        exact (List.nodup_append.1 hdistinct).2.2 slot (by simpa using hmem) slot (by simp) rfl
      have hfirst : readParameter number outline token =
          { outline with parameters := outline.parameters ++ [slot] } := by
        unfold readParameter
        simp only [hslot, hnew]
        rfl
      have hrest := @ih { outline with parameters := outline.parameters ++ [slot] } others hothers
        (by simpa using hdistinct)
      rw [List.foldl_cons, hfirst, hrest]
      simp

/-- The outline inside of the entry block. -/
def Outline.entered (outline : Outline) (line : Line) (parameters : List Nat) : Outline :=
  { outline with
    parameters := parameters
    nodes := outline.nodes.push (newNode .entry line none)
    root := some outline.nodes.size
    blocks := ⟨.entry, some outline.nodes.size, none⟩ :: outline.blocks }

/-- Statements of the entry block go under its node. -/
theorem Outline.entered_under (hfine : outline.isBroken = false) (line : Line)
    (parameters : List Nat) :
    (outline.entered line parameters).Under outline.nodes.size (newNode .entry line none) := by
  refine ⟨hfine, rfl, ?_, by simp [newNode]⟩
  simp [entered]

/-- Reading the opening line of the entry block. -/
theorem readLine_opening {parameters : List Nat} (htop : outline.top? = none)
    (hroot : outline.root = none) (hnone : outline.parameters = [])
    (hfine : outline.isBroken = false)
    (hline : line.IsOpening outline.declarations parameters) :
    readLine globals outline line = .ok (outline.entered line parameters) := by
  rcases hline with ⟨hkeyword, hfew, hdistinct, hslots⟩
  have hlength : ¬ maxParameters < (line.tokens.drop 1).length := by
    have hsame := congrArg List.length hslots
    rw [List.length_map, List.length_map] at hsame
    omega
  have hparameters : (line.tokens.drop 1).foldl (readParameter line.number) outline =
      { outline with parameters := outline.parameters ++ parameters } :=
    foldl_readParameter hslots (by rw [hnone]; exact hdistinct)
  rw [readLine_eq, hkeyword]
  simp only
  unfold readBegin
  rw [htop, hroot]
  simp only [Option.isSome_none, Bool.false_eq_true, if_false, if_neg hlength]
  rw [hparameters, hnone]
  have hstill : ({ outline with parameters := [] ++ parameters } : Outline).isBroken = false :=
    hfine
  rw [hstill]
  rfl

/-- Reading the closing line of the entry block. -/
theorem readLine_closing (hline : line.keyword? = some .endBlock)
    (htop : outline.top? = some .entry) :
    readLine globals outline line = .ok outline.closeBlock := by
  rw [readLine_eq, hline]
  simp only [readEnd, if_pos htop]

/-- Reading the header. -/
theorem readHeader_eq (hline : line.IsHeader) : ∃ name interval,
    outline.readHeader line = { outline with name := name, interval := interval } := by
  rcases hline with ⟨hkeyword, hname⟩
  rcases Option.isSome_iff_exists.1 hname with ⟨token, htoken⟩
  refine ⟨String.ofList token.text,
    (line.tokens[2]?.bind fun token => readInterval? token.text).getD 0.0, ?_⟩
  unfold readHeader
  rw [show tokenize (clean .everything line.text) = line.tokens from rfl,
    if_pos (show Keyword.ofTokens? line.tokens = some .header from hkeyword), htoken]

/-! ## Whole scripts -/

/-- Reading a script that conforms to the grammar. -/
theorem Script.read {script : Script} (h : script.Conforms globals) : ∃ outline,
    readLines globals script.lines = .ok outline ∧ outline.isBroken = false ∧
      outline.top? = none ∧ outline.root = some 0 ∧
      outline.declarations = script.declaredVariables ∧
      outline.parameters = script.parameters ∧
      outline.nodes =
        #[{ newNode .entry script.opening none with children := script.body.ids 1 }] ++
        script.body.nodes 1 := by
  rcases @readHeader_eq start script.header h.header with ⟨name, interval, hheader⟩
  -- The outline behind the header and the declarations in front of the entry block.
  let declared : Outline := { start with
    name := name
    interval := interval
    declarations := script.before.map Prod.snd }
  have hbefore : (script.before.map Prod.fst).foldlM (readLine globals)
      (start.readHeader script.header) =
      .ok declared := by
    rw [hheader, readLines_declarations rfl h.before]
    rfl
  -- The outline inside of the entry block.
  let entry : Outline := declared.entered script.opening script.parameters
  have hopening : readLine globals declared script.opening = .ok entry :=
    readLine_opening rfl rfl rfl rfl h.opening
  have hunder : entry.Under 0 (newNode .entry script.opening none) := entered_under rfl _ _
  have hbody : script.body.lines.foldlM (readLine globals) entry = .ok (entry.grow 0
      (newNode .entry script.opening none) (script.body.ids 1) (script.body.nodes 1)) :=
    Block.read script.body h.body hunder rfl (by simp)
  have hclosing : readLine globals (entry.grow 0 (newNode .entry script.opening none)
      (script.body.ids 1) (script.body.nodes 1)) script.closing = _ :=
    readLine_closing h.closing rfl
  refine ⟨{ (entry.grow 0 (newNode .entry script.opening none)
      (script.body.ids 1) (script.body.nodes 1)).closeBlock with
        declarations := script.declaredVariables }, ?_, rfl, rfl, rfl, rfl, rfl, ?_⟩
  · show (script.before.map Prod.fst ++ script.opening :: script.body.lines ++
      script.closing :: script.after.map Prod.fst).foldlM (readLine globals)
        (start.readHeader script.header) = _
    simp only [List.foldlM_append, List.foldlM_cons]
    rw [hbefore]
    simp only [bind, Except.bind]
    rw [hopening]
    simp only
    rw [hbody]
    simp only
    rw [hclosing]
    simp only
    rw [readLines_declarations rfl h.after]
    simp [declaredVariables, entry, entered, declared, closeBlock, grow]
  · simp [entry, entered, declared, start, closeBlock, grow, newNode]

/-- A script that conforms to the grammar is parsed: its tree is that of the derivation tree. -/
theorem Script.parse {script : Script} (h : script.Conforms globals) (program : Program) :
    ∃ parsed, program.parse globals script.lines = .ok parsed ∧ parsed.state = .parsed ∧
      parsed.tree = some script.tree ∧ parsed.declarations = script.declaredVariables ∧
      parsed.parameters = script.parameters := by
  rcases Script.read h with ⟨outline, hread, hfine, htop, hroot, hdeclared, hparameters, hnodes⟩
  have hfinish : ∀ number, outline.finish number = outline := by
    intro number
    unfold finish
    rw [hfine, hroot, htop]
    rfl
  have hadded : outline.initializerNodes = script.initializerNodes := by
    unfold Outline.initializerNodes Script.initializerNodes
    rw [hdeclared, hparameters]
  have htree : outline.tree? = some script.tree := by
    unfold Outline.tree? Script.tree
    rw [hfine, hroot]
    simp only [Option.map_some, hadded, hnodes, Bool.false_eq_true, if_false]
    simp [Nat.add_comm 1]
  unfold Program.parse
  rw [hread]
  simp only [bind, Except.bind, hfinish, htree]
  exact ⟨_, rfl, rfl, rfl, hdeclared, hparameters⟩

end Scripts
end ScriptMachine
