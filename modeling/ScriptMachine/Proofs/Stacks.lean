import ScriptMachine.Proofs.Reading

/-!
# Reading with two stacks

An outline keeps the nodes that were made for an open block with the block.  A reader can also
keep them on a stack of their own, beside a stack of what opened the blocks.  Every keyword
then pushes and pops for itself, and nothing says that the two stacks agree: after the first
mistake nodes are no longer pushed, while blocks that close still pop.  Where a node is missing
on the stack, or more than its bottom is left in the end, the reader faults.

Main results:

- {lit}`StackReader.readLine`: what a line does to the two stacks.
- {lit}`StackReader.parse`: a program with its tree, or with diagnostics instead.
- {lit}`StackReader.attach_openBlock`: the stacks have nothing to do with each other.
-/

namespace ScriptMachine

open Source Text

/-- The program with what is known of it when its outline is finished. -/
def Program.outlined (program : Program) (outline : Outline) : Program :=
  { program with
    name := outline.name
    interval := outline.interval
    declarations := outline.declarations
    parameters := outline.parameters
    tree := outline.tree?
    state := if outline.tree?.isSome then .parsed else .compileError
    diagnostics := program.diagnostics ++ outline.diagnostics }

/-! ## Stacks -/

/-- A script after some of its lines, with its open blocks on two stacks. -/
structure StackReader where
  /-- What is known of the script; it holds no blocks. -/
  known : Outline
  /-- What opened the open blocks, innermost first. -/
  kinds : List BlockKind
  /-- The nodes that statements go under, innermost first; nothing lies at the bottom. -/
  code : List (Option Nat)

namespace StackReader

/-- Nothing has been read. -/
def start : StackReader where
  known := .start
  kinds := []
  code := [none]

/-- The kind of the innermost open block. -/
def top? (reader : StackReader) : Option BlockKind :=
  reader.kinds.head?

/-- The node that the next statement goes under. -/
def target (reader : StackReader) : Option Nat :=
  reader.code.head?.join

/-- Notes a mistake at a line. -/
def report (reader : StackReader) (line : Nat) (e : StructureError) : StackReader :=
  { reader with known := reader.known.report line e }

/-- Opens a block. -/
def openBlock (reader : StackReader) (kind : BlockKind) : StackReader :=
  { reader with kinds := kind :: reader.kinds }

/-- Lets statements go under a node. -/
def enter (reader : StackReader) (id : Nat) : StackReader :=
  { reader with code := some id :: reader.code }

/-- Closes the innermost block and leaves the given number of nodes. -/
def closeBlock (reader : StackReader) (nodes : Nat) : StackReader :=
  { reader with kinds := reader.kinds.tail, code := reader.code.drop nodes }

/-- Adds a node as the last child of the node that statements go under. -/
def attach (reader : StackReader) (node : Node) : Except Fault (Nat × StackReader) :=
  match reader.target with
  | none => .error (.noParent node.line)
  | some parent =>
    match reader.known.nodes[parent]? with
    | none => .error (.missingNode parent)
    | some above =>
      if above.kind = .expression then .error (.leafParent node.line)
      else
        let id := reader.known.nodes.size
        let linked := reader.known.nodes.setIfInBounds parent
          { above with children := above.children ++ [id] }
        .ok (id, { reader with known := { reader.known with nodes := linked.push node } })

/-- Attaching a node has nothing to do with what opened the blocks. -/
theorem attach_openBlock (reader : StackReader) (kind : BlockKind) (node : Node) :
    (reader.openBlock kind).attach node =
      (reader.attach node).map fun made => (made.1, made.2.openBlock kind) := by
  have htarget : (reader.openBlock kind).target = reader.target := rfl
  have hknown : (reader.openBlock kind).known = reader.known := rfl
  unfold StackReader.attach
  rw [htarget, hknown]
  cases reader.target with
  | none => rfl
  | some parent =>
    simp only
    cases reader.known.nodes[parent]? with
    | none => rfl
    | some above =>
      simp only
      split
      · rfl
      · rfl

/-! ## Declarations and the entry block -/

/-- Reads a variable declaration. -/
def readDeclaration (globals : Globals) (reader : StackReader) (line : Line) (text : List Char)
    (tokens : List Token) : Except Fault StackReader := do
  if reader.top?.isSome then return reader.report line.number .declarationInBlock
  let known ← reader.known.readDeclaration globals line text tokens
  return { reader with known }

/-- Opens the entry block with its parameters. -/
def readBegin (reader : StackReader) (line : Line) (tokens : List Token) : StackReader :=
  if reader.top?.isSome then reader.report line.number .nestedBegin
  else if reader.known.root.isSome then reader.report line.number .secondBegin
  else
    let parameters := tokens.drop 1
    let known :=
      if maxParameters < parameters.length then
        reader.known.report line.number (.tooManyParameters parameters.length)
      else parameters.foldl (Outline.readParameter line.number) reader.known
    let reader := { reader with known }.openBlock .entry
    if known.isBroken then reader
    else
      let (id, known) := known.addNode (Outline.newNode .entry line none)
      { reader with known := { known with root := some id } }.enter id

/-- Closes the entry block or a loop, which have one node. -/
def readClosing (reader : StackReader) (line : Nat) (kind : BlockKind) (e : StructureError) :
    StackReader :=
  if reader.top? = some kind then reader.closeBlock 1 else reader.report line e

/-! ## Loops and conditionals -/

/-- Makes the node of a block that was just opened, unless the script is broken. -/
def enterAttached (reader : StackReader) (node : Node) : Except Fault StackReader := do
  if reader.known.isBroken then return reader
  let (id, reader) ← reader.attach node
  return reader.enter id

/-- Opens a block headed by a condition. -/
def readConditioned (reader : StackReader) (line : Line) (keyword : Keyword) (what : String)
    (block : BlockKind) (kind : NodeKind) : Except Fault StackReader := do
  if reader.top?.isNone then return reader.report line.number (.outsideBegin what)
  let reader := reader.openBlock block
  let condition ← Outline.behindKeyword line keyword
  let reader := if condition.isEmpty then reader.report line.number .noCondition else reader
  reader.enterAttached (Outline.newNode kind line (some condition))

/-- Opens a loop over an array. -/
def readForEach (reader : StackReader) (line : Line) (text : List Char) (tokens : List Token) :
    Except Fault StackReader := do
  if reader.top?.isNone then return reader.report line.number (.outsideBegin "ForEach")
  let reader := reader.openBlock .loop
  match tokens with
  | _ :: iterator :: preposition :: collection :: _ =>
    if sameName (String.ofList preposition.text) "in" then
      let name := String.ofList iterator.text
      match Program.slotIn? reader.known.declarations name with
      | none => return reader.report line.number (.unknownIterator name)
      | some slot =>
        if reader.known.isBroken then return reader
        let expression ← Outline.fromOffset line.number text collection.offset
        reader.enterAttached
          (Outline.newNode (.forEach (fold name) slot) line (some expression))
    else return reader.report line.number .badForEach
  | _ => return reader.report line.number .badForEach

/-- Adds a branch to the conditional that the stack of nodes leads to. -/
def addBranch (reader : StackReader) (line : Line) (keyword : Keyword)
    (condition : Option (List Char)) : Except Fault StackReader :=
  match reader.target with
  | none => .error (.noConditional line.number)
  | some owner =>
    match reader.known.nodes[owner]? with
    | none => .error (.missingNode owner)
    | some above =>
      match above.kind with
      | .conditional elseIfs elseBranch =>
        if elseBranch.isSome then
          .ok (reader.report line.number
            (if keyword = .elseIfBranch then .elseIfAfterElse else .secondElse))
        else
          let id := reader.known.nodes.size
          let branchKind := if keyword = .elseIfBranch then NodeKind.elseIf else NodeKind.otherwise
          let linked := reader.known.nodes.setIfInBounds owner
            { above with kind := Outline.linkedKind keyword elseIfs id }
          let nodes := linked.push (Outline.newNode branchKind line condition)
          .ok ({ reader with known := { reader.known with nodes } }.enter id)
      | _ => .error (.notConditional line.number)

/-- Reads an {lit}`elseif` or {lit}`else` line. -/
def readBranch (reader : StackReader) (line : Line) (keyword : Keyword) :
    Except Fault StackReader := do
  match reader.kinds with
  | kind :: outer =>
    if kind = .conditional ∨ kind = .branched then
      let condition ←
        if keyword = .elseIfBranch then some <$> Outline.behindKeyword line keyword else pure none
      if condition = some [] then return reader.report line.number .noCondition
      let reader := { reader with kinds := .branched :: outer }
      if reader.known.isBroken then return reader
      -- Statements no longer go under the branch before this one.
      let code := if kind = .branched then reader.code.tail else reader.code
      { reader with code }.addBranch line keyword condition
    else return reader.report line.number (.branchWithoutIf keyword)
  | [] => return reader.report line.number (.branchWithoutIf keyword)

/-- Closes a conditional and leaves its last branch, if it has one. -/
def readEndIf (reader : StackReader) (line : Nat) : StackReader :=
  if reader.top? = some .conditional then reader.closeBlock 1
  else if reader.top? = some .branched then reader.closeBlock 2
  else reader.report line .endIfWithoutIf

/-! ## Statements -/

/-- Reads a statement; loop jumps need an enclosing loop. -/
def readStatement (reader : StackReader) (line : Line) (keyword : Option Keyword) :
    Except Fault StackReader := do
  if reader.top?.isNone then return reader.report line.number .statementOutside
  let jump? := keyword.filter fun k => k == .breakStatement || k == .continueStatement
  match jump? with
  | some k =>
    if reader.kinds.all fun kind => kind != .loop then
      return reader.report line.number (.jumpOutsideLoop k)
  | none => pure ()
  if reader.known.isBroken then return reader
  let expression ← Outline.statementText line keyword
  let (_, reader) ← reader.attach (Outline.newNode .expression line (some expression))
  return reader

/-! ## Whole scripts -/

/-- Reads a line behind the header. -/
def readLine (globals : Globals) (reader : StackReader) (line : Line) : Except Fault StackReader :=
  let text := clean .everything line.text
  let tokens := tokenize text
  match Keyword.ofTokens? tokens with
  | some .header => .ok (reader.report line.number .headerAgain)
  | some .declaration => reader.readDeclaration globals line text tokens
  | some .beginBlock => .ok (reader.readBegin line tokens)
  | some .endBlock => .ok (reader.readClosing line.number .entry .endWithoutBegin)
  | some .whileLoop => reader.readConditioned line .whileLoop "While" .loop .whileLoop
  | some .forEachLoop => reader.readForEach line text tokens
  | some .endLoop => .ok (reader.readClosing line.number .loop .loopWithoutStart)
  | some .ifBlock => reader.readConditioned line .ifBlock "If" .conditional (.conditional [] none)
  | some .elseIfBranch => reader.readBranch line .elseIfBranch
  | some .elseBranch => reader.readBranch line .elseBranch
  | some .endIf => .ok (reader.readEndIf line.number)
  | keyword => reader.readStatement line keyword

/-- Reads all lines of a script. -/
def readLines (globals : Globals) : List Line → Except Fault StackReader
  | [] => .ok (start.report 1 .empty)
  | header :: body =>
    body.foldlM (readLine globals) { start with known := Outline.start.readHeader header }

/-- Checks at the last line that the entry block was there and is closed.  Only the bottom may be
left of the nodes then. -/
def finish (reader : StackReader) (lastLine : Nat) : Except Fault StackReader :=
  if reader.known.isBroken then .ok reader
  else if reader.known.root.isNone then .ok (reader.report lastLine .noBegin)
  else
    match reader.top? with
    | some kind => .ok (reader.report lastLine (.unterminated kind.closing))
    | none => if reader.code.length ≠ 1 then .error .unbalanced else .ok reader

/-- The program that two stacks make of logical lines. -/
def parse (globals : Globals) (program : Program) (lines : List Line) : Except Fault Program := do
  let reader ← readLines globals lines
  let reader ← reader.finish ((lines.getLast?.map Line.number).getD 1)
  return program.outlined reader.known

end StackReader
end ScriptMachine
