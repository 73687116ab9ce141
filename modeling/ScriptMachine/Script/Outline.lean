import ScriptMachine.Globals
import ScriptMachine.Script.Program
import ScriptMachine.Source.Clean
import ScriptMachine.Source.LogicalLine

/-!
# The outline of a script

Logical lines are read one by one: a header, declarations, and one entry block of nested
loops, conditionals and statements.  Open blocks are remembered with the node that their
statements go under.  After the first mistake nesting is still checked, so that later
mistakes are reported, but no node is made any more.

Main results:

- {lit}`Outline.readLine`: what a line does to the outline.
- {lit}`Outline.isBroken_report`: a reported mistake is never forgotten.
- {lit}`Program.parse`: a program with its tree, or with diagnostics instead.
-/

namespace ScriptMachine

open Source Text

/-! ## Open blocks -/

/-- What opened a block. -/
inductive BlockKind where
  | entry
  | loop
  | conditional
  /-- A conditional that already has a branch besides its own. -/
  | branched
deriving Repr, DecidableEq

/-- The keyword that closes a block. -/
def BlockKind.closing : BlockKind → Keyword
  | .entry => .endBlock
  | .loop => .endLoop
  | .conditional | .branched => .endIf

/-- An open block with the nodes made for it; there are none once the script is broken. -/
structure OpenBlock where
  kind : BlockKind
  /-- The node that opened the block. -/
  node : Option Nat
  /-- The branch that is open inside a conditional. -/
  branch : Option Nat
deriving Repr, DecidableEq

/-- The node that statements of a block go under. -/
def OpenBlock.target (block : OpenBlock) : Option Nat :=
  block.branch.or block.node

/-! ## Outlines -/

/-- What is known of a script after some of its lines. -/
structure Outline where
  name : String
  interval : Float
  declarations : List Variable
  parameters : List Nat
  nodes : Array Node
  root : Option Nat
  /-- The open blocks, innermost first. -/
  blocks : List OpenBlock
  diagnostics : List Diagnostic

namespace Outline

/-- Nothing has been read. -/
def start : Outline where
  name := Program.unnamed
  interval := 0.0
  declarations := []
  parameters := []
  nodes := #[]
  root := none
  blocks := []
  diagnostics := []

/-- Whether a mistake was found. -/
def isBroken (outline : Outline) : Bool :=
  !outline.diagnostics.isEmpty

/-- The kind of the innermost open block. -/
def top? (outline : Outline) : Option BlockKind :=
  outline.blocks.head?.map OpenBlock.kind

/-- Notes a mistake at a line. -/
def report (outline : Outline) (line : Nat) (e : StructureError) : Outline :=
  { outline with diagnostics := outline.diagnostics ++ [⟨line, .structural e⟩] }

/-- A reported mistake is never forgotten. -/
@[simp] theorem isBroken_report (outline : Outline) (line : Nat) (e : StructureError) :
    (outline.report line e).isBroken = true := by
  simp [report, isBroken]

/-- Opens a block. -/
def openBlock (outline : Outline) (kind : BlockKind) (node : Option Nat) : Outline :=
  { outline with blocks := ⟨kind, node, none⟩ :: outline.blocks }

/-- Closes the innermost block. -/
def closeBlock (outline : Outline) : Outline :=
  { outline with blocks := outline.blocks.tail }

/-! ## Nodes -/

/-- A node without children that is not compiled yet. -/
def newNode (kind : NodeKind) (line : Line) (expression : Option (List Char)) : Node where
  kind := kind
  expression := expression
  source := line.text
  line := line.number
  children := []
  code := none

/-- Adds a node without a link to it. -/
def addNode (outline : Outline) (node : Node) : Nat × Outline :=
  (outline.nodes.size, { outline with nodes := outline.nodes.push node })

/-- Adds a node as the last child of the node that statements go under. -/
def attach (outline : Outline) (node : Node) : Except Fault (Nat × Outline) :=
  match outline.blocks.head?.bind OpenBlock.target with
  | none => .error (.noParent node.line)
  | some parent =>
    match outline.nodes[parent]? with
    | none => .error (.missingNode parent)
    | some above =>
      if above.kind = .expression then .error (.leafParent node.line)
      else
        let id := outline.nodes.size
        let linked := outline.nodes.setIfInBounds parent { above with children := above.children ++ [id] }
        .ok (id, { outline with nodes := linked.push node })

/-! ## Pieces of lines -/

/-- The text behind the keyword of a line. -/
def behindKeyword (line : Line) (keyword : Keyword) : Except Fault (List Char) :=
  match keyword.remainder? line.text with
  | some text => .ok text
  | none => .error (.cutCharacter line.number)

/-- The text of a line from a byte offset on. -/
def fromOffset (line : Nat) (text : List Char) (offset : Nat) : Except Fault (List Char) :=
  match dropBytes? offset text with
  | some rest => .ok rest
  | none => .error (.cutCharacter line)

/-- Whether the parenthesis open at the given depth closes with the last character; quoted
parentheses do not count. -/
def closesAtEnd (quoting : Quoting) (depth : Nat) : List Char → Bool
  | [] => false
  | c :: rest =>
    if quoting = .outside ∧ c = '(' then closesAtEnd quoting (depth + 1) rest
    else if quoting = .outside ∧ c = ')' then
      if depth ≤ 1 then rest.isEmpty else closesAtEnd quoting (depth - 1) rest
    else closesAtEnd (quoting.next c) depth rest

/-- Whether a text is one group in parentheses. -/
def isGroup (text : List Char) : Bool :=
  text.head? == some '(' && closesAtEnd .outside 0 text

/-- The command call that a keyword statement stands for: {lit}`return 42` is
{lit}`return(42)`. -/
def commandForm (keyword : Keyword) (arguments : List Char) : List Char :=
  let name := keyword.text.toList
  if arguments.isEmpty then name ++ ['(', ')']
  else if isGroup arguments then name ++ arguments
  else name ++ '(' :: arguments ++ [')']

/-! ## Header and declarations -/

/-- The seconds written in parentheses behind the script name, if positive. -/
def readInterval? (token : List Char) : Option Float :=
  match token with
  | '(' :: rest =>
    if rest.getLast? = some ')' then
      (Number.parse? (trim rest.dropLast)).filter fun seconds => 0.0 < seconds
    else none
  | _ => none

/-- Reads the first line, which names the script and perhaps its interval. -/
def readHeader (outline : Outline) (line : Line) : Outline :=
  let tokens := tokenize (clean .everything line.text)
  if Keyword.ofTokens? tokens = some .header then
    match tokens[1]? with
    | none => outline.report line.number .noScriptName
    | some name =>
      { outline with
        name := String.ofList name.text
        interval := ((tokens[2]?.bind fun token => readInterval? token.text)).getD 0.0 }
  else outline.report line.number .noHeader

/-- Reads a variable declaration. -/
def readDeclaration (globals : Globals) (outline : Outline) (line : Line) (text : List Char)
    (tokens : List Token) : Except Fault Outline := do
  if outline.top?.isSome then return outline.report line.number .declarationInBlock
  match tokens[1]? with
  | none => return outline.report line.number .noVariableName
  | some token =>
    let name := String.ofList token.text
    if !isIdentifier token.text then return outline.report line.number (.badVariableName name)
    else if (Program.slotIn? outline.declarations name).isSome then
      return outline.report line.number (.redeclared name)
    else if globals.contains name then return outline.report line.number (.shadowsGlobal name)
    else
      let initializer ←
        if 2 < tokens.length then some <$> fromOffset line.number text token.offset else pure none
      let declared : Variable := ⟨fold name, initializer, line.number⟩
      return { outline with declarations := outline.declarations ++ [declared] }

/-! ## The entry block -/

/-- Reads one parameter of the entry block. -/
def readParameter (line : Nat) (outline : Outline) (token : Token) : Outline :=
  let name := String.ofList token.text
  match Program.slotIn? outline.declarations name with
  | none => outline.report line (.unknownParameter name)
  | some slot =>
    if outline.parameters.contains slot then outline.report line (.duplicateParameter name)
    else { outline with parameters := outline.parameters ++ [slot] }

/-- Opens the entry block with its parameters. -/
def readBegin (outline : Outline) (line : Line) (tokens : List Token) : Outline :=
  if outline.top?.isSome then outline.report line.number .nestedBegin
  else if outline.root.isSome then outline.report line.number .secondBegin
  else
    let parameters := tokens.drop 1
    let outline :=
      if maxParameters < parameters.length then
        outline.report line.number (.tooManyParameters parameters.length)
      else parameters.foldl (readParameter line.number) outline
    if outline.isBroken then outline.openBlock .entry none
    else
      let (id, outline) := outline.addNode (newNode .entry line none)
      { outline with root := some id }.openBlock .entry (some id)

/-- Closes the entry block. -/
def readEnd (outline : Outline) (line : Nat) : Outline :=
  if outline.top? = some .entry then outline.closeBlock
  else outline.report line .endWithoutBegin

/-! ## Loops -/

/-- Opens a block whose node is attached unless the script is broken. -/
def openAttached (outline : Outline) (kind : BlockKind) (node : Node) : Except Fault Outline := do
  if outline.isBroken then return outline.openBlock kind none
  let (id, outline) ← outline.attach node
  return outline.openBlock kind (some id)

/-- Opens a block headed by a condition. -/
def readConditioned (outline : Outline) (line : Line) (keyword : Keyword) (what : String)
    (block : BlockKind) (kind : NodeKind) : Except Fault Outline := do
  if outline.top?.isNone then return outline.report line.number (.outsideBegin what)
  let condition ← behindKeyword line keyword
  let outline := if condition.isEmpty then outline.report line.number .noCondition else outline
  outline.openAttached block (newNode kind line (some condition))

/-- Opens a loop over an array. -/
def readForEach (outline : Outline) (line : Line) (text : List Char) (tokens : List Token) :
    Except Fault Outline := do
  if outline.top?.isNone then return outline.report line.number (.outsideBegin "ForEach")
  match tokens with
  | _ :: iterator :: preposition :: collection :: _ =>
    if sameName (String.ofList preposition.text) "in" then
      let name := String.ofList iterator.text
      match Program.slotIn? outline.declarations name with
      | none => return (outline.report line.number (.unknownIterator name)).openBlock .loop none
      | some slot =>
        let expression ← fromOffset line.number text collection.offset
        outline.openAttached .loop (newNode (.forEach (fold name) slot) line (some expression))
    else return (outline.report line.number .badForEach).openBlock .loop none
  | _ => return (outline.report line.number .badForEach).openBlock .loop none

/-- Closes a loop. -/
def readLoop (outline : Outline) (line : Nat) : Outline :=
  if outline.top? = some .loop then outline.closeBlock
  else outline.report line .loopWithoutStart

/-! ## Branches -/

/-- Adds a branch to a conditional and makes it the place for statements. -/
def addBranch (outline : Outline) (line : Line) (keyword : Keyword) (condition : Option (List Char))
    (block : OpenBlock) (outer : List OpenBlock) : Except Fault Outline :=
  match block.node with
  | none => .error (.noConditional line.number)
  | some owner =>
    match outline.nodes[owner]? with
    | none => .error (.missingNode owner)
    | some above =>
      match above.kind with
      | .conditional elseIfs elseBranch =>
        if elseBranch.isSome then
          .ok (outline.report line.number (if keyword = .elseIfBranch then .elseIfAfterElse else .secondElse))
        else
          let id := outline.nodes.size
          let branchKind := if keyword = .elseIfBranch then NodeKind.elseIf else NodeKind.otherwise
          let linkedKind :=
            if keyword = .elseIfBranch then NodeKind.conditional (elseIfs ++ [id]) none
            else NodeKind.conditional elseIfs (some id)
          let linked := outline.nodes.setIfInBounds owner { above with kind := linkedKind }
          .ok { outline with
            nodes := linked.push (newNode branchKind line condition)
            blocks := { block with branch := some id } :: outer }
      | _ => .error (.notConditional line.number)

/-- Reads an {lit}`elseif` or {lit}`else` line. -/
def readBranch (outline : Outline) (line : Line) (keyword : Keyword) : Except Fault Outline := do
  match outline.blocks with
  | block :: outer =>
    if block.kind = .conditional ∨ block.kind = .branched then
      let condition ←
        if keyword = .elseIfBranch then some <$> behindKeyword line keyword else pure none
      if condition = some [] then return outline.report line.number .noCondition
      let branched := { block with kind := .branched }
      let outline := { outline with blocks := branched :: outer }
      if outline.isBroken then return outline
      outline.addBranch line keyword condition branched outer
    else return outline.report line.number (.branchWithoutIf keyword)
  | [] => return outline.report line.number (.branchWithoutIf keyword)

/-- Closes a conditional. -/
def readEndIf (outline : Outline) (line : Nat) : Outline :=
  if outline.top? = some .conditional ∨ outline.top? = some .branched then outline.closeBlock
  else outline.report line .endIfWithoutIf

/-! ## Statements -/

/-- The expression text of a statement. -/
def statementText (line : Line) : Option Keyword → Except Fault (List Char)
  | none => .ok (trim line.text)
  | some keyword => (behindKeyword line keyword).map (commandForm keyword)

/-- Reads a statement; loop jumps need an enclosing loop. -/
def readStatement (outline : Outline) (line : Line) (keyword : Option Keyword) :
    Except Fault Outline := do
  if outline.top?.isNone then return outline.report line.number .statementOutside
  let jump? := keyword.filter fun k => k == .breakStatement || k == .continueStatement
  match jump? with
  | some k =>
    if outline.blocks.all fun block => block.kind != .loop then
      return outline.report line.number (.jumpOutsideLoop k)
  | none => pure ()
  if outline.isBroken then return outline
  let expression ← statementText line keyword
  let (_, outline) ← outline.attach (newNode .expression line (some expression))
  return outline

/-! ## Whole scripts -/

/-- Reads a line behind the header. -/
def readLine (globals : Globals) (outline : Outline) (line : Line) : Except Fault Outline :=
  let text := clean .everything line.text
  let tokens := tokenize text
  match Keyword.ofTokens? tokens with
  | some .header => .ok (outline.report line.number .headerAgain)
  | some .declaration => outline.readDeclaration globals line text tokens
  | some .beginBlock => .ok (outline.readBegin line tokens)
  | some .endBlock => .ok (outline.readEnd line.number)
  | some .whileLoop => outline.readConditioned line .whileLoop "While" .loop .whileLoop
  | some .forEachLoop => outline.readForEach line text tokens
  | some .endLoop => .ok (outline.readLoop line.number)
  | some .ifBlock => outline.readConditioned line .ifBlock "If" .conditional (.conditional [] none)
  | some .elseIfBranch => outline.readBranch line .elseIfBranch
  | some .elseBranch => outline.readBranch line .elseBranch
  | some .endIf => .ok (outline.readEndIf line.number)
  | keyword => outline.readStatement line keyword

/-- Reads all lines of a script. -/
def readLines (globals : Globals) : List Line → Except Fault Outline
  | [] => .ok (start.report 1 .empty)
  | header :: body => body.foldlM (readLine globals) (start.readHeader header)

/-- Checks at the last line that the entry block was there and is closed. -/
def finish (outline : Outline) (lastLine : Nat) : Outline :=
  if outline.isBroken then outline
  else if outline.root.isNone then outline.report lastLine .noBegin
  else
    match outline.top? with
    | none => outline
    | some kind => outline.report lastLine (.unterminated kind.closing)

/-- The node of an initializer. -/
def initializerNode (declared : Variable) (text : List Char) : Node :=
  newNode .expression ⟨declared.line, "variable ".toList ++ text⟩ (some text)

/-- The nodes of all initializers of variables that are no parameters. -/
def initializerNodes (outline : Outline) : List Node :=
  outline.declarations.zipIdx.filterMap fun (declared, slot) =>
    if outline.parameters.contains slot then none
    else declared.initializer.map (initializerNode declared)

/-- The tree of an outline without mistakes; initializers come after all other nodes. -/
def tree? (outline : Outline) : Option Tree :=
  if outline.isBroken then none
  else
    outline.root.map fun root =>
      let added := outline.initializerNodes
      { nodes := outline.nodes ++ added.toArray
        root
        initializers := (List.range added.length).map (outline.nodes.size + ·) }

end Outline

/-! ## Parsed programs -/

/-- The program that logical lines amount to: parsed, with a tree, or with diagnostics. -/
def Program.parse (globals : Globals) (program : Program) (lines : List Line) :
    Except Fault Program := do
  let outline ← Outline.readLines globals lines
  let outline := outline.finish ((lines.getLast?.map Line.number).getD 1)
  let tree := outline.tree?
  return { program with
    name := outline.name
    interval := outline.interval
    declarations := outline.declarations
    parameters := outline.parameters
    tree
    state := if tree.isSome then .parsed else .compileError
    diagnostics := program.diagnostics ++ outline.diagnostics }

end ScriptMachine
