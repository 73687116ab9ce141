import ScriptMachine.Proofs.Alike

/-!
# Outlines that differ in letter case

Two scripts that differ in letter case outside of string literals are read side by side.  Each line
does the same to both outlines, whatever it is: they keep the same nodes, variables and open blocks,
and their expressions have the same normal forms.

Main results:

- {lit}`Outline.Alike`: outlines that differ in the letter case of texts only.
- {lit}`Outline.Alike.readLine`: lines that are alike keep outlines alike.
- {lit}`Outline.readLines_alike`: scripts that are alike are read to outlines that are alike.
-/

namespace ScriptMachine

open Text Source

/-! ## Outlines -/

/-- A variable with the normal form of its initializer. -/
def Variable.normal (declared : Variable) : Variable :=
  { declared with initializer := declared.initializer.map Source.normal }

/-- A node without its source, and with the normal form of its expression. -/
def Node.normal (node : Node) : Node :=
  { node with source := [], expression := node.expression.map Source.normal }

/-- Two outlines that are the same but for the letter case of texts outside of string literals. -/
structure Outline.Alike (first second : Outline) : Prop where
  interval : first.interval = second.interval
  declarations : first.declarations.map Variable.normal = second.declarations.map Variable.normal
  parameters : first.parameters = second.parameters
  nodes : first.nodes.map Node.normal = second.nodes.map Node.normal
  root : first.root = second.root
  blocks : first.blocks = second.blocks
  isBroken : first.isBroken = second.isBroken

/-- Names in any letter case find the same slots. -/
theorem Program.slotIn?_alike {declared declared' : List Variable}
    (h : declared.map Variable.normal = declared'.map Variable.normal) {token token' : Token}
    (htoken : token.lower = token'.lower) :
    slotIn? declared (String.ofList token.text) = slotIn? declared' (String.ofList token'.text) := by
  have hnames : ∀ (declared : List Variable) (token : Token),
      slotIn? declared (String.ofList token.text) =
        (declared.map Variable.normal).findIdx? fun found =>
          fold found.name == String.ofList token.lower.text := by
    intro declared token
    simp [slotIn?, List.findIdx?_map, sameName, fold_ofList, Token.lower, Function.comp_def,
      Variable.normal]
  rw [hnames, hnames, h, htoken]

namespace Outline

variable {first second : Outline}

namespace Alike

variable (h : first.Alike second)

include h

theorem top? : first.top? = second.top? := by
  rw [Outline.top?, Outline.top?, h.blocks]

theorem size : first.nodes.size = second.nodes.size := by
  have hsize := congrArg Array.size h.nodes
  simpa using hsize

/-- The same numbers lead to nodes, and these are alike. -/
theorem find (id : Nat) : first.nodes[id]?.map Node.normal = second.nodes[id]?.map Node.normal := by
  rw [← Array.getElem?_map, h.nodes, Array.getElem?_map]

theorem report (line line' : Nat) (e e' : StructureError) :
    (first.report line e).Alike (second.report line' e') where
  interval := h.interval
  declarations := h.declarations
  parameters := h.parameters
  nodes := h.nodes
  root := h.root
  blocks := h.blocks
  isBroken := by rw [isBroken_report, isBroken_report]

theorem openBlock (kind : BlockKind) (node : Option Nat) :
    (first.openBlock kind node).Alike (second.openBlock kind node) :=
  { h with blocks := by rw [Outline.openBlock, Outline.openBlock, h.blocks] }

theorem closeBlock : first.closeBlock.Alike second.closeBlock :=
  { h with blocks := by rw [Outline.closeBlock, Outline.closeBlock, h.blocks] }

/-- Blocks are changed alike. -/
theorem withBlocks (blocks : List OpenBlock) :
    ({ first with blocks } : Outline).Alike { second with blocks } :=
  { h with blocks := rfl }

/-- The entry block is the same node. -/
theorem withRoot (root : Option Nat) : ({ first with root } : Outline).Alike { second with root } :=
  { h with root := rfl }

/-- Nodes are changed alike. -/
theorem withNodes {nodes nodes' : Array Node}
    (hnodes : nodes.map Node.normal = nodes'.map Node.normal) :
    ({ first with nodes } : Outline).Alike { second with nodes := nodes' } :=
  { h with nodes := hnodes }

/-- Nodes are attached to the same places. -/
theorem attach {node node' : Node} (hnode : node.normal = node'.normal) :
    Together (fun made made' => made.1 = made'.1 ∧ made.2.Alike made'.2) (first.attach node)
      (second.attach node') := by
  have htarget : first.blocks.head?.bind OpenBlock.target =
      second.blocks.head?.bind OpenBlock.target := by rw [h.blocks]
  unfold Outline.attach
  rw [htarget, h.size]
  cases second.blocks.head?.bind OpenBlock.target with
  | none => exact .error _ _
  | some parent =>
    simp only
    rcases both_of_map_eq (h.find parent) with ⟨hnone, hnone'⟩ | ⟨above, above', habove, habove', hsame⟩
    · rw [hnone, hnone']
      exact .error _ _
    · have hkind : above.kind = above'.kind := by
        have hkind := congrArg Node.kind hsame
        exact hkind
      rw [habove, habove']
      simp only [hkind]
      split
      · exact .error _ _
      · refine .ok ⟨rfl, h.withNodes ?_⟩
        simp only [Array.map_push, Array.map_setIfInBounds, h.nodes, hnode]
        simp only [Node.normal, Node.mk.injEq] at hsame ⊢
        simp [hsame]

/-- A block is opened on nodes that are attached to the same places. -/
theorem openAttached (kind : BlockKind) {node node' : Node} (hnode : node.normal = node'.normal) :
    Together Alike (first.openAttached kind node) (second.openAttached kind node') := by
  unfold Outline.openAttached
  rw [h.isBroken]
  split
  · exact .ok (h.openBlock kind none)
  · refine (h.attach hnode).bind fun (id, outline) (id', outline') hmade => ?_
    rcases hmade with ⟨rfl, hmade⟩
    exact .ok (hmade.openBlock kind (some id))

end Alike

/-- New nodes at lines that are alike. -/
theorem normal_newNode {a b : Line} (hline : a.Alike b) (kind : NodeKind)
    {expression expression' : Option (List Char)}
    (h : expression.map Source.normal = expression'.map Source.normal) :
    (newNode kind a expression).normal = (newNode kind b expression').normal := by
  simp [newNode, Node.normal, hline.number, h]

/-! ## Header and declarations -/

namespace Alike

variable {a b : Line} (h : first.Alike second) (hline : a.Alike b)

include h hline

theorem readHeader : (first.readHeader a).Alike (second.readHeader b) := by
  have hinterval : ((a.tokens[2]?.bind fun token => readInterval? token.text)).getD 0.0 =
      ((b.tokens[2]?.bind fun token => readInterval? token.text)).getD 0.0 := by
    rcases both_of_map_eq (hline.token 2) with ⟨hnone, hnone'⟩ | ⟨token, token', htoken, htoken', hsame⟩
    · rw [hnone, hnone']
    · have htext : lower token.text = lower token'.text := congrArg Token.text hsame
      rw [htoken, htoken', Option.bind_some, Option.bind_some, ← readInterval?_lower, htext,
        readInterval?_lower]
  have hkeyword : Keyword.ofTokens? (tokenize (clean .everything a.text)) =
      Keyword.ofTokens? (tokenize (clean .everything b.text)) := hline.keyword?
  unfold Line.tokens at hinterval
  unfold Outline.readHeader
  simp only [hkeyword, hinterval]
  split
  · rcases both_of_map_eq (hline.token 1) with ⟨hnone, hnone'⟩ | ⟨token, token', htoken, htoken', hsame⟩
    · unfold Line.tokens at hnone hnone'
      rw [hnone, hnone']
      exact h.report _ _ _ _
    · unfold Line.tokens at htoken htoken'
      rw [htoken, htoken']
      exact { h with interval := rfl }
  · exact h.report _ _ _ _

theorem readDeclaration (hkeyword : a.keyword? = some .declaration) (globals : Globals) :
    Together Alike
      (first.readDeclaration globals a (clean .everything a.text) a.tokens)
      (second.readDeclaration globals b (clean .everything b.text) b.tokens) := by
  have hlength : a.tokens.length = b.tokens.length := by
    have hlength := congrArg List.length hline.tokens
    simpa using hlength
  unfold Outline.readDeclaration
  rw [h.top?, hline.number]
  split
  · exact .ok (h.report _ _ _ _)
  rcases both_of_map_eq (hline.token 1) with ⟨hnone, hnone'⟩ | ⟨token, token', htoken, htoken', hsame⟩
  · rw [hnone, hnone']
    exact .ok (h.report _ _ _ _)
  have htext : lower token.text = lower token'.text := congrArg Token.text hsame
  have hidentifier : isIdentifier token.text = isIdentifier token'.text := by
    rw [← isIdentifier_lower, htext, isIdentifier_lower]
  have hfold : fold (String.ofList token.text) = fold (String.ofList token'.text) := by
    rw [fold_ofList, htext, fold_ofList]
  have hglobal : globals.contains (String.ofList token.text) =
      globals.contains (String.ofList token'.text) := by
    rw [← Globals.contains_fold, hfold, Globals.contains_fold]
  have hdeclare : ∀ {text text' : Option (List Char)},
      text.map Source.normal = text'.map Source.normal →
        ({ first with declarations := first.declarations ++
          [⟨fold (String.ofList token.text), text, b.number⟩] } : Outline).Alike
        { second with declarations := second.declarations ++
          [⟨fold (String.ofList token'.text), text', b.number⟩] } := by
    intro text text' htext
    refine { h with declarations := ?_ }
    simp [h.declarations, Variable.normal, hfold, htext]
  rw [htoken, htoken']
  simp only [hidentifier, Program.slotIn?_alike h.declarations hsame, hglobal, hlength]
  split
  · exact .ok (h.report _ _ _ _)
  split
  · exact .ok (h.report _ _ _ _)
  split
  · exact .ok (h.report _ _ _ _)
  split
  · have hexpression : Source.normal (a.fromToken 1) = Source.normal (b.fromToken 1) := by
      have hexpression := hline.expression
      rwa [Line.expression, Line.expression, hkeyword, ← hline.keyword?, hkeyword] at hexpression
    exact (hline.fromOffset htoken htoken' hexpression _ _).given.bind fun text text' htext =>
      .ok (hdeclare htext)
  · exact .ok (hdeclare rfl)

/-! ## The entry block -/

omit hline in
theorem readParameter (line line' : Nat) {token token' : Token} (htoken : token.lower = token'.lower) :
    (first.readParameter line token).Alike (second.readParameter line' token') := by
  unfold Outline.readParameter
  simp only [Program.slotIn?_alike h.declarations htoken]
  split
  · exact h.report _ _ _ _
  · rw [h.parameters]
    split
    · exact h.report _ _ _ _
    · exact { h with parameters := rfl }

omit hline in
/-- All parameters of an entry block are read alike. -/
theorem readParameters (line line' : Nat) {tokens tokens' : List Token}
    (htokens : tokens.map Token.lower = tokens'.map Token.lower) :
    (tokens.foldl (Outline.readParameter line) first).Alike
      (tokens'.foldl (Outline.readParameter line') second) := by
  induction tokens generalizing tokens' first second with
  | nil =>
    cases tokens' with
    | nil => exact h
    | cons token' others' => cases htokens
  | cons token others ih =>
    cases tokens' with
    | nil => cases htokens
    | cons token' others' =>
      rw [List.map_cons, List.map_cons, List.cons.injEq] at htokens
      exact ih (h.readParameter line line' htokens.1) htokens.2

omit hline in
/-- The node of an entry block is made unless the script is broken. -/
theorem openEntry {node node' : Node} (hnode : node.normal = node'.normal) :
    (if first.isBroken then first.openBlock .entry none
      else { (first.addNode node).2 with root := some (first.addNode node).1 }.openBlock .entry
        (some (first.addNode node).1)).Alike
    (if second.isBroken then second.openBlock .entry none
      else { (second.addNode node').2 with root := some (second.addNode node').1 }.openBlock .entry
        (some (second.addNode node').1)) := by
  rw [h.isBroken]
  split
  · exact h.openBlock _ _
  · have hpushed : (first.nodes.push node).map Node.normal =
        (second.nodes.push node').map Node.normal := by
      rw [Array.map_push, Array.map_push, h.nodes, hnode]
    have hadded := h.withNodes hpushed
    simp only [addNode, h.size]
    exact (hadded.withRoot _).openBlock _ _

theorem readBegin : (first.readBegin a a.tokens).Alike (second.readBegin b b.tokens) := by
  have hparameters : (a.tokens.drop 1).map Token.lower = (b.tokens.drop 1).map Token.lower := by
    rw [List.map_drop, hline.tokens, List.map_drop]
  have hlength : (a.tokens.drop 1).length = (b.tokens.drop 1).length := by
    have hlength := congrArg List.length hparameters
    simpa only [List.length_map] using hlength
  unfold Outline.readBegin
  rw [h.top?, h.root]
  split
  · exact h.report _ _ _ _
  split
  · exact h.report _ _ _ _
  have hread : (if maxParameters < (a.tokens.drop 1).length then
        first.report a.number (.tooManyParameters (a.tokens.drop 1).length)
      else (a.tokens.drop 1).foldl (Outline.readParameter a.number) first).Alike
      (if maxParameters < (b.tokens.drop 1).length then
        second.report b.number (.tooManyParameters (b.tokens.drop 1).length)
      else (b.tokens.drop 1).foldl (Outline.readParameter b.number) second) := by
    rw [hlength]
    split
    · exact h.report _ _ _ _
    · exact h.readParameters _ _ hparameters
  exact hread.openEntry (normal_newNode hline .entry rfl)

omit hline in
theorem readEnd (line line' : Nat) : (first.readEnd line).Alike (second.readEnd line') := by
  unfold Outline.readEnd
  rw [h.top?]
  split
  · exact h.closeBlock
  · exact h.report _ _ _ _

/-! ## Loops -/

theorem readConditioned {keyword : Keyword} (hkeyword : a.keyword? = some keyword)
    (hheads : keyword.headsExpression = true) (what : String) (block : BlockKind)
    (kind : NodeKind) :
    Together Alike (first.readConditioned a keyword what block kind)
      (second.readConditioned b keyword what block kind) := by
  unfold Outline.readConditioned
  rw [h.top?]
  split
  · exact .ok (h.report _ _ _ _)
  refine (hline.behindKeyword hkeyword hheads).bind fun condition condition' hsame => ?_
  have hempty : condition.isEmpty = condition'.isEmpty := by
    rw [← isEmpty_normal, hsame, isEmpty_normal]
  have hnode : (newNode kind a (some condition)).normal = (newNode kind b (some condition')).normal :=
    normal_newNode hline kind (congrArg some hsame)
  simp only [hempty]
  split
  · exact (h.report _ _ _ _).openAttached block hnode
  · exact h.openAttached block hnode

theorem readForEach (hkeyword : a.keyword? = some .forEachLoop) :
    Together Alike
      (first.readForEach a (clean .everything a.text) a.tokens)
      (second.readForEach b (clean .everything b.text) b.tokens) := by
  have hexpression : Source.normal (a.fromToken 3) = Source.normal (b.fromToken 3) := by
    have hexpression := hline.expression
    rwa [Line.expression, Line.expression, hkeyword, ← hline.keyword?, hkeyword] at hexpression
  have hbroken : ∀ e e' : StructureError, Together Alike
      (.ok ((first.report a.number e).openBlock .loop none))
      (.ok ((second.report b.number e').openBlock .loop none)) :=
    fun e e' => .ok ((h.report _ _ e e').openBlock .loop none)
  unfold Outline.readForEach
  rw [h.top?]
  split
  · exact .ok (h.report _ _ _ _)
  rcases hline.four_or_fewer with
    ⟨keyword, iterator, preposition, collection, rest, keyword', iterator', preposition', collection',
      rest', htokens, htokens', hiterator, hpreposition⟩ | ⟨hfewer, hfewer'⟩
  · have hin : sameName (String.ofList preposition.text) "in" =
        sameName (String.ofList preposition'.text) "in" := by
      have htext : lower preposition.text = lower preposition'.text := congrArg Token.text hpreposition
      rw [sameName, fold_ofList, htext, ← fold_ofList, ← sameName]
    have hfold : fold (String.ofList iterator.text) = fold (String.ofList iterator'.text) := by
      have htext : lower iterator.text = lower iterator'.text := congrArg Token.text hiterator
      rw [fold_ofList, htext, fold_ofList]
    rw [htokens, htokens']
    simp only [hin, Program.slotIn?_alike h.declarations hiterator, hfold]
    split
    · split
      · exact hbroken _ _
      · have hcut := hline.fromOffset (i := 3) (by rw [htokens]; rfl) (by rw [htokens']; rfl)
          hexpression
        refine (hcut a.number b.number).bind fun text text' hsame => ?_
        exact h.openAttached .loop (normal_newNode hline _ (congrArg some hsame))
    · exact hbroken _ _
  · split
    · next heq => exact absurd heq (hfewer _ _ _ _ _)
    · exact hbroken _ _

omit hline in
theorem readLoop (line line' : Nat) : (first.readLoop line).Alike (second.readLoop line') := by
  unfold Outline.readLoop
  rw [h.top?]
  split
  · exact h.closeBlock
  · exact h.report _ _ _ _

/-! ## Branches -/

/-- Branches are added to the same conditionals. -/
theorem addBranch (keyword : Keyword) {condition condition' : Option (List Char)}
    (hcondition : condition.map Source.normal = condition'.map Source.normal) (block : OpenBlock)
    (outer : List OpenBlock) :
    Together Alike (first.addBranch a keyword condition block outer)
      (second.addBranch b keyword condition' block outer) := by
  unfold Outline.addBranch
  rw [h.size]
  cases block.node with
  | none => exact .error _ _
  | some owner =>
    simp only
    rcases both_of_map_eq (h.find owner) with ⟨hnone, hnone'⟩ | ⟨above, above', habove, habove', hsame⟩
    · rw [hnone, hnone']
      exact .error _ _
    rw [habove, habove']
    simp only [Node.normal, Node.mk.injEq] at hsame
    rcases hsame with ⟨hkind, -, hexpression, hnumber, hchildren, hcode⟩
    simp only [hkind]
    cases above'.kind with
    | conditional elseIfs elseBranch =>
      simp only
      split
      · exact .ok (h.report _ _ _ _)
      · refine .ok { h with nodes := ?_, blocks := rfl }
        have hnode := fun kind => normal_newNode hline kind hcondition
        simp only [Array.map_push, Array.map_setIfInBounds, h.nodes, hnode]
        simp only [Node.normal, hexpression, hnumber, hchildren, hcode]
    | _ => exact .error _ _

theorem readBranch {keyword : Keyword} (hkeyword : a.keyword? = some keyword) :
    Together Alike (first.readBranch a keyword) (second.readBranch b keyword) := by
  have hbranch : ∀ (block : OpenBlock) (outer : List OpenBlock)
      (condition condition' : Option (List Char)),
      condition.map Source.normal = condition'.map Source.normal →
        Together Alike
          (if condition = some [] then .ok (first.report a.number .noCondition)
            else if ({ first with blocks := block :: outer } : Outline).isBroken then
              .ok { first with blocks := block :: outer }
            else Outline.addBranch { first with blocks := block :: outer } a keyword condition block
              outer)
          (if condition' = some [] then .ok (second.report b.number .noCondition)
            else if ({ second with blocks := block :: outer } : Outline).isBroken then
              .ok { second with blocks := block :: outer }
            else Outline.addBranch { second with blocks := block :: outer } b keyword condition' block
              outer) := by
    intro block outer condition condition' hcondition
    have hempty : condition = some [] ↔ condition' = some [] := by
      have hnormal : ∀ condition : Option (List Char),
          condition = some [] ↔ condition.map Source.normal = some [] := by
        intro condition
        cases condition with
        | none => simp
        | some text => simp [← List.isEmpty_iff]
      rw [hnormal, hcondition, ← hnormal]
    have hmarked := h.withBlocks (block :: outer)
    rw [hmarked.isBroken]
    simp only [hempty]
    split
    · exact .ok (h.report _ _ _ _)
    · split
      · exact .ok hmarked
      · exact hmarked.addBranch hline keyword hcondition block outer
  unfold Outline.readBranch
  rw [h.blocks]
  cases second.blocks with
  | nil => exact .ok (h.report _ _ _ _)
  | cons block outer =>
    simp only
    split
    · split
      · next helse =>
        have hheads : keyword.headsExpression = true := by rw [helse]; rfl
        exact (hline.behindKeyword hkeyword hheads).given.bind fun condition condition' =>
          hbranch _ outer condition condition'
      · exact hbranch _ outer none none rfl
    · exact .ok (h.report _ _ _ _)

omit hline in
theorem readEndIf (line line' : Nat) : (first.readEndIf line).Alike (second.readEndIf line') := by
  unfold Outline.readEndIf
  rw [h.top?]
  split
  · exact h.closeBlock
  · exact h.report _ _ _ _

/-! ## Statements -/

omit h in
/-- The expressions of statements. -/
theorem statementText
    (hplain : ∀ keyword, a.keyword? = some keyword → keyword.isStructural = false) :
    Together (fun text text' => Source.normal text = Source.normal text')
      (Outline.statementText a a.keyword?) (Outline.statementText b a.keyword?) := by
  cases hkeyword : a.keyword? with
  | none =>
    have hexpression := hline.expression
    rw [Line.expression, Line.expression, hkeyword, ← hline.keyword?, hkeyword] at hexpression
    exact .ok hexpression
  | some keyword =>
    have hheads : keyword.headsExpression = true := by
      have hfree := hplain keyword hkeyword
      cases keyword with
      | returnStatement | breakStatement | continueStatement => rfl
      | _ => cases hfree
    refine (hline.behindKeyword hkeyword hheads).map fun text text' hsame => ?_
    rw [normal_commandForm, hsame, normal_commandForm]

theorem readStatement
    (hplain : ∀ keyword, a.keyword? = some keyword → keyword.isStructural = false) :
    Together Alike (first.readStatement a a.keyword?) (second.readStatement b a.keyword?) := by
  have hrest : Together Alike
      (if first.isBroken then .ok first else do
        let expression ← Outline.statementText a a.keyword?
        let made ← first.attach (newNode .expression a (some expression))
        return made.2)
      (if second.isBroken then .ok second else do
        let expression ← Outline.statementText b a.keyword?
        let made ← second.attach (newNode .expression b (some expression))
        return made.2) := by
    rw [h.isBroken]
    split
    · exact .ok h
    · refine (statementText hline hplain).bind fun text text' hsame => ?_
      have hnode : (newNode .expression a (some text)).normal =
          (newNode .expression b (some text')).normal := normal_newNode hline _ (congrArg some hsame)
      exact (h.attach hnode).bind fun _ _ hmade => .ok hmade.2
  unfold Outline.readStatement
  rw [h.top?]
  split
  · exact .ok (h.report _ _ _ _)
  · simp only
    split
    · rw [h.blocks]
      split
      · exact .ok (h.report _ _ _ _)
      · exact hrest
    · exact hrest

/-! ## Whole scripts -/

/-- Lines that are alike keep outlines alike, whatever they do to them. -/
theorem readLine (globals : Globals) :
    Together Alike (Outline.readLine globals first a) (Outline.readLine globals second b) := by
  rw [readLine_eq, readLine_eq, ← hline.keyword?]
  cases hkeyword : a.keyword? with
  | none =>
    have hstatement := h.readStatement hline (by simp [hkeyword])
    rwa [hkeyword] at hstatement
  | some keyword =>
    cases keyword with
    | header => exact .ok (h.report _ _ _ _)
    | declaration => exact h.readDeclaration hline hkeyword globals
    | beginBlock => exact .ok (h.readBegin hline)
    | endBlock => exact .ok (h.readEnd _ _)
    | whileLoop => exact h.readConditioned hline hkeyword rfl _ _ _
    | forEachLoop => exact h.readForEach hline hkeyword
    | endLoop => exact .ok (h.readLoop _ _)
    | ifBlock => exact h.readConditioned hline hkeyword rfl _ _ _
    | elseIfBranch => exact h.readBranch hline hkeyword
    | elseBranch => exact h.readBranch hline hkeyword
    | endIf => exact .ok (h.readEndIf _ _)
    | returnStatement | breakStatement | continueStatement =>
      have hstatement := h.readStatement hline (by simp [hkeyword, Keyword.isStructural])
      rwa [hkeyword] at hstatement

omit hline in
/-- The checks at the last line. -/
theorem finish (line line' : Nat) : (first.finish line).Alike (second.finish line') := by
  unfold Outline.finish
  rw [h.isBroken, h.root, h.top?]
  split
  · exact h
  split
  · exact h.report _ _ _ _
  split
  · exact h
  · exact h.report _ _ _ _

end Alike

/-- The lines of scripts that are alike are read to outlines that are alike. -/
theorem readLines_alike (globals : Globals) {lines lines' : List Line}
    (hlower : lines.map Line.lower = lines'.map Line.lower)
    (hliterals : lines.map (fun line => quoted line.expression) =
      lines'.map fun line => quoted line.expression) :
    Together Alike (readLines globals lines) (readLines globals lines') := by
  have hstart : start.Alike start := ⟨rfl, rfl, rfl, rfl, rfl, rfl, rfl⟩
  have hkeys : lines.map (fun line => (line.lower, quoted line.expression)) =
      lines'.map fun line => (line.lower, quoted line.expression) := by
    rw [← List.zip_map', hlower, hliterals, List.zip_map']
  cases lines with
  | nil =>
    cases lines' with
    | nil => exact .ok (hstart.report _ _ _ _)
    | cons header' body' => cases hlower
  | cons header body =>
    cases lines' with
    | nil => cases hlower
    | cons header' body' =>
      rw [List.map_cons, List.map_cons, List.cons.injEq, Prod.mk.injEq] at hkeys
      refine Together.foldlM (fun outline outline' line line' h hkey => ?_) hkeys.2
        (hstart.readHeader ⟨hkeys.1.1, hkeys.1.2⟩)
      rw [Prod.mk.injEq] at hkey
      exact h.readLine ⟨hkey.1, hkey.2⟩ globals

end Outline
end ScriptMachine
