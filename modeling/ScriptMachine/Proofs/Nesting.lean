import ScriptMachine.Proofs.Reading

/-!
# Every line can be read

As long as no mistake was found, every open block rests on nodes of the outline that may have
children, and an open conditional rests on a conditional.  Lines keep this, in whatever order
they come, so no line makes the outline fail.  Once a mistake was found, it stays found.

Main results:

- {lit}`Outline.Sound`: open blocks rest on nodes.
- {lit}`Outline.Sound.readLine`: every line can be read.
- {lit}`Outline.foldlM_readLine_broken`: no line mends a broken outline.
-/

namespace ScriptMachine

open Source Text

/-! ## Nodes that stay -/

/-- Whether a node is a conditional. -/
def NodeKind.isConditional : NodeKind → Bool
  | .conditional _ _ => true
  | _ => false

/-- A conditional has links to its branches. -/
theorem NodeKind.exists_of_isConditional {kind : NodeKind} (h : kind.isConditional = true) :
    ∃ elseIfs elseBranch, kind = .conditional elseIfs elseBranch := by
  cases kind with
  | conditional elseIfs elseBranch => exact ⟨elseIfs, elseBranch, rfl⟩
  | _ => cases h

/-- A conditional is no leaf. -/
theorem NodeKind.ne_expression_of_isConditional {kind : NodeKind} (h : kind.isConditional = true) :
    kind ≠ .expression := by
  intro hleaf
  subst hleaf
  cases h

/-- Nodes are still there, conditionals as conditionals and leaves as leaves. -/
def NodesStay (nodes later : Array Node) : Prop :=
  ∀ (place : Nat) (node : Node), nodes[place]? = some node →
    ∃ node' : Node, later[place]? = some node' ∧
    (node.kind.isConditional = true → node'.kind.isConditional = true) ∧
    (node.kind ≠ .expression → node'.kind ≠ .expression)

/-- Nodes stay where they are left alone. -/
theorem NodesStay.refl (nodes : Array Node) : NodesStay nodes nodes :=
  fun _ node hnode => ⟨node, hnode, id, id⟩

/-- Nodes stay when one of them is changed, but not its kind of place, and more are added. -/
theorem NodesStay.change {nodes : Array Node} {place : Nat} {node : Node}
    (hnode : nodes[place]? = some node) (changed : Node)
    (hconditional : node.kind.isConditional = true → changed.kind.isConditional = true)
    (hleaf : node.kind ≠ .expression → changed.kind ≠ .expression) (added : List Node) :
    NodesStay nodes (nodes.setIfInBounds place changed ++ added.toArray) := by
  intro other found hfound
  have hlt : other < nodes.size := (Array.getElem?_eq_some_iff.1 hfound).1
  have hinside : (nodes.setIfInBounds place changed ++ added.toArray)[other]? =
      (nodes.setIfInBounds place changed)[other]? :=
    Array.getElem?_append_left (by simpa using hlt)
  by_cases heq : place = other
  · subst heq
    have hsame : found = node := by
      rw [hnode] at hfound
      exact (Option.some.inj hfound).symm
    subst hsame
    refine ⟨changed, ?_, hconditional, hleaf⟩
    rw [hinside, Array.getElem?_setIfInBounds_self_of_lt hlt]
  · refine ⟨found, ?_, id, id⟩
    rw [hinside, Array.getElem?_setIfInBounds_ne heq, hfound]

/-! ## Sound outlines -/

/-- An open block rests on nodes that may have children. -/
structure OpenBlock.Rests (nodes : Array Node) (block : OpenBlock) : Prop where
  node : ∃ id node, block.node = some id ∧ nodes[id]? = some node ∧ node.kind ≠ .expression ∧
    (block.kind = .conditional ∨ block.kind = .branched → node.kind.isConditional = true)
  branch : ∀ id, block.branch = some id → ∃ node, nodes[id]? = some node ∧ node.kind ≠ .expression

/-- A block rests on nodes that stay. -/
theorem OpenBlock.Rests.mono {nodes later : Array Node} {block : OpenBlock} (h : block.Rests nodes)
    (hstay : NodesStay nodes later) : block.Rests later := by
  rcases h.node with ⟨id, node, hid, hnode, hleaf, hconditional⟩
  refine ⟨?_, fun branch hbranch => ?_⟩
  · rcases hstay id node hnode with ⟨node', hnode', hkind, hplace⟩
    exact ⟨id, node', hid, hnode', hplace hleaf, fun hopen => hkind (hconditional hopen)⟩
  · rcases h.branch branch hbranch with ⟨found, hfound, hplace⟩
    rcases hstay branch found hfound with ⟨found', hfound', _, hplace'⟩
    exact ⟨found', hfound', hplace' hplace⟩

namespace Outline

/-- Without a mistake, all open blocks rest on nodes. -/
def Sound (outline : Outline) : Prop :=
  outline.isBroken = false → ∀ block ∈ outline.blocks, block.Rests outline.nodes

/-- A line was read: the outline is sound behind it, and no mistake was forgotten. -/
def Reads (outline : Outline) (result : Except Fault Outline) : Prop :=
  ∃ outline', result = .ok outline' ∧ outline'.Sound ∧
    (outline.isBroken = true → outline'.isBroken = true)

variable {outline : Outline}

/-- A broken outline is sound. -/
theorem Sound.of_broken (h : outline.isBroken = true) : outline.Sound := by
  intro hfine
  rw [h] at hfine
  cases hfine

/-- Reporting a mistake. -/
theorem reads_report (outline : Outline) (number : Nat) (e : StructureError) :
    outline.Reads (.ok (outline.report number e)) :=
  ⟨_, rfl, .of_broken (isBroken_report outline number e), fun _ => isBroken_report outline number e⟩

/-- Reporting a mistake and opening a block without nodes. -/
theorem reads_report_openBlock (outline : Outline) (number : Nat) (e : StructureError)
    (kind : BlockKind) :
    outline.Reads (.ok ((outline.report number e).openBlock kind none)) :=
  ⟨_, rfl, .of_broken (isBroken_report outline number e), fun _ => isBroken_report outline number e⟩

/-- What an outline with as many mistakes reads. -/
theorem Reads.of_broken {earlier : Outline} {result : Except Fault Outline}
    (h : outline.Reads result)
    (hbroken : earlier.isBroken = true → outline.isBroken = true) : earlier.Reads result := by
  rcases h with ⟨outline', hresult, hsound, hkept⟩
  exact ⟨outline', hresult, hsound, fun hearlier => hkept (hbroken hearlier)⟩

/-- Closing a block. -/
theorem Sound.closeBlock (h : outline.Sound) : outline.Reads (.ok outline.closeBlock) := by
  refine ⟨_, rfl, ?_, id⟩
  intro hfine block hblock
  exact h hfine block (List.mem_of_mem_tail hblock)

/-- Statements go somewhere in a sound outline with an open block. -/
theorem Sound.exists_under (h : outline.Sound) (hfine : outline.isBroken = false)
    (hopen : outline.top?.isNone = false) : ∃ parent above, outline.Under parent above := by
  cases hblocks : outline.blocks with
  | nil =>
    unfold top? at hopen
    rw [hblocks] at hopen
    cases hopen
  | cons block outer =>
    have hrests := h hfine block (by rw [hblocks]; exact List.mem_cons_self)
    cases hbranch : block.branch with
    | none =>
      rcases hrests.node with ⟨id, node, hid, hnode, hleaf, _⟩
      refine ⟨id, node, hfine, ?_, hnode, hleaf⟩
      rw [hblocks]
      simp [OpenBlock.target, hbranch, hid]
    | some id =>
      rcases hrests.branch id hbranch with ⟨node, hnode, hleaf⟩
      refine ⟨id, node, hfine, ?_, hnode, hleaf⟩
      rw [hblocks]
      simp [OpenBlock.target, hbranch]

/-- Growth under a node keeps an outline sound. -/
theorem Under.sound_grow {parent : Nat} {above : Node} (hunder : outline.Under parent above)
    (h : outline.Sound) (ids : List Nat) (added : List Node) :
    (outline.grow parent above ids added).Sound := by
  intro _ block hblock
  have hstay := NodesStay.change hunder.node { above with children := above.children ++ ids }
    (fun hkind => hkind) (fun hkind => hkind) added
  exact (h hunder.unbroken block hblock).mono hstay

/-- Opening a block on a node that was just attached. -/
theorem Sound.openAttached (h : outline.Sound) (hopen : outline.top?.isNone = false)
    {kind : BlockKind}
    {node : Node} (hleaf : node.kind ≠ .expression)
    (hconditional : kind = .conditional ∨ kind = .branched → node.kind.isConditional = true) :
    outline.Reads (outline.openAttached kind node) := by
  cases hfine : outline.isBroken with
  | true =>
    refine ⟨outline.openBlock kind none, ?_, .of_broken hfine, fun _ => hfine⟩
    unfold Outline.openAttached
    rw [hfine]
    rfl
  | false =>
    rcases h.exists_under hfine hopen with ⟨parent, above, hunder⟩
    refine ⟨_, hunder.openAttached kind node, ?_, fun hbroken => ?_⟩
    · intro hstill block hblock
      rcases List.mem_cons.1 hblock with rfl | hblock
      · have hopened := (hunder.opened kind hleaf).node
        refine ⟨⟨outline.nodes.size, node, rfl, hopened, hleaf, hconditional⟩, ?_⟩
        intro id hid
        cases hid
      · exact hunder.sound_grow h _ _ hstill block hblock
    · rw [hfine] at hbroken
      cases hbroken

/-! ## Lines -/

variable {line : Line}

/-- Reading a declaration. -/
theorem Sound.readDeclaration (h : outline.Sound) (globals : Globals) (line : Line) :
    outline.Reads
      (outline.readDeclaration globals line (clean .everything line.text) line.tokens) := by
  have hdeclared : ∀ fresh : Variable, outline.Reads
      (.ok { outline with declarations := outline.declarations ++ [fresh] }) :=
    fun fresh => ⟨_, rfl, h, id⟩
  unfold Outline.readDeclaration
  cases hopen : outline.top?.isSome with
  | true => exact reads_report _ _ _
  | false =>
    cases htoken : line.tokens[1]? with
    | none => exact reads_report _ _ _
    | some token =>
      simp only [Bool.false_eq_true, if_false]
      by_cases hname : isIdentifier token.text = true
      · by_cases hold : (Program.slotIn? outline.declarations (String.ofList token.text)).isSome =
          true
        · simp only [hname, hold]
          exact reads_report _ _ _
        · by_cases hglobal : globals.contains (String.ofList token.text) = true
          · simp only [hname, hglobal, Bool.eq_false_iff.2 hold]
            exact reads_report _ _ _
          · simp only [hname, Bool.eq_false_iff.2 hglobal, Bool.eq_false_iff.2 hold]
            rcases Line.exists_fromToken (List.mem_of_getElem? htoken) with ⟨text, htext⟩
            rw [fromOffset_eq htext]
            by_cases hmore : 2 < line.tokens.length
            · rw [if_pos hmore]
              exact hdeclared _
            · rw [if_neg hmore]
              exact hdeclared _
      · simp only [Bool.eq_false_iff.2 hname]
        exact reads_report _ _ _

/-- Reading a parameter forgets no mistake and leaves blocks and nodes alone. -/
theorem readParameter_spec (number : Nat) (outline : Outline) (token : Token) :
    (outline.isBroken = true → (readParameter number outline token).isBroken = true) ∧
      (readParameter number outline token).blocks = outline.blocks ∧
      (readParameter number outline token).nodes = outline.nodes := by
  unfold readParameter
  simp only
  cases hslot : Program.slotIn? outline.declarations (String.ofList token.text) with
  | none => exact ⟨fun _ => isBroken_report _ _ _, rfl, rfl⟩
  | some slot =>
    by_cases hseen : outline.parameters.contains slot = true
    · simp only [if_pos hseen]
      exact ⟨fun _ => isBroken_report _ _ _, rfl, rfl⟩
    · simp only [if_neg hseen]
      exact ⟨fun hbroken => hbroken, trivial, trivial⟩

/-- Reading parameters forgets no mistake and leaves blocks and nodes alone. -/
theorem foldl_readParameter_spec (number : Nat) (outline : Outline) (tokens : List Token) :
    (outline.isBroken = true → (tokens.foldl (readParameter number) outline).isBroken = true) ∧
      (tokens.foldl (readParameter number) outline).blocks = outline.blocks ∧
      (tokens.foldl (readParameter number) outline).nodes = outline.nodes := by
  induction tokens generalizing outline with
  | nil => exact ⟨fun hbroken => hbroken, rfl, rfl⟩
  | cons token rest ih =>
    rcases readParameter_spec number outline token with ⟨hbroken, hblocks, hnodes⟩
    rcases ih (readParameter number outline token) with ⟨hbroken', hblocks', hnodes'⟩
    rw [List.foldl_cons]
    exact ⟨fun h => hbroken' (hbroken h), hblocks'.trans hblocks, hnodes'.trans hnodes⟩

/-- Reading the opening line of the entry block. -/
theorem reads_readBegin (outline : Outline) (line : Line) (tokens : List Token) :
    outline.Reads (.ok (outline.readBegin line tokens)) := by
  unfold readBegin
  cases hopen : outline.top?.isSome with
  | true => exact reads_report _ _ _
  | false =>
    cases hroot : outline.root.isSome with
    | true => exact reads_report _ _ _
    | false =>
      simp only [Bool.false_eq_true, if_false]
      -- The outline behind the parameters.
      have hparameters : ∃ between : Outline,
          between = (if maxParameters < (tokens.drop 1).length then
            outline.report line.number (.tooManyParameters (tokens.drop 1).length)
            else (tokens.drop 1).foldl (readParameter line.number) outline) ∧
          (outline.isBroken = true → between.isBroken = true) ∧
            between.blocks = outline.blocks := by
        refine ⟨_, rfl, ?_⟩
        by_cases hmany : maxParameters < (tokens.drop 1).length
        · rw [if_pos hmany]
          exact ⟨fun _ => isBroken_report _ _ _, rfl⟩
        · rw [if_neg hmany]
          obtain ⟨hbroken, hblocks, _⟩ :=
            foldl_readParameter_spec line.number outline (tokens.drop 1)
          exact ⟨hbroken, hblocks⟩
      rcases hparameters with ⟨between, hbetween, hkept, hblocks⟩
      rw [← hbetween]
      have hempty : between.blocks = [] := by
        rw [hblocks]
        unfold top? at hopen
        cases hall : outline.blocks with
        | nil => rfl
        | cons block outer =>
          rw [hall] at hopen
          cases hopen
      cases hfine : between.isBroken with
      | true =>
        exact ⟨between.openBlock .entry none, rfl, .of_broken hfine, fun _ => hfine⟩
      | false =>
        refine ⟨_, rfl, ?_, fun hbroken => ?_⟩
        · intro _ block hblock
          have hblock' : block ∈ ⟨.entry, some between.nodes.size, none⟩ :: between.blocks := hblock
          rw [hempty, List.mem_singleton] at hblock'
          subst hblock'
          refine ⟨⟨between.nodes.size, newNode .entry line none, rfl, ?_, by simp [newNode],
            by simp⟩, ?_⟩
          · simp [addNode, openBlock]
          · intro id hid
            cases hid
        · rw [hkept hbroken] at hfine
          cases hfine

/-- Reading the end of the entry block. -/
theorem Sound.readEnd (h : outline.Sound) (number : Nat) :
    outline.Reads (.ok (outline.readEnd number)) := by
  unfold Outline.readEnd
  by_cases htop : outline.top? = some .entry
  · rw [if_pos htop]
    exact h.closeBlock
  · rw [if_neg htop]
    exact reads_report _ _ _

/-- Reading the end of a loop. -/
theorem Sound.readLoop (h : outline.Sound) (number : Nat) :
    outline.Reads (.ok (outline.readLoop number)) := by
  unfold Outline.readLoop
  by_cases htop : outline.top? = some .loop
  · rw [if_pos htop]
    exact h.closeBlock
  · rw [if_neg htop]
    exact reads_report _ _ _

/-- Reading the end of a conditional. -/
theorem Sound.readEndIf (h : outline.Sound) (number : Nat) :
    outline.Reads (.ok (outline.readEndIf number)) := by
  unfold Outline.readEndIf
  by_cases htop : outline.top? = some .conditional ∨ outline.top? = some .branched
  · rw [if_pos htop]
    exact h.closeBlock
  · rw [if_neg htop]
    exact reads_report _ _ _

/-- Reading the head of a block with a condition. -/
theorem Sound.readConditioned (h : outline.Sound) {keyword : Keyword}
    (hkeyword : line.keyword? = some keyword) (what : String) {block : BlockKind} {kind : NodeKind}
    (hleaf : kind ≠ .expression)
    (hconditional : block = .conditional ∨ block = .branched → kind.isConditional = true) :
    outline.Reads (outline.readConditioned line keyword what block kind) := by
  rcases Line.exists_remainder hkeyword with ⟨condition, htext⟩
  unfold Outline.readConditioned
  cases hopen : outline.top?.isNone with
  | true => exact reads_report _ _ _
  | false =>
    simp only [Bool.false_eq_true, if_false, behindKeyword_eq htext, bind, Except.bind]
    cases hempty : condition.isEmpty with
    | true =>
      have hreported : (outline.report line.number .noCondition).isBroken = true :=
        isBroken_report _ _ _
      have hreads := (Sound.of_broken hreported).openAttached hopen
        (show (newNode kind line (some condition)).kind ≠ .expression from hleaf) hconditional
      exact hreads.of_broken fun _ => hreported
    | false => exact h.openAttached hopen hleaf hconditional

/-- Reading the head of a loop over an array. -/
theorem Sound.readForEach (h : outline.Sound) (line : Line) :
    outline.Reads (outline.readForEach line (clean .everything line.text) line.tokens) := by
  unfold Outline.readForEach
  cases hopen : outline.top?.isNone with
  | true => exact reads_report _ _ _
  | false =>
    simp only [Bool.false_eq_true, if_false]
    split
    · next first iterator preposition collection more htokens =>
      by_cases hin : sameName (String.ofList preposition.text) "in" = true
      · simp only [if_pos hin]
        cases hslot : Program.slotIn? outline.declarations (String.ofList iterator.text) with
        | none => exact reads_report_openBlock _ _ _ _
        | some slot =>
          have hmem : collection ∈ line.tokens := by simp [htokens]
          rcases Line.exists_fromToken hmem with ⟨text, htext⟩
          simp only [fromOffset_eq htext]
          exact h.openAttached hopen (by simp [newNode]) (by simp)
      · simp only [if_neg hin]
        exact reads_report_openBlock _ _ _ _
    · exact reads_report_openBlock _ _ _ _

/-- Adding a branch to a conditional. -/
theorem Sound.addBranch {block : OpenBlock} {outer : List OpenBlock}
    (h : ({ outline with blocks := block :: outer } : Outline).Sound)
    (hfine : outline.isBroken = false) (hkind : block.kind = .conditional ∨ block.kind = .branched)
    (line : Line) (keyword : Keyword) (condition : Option (List Char)) :
    outline.Reads (({ outline with blocks := block :: outer } : Outline).addBranch line keyword
      condition block outer) := by
  have hrests := h hfine block List.mem_cons_self
  rcases hrests.node with ⟨owner, above, howner, habove, _, hconditional⟩
  rcases NodeKind.exists_of_isConditional (hconditional hkind) with ⟨elseIfs, elseBranch, hlinks⟩
  unfold Outline.addBranch
  simp only [howner, habove, hlinks]
  cases elseBranch with
  | some branch => exact reads_report _ _ _
  | none =>
    refine ⟨_, rfl, ?_, fun hbroken => ?_⟩
    · intro _ found hfound
      -- The conditional stays one, and the new branch lies behind all nodes.
      have hlinked : ∀ linked : NodeKind, linked.isConditional = true → ∀ branch : Node,
          NodesStay outline.nodes
            ((outline.nodes.setIfInBounds owner { above with kind := linked }).push branch) := by
        intro linked hlinked branch
        rw [Array.push_eq_append]
        exact NodesStay.change habove { above with kind := linked } (fun _ => hlinked)
          (fun _ => NodeKind.ne_expression_of_isConditional hlinked) [branch]
      have hstay := hlinked
        (if keyword = .elseIfBranch then .conditional (elseIfs ++ [outline.nodes.size]) none
          else .conditional elseIfs (some outline.nodes.size)) (by split <;> rfl)
        (newNode (if keyword = .elseIfBranch then .elseIf else .otherwise) line condition)
      rcases List.mem_cons.1 hfound with rfl | hfound
      · rcases (hrests.mono hstay).node with ⟨place, node, hplace, hrest⟩
        refine ⟨⟨place, node, howner.symm.trans hplace, hrest⟩, ?_⟩
        intro id hid
        have hid' : id = outline.nodes.size := (Option.some.inj hid).symm
        subst hid'
        refine ⟨newNode (if keyword = .elseIfBranch then .elseIf else .otherwise) line condition,
          ?_, ?_⟩
        · show ((outline.nodes.setIfInBounds owner _).push _)[outline.nodes.size]? = _
          rw [Array.getElem?_push, if_pos (by simp)]
        · unfold newNode
          by_cases helseIf : keyword = .elseIfBranch
          · simp [if_pos helseIf]
          · simp [if_neg helseIf]
      · exact (h hfine found (List.mem_cons_of_mem _ hfound)).mono hstay
    · rw [hfine] at hbroken
      cases hbroken

/-- Reading a branch. -/
theorem Sound.readBranch (h : outline.Sound) {keyword : Keyword}
    (hkeyword : line.keyword? = some keyword) :
    outline.Reads (outline.readBranch line keyword) := by
  unfold Outline.readBranch
  cases hblocks : outline.blocks with
  | nil => exact reads_report _ _ _
  | cons block outer =>
    by_cases hkind : block.kind = .conditional ∨ block.kind = .branched
    · simp only [if_pos hkind]
      -- Marking the conditional as branched changes nothing about the nodes under it.
      have hmarked : ({ outline with
          blocks := { block with kind := .branched } :: outer } : Outline).Sound := by
        intro hfine found hfound
        rcases List.mem_cons.1 hfound with rfl | hfound
        · have hrests := h hfine block (by rw [hblocks]; exact List.mem_cons_self)
          rcases hrests.node with ⟨owner, above, howner, habove, hleaf, hconditional⟩
          exact ⟨⟨owner, above, howner, habove, hleaf, fun _ => hconditional hkind⟩, hrests.branch⟩
        · exact h hfine found (by rw [hblocks]; exact List.mem_cons_of_mem _ hfound)
      have hbranched : ∀ condition : Option (List Char), outline.Reads (do
          if condition = some [] then return outline.report line.number .noCondition
          let outline := { outline with blocks := { block with kind := .branched } :: outer }
          if outline.isBroken then return outline
          outline.addBranch line keyword condition { block with kind := .branched } outer) := by
        intro condition
        by_cases hempty : condition = some []
        · rw [if_pos hempty]
          exact reads_report _ _ _
        · rw [if_neg hempty]
          cases hfine : outline.isBroken with
          | true => exact ⟨_, if_pos hfine, hmarked, fun _ => hfine⟩
          | false =>
            have hadd := hmarked.addBranch hfine (.inr rfl) line keyword condition
            have hstill : ¬outline.isBroken = true := by simp [hfine]
            exact (if_neg hstill).symm ▸ hadd
      by_cases helseIf : keyword = .elseIfBranch
      · rcases Line.exists_remainder hkeyword with ⟨text, htext⟩
        rw [if_pos helseIf, behindKeyword_eq htext]
        exact hbranched (some text)
      · rw [if_neg helseIf]
        exact hbranched none
    · simp only [if_neg hkind]
      exact reads_report _ _ _

/-- The text of a statement exists. -/
theorem exists_statementText (line : Line) :
    ∃ text, statementText line line.keyword? = .ok text := by
  cases hkeyword : line.keyword? with
  | none => exact ⟨_, rfl⟩
  | some keyword =>
    rcases Line.exists_remainder hkeyword with ⟨text, htext⟩
    refine ⟨commandForm keyword text, ?_⟩
    show (behindKeyword line keyword).map (commandForm keyword) = _
    rw [behindKeyword_eq htext]
    rfl

/-- Reading a statement. -/
theorem Sound.readStatement (h : outline.Sound) (line : Line) :
    outline.Reads (outline.readStatement line line.keyword?) := by
  rcases exists_statementText line with ⟨text, htext⟩
  unfold Outline.readStatement
  cases hopen : outline.top?.isNone with
  | true => exact reads_report _ _ _
  | false =>
    simp only [Bool.false_eq_true, if_false]
    -- What remains when the statement is no loop jump or stands inside of a loop.
    have hattached : outline.Reads (do
        if outline.isBroken then return outline
        let expression ← statementText line line.keyword?
        let attached ← outline.attach (newNode .expression line (some expression))
        return attached.2) := by
      cases hfine : outline.isBroken with
      | true => exact ⟨outline, rfl, .of_broken hfine, fun _ => hfine⟩
      | false =>
        rcases h.exists_under hfine hopen with ⟨parent, above, hunder⟩
        rw [htext]
        simp only [bind, Except.bind, Bool.false_eq_true, if_false]
        rw [hunder.attach]
        refine ⟨_, rfl, hunder.sound_grow h _ _, fun hbroken => ?_⟩
        rw [hfine] at hbroken
        cases hbroken
    cases hjump : line.keyword?.filter fun k => k == .breakStatement || k == .continueStatement with
    | none => exact hattached
    | some k =>
      by_cases hloop : (outline.blocks.all fun block => block.kind != .loop) = true
      · simp only [if_pos hloop]
        exact reads_report _ _ _
      · simp only [if_neg hloop]
        exact hattached

/-- Every line can be read. -/
theorem Sound.readLine (h : outline.Sound) (globals : Globals) (line : Line) :
    outline.Reads (readLine globals outline line) := by
  rcases line.plain_or_structural with hplain | ⟨keyword, hkeyword, hstructural⟩
  · rw [readLine_statement hplain]
    exact h.readStatement line
  · rw [readLine_eq, hkeyword]
    cases keyword with
    | header => exact reads_report _ _ _
    | declaration => exact h.readDeclaration globals line
    | beginBlock => exact reads_readBegin _ _ _
    | endBlock => exact h.readEnd _
    | whileLoop => exact h.readConditioned hkeyword _ (by simp) (by simp)
    | forEachLoop => exact h.readForEach line
    | endLoop => exact h.readLoop _
    | ifBlock => exact h.readConditioned hkeyword _ (by simp) (fun _ => rfl)
    | elseIfBranch => exact h.readBranch hkeyword
    | elseBranch => exact h.readBranch hkeyword
    | endIf => exact h.readEndIf _
    | returnStatement | breakStatement | continueStatement => cases hstructural

/-- All lines can be read. -/
theorem Sound.foldlM_readLine (h : outline.Sound) (globals : Globals) (lines : List Line) :
    outline.Reads (lines.foldlM (Outline.readLine globals) outline) := by
  induction lines generalizing outline with
  | nil => exact ⟨outline, rfl, h, fun hbroken => hbroken⟩
  | cons line rest ih =>
    rcases h.readLine globals line with ⟨behind, hline, hsound, hkept⟩
    rcases ih hsound with ⟨last, hrest, hlast, hkept'⟩
    refine ⟨last, ?_, hlast, fun hbroken => hkept' (hkept hbroken)⟩
    rw [List.foldlM_cons, hline]
    exact hrest

/-- No line mends a broken outline. -/
theorem foldlM_readLine_broken {globals : Globals} {lines : List Line} {last : Outline}
    (hbroken : outline.isBroken = true)
    (hread : lines.foldlM (Outline.readLine globals) outline = .ok last) :
    last.isBroken = true := by
  rcases (Sound.of_broken hbroken).foldlM_readLine globals lines with ⟨last', hread', _, hkept⟩
  rw [hread] at hread'
  cases hread'
  exact hkept hbroken

end Outline
end ScriptMachine
