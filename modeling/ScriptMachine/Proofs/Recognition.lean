import ScriptMachine.Proofs.Nesting

/-!
# Every script that is parsed conforms to the grammar

Lines that are read to their end without a mistake, and that leave no block open, have a
derivation tree.  A block is recognised from the line behind its head: statements up to the
first line that ends a block, and that line must be one that ends this block.  Reading the
statements again tells which outline the next line finds.

Main results:

- {lit}`Block.recognise` and {lit}`Branches.recognise`: parts of a script are recognised.
- {lit}`Script.recognise`: so are whole scripts.
- {lit}`Program.parse_iff_derives`: a program is parsed just when its lines are derived by the
  grammar, and then its tree is that of the derivation tree.
-/

namespace ScriptMachine

open Source Text

/-! ## Lines that end blocks -/

/-- Whether a keyword ends the statements of an open block of some kind. -/
def Source.Keyword.endsBlock : Keyword → Bool
  | .endBlock | .endLoop | .elseIfBranch | .elseBranch | .endIf => true
  | _ => false

/-- Whether a keyword ends the statements of an open block of the given kind. -/
def Source.Keyword.ends (keyword : Keyword) : BlockKind → Bool
  | .entry => keyword == .endBlock
  | .loop => keyword == .endLoop
  | .conditional | .branched =>
    keyword == .elseIfBranch || keyword == .elseBranch || keyword == .endIf

/-- The line ends the statements of an open block of some kind. -/
def Source.Line.EndsBlock (line : Line) : Prop :=
  ∃ keyword, line.keyword? = some keyword ∧ keyword.endsBlock = true

namespace Outline

/-! ## Reading to the end -/

/-- The lines are read to their end without a mistake, and no block stays open. -/
def Finishes (globals : Globals) (outline : Outline) (lines : List Line) : Prop :=
  ∃ last, lines.foldlM (readLine globals) outline = .ok last ∧ last.isBroken = false ∧
    last.blocks = []

variable {globals : Globals} {outline behind : Outline} {line : Line} {rest : List Line}

/-- What is left to read behind a line. -/
theorem Finishes.behind_line (h : outline.Finishes globals (line :: rest))
    (hread : readLine globals outline line = .ok behind) :
    behind.isBroken = false ∧ behind.Finishes globals rest := by
  rcases h with ⟨last, hlast, hfine, hclosed⟩
  rw [List.foldlM_cons, hread] at hlast
  have hrest : rest.foldlM (readLine globals) behind = .ok last := hlast
  refine ⟨?_, last, hrest, hfine, hclosed⟩
  cases hbroken : behind.isBroken with
  | false => rfl
  | true =>
    have hstill := foldlM_readLine_broken hbroken hrest
    rw [hfine] at hstill
    cases hstill

/-- A line that makes a mistake does not finish. -/
theorem Finishes.not_broken (h : outline.Finishes globals (line :: rest))
    (hread : readLine globals outline line = .ok behind) (hbroken : behind.isBroken = true) :
    False := by
  have hfine := (h.behind_line hread).1
  rw [hbroken] at hfine
  cases hfine

/-- A line that is reported does not finish. -/
theorem Finishes.not_report (h : outline.Finishes globals (line :: rest)) {number : Nat}
    {e : StructureError}
    (hread : readLine globals outline line = .ok (behind.report number e)) : False :=
  h.not_broken hread (isBroken_report _ _ _)

/-- What is left to read behind lines. -/
theorem Finishes.behind_lines {lines : List Line} (h : outline.Finishes globals (lines ++ rest))
    (hread : lines.foldlM (readLine globals) outline = .ok behind) :
    behind.Finishes globals rest := by
  rcases h with ⟨last, hlast, hfine, hclosed⟩
  rw [List.foldlM_append, hread] at hlast
  exact ⟨last, hlast, hfine, hclosed⟩

/-- At the end of the lines no block is open. -/
theorem Finishes.not_open (h : outline.Finishes globals []) {parent : Nat} {above : Node}
    (hunder : outline.Under parent above) : False := by
  rcases h with ⟨last, hlast, _, hclosed⟩
  cases hlast
  have hopen := hunder.isOpen
  unfold top? at hopen
  rw [hclosed] at hopen
  cases hopen

/-- A branch line outside of a conditional is a mistake. -/
theorem readBranch_outside {kind : BlockKind} (htop : outline.top? = some kind)
    (hkind : ¬(kind = .conditional ∨ kind = .branched)) (line : Line) (keyword : Keyword) :
    outline.readBranch line keyword =
      .ok (outline.report line.number (.branchWithoutIf keyword)) := by
  unfold readBranch
  unfold top? at htop
  cases hblocks : outline.blocks with
  | nil => rfl
  | cons block outer =>
    rw [hblocks] at htop
    have hsame : block.kind = kind := Option.some.inj htop
    simp only [hsame, if_neg hkind]
    rfl

/-- A line that ends a block ends the innermost one. -/
theorem Finishes.ends (h : outline.Finishes globals (line :: rest)) {keyword : Keyword}
    (hkeyword : line.keyword? = some keyword) (hends : keyword.endsBlock = true) {kind : BlockKind}
    (htop : outline.top? = some kind) : keyword.ends kind = true := by
  have hread := readLine_eq globals outline line
  rw [hkeyword] at hread
  -- A keyword that does not fit the innermost block reports a mistake.
  have hreported : ∀ e, readLine globals outline line = .ok (outline.report line.number e) →
      keyword.ends kind = true := fun e he => (h.not_report he).elim
  cases keyword with
  | endBlock =>
    cases kind with
    | entry => rfl
    | _ => exact hreported .endWithoutBegin (by rw [hread]; simp [readEnd, htop])
  | endLoop =>
    cases kind with
    | loop => rfl
    | _ => exact hreported .loopWithoutStart (by rw [hread]; simp [readLoop, htop])
  | endIf =>
    cases kind with
    | conditional => rfl
    | branched => rfl
    | _ => exact hreported .endIfWithoutIf (by rw [hread]; simp [readEndIf, htop])
  | elseIfBranch =>
    cases kind with
    | conditional => rfl
    | branched => rfl
    | _ => exact hreported _ (hread.trans (readBranch_outside htop (by simp) _ _))
  | elseBranch =>
    cases kind with
    | conditional => rfl
    | branched => rfl
    | _ => exact hreported _ (hread.trans (readBranch_outside htop (by simp) _ _))
  | _ => cases hends

/-! ## Statements without parts -/

/-- A statement without parts conforms to the grammar when it is read without a mistake. -/
theorem Finishes.isLeaf (h : outline.Finishes globals (line :: rest)) {inLoop : Bool}
    (hopen : outline.top?.isNone = false)
    (hloop : outline.blocks.any (fun block => block.kind == .loop) = inLoop)
    (hplain : ∀ keyword, line.keyword? = some keyword → keyword.isStructural = false) :
    ∃ expression, line.IsLeaf inLoop expression := by
  rcases exists_statementText line with ⟨expression, htext⟩
  refine ⟨expression, fun keyword hkeyword => ⟨hplain keyword hkeyword, fun hjump => ?_⟩, htext⟩
  cases hin : inLoop with
  | true => rfl
  | false =>
    -- Outside of loops a loop jump is a mistake.
    rw [hin] at hloop
    have hall : (outline.blocks.all fun block => block.kind != .loop) = true := by
      rw [List.all_eq_true]
      intro block hblock
      have hnot := List.any_eq_false.1 hloop block hblock
      simpa using hnot
    have hfilter : (line.keyword?.filter fun k => k == .breakStatement || k == .continueStatement) =
        some keyword := by
      rw [hkeyword]
      cases keyword with
      | breakStatement => rfl
      | continueStatement => rfl
      | _ => cases hjump
    have hread : readLine globals outline line =
        .ok (outline.report line.number (.jumpOutsideLoop keyword)) := by
      rw [readLine_statement hplain]
      unfold readStatement
      rw [hopen, hfilter]
      simp only [Bool.false_eq_true, if_false, if_pos hall]
      rfl
    exact (h.not_report hread).elim

/-! ## Heads of blocks -/

variable {parent : Nat} {above : Node}

/-- The head of a block has a condition when it is read without a mistake. -/
theorem Finishes.isConditioned (h : outline.Finishes globals (line :: rest)) {keyword : Keyword}
    (hkeyword : line.keyword? = some keyword) (hopen : outline.top?.isNone = false)
    {what : String} {block : BlockKind} {kind : NodeKind}
    (hread : readLine globals outline line = outline.readConditioned line keyword what block kind) :
    ∃ condition, line.IsConditioned keyword condition := by
  rcases Line.exists_remainder hkeyword with ⟨condition, htext⟩
  refine ⟨condition, hkeyword, htext, fun hempty => ?_⟩
  have hbroken : readLine globals outline line =
      .ok ((outline.report line.number .noCondition).openBlock block none) := by
    rw [hread]
    unfold readConditioned
    rw [hopen, behindKeyword_eq htext, hempty]
    simp only [bind, Except.bind]
    unfold openAttached
    rw [show (if [].isEmpty = true then outline.report line.number .noCondition else outline) =
      outline.report line.number .noCondition from rfl, isBroken_report]
    rfl
  exact h.not_broken hbroken (isBroken_report outline line.number .noCondition)

/-- The head of a loop over an array is well-formed when it is read without a mistake. -/
theorem Finishes.isForEach (h : outline.Finishes globals (line :: rest))
    (hkeyword : line.keyword? = some .forEachLoop) (hopen : outline.top?.isNone = false) :
    ∃ iterator slot collection,
      line.IsForEach outline.declarations iterator slot collection := by
  have hread : readLine globals outline line =
      outline.readForEach line (clean .everything line.text) line.tokens := by
    rw [readLine_eq, hkeyword]
  have hreported : ∀ e, readLine globals outline line =
      .ok ((outline.report line.number e).openBlock .loop none) → False :=
    fun e he => h.not_broken he (isBroken_report outline line.number e)
  unfold readForEach at hread
  rw [hopen] at hread
  simp only [Bool.false_eq_true, if_false] at hread
  split at hread
  · next first name preposition array more htokens =>
    by_cases hin : sameName (String.ofList preposition.text) "in" = true
    · simp only [if_pos hin] at hread
      cases hslot : Program.slotIn? outline.declarations (String.ofList name.text) with
      | none =>
        rw [hslot] at hread
        exact (hreported _ hread).elim
      | some slot =>
        have hmem : array ∈ line.tokens := by simp [htokens]
        rcases Line.exists_fromToken hmem with ⟨collection, htext⟩
        exact ⟨_, slot, collection, hkeyword, first, name, preposition, array, more, htokens, hin,
          rfl, hslot, htext⟩
    · simp only [if_neg hin] at hread
      exact (hreported _ hread).elim
  · exact (hreported _ hread).elim

/-- A branch with a condition is well-formed when it is read without a mistake. -/
theorem Finishes.isElseIf (h : outline.Finishes globals (line :: rest))
    (hkeyword : line.keyword? = some .elseIfBranch) {kind : BlockKind}
    (htop : outline.top? = some kind) (hkind : kind = .conditional ∨ kind = .branched) :
    ∃ condition, line.IsConditioned .elseIfBranch condition := by
  rcases Line.exists_remainder hkeyword with ⟨condition, htext⟩
  refine ⟨condition, hkeyword, htext, fun hempty => ?_⟩
  have hread : readLine globals outline line = .ok (outline.report line.number .noCondition) := by
    rw [readLine_eq, hkeyword]
    simp only
    unfold readBranch
    unfold top? at htop
    cases hblocks : outline.blocks with
    | nil =>
      rw [hblocks] at htop
      cases htop
    | cons block outer =>
      rw [hblocks] at htop
      have hsame : block.kind = kind := Option.some.inj htop
      simp only [hsame, if_pos hkind, behindKeyword_eq htext, hempty]
      rfl
  exact h.not_report hread

/-- Behind the branch without a condition comes no other branch. -/
theorem Finishes.endIf_of_otherwise (h : outline.Finishes globals (line :: rest))
    (hends : line.EndsBlock) {owner branch : Nat} {block : OpenBlock} {outer : List OpenBlock}
    {head : Node} {elseIfs : List Nat} (hfine : outline.isBroken = false)
    (hblocks : outline.blocks = block :: outer) (hkind : block.kind = .branched)
    (howner : block.node = some owner) (hhead : outline.nodes[owner]? = some head)
    (hlinks : head.kind = .conditional elseIfs (some branch)) :
    line.keyword? = some .endIf := by
  rcases hends with ⟨keyword, hkeyword, hends⟩
  have htop : outline.top? = some .branched := by
    unfold top?
    rw [hblocks, ← hkind]
    rfl
  have hfits := h.ends hkeyword hends htop
  have hagain : ({ outline with blocks := { block with kind := .branched } :: outer } :
      Outline).isBroken = false :=
    hfine
  -- Adding a branch reports a mistake, whatever its condition.
  have hadd : ∀ (keyword : Keyword) (condition : Option (List Char)),
      ({ outline with blocks := { block with kind := .branched } :: outer } : Outline).addBranch
        line keyword condition { block with kind := .branched } outer =
      .ok (({ outline with blocks := { block with kind := .branched } :: outer } : Outline).report
        line.number (if keyword = .elseIfBranch then .elseIfAfterElse else .secondElse)) := by
    intro keyword condition
    unfold addBranch
    simp only [howner, hhead, hlinks]
    rfl
  have hread := readLine_eq globals outline line
  rw [hkeyword] at hread
  cases keyword with
  | endIf => exact hkeyword
  | elseIfBranch =>
    rcases h.isElseIf hkeyword htop (.inr rfl) with ⟨condition, _, htext, hne⟩
    have hbroken : outline.readBranch line .elseIfBranch =
        .ok (({ outline with blocks := { block with kind := .branched } :: outer } : Outline).report
          line.number .elseIfAfterElse) := by
      unfold readBranch
      rw [hblocks]
      simp only [if_pos (show block.kind = .conditional ∨ block.kind = .branched from .inr hkind),
        if_true, behindKeyword_eq htext]
      simp only [Functor.map, Except.map, bind, Except.bind]
      rw [if_neg (by simpa using hne), hagain, if_neg Bool.false_ne_true, hadd]
      rfl
    exact (h.not_report (hread.trans hbroken)).elim
  | elseBranch =>
    have hbroken : outline.readBranch line .elseBranch =
        .ok (({ outline with blocks := { block with kind := .branched } :: outer } : Outline).report
          line.number .secondElse) := by
      unfold readBranch
      rw [hblocks]
      simp only [if_pos (show block.kind = .conditional ∨ block.kind = .branched from .inr hkind)]
      rw [if_neg (by decide)]
      simp only [pure, Except.pure, bind, Except.bind]
      rw [if_neg (by simp), hagain, if_neg Bool.false_ne_true, hadd]
      rfl
    exact (h.not_report (hread.trans hbroken)).elim
  | _ => cases hfits

end Outline

/-! ## Blocks and branches -/

section Blocks

open Outline

variable {globals : Globals} {declared : List Variable} {size : Nat}

/-- Lines up to some number of them start with statements and a line that ends a block, when
they finish in an open block. -/
def BlocksRecognised (globals : Globals) (declared : List Variable) (size : Nat) : Prop :=
  ∀ {outline : Outline} {parent : Nat} {above : Node} {inLoop : Bool} {lines : List Line},
    lines.length ≤ size → outline.Under parent above → outline.declarations = declared →
    outline.blocks.any (fun block => block.kind == .loop) = inLoop →
    outline.Finishes globals lines →
    ∃ block closing rest, lines = Block.lines block ++ closing :: rest ∧
      block.Conforms declared inLoop ∧ closing.EndsBlock

/-- Lines up to some number of them start with branches and the end of a conditional, when they
finish where branches may be added and the first of them ends a block. -/
def BranchesRecognised (globals : Globals) (declared : List Variable) (size : Nat) : Prop :=
  ∀ {outline : Outline} {owner : Nat} {head : Node} {elseIfs : List Nat} {outer : List OpenBlock}
    {inLoop : Bool} {line : Line} {lines : List Line},
    lines.length < size → outline.AtBranch owner head elseIfs outer →
    outline.declarations = declared →
    outer.any (fun block => block.kind == .loop) = inLoop → line.EndsBlock →
    outline.Finishes globals (line :: lines) →
    ∃ branches closing rest, line :: lines = Branches.lines branches ++ closing :: rest ∧
      branches.Conforms declared inLoop ∧ closing.keyword? = some .endIf

/-- A loop is recognised behind its head. -/
theorem BlocksRecognised.loop (hblocks : BlocksRecognised globals declared size)
    {outline : Outline} {parent : Nat} {above head : Node} {rest : List Line}
    (hsize : rest.length ≤ size) (h : outline.Under parent above) (hhead : head.kind ≠ .expression)
    (hdeclared : outline.declarations = declared)
    (hfinishes : ((outline.grow parent above [outline.nodes.size] [head]).openBlock .loop
      (some outline.nodes.size)).Finishes globals rest) :
    ∃ body closing behind, rest = Block.lines body ++ closing :: behind ∧
      body.Conforms declared true ∧ closing.keyword? = some .endLoop := by
  have hopened := h.opened .loop hhead
  have hinside : ((outline.grow parent above [outline.nodes.size] [head]).openBlock .loop
      (some outline.nodes.size)).blocks.any (fun block => block.kind == .loop) = true := by
    simp [openBlock]
  rcases hblocks hsize hopened hdeclared hinside hfinishes with
    ⟨body, closing, behind, hlines, hbody, keyword, hkeyword, hends⟩
  refine ⟨body, closing, behind, hlines, hbody, ?_⟩
  rw [hlines] at hfinishes
  have hbehind := hfinishes.behind_lines (Block.read body hbody hopened hdeclared fun _ => hinside)
  have hfits := hbehind.ends hkeyword hends rfl
  rw [hkeyword, beq_iff_eq.1 hfits]

/-- A part of some lines is not longer than they are. -/
theorem length_behind {lines behind rest : List Line} {closing : Line}
    (h : rest = lines ++ closing :: behind) : behind.length < rest.length := by
  rw [h, List.length_append, List.length_cons]
  omega

/-- A loop with a condition is recognised. -/
theorem BlocksRecognised.whileLoop (hblocks : BlocksRecognised globals declared size)
    {outline : Outline} {parent : Nat} {above : Node} {inLoop : Bool} {line : Line}
    {rest : List Line} (hsize : rest.length ≤ size) (h : outline.Under parent above)
    (hdeclared : outline.declarations = declared)
    (hfinishes : outline.Finishes globals (line :: rest))
    (hkeyword : line.keyword? = some .whileLoop) :
    ∃ statement behind, line :: rest = Statement.lines statement ++ behind ∧
      statement.Conforms declared inLoop ∧ behind.length ≤ size := by
  have hread := readLine_eq globals outline line
  rw [hkeyword] at hread
  rcases hfinishes.isConditioned hkeyword h.isNone_top hread with ⟨condition, hline⟩
  have hhead : (newNode .whileLoop line (some condition)).kind ≠ .expression := by
    simp [newNode]
  have hopened := hread.trans
    ((readConditioned_eq h hline "While" .loop .whileLoop).trans (h.openAttached _ _))
  rcases hblocks.loop hsize h hhead hdeclared (hfinishes.behind_line hopened).2 with
    ⟨body, closing, behind, hlines, hbody, hclosing⟩
  have hlength := length_behind hlines
  refine ⟨.whileLoop line condition body closing, behind, ?_, ⟨hline, hbody, hclosing⟩, by omega⟩
  simp [Statement.lines, hlines]

/-- A loop over an array is recognised. -/
theorem BlocksRecognised.forEachLoop (hblocks : BlocksRecognised globals declared size)
    {outline : Outline} {parent : Nat} {above : Node} {inLoop : Bool} {line : Line}
    {rest : List Line} (hsize : rest.length ≤ size) (h : outline.Under parent above)
    (hdeclared : outline.declarations = declared)
    (hfinishes : outline.Finishes globals (line :: rest))
    (hkeyword : line.keyword? = some .forEachLoop) :
    ∃ statement behind, line :: rest = Statement.lines statement ++ behind ∧
      statement.Conforms declared inLoop ∧ behind.length ≤ size := by
  have hread := readLine_eq globals outline line
  rw [hkeyword] at hread
  rcases hfinishes.isForEach hkeyword h.isNone_top with ⟨iterator, slot, collection, hline⟩
  have hhead : (newNode (.forEach iterator slot) line (some collection)).kind ≠ .expression := by
    simp [newNode]
  have hopened := hread.trans ((readForEach_eq h hline).trans (h.openAttached _ _))
  rcases hblocks.loop hsize h hhead hdeclared (hfinishes.behind_line hopened).2 with
    ⟨body, closing, behind, hlines, hbody, hclosing⟩
  rw [hdeclared] at hline
  have hlength := length_behind hlines
  refine ⟨.forEach line iterator slot collection body closing, behind, ?_,
    ⟨hline, hbody, hclosing⟩, by omega⟩
  simp [Statement.lines, hlines]

/-- A conditional is recognised. -/
theorem BlocksRecognised.ifBlock (hblocks : BlocksRecognised globals declared size)
    (hbranches : BranchesRecognised globals declared size) {outline : Outline} {parent : Nat}
    {above : Node} {inLoop : Bool} {line : Line} {rest : List Line} (hsize : rest.length ≤ size)
    (h : outline.Under parent above) (hdeclared : outline.declarations = declared)
    (hloop : outline.blocks.any (fun block => block.kind == .loop) = inLoop)
    (hfinishes : outline.Finishes globals (line :: rest))
    (hkeyword : line.keyword? = some .ifBlock) :
    ∃ statement behind, line :: rest = Statement.lines statement ++ behind ∧
      statement.Conforms declared inLoop ∧ behind.length ≤ size := by
  have hread := readLine_eq globals outline line
  rw [hkeyword] at hread
  rcases hfinishes.isConditioned hkeyword h.isNone_top hread with ⟨condition, hline⟩
  have hhead : (newNode (.conditional [] none) line (some condition)).kind ≠ .expression := by
    simp [newNode]
  have hunder := h.opened .conditional hhead
  have hinside : ((outline.grow parent above [outline.nodes.size]
      [newNode (.conditional [] none) line (some condition)]).openBlock .conditional
        (some outline.nodes.size)).blocks.any (fun block => block.kind == .loop) = inLoop := hloop
  have hopened := hread.trans ((readConditioned_eq h hline "If" .conditional
    (.conditional [] none)).trans (h.openAttached _ _))
  have hrest := (hfinishes.behind_line hopened).2
  rcases hblocks hsize hunder hdeclared hinside hrest with
    ⟨body, branch, behind, hlines, hbody, hbranch⟩
  have hlength := length_behind hlines
  rw [hlines] at hrest
  have hbehind := hrest.behind_lines
    (Block.read body hbody hunder hdeclared fun hin => hinside.trans hin)
  rcases hbranches (by omega) (h.behindBody _ _ _ _) hdeclared hloop hbranch hbehind with
    ⟨branches, closing, last, hlast, hconforms, hclosing⟩
  have hlastLength := length_behind hlast
  rw [List.length_cons] at hlastLength
  refine ⟨.conditional line condition body branches closing, last, ?_,
    ⟨hline, hbody, hconforms, hclosing⟩, by omega⟩
  simp [Statement.lines, hlines, hlast]

/-- A statement is recognised by its first line. -/
theorem BlocksRecognised.statement (hblocks : BlocksRecognised globals declared size)
    (hbranches : BranchesRecognised globals declared size) {outline : Outline} {parent : Nat}
    {above : Node} {inLoop : Bool} {line : Line} {rest : List Line} (hsize : rest.length ≤ size)
    (h : outline.Under parent above) (hdeclared : outline.declarations = declared)
    (hloop : outline.blocks.any (fun block => block.kind == .loop) = inLoop)
    (hfinishes : outline.Finishes globals (line :: rest))
    (hends : ∀ keyword, line.keyword? = some keyword → keyword.endsBlock = false) :
    ∃ statement behind, line :: rest = Statement.lines statement ++ behind ∧
      statement.Conforms declared inLoop ∧ behind.length ≤ size := by
  rcases line.plain_or_structural with hplain | ⟨keyword, hkeyword, hstructural⟩
  · rcases hfinishes.isLeaf h.isNone_top hloop hplain with ⟨expression, hleaf⟩
    exact ⟨.leaf line expression, rest, rfl, hleaf, hsize⟩
  · have hread := readLine_eq globals outline line
    rw [hkeyword] at hread
    cases keyword with
    | header => exact (hfinishes.not_report hread).elim
    | declaration =>
      have hreported : readLine globals outline line =
          .ok (outline.report line.number .declarationInBlock) := by
        rw [hread]
        simp only [readDeclaration, h.isOpen]
        rfl
      exact (hfinishes.not_report hreported).elim
    | beginBlock =>
      have hreported : readLine globals outline line =
          .ok (outline.report line.number .nestedBegin) := by
        rw [hread]
        simp only [readBegin, h.isOpen]
        rfl
      exact (hfinishes.not_report hreported).elim
    | whileLoop => exact hblocks.whileLoop hsize h hdeclared hfinishes hkeyword
    | forEachLoop => exact hblocks.forEachLoop hsize h hdeclared hfinishes hkeyword
    | ifBlock => exact hblocks.ifBlock hbranches hsize h hdeclared hloop hfinishes hkeyword
    | returnStatement | breakStatement | continueStatement => cases hstructural
    | _ =>
      have hnot := hends _ hkeyword
      cases hnot

/-- Statements in a row are recognised when those behind the first of them are. -/
theorem BlocksRecognised.succ (hblocks : BlocksRecognised globals declared size)
    (hbranches : BranchesRecognised globals declared size) :
    BlocksRecognised globals declared (size + 1) := by
  intro outline parent above inLoop lines hsize h hdeclared hloop hfinishes
  cases lines with
  | nil =>
    exact (hfinishes.not_open h).elim
  | cons line rest =>
    rw [List.length_cons] at hsize
    by_cases hends : line.EndsBlock
    · exact ⟨.nil, line, rest, rfl, trivial, hends⟩
    · have hnot : ∀ keyword, line.keyword? = some keyword → keyword.endsBlock = false := by
        intro keyword hkeyword
        rw [Bool.eq_false_iff]
        exact fun hyes => hends ⟨keyword, hkeyword, hyes⟩
      rcases hblocks.statement hbranches (by omega) h hdeclared hloop hfinishes hnot with
        ⟨first, behind, hlines, hfirst, hbehind⟩
      rw [hlines] at hfinishes
      have hrest := hfinishes.behind_lines (Statement.read first hfirst h hdeclared fun hin =>
        hloop.trans hin)
      rcases hblocks hbehind (h.grow _ _) hdeclared hloop hrest with
        ⟨others, closing, last, hlast, hothers, hclosing⟩
      refine ⟨.cons first others, closing, last, ?_, ⟨hfirst, hothers⟩, hclosing⟩
      rw [hlines, hlast]
      simp [Block.lines]

/-- Branches are recognised when the blocks and branches behind the first line are. -/
theorem BranchesRecognised.succ (hbranches : BranchesRecognised globals declared size)
    (hblocks : BlocksRecognised globals declared size) :
    BranchesRecognised globals declared (size + 1) := by
  intro outline owner head elseIfs outer inLoop line lines hsize h hdeclared hloop hends hfinishes
  rcases h.blocks with ⟨block, hall, _, hkind⟩
  have htop : outline.top? = some block.kind := by
    unfold top?
    rw [hall]
    rfl
  rcases hends with ⟨keyword, hkeyword, hends⟩
  have hread := readLine_eq globals outline line
  rw [hkeyword] at hread
  have hfits := hfinishes.ends hkeyword hends htop
  have hbranch : keyword = .elseIfBranch ∨ keyword = .elseBranch ∨ keyword = .endIf := by
    rcases hkind with hkind | hkind
    · rw [hkind] at hfits
      simpa [Keyword.ends, or_assoc] using hfits
    · rw [hkind] at hfits
      simpa [Keyword.ends, or_assoc] using hfits
  rcases hbranch with rfl | rfl | rfl
  · rcases hfinishes.isElseIf hkeyword htop hkind with ⟨condition, hline⟩
    have hadded := hread.trans (h.readElseIf (behindKeyword_eq hline.2.1) hline.2.2)
    have hrest := (hfinishes.behind_line hadded).2
    have hopened := h.opened
      { head with kind := .conditional (elseIfs ++ [outline.nodes.size]) none }
      (newNode .elseIf line (some condition)) (by simp [newNode])
    rcases hblocks (by omega) hopened hdeclared hloop hrest with
      ⟨body, branch, behind, hlines, hbody, hbranch⟩
    have hlength := length_behind hlines
    rw [hlines] at hrest
    have hbehind := hrest.behind_lines
      (Block.read body hbody hopened hdeclared fun hin => hloop.trans hin)
    rw [grow_rehead] at hbehind
    rcases hbranches (by omega) (h.again _ _ _) hdeclared hloop hbranch hbehind with
      ⟨branches, closing, last, hlast, hconforms, hclosing⟩
    refine ⟨.elseIf line condition body branches, closing, last, ?_, ⟨hline, hbody, hconforms⟩,
      hclosing⟩
    simp [Branches.lines, hlines, hlast]
  · have hadded := hread.trans (h.readElse line)
    have hrest := (hfinishes.behind_line hadded).2
    have hopened := h.opened { head with kind := .conditional elseIfs (some outline.nodes.size) }
      (newNode .otherwise line none) (by simp [newNode])
    rcases hblocks (by omega) hopened hdeclared hloop hrest with
      ⟨body, closing, behind, hlines, hbody, hclosing⟩
    rw [hlines] at hrest
    have hbehind := hrest.behind_lines
      (Block.read body hbody hopened hdeclared fun hin => hloop.trans hin)
    rw [grow_rehead] at hbehind
    refine ⟨.otherwise line body, closing, behind, by simp [Branches.lines, hlines],
      ⟨hkeyword, hbody⟩, ?_⟩
    exact hbehind.endIf_of_otherwise hclosing h.unbroken rfl rfl rfl (h.node_rehead _ _ _ _) rfl
  · exact ⟨.none, line, lines, rfl, trivial, hkeyword⟩

/-- Blocks and branches are recognised, however many lines there are. -/
theorem blocks_and_branches_recognised (globals : Globals) (declared : List Variable) (size : Nat) :
    BlocksRecognised globals declared size ∧ BranchesRecognised globals declared size := by
  induction size with
  | zero =>
    refine ⟨?_, ?_⟩
    · intro outline parent above inLoop lines hsize h _ _ hfinishes
      have hnil : lines = [] := List.length_eq_zero_iff.1 (Nat.le_zero.1 hsize)
      subst hnil
      exact (hfinishes.not_open h).elim
    · intro outline owner head elseIfs outer inLoop line lines hsize
      exact absurd hsize (Nat.not_lt_zero _)
  | succ size ih => exact ⟨BlocksRecognised.succ ih.1 ih.2, BranchesRecognised.succ ih.2 ih.1⟩

end Blocks

/-! ## Lines outside of the entry block -/

namespace Outline

variable {globals : Globals} {outline : Outline} {line : Line} {rest : List Line}

/-- A declaration is well-formed when it is read without a mistake. -/
theorem Finishes.isDeclaration (h : outline.Finishes globals (line :: rest))
    (hkeyword : line.keyword? = some .declaration) (htop : outline.top? = none) :
    ∃ fresh, line.IsDeclaration globals outline.declarations fresh := by
  have hread : readLine globals outline line =
      outline.readDeclaration globals line (clean .everything line.text) line.tokens := by
    rw [readLine_eq, hkeyword]
  unfold readDeclaration at hread
  rw [htop] at hread
  cases htoken : line.tokens[1]? with
  | none =>
    rw [htoken] at hread
    exact (h.not_report hread).elim
  | some token =>
    rw [htoken] at hread
    simp only [Option.isSome_none, Bool.false_eq_true, if_false] at hread
    by_cases hname : isIdentifier token.text = true
    · cases hold : Program.slotIn? outline.declarations (String.ofList token.text) with
      | some slot =>
        simp only [hname, hold] at hread
        exact (h.not_report hread).elim
      | none =>
        by_cases hglobal : globals.contains (String.ofList token.text) = true
        · simp only [hname, hold, hglobal] at hread
          exact (h.not_report hread).elim
        · rcases Line.exists_fromToken (List.mem_of_getElem? htoken) with ⟨text, htext⟩
          refine ⟨⟨fold (String.ofList token.text),
            if 2 < line.tokens.length then some text else none, line.number⟩,
            hkeyword, token, htoken,
            hname, hold, Bool.eq_false_iff.2 hglobal, rfl, rfl, ?_⟩
          by_cases hmore : 2 < line.tokens.length
          · rw [if_pos hmore]
            exact ⟨text, if_pos hmore, htext⟩
          · rw [if_neg hmore]
            exact if_neg hmore
    · simp only [Bool.eq_false_iff.2 hname] at hread
      exact (h.not_report hread).elim

/-- Parameters are declared and different when they are read without a mistake. -/
theorem exists_parameters {number : Nat} {tokens : List Token}
    (hfine : (tokens.foldl (readParameter number) outline).isBroken = false)
    (hdistinct : outline.parameters.Nodup) : ∃ parameters : List Nat,
      tokens.map (fun token => Program.slotIn? outline.declarations (String.ofList token.text)) =
        parameters.map some ∧ (outline.parameters ++ parameters).Nodup := by
  induction tokens generalizing outline with
  | nil => exact ⟨[], rfl, by simpa using hdistinct⟩
  | cons token others ih =>
    rw [List.foldl_cons] at hfine
    have hfirst : (readParameter number outline token).isBroken = false := by
      rw [Bool.eq_false_iff]
      intro hbroken
      have hstill := (foldl_readParameter_spec number _ others).1 hbroken
      rw [hfine] at hstill
      cases hstill
    have hreported : ∀ e, readParameter number outline token = outline.report number e → False := by
      intro e he
      rw [he, isBroken_report] at hfirst
      cases hfirst
    cases hslot : Program.slotIn? outline.declarations (String.ofList token.text) with
    | none =>
      refine (hreported (.unknownParameter (String.ofList token.text)) ?_).elim
      unfold readParameter
      simp only [hslot]
    | some slot =>
      by_cases hseen : outline.parameters.contains slot = true
      · refine (hreported (.duplicateParameter (String.ofList token.text)) ?_).elim
        unfold readParameter
        simp only [hslot, if_pos hseen]
      · have hnext : readParameter number outline token =
            { outline with parameters := outline.parameters ++ [slot] } := by
          unfold readParameter
          simp only [hslot, if_neg hseen]
        have hmore : (outline.parameters ++ [slot]).Nodup := by
          rw [List.nodup_append]
          refine ⟨hdistinct, by simp, ?_⟩
          intro a ha b hb heq
          rw [List.mem_singleton] at hb
          subst hb heq
          exact hseen (by simpa using ha)
        rw [hnext] at hfine
        rcases ih hfine hmore with ⟨parameters, hslots, hall⟩
        refine ⟨slot :: parameters, ?_, by simpa using hall⟩
        rw [List.map_cons, List.map_cons, hslot, hslots]

/-- The opening line of the entry block is well-formed when it is read without a mistake. -/
theorem Finishes.isOpening (h : outline.Finishes globals (line :: rest))
    (hkeyword : line.keyword? = some .beginBlock) (htop : outline.top? = none)
    (hroot : outline.root = none) (hnone : outline.parameters = []) :
    ∃ parameters, line.IsOpening outline.declarations parameters := by
  have hread : readLine globals outline line = .ok (outline.readBegin line line.tokens) := by
    rw [readLine_eq, hkeyword]
  have hfine := (h.behind_line hread).1
  unfold readBegin at hfine
  rw [htop, hroot] at hfine
  simp only [Option.isSome_none, Bool.false_eq_true, if_false] at hfine
  by_cases hmany : maxParameters < (line.tokens.drop 1).length
  · rw [if_pos hmany, isBroken_report] at hfine
    exact absurd hfine (by simp [openBlock, report, isBroken])
  · rw [if_neg hmany] at hfine
    have hparameters : ((line.tokens.drop 1).foldl (readParameter line.number) outline).isBroken =
        false := by
      cases hbroken : ((line.tokens.drop 1).foldl (readParameter line.number) outline).isBroken with
      | false => rfl
      | true =>
        rw [hbroken] at hfine
        exact hbroken.symm.trans hfine
    rcases exists_parameters hparameters (by rw [hnone]; exact List.nodup_nil) with
      ⟨parameters, hslots, hdistinct⟩
    rw [hnone] at hdistinct
    refine ⟨parameters, hkeyword, ?_, hdistinct, hslots⟩
    have hlength := congrArg List.length hslots
    rw [List.length_map, List.length_map] at hlength
    omega

/-- Outside of the entry block lines declare variables or open it. -/
theorem Finishes.outside (h : outline.Finishes globals (line :: rest))
    (htop : outline.top? = none) :
    line.keyword? = some .declaration ∨
      line.keyword? = some .beginBlock ∧ outline.root = none := by
  rcases line.plain_or_structural with hplain | ⟨keyword, hkeyword, hstructural⟩
  · have hread : readLine globals outline line =
        .ok (outline.report line.number .statementOutside) := by
      rw [readLine_statement hplain]
      unfold readStatement
      rw [htop]
      rfl
    exact (h.not_report hread).elim
  · have hread := readLine_eq globals outline line
    have hblocks : outline.blocks = [] := by
      unfold top? at htop
      simpa using htop
    rw [hkeyword] at hread
    rw [hkeyword]
    cases keyword with
    | declaration => exact .inl rfl
    | beginBlock =>
      cases hroot : outline.root with
      | none => exact .inr ⟨rfl, rfl⟩
      | some root =>
        have hreported : readLine globals outline line =
            .ok (outline.report line.number .secondBegin) := by
          rw [hread]
          simp only [readBegin, htop, hroot]
          rfl
        exact (h.not_report hreported).elim
    | header => exact (h.not_report hread).elim
    | endBlock => exact (h.not_report (hread.trans (by simp only [readEnd, htop]; rfl))).elim
    | endLoop => exact (h.not_report (hread.trans (by simp only [readLoop, htop]; rfl))).elim
    | endIf => exact (h.not_report (hread.trans (by simp only [readEndIf, htop]; rfl))).elim
    | whileLoop =>
      exact (h.not_report (hread.trans (by simp only [readConditioned, htop]; rfl))).elim
    | ifBlock => exact (h.not_report (hread.trans (by simp only [readConditioned, htop]; rfl))).elim
    | forEachLoop => exact (h.not_report (hread.trans (by simp only [readForEach, htop]; rfl))).elim
    | elseIfBranch =>
      exact (h.not_report (hread.trans (by simp only [readBranch, hblocks]; rfl))).elim
    | elseBranch =>
      exact (h.not_report (hread.trans (by simp only [readBranch, hblocks]; rfl))).elim
    | returnStatement | breakStatement | continueStatement => cases hstructural

/-! ## Whole scripts -/

/-- The lines behind the entry block declare variables. -/
theorem Finishes.declarations {lines : List Line} (h : outline.Finishes globals lines)
    (htop : outline.top? = none) (hroot : outline.root.isSome = true) :
    ∃ entries, lines = entries.map Prod.fst ∧
      DeclarationsConform globals outline.declarations entries := by
  induction lines generalizing outline with
  | nil => exact ⟨[], rfl, trivial⟩
  | cons line rest ih =>
    rcases h.outside htop with hkeyword | ⟨_, hnone⟩
    · rcases h.isDeclaration hkeyword htop with ⟨fresh, hline⟩
      have hrest := (h.behind_line (readLine_declaration htop hline)).2
      rcases ih hrest htop hroot with ⟨entries, hlines, hentries⟩
      exact ⟨(line, fresh) :: entries, by rw [hlines]; rfl, hline, hentries⟩
    · rw [hnone] at hroot
      cases hroot

/-- The lines behind the header declare variables, hold the entry block, and declare more
variables. -/
theorem Finishes.body {lines : List Line} {last : Outline}
    (hread : lines.foldlM (readLine globals) outline = .ok last) (hfine : last.isBroken = false)
    (hclosed : last.blocks = []) (hlast : last.root.isSome = true)
    (hstart : outline.isBroken = false) (htop : outline.top? = none) (hroot : outline.root = none)
    (hnone : outline.parameters = []) :
    ∃ before opening parameters body closing after,
      lines = before.map Prod.fst ++ opening :: Block.lines body ++ closing :: after.map Prod.fst ∧
        DeclarationsConform globals outline.declarations before ∧
        opening.IsOpening (outline.declarations ++ before.map Prod.snd) parameters ∧
        body.Conforms (outline.declarations ++ before.map Prod.snd) false ∧
        closing.keyword? = some .endBlock ∧
        DeclarationsConform globals (outline.declarations ++ before.map Prod.snd) after := by
  have h : outline.Finishes globals lines := ⟨last, hread, hfine, hclosed⟩
  induction lines generalizing outline with
  | nil =>
    cases hread
    rw [hroot] at hlast
    cases hlast
  | cons line rest ih =>
    rcases h.outside htop with hkeyword | ⟨hkeyword, _⟩
    · rcases h.isDeclaration hkeyword htop with ⟨fresh, hline⟩
      have hfirst := readLine_declaration htop hline
      have hrest := (h.behind_line hfirst).2
      rw [List.foldlM_cons, hfirst] at hread
      rcases ih hread hstart htop hroot hnone hrest with
        ⟨before, opening, parameters, body, closing, after, hlines, hbefore, hopening, hbody,
          hclosing, hafter⟩
      simp only [List.append_assoc, List.singleton_append] at hopening hbody hafter
      exact ⟨(line, fresh) :: before, opening, parameters, body, closing, after,
        by rw [hlines]; rfl,
        ⟨hline, hbefore⟩, hopening, hbody, hclosing, hafter⟩
    · rcases h.isOpening hkeyword htop hroot hnone with ⟨parameters, hline⟩
      have hopening : readLine globals outline line = .ok (outline.entered line parameters) :=
        readLine_opening htop hroot hnone hstart hline
      have hrest := (h.behind_line hopening).2
      have hblocks : outline.blocks = [] := by
        unfold top? at htop
        simpa using htop
      have hunder := entered_under hstart line parameters
      have hloop : (outline.entered line parameters).blocks.any
          (fun block => block.kind == .loop) = false := by
        simp [entered, hblocks]
      rcases blocks_and_branches_recognised globals outline.declarations rest.length with
        ⟨hrecognised, _⟩
      rcases hrecognised (Nat.le_refl _) hunder rfl hloop hrest with
        ⟨body, closing, behind, hlines, hbody, keyword, hclosing, hends⟩
      rw [hlines] at hrest
      have hbehind := hrest.behind_lines
        (Block.read body hbody hunder rfl fun hin => by cases hin)
      have hfits := hbehind.ends hclosing hends rfl
      rw [beq_iff_eq.1 hfits] at hclosing
      have hafter := (hbehind.behind_line (readLine_closing hclosing rfl)).2
      rcases hafter.declarations htop rfl with ⟨after, hend, hconforms⟩
      refine ⟨[], line, parameters, body, closing, after, ?_, trivial, ?_, ?_, hclosing, ?_⟩
      · rw [hlines, hend]
        rfl
      · simpa using hline
      · simpa using hbody
      · simpa [closeBlock, grow, entered] using hconforms

end Outline

/-- A script that is read to its end without a mistake, with its entry block closed, has a
derivation tree. -/
theorem Script.recognise {globals : Globals} {lines : List Line} {last : Outline}
    (hread : Outline.readLines globals lines = .ok last) (hfine : last.isBroken = false)
    (hclosed : last.blocks = []) (hroot : last.root.isSome = true) :
    ∃ script : Script, script.Derives globals lines := by
  cases lines with
  | nil =>
    cases hread
    cases hfine
  | cons header rest =>
    have hbody : rest.foldlM (Outline.readLine globals) (Outline.start.readHeader header) =
        .ok last :=
      hread
    have hstart : (Outline.start.readHeader header).isBroken = false := by
      rw [Bool.eq_false_iff]
      intro hbroken
      have hstill := Outline.foldlM_readLine_broken hbroken hbody
      rw [hfine] at hstill
      cases hstill
    have hheader : header.IsHeader := by
      unfold Outline.readHeader at hstart
      by_cases hkeyword : header.keyword? = some .header
      · refine ⟨hkeyword, ?_⟩
        cases hname : header.tokens[1]? with
        | some name => rfl
        | none =>
          rw [if_pos (show Keyword.ofTokens? (tokenize (clean .everything header.text)) =
            some .header from hkeyword)] at hstart
          rw [show (tokenize (clean .everything header.text))[1]? = none from hname] at hstart
          rw [Outline.isBroken_report] at hstart
          cases hstart
      · rw [if_neg (show ¬Keyword.ofTokens? (tokenize (clean .everything header.text)) =
          some .header from hkeyword), Outline.isBroken_report] at hstart
        cases hstart
    rcases @readHeader_eq Outline.start header hheader with ⟨name, interval, hnamed⟩
    rw [hnamed] at hbody hstart
    rcases Outline.Finishes.body hbody hfine hclosed hroot hstart rfl rfl rfl with
      ⟨before, opening, parameters, body, closing, after, hlines, hbefore, hopening, hconforms,
        hclosing, hafter⟩
    refine ⟨⟨header, before, opening, parameters, body, closing, after⟩, ?_, ?_⟩
    · rw [hlines]
      rfl
    · exact ⟨hheader, hbefore, by simpa [Outline.start] using hopening,
        by simpa [Outline.start] using hconforms, hclosing, by simpa [Outline.start] using hafter⟩

/-! ## Parsing -/

section Parsing

open Outline

variable {globals : Globals}

/-- The header opens no block. -/
theorem blocks_readHeader (header : Line) : (start.readHeader header).blocks = [] := by
  unfold readHeader
  by_cases hkeyword : Keyword.ofTokens? (tokenize (clean .everything header.text)) = some .header
  · rw [if_pos hkeyword]
    split
    · rfl
    · rfl
  · rw [if_neg hkeyword]
    rfl

/-- Every sequence of lines can be read. -/
theorem exists_readLines (globals : Globals) (lines : List Line) :
    ∃ last, readLines globals lines = .ok last := by
  cases lines with
  | nil => exact ⟨_, rfl⟩
  | cons header rest =>
    have hsound : (start.readHeader header).Sound := by
      intro _ block hblock
      rw [blocks_readHeader header] at hblock
      cases hblock
    rcases hsound.foldlM_readLine globals rest with ⟨last, hlast, _⟩
    exact ⟨last, hlast⟩

/-- An outline without mistakes at the end has its entry block, and it is closed. -/
theorem of_isBroken_finish {outline : Outline} {number : Nat}
    (h : (outline.finish number).isBroken = false) :
    outline.finish number = outline ∧ outline.isBroken = false ∧ outline.blocks = [] ∧
      outline.root.isSome = true := by
  unfold finish at h ⊢
  cases hfine : outline.isBroken with
  | true =>
    rw [hfine, if_pos rfl] at h
    rw [hfine] at h
    cases h
  | false =>
    rw [hfine, if_neg Bool.false_ne_true] at h
    cases hroot : outline.root with
    | none =>
      rw [hroot, if_pos (show (none : Option Nat).isNone = true from rfl), isBroken_report] at h
      cases h
    | some root =>
      rw [hroot, if_neg (show ¬(some root).isNone = true by simp)] at h
      cases htop : outline.top? with
      | some kind =>
        rw [htop] at h
        simp only [isBroken_report] at h
        cases h
      | none =>
        refine ⟨rfl, rfl, ?_, rfl⟩
        unfold top? at htop
        simpa using htop

/-- At the end there is a tree when there is no mistake. -/
theorem isSome_tree?_finish (outline : Outline) (number : Nat) :
    (outline.finish number).tree?.isSome = !(outline.finish number).isBroken := by
  unfold tree?
  cases hbroken : (outline.finish number).isBroken with
  | true => rfl
  | false =>
    rcases of_isBroken_finish hbroken with ⟨hsame, _, _, hroot⟩
    rcases Option.isSome_iff_exists.1 hroot with ⟨root, hentry⟩
    rw [hsame, hentry]
    rfl

/-- What parsing makes of the lines that were read. -/
theorem Program.parse_of_read {lines : List Line} {last : Outline} (program : Program)
    (hread : readLines globals lines = .ok last) {finished : Outline}
    (hfinished : last.finish ((lines.getLast?.map Line.number).getD 1) = finished) :
    ∃ parsed, program.parse globals lines = .ok parsed ∧
      parsed.tree.isSome = (!finished.isBroken) ∧
      parsed.state = (if parsed.tree.isSome then .parsed else .compileError) ∧
      parsed.diagnostics = program.diagnostics ++ finished.diagnostics := by
  subst hfinished
  have htree := isSome_tree?_finish last ((lines.getLast?.map Line.number).getD 1)
  unfold Program.parse
  rw [hread]
  exact ⟨_, rfl, htree, rfl, rfl⟩

/-- The lines of a program that is parsed are read without a mistake, and its entry block is closed. -/
theorem Program.exists_read_of_parsed {lines : List Line} {program parsed : Program}
    (hparsed : program.parse globals lines = .ok parsed) (hstate : parsed.state = .parsed) :
    parsed.diagnostics = program.diagnostics ∧ ∃ last, readLines globals lines = .ok last ∧
      last.isBroken = false ∧ last.blocks = [] ∧ last.root.isSome = true := by
  rcases exists_readLines globals lines with ⟨last, hread⟩
  rcases Program.parse_of_read program hread rfl with ⟨found, hfound, htree, hfinal, hdiagnostics⟩
  rw [hparsed] at hfound
  cases hfound
  cases hbroken : (last.finish ((lines.getLast?.map Line.number).getD 1)).isBroken with
  | false =>
    have hnone : (last.finish ((lines.getLast?.map Line.number).getD 1)).diagnostics = [] := by
      simpa [isBroken] using hbroken
    exact ⟨by rw [hdiagnostics, hnone, List.append_nil], last, hread, (of_isBroken_finish hbroken).2⟩
  | true =>
    rw [hfinal, htree, hbroken] at hstate
    cases hstate

/-- A program that is parsed comes from lines that conform to the grammar. -/
theorem Program.exists_derives {lines : List Line} {program parsed : Program}
    (hparsed : program.parse globals lines = .ok parsed) (hstate : parsed.state = .parsed) :
    ∃ script : Script, script.Derives globals lines := by
  rcases Program.exists_read_of_parsed hparsed hstate with ⟨-, last, hread, hfine, hclosed, hroot⟩
  exact Script.recognise hread hfine hclosed hroot

/-- A program that is not parsed has no tree. -/
theorem Program.tree_of_not_parsed {lines : List Line} {program parsed : Program}
    (hparsed : program.parse globals lines = .ok parsed) (hstate : parsed.state ≠ .parsed) :
    parsed.tree = none := by
  rcases exists_readLines globals lines with ⟨last, hread⟩
  rcases Program.parse_of_read program hread rfl with ⟨found, hfound, -, hfinal, -⟩
  rw [hparsed] at hfound
  cases hfound
  cases htree : parsed.tree with
  | none => rfl
  | some tree =>
    rw [hfinal, htree] at hstate
    exact absurd rfl hstate

/-- What a derivation says about the parsed program. -/
theorem Script.Derives.parse {lines : List Line} {script : Script}
    (h : script.Derives globals lines) {program parsed : Program}
    (hparsed : program.parse globals lines = .ok parsed) :
    parsed.state = .parsed ∧ parsed.tree = some script.tree ∧ script.IsIn script.tree ∧
      parsed.declarations = script.declaredVariables ∧ parsed.parameters = script.parameters := by
  rcases h with ⟨hlines, hconforms⟩
  rcases Script.parse hconforms program with ⟨found, hfound, hstate, htree, hdeclared, hparameters⟩
  rw [hlines, hparsed] at hfound
  cases hfound
  exact ⟨hstate, htree, script.isIn_tree, hdeclared, hparameters⟩

/-- Parsing never fails.  It leaves a program parsed if and only if its lines conform to the
grammar, with the tree, variables and parameters of every derivation of them; otherwise the
program has no tree, and mistakes are among its diagnostics. -/
theorem Program.parse_iff_derives (globals : Globals) (program : Program) (lines : List Line) :
    ∃ parsed, program.parse globals lines = .ok parsed ∧
      (parsed.state = .parsed ↔ ∃ script : Script, script.Derives globals lines) ∧
      (∀ script : Script, script.Derives globals lines →
        parsed.tree = some script.tree ∧ script.IsIn script.tree ∧
          parsed.declarations = script.declaredVariables ∧ parsed.parameters = script.parameters) ∧
      (parsed.state ≠ .parsed → parsed.state = .compileError ∧ parsed.tree = none ∧
        ∃ found, found ≠ [] ∧ parsed.diagnostics = program.diagnostics ++ found) := by
  rcases exists_readLines globals lines with ⟨last, hread⟩
  generalize hfinished : last.finish ((lines.getLast?.map Line.number).getD 1) = finished
  rcases Program.parse_of_read program hread hfinished with
    ⟨parsed, hparsed, htree, hstate, hdiagnostics⟩
  have hderived : ∀ script : Script, script.Derives globals lines →
      parsed.tree = some script.tree ∧ script.IsIn script.tree ∧
        parsed.declarations = script.declaredVariables ∧ parsed.parameters = script.parameters :=
    fun script hscript => (hscript.parse hparsed).2
  refine ⟨parsed, hparsed, ?_, hderived, ?_⟩
  · constructor
    · intro hgood
      -- Without a mistake the lines are recognised.
      have hfine : finished.isBroken = false := by
        cases hbroken : finished.isBroken with
        | false => rfl
        | true =>
          rw [hstate, htree, hbroken] at hgood
          cases hgood
      rw [← hfinished] at hfine
      rcases of_isBroken_finish hfine with ⟨_, hlast, hclosed, hroot⟩
      exact Script.recognise hread hlast hclosed hroot
    · intro hscript
      rcases hscript with ⟨script, hscript⟩
      exact (hscript.parse hparsed).1
  · intro hbad
    cases hbroken : finished.isBroken with
    | false =>
      rw [hstate, htree, hbroken] at hbad
      exact absurd rfl hbad
    | true =>
      rw [hbroken] at htree
      refine ⟨?_, Option.not_isSome_iff_eq_none.1 (by rw [htree]; simp), finished.diagnostics, ?_,
        hdiagnostics⟩
      · rw [hstate, htree]
        rfl
      · intro hempty
        unfold isBroken at hbroken
        rw [hempty] at hbroken
        cases hbroken

end Parsing
end ScriptMachine
