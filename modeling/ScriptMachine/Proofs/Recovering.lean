import ScriptMachine.Proofs.Naming

/-!
# Damaged lines are reported one by one

A script that is parsed still has all its blocks when the conditions of some of its lines are left
out, and the heads of some loops are malformed: every such line opens its block before it is reported,
or it is a branch, and belongs to a block that is open.  So behind the first of these lines the same
blocks are open as in the script itself, one after the other, and no other line is reported.

Main results:

- {lit}`Source.Line.Damaged`: what is meant by a damaged line, and how it is reported.
- {lit}`Outline.Follows`: a broken outline beside one without mistakes.
- {lit}`Outline.Follows.readLine`: lines that are not damaged are not reported.
- {lit}`Outline.Matches.readLine_damaged`: every damaged line is.
- {lit}`Program.parse_damaged`: the diagnostics of a damaged script.
-/

namespace ScriptMachine

open Source Text

/-! ## Damaged lines -/

namespace Source.Line

/-- A line declares a variable of the given name. -/
def Introduces (line : Line) (name : String) : Prop :=
  line.keyword? = some .declaration ∧
    ∃ token, line.tokens[1]? = some token ∧ sameName (String.ofList token.text) name = true

instance (line : Line) (name : String) : Decidable (line.Introduces name) :=
  decidable_of_iff (line.keyword? = some .declaration ∧
    (line.tokens[1]?.any fun token => sameName (String.ofList token.text) name) = true) <| by
      rw [Introduces, Option.any_eq_true]

/-- A line that opens a block or a branch, behind some other lines, and what is left of it: its
condition is missing, or the head of a loop over an array has too few words, another word in the place
of {lit}`in`, or a variable that is not declared in front of it. -/
inductive Damaged (front : List Line) (line damaged : Line) : StructureError → Prop
  | condition {keyword : Keyword}
      (hkeyword : keyword = .whileLoop ∨ keyword = .ifBlock ∨ keyword = .elseIfBranch)
      (hline : line.keyword? = some keyword) (hdamaged : damaged.keyword? = some keyword)
      (hempty : keyword.remainder? damaged.text = some []) : Damaged front line damaged .noCondition
  | head (hline : line.keyword? = some .forEachLoop) (hdamaged : damaged.keyword? = some .forEachLoop)
      (hmalformed : damaged.tokens.length < 4 ∨ ∃ token, damaged.tokens[2]? = some token ∧
        sameName (String.ofList token.text) "in" = false) : Damaged front line damaged .badForEach
  | iterator {name : String} {first iterator preposition array : Token} {more : List Token}
      (hline : line.keyword? = some .forEachLoop) (hdamaged : damaged.keyword? = some .forEachLoop)
      (htokens : damaged.tokens = first :: iterator :: preposition :: array :: more)
      (hname : String.ofList iterator.text = name)
      (hin : sameName (String.ofList preposition.text) "in" = true)
      (hundeclared : ∀ earlier ∈ front, ¬ earlier.Introduces name) :
      Damaged front line damaged (.unknownIterator name)

/-- A damaged line neither declares a variable nor opens the entry block, and it is no header. -/
theorem Damaged.keyword_ne {front : List Line} {line damaged : Line} {e : StructureError}
    (h : line.Damaged front damaged e) : line.keyword? ≠ some .declaration ∧
      line.keyword? ≠ some .beginBlock ∧ line.keyword? ≠ some .header := by
  cases h with
  | condition hkeyword hline => rcases hkeyword with rfl | rfl | rfl <;> simp [hline]
  | head hline => simp [hline]
  | iterator hline => simp [hline]

end Source.Line

/-- Lines behind some others, what is left of them when some are damaged, and one diagnostic for each
of these. -/
inductive Damages : List Line → List Line → List Line → List Diagnostic → Prop
  | nil (front : List Line) : Damages front [] [] []
  | keep {front rest left : List Line} {found : List Diagnostic} (line : Line)
      (hrest : Damages (front ++ [line]) rest left found) :
      Damages front (line :: rest) (line :: left) found
  | damage {front rest left : List Line} {found : List Diagnostic} {line damaged : Line}
      {e : StructureError} (hnumber : damaged.number = line.number)
      (hdamaged : line.Damaged front damaged e) (hrest : Damages (front ++ [line]) rest left found) :
      Damages front (line :: rest) (damaged :: left) (⟨line.number, .structural e⟩ :: found)

namespace Outline

variable {globals : Globals} {outline behind other later : Outline} {line damaged : Line}
  {rest : List Line}

/-! ## Outlines with the same blocks -/

/-- Two outlines have the same variables, and blocks of the same kinds are open in them. -/
structure Matches (outline other : Outline) : Prop where
  declarations : other.declarations = outline.declarations
  kinds : other.kinds = outline.kinds

/-- A broken outline follows another that has an entry block. -/
structure Follows (outline other : Outline) : Prop extends outline.Matches other where
  broken : other.isBroken = true
  root : outline.root.isSome = true

/-- The innermost block is of the first kind. -/
theorem head?_kinds (outline : Outline) : outline.kinds.head? = outline.top?.map BlockKind.plain := by
  unfold kinds top?
  rw [List.head?_map, Option.map_map]
  rfl

/-- As many blocks are open. -/
theorem Matches.isNone_top (h : outline.Matches other) : other.top?.isNone = outline.top?.isNone := by
  have hhead := congrArg List.head? h.kinds
  rw [head?_kinds, head?_kinds] at hhead
  simpa using congrArg Option.isNone hhead

/-- The innermost blocks are of the same kind. -/
theorem Matches.exists_top (h : outline.Matches other) {kind : BlockKind}
    (htop : outline.top? = some kind) : ∃ top, other.top? = some top ∧ top.plain = kind.plain := by
  have hhead := congrArg List.head? h.kinds
  rw [head?_kinds, head?_kinds, htop] at hhead
  exact Option.map_eq_some_iff.1 hhead

/-- Both are inside of a loop, or none of them is. -/
theorem all_kinds (outline : Outline) : (outline.blocks.all fun block => block.kind != .loop) =
    outline.kinds.all fun kind => kind != .loop := by
  unfold kinds
  rw [List.all_map]
  congr 1
  funext block
  cases hkind : block.kind <;> simp only [Function.comp_apply, hkind, BlockKind.plain] <;> rfl

/-! ## Lines that are read without a mistake -/

/-- The first line is read. -/
theorem Finishes.exists_behind (h : outline.Finishes globals (line :: rest)) :
    ∃ behind, readLine globals outline line = .ok behind ∧ behind.Finishes globals rest := by
  rcases h with ⟨last, hlast, hfine, hclosed⟩
  rw [List.foldlM_cons] at hlast
  rcases exists_of_bind_ok hlast with ⟨behind, hread, hrest⟩
  exact ⟨behind, hread, last, hrest, hfine, hclosed⟩

/-- There is no mistake in front of lines that finish. -/
theorem Finishes.diagnostics_eq_nil {lines : List Line} (h : outline.Finishes globals lines) :
    outline.diagnostics = [] := by
  rcases h with ⟨last, hlast, hfine, -⟩
  cases hbroken : outline.isBroken with
  | false => simpa [isBroken] using hbroken
  | true =>
    rw [foldlM_readLine_broken hbroken hlast] at hfine
    cases hfine

/-- Lines that neither declare a variable nor open the entry block stand inside of it. -/
theorem Finishes.isOpen (h : outline.Finishes globals (line :: rest))
    (hdeclaration : line.keyword? ≠ some .declaration) (hopening : line.keyword? ≠ some .beginBlock) :
    outline.top?.isNone = false := by
  cases htop : outline.top? with
  | some kind => rfl
  | none =>
    rcases h.outside htop with hkeyword | ⟨hkeyword, -⟩
    · exact absurd hkeyword hdeclaration
    · exact absurd hkeyword hopening

/-- A branch stands inside of a conditional, and it has a condition if it needs one. -/
theorem Finishes.isBranch (h : outline.Finishes globals (line :: rest)) {keyword : Keyword}
    (hkeyword : line.keyword? = some keyword)
    (hbranch : keyword = .elseIfBranch ∨ keyword = .elseBranch) :
    (outline.top? = some .conditional ∨ outline.top? = some .branched) ∧
      (keyword = .elseIfBranch → ∃ condition, line.IsConditioned keyword condition) := by
  have hopen : outline.top?.isNone = false := by
    refine h.isOpen ?_ ?_ <;> rw [hkeyword] <;> rcases hbranch with rfl | rfl <;> simp
  rcases Option.isSome_iff_exists.1 (Option.isNone_eq_false_iff.1 hopen) with ⟨kind, htop⟩
  have hends := h.ends hkeyword (by rcases hbranch with rfl | rfl <;> rfl) htop
  have hkind : kind = .conditional ∨ kind = .branched := by
    rcases hbranch with rfl | rfl <;> cases kind <;> simp_all [Keyword.ends]
  constructor
  · rw [htop]
    exact hkind.imp (congrArg some) (congrArg some)
  · rintro rfl
    exact h.isElseIf hkeyword htop hkind

/-- There is an entry block once a block is open. -/
theorem Finishes.rooted (h : outline.Finishes globals (line :: rest))
    (hread : readLine globals outline line = .ok behind)
    (hroot : outline.top?.isNone = false → outline.root.isSome = true) :
    behind.top?.isNone = false → behind.root.isSome = true := by
  have hfine := (h.behind_line hread).1
  by_cases hdeclaration : line.keyword? = some .declaration
  · rcases readDeclaration_cases hread hdeclaration with ⟨e, rfl⟩ | ⟨-, fresh, -, rfl⟩
    · exact hroot
    · exact hroot
  · by_cases hopening : line.keyword? = some .beginBlock
    · intro _
      rw [readLine_eq, hopening] at hread
      cases hread
      rcases readBegin_cases outline line line.tokens with ⟨e, he⟩ | ⟨-, -, hentered⟩
      · rw [he, isBroken_report] at hfine
        cases hfine
      · exact hentered hfine
    · intro _
      rcases readLine_turns hread hdeclaration hopening with ⟨kinds, hturns⟩
      rw [hturns.root]
      exact hroot (h.isOpen hdeclaration hopening)

/-! ## Lines that are not damaged -/

/-- A broken outline opens a block without a node. -/
theorem openAttached_of_broken (hbroken : other.isBroken = true) (kind : BlockKind) (node : Node) :
    other.openAttached kind node = .ok (other.openBlock kind none) := by
  unfold openAttached
  rw [hbroken]
  rfl

/-- A broken outline reads the head of a block with a condition. -/
theorem readConditioned_of_broken (hbroken : other.isBroken = true)
    (hopen : other.top?.isNone = false) {keyword : Keyword} {condition : List Char}
    (hline : line.IsConditioned keyword condition) (what : String) (block : BlockKind)
    (kind : NodeKind) :
    other.readConditioned line keyword what block kind = .ok (other.openBlock block none) := by
  rcases hline with ⟨-, hremainder, hne⟩
  unfold readConditioned
  rw [hopen, behindKeyword_eq hremainder]
  simp only [Bool.false_eq_true, if_false, bind, Except.bind]
  rw [if_neg (by simpa using hne)]
  exact openAttached_of_broken hbroken _ _

/-- A broken outline reads the head of a loop over an array. -/
theorem readForEach_of_broken (hbroken : other.isBroken = true) (hopen : other.top?.isNone = false)
    {iterator : String} {slot : Nat} {collection : List Char}
    (hline : line.IsForEach other.declarations iterator slot collection) :
    other.readForEach line (clean .everything line.text) line.tokens =
      .ok (other.openBlock .loop none) := by
  rcases hline with ⟨-, first, name, preposition, array, more, htokens, hin, -, hslot, htext⟩
  unfold readForEach
  rw [hopen, htokens]
  simp only [Bool.false_eq_true, if_false, hin, if_true, hslot, fromOffset_eq htext]
  exact openAttached_of_broken hbroken _ _

/-- The innermost block is a conditional. -/
theorem exists_block_of_top
    (htop : other.top? = some .conditional ∨ other.top? = some .branched) :
    ∃ block outer, other.blocks = block :: outer ∧
      (block.kind = .conditional ∨ block.kind = .branched) := by
  unfold top? at htop
  cases hblocks : other.blocks with
  | nil =>
    rw [hblocks] at htop
    simp at htop
  | cons block outer =>
    rw [hblocks] at htop
    exact ⟨block, outer, rfl, by simpa using htop⟩

/-- A broken outline reads a branch of a conditional. -/
theorem readBranch_of_broken (hbroken : other.isBroken = true)
    (htop : other.top? = some .conditional ∨ other.top? = some .branched) {keyword : Keyword}
    (hcondition : keyword = .elseIfBranch → ∃ condition, line.IsConditioned keyword condition) :
    ∃ later, other.readBranch line keyword = .ok later ∧ later.diagnostics = other.diagnostics := by
  rcases exists_block_of_top htop with ⟨block, outer, hblocks, hconditional⟩
  unfold readBranch
  rw [hblocks]
  simp only [if_pos hconditional]
  -- The block is marked as branched, and nothing else happens.
  have hbranched : ∀ condition : Option (List Char), condition ≠ some [] →
      ∃ later, (do
        if condition = some [] then return other.report line.number .noCondition
        let outline := { other with blocks := { block with kind := .branched } :: outer }
        if outline.isBroken then return outline
        outline.addBranch line keyword condition { block with kind := .branched } outer) =
        (.ok later : Except Fault Outline) ∧ later.diagnostics = other.diagnostics := by
    intro condition hne
    rw [if_neg hne]
    exact ⟨_, if_pos hbroken, rfl⟩
  by_cases helseIf : keyword = .elseIfBranch
  · rcases hcondition helseIf with ⟨condition, -, hremainder, hne⟩
    rw [if_pos helseIf, behindKeyword_eq hremainder]
    exact hbranched (some condition) (by simpa using hne)
  · rw [if_neg helseIf]
    exact hbranched none (by simp)

/-- A broken outline leaves a statement out. -/
theorem readStatement_of_broken (hbroken : other.isBroken = true) (hopen : other.top?.isNone = false)
    {keyword : Option Keyword}
    (hloop : ∀ k, keyword = some k → k.isLoopJump = true →
      (other.blocks.all fun block => block.kind != .loop) = false) :
    other.readStatement line keyword = .ok other := by
  unfold readStatement
  rw [hopen, hbroken]
  simp only [Bool.false_eq_true, if_false, if_true]
  cases hjump : keyword.filter fun k => k == .breakStatement || k == .continueStatement with
  | none => rfl
  | some k =>
    rcases Option.filter_eq_some_iff.1 hjump with ⟨hkeyword, hk⟩
    have hisJump : k.isLoopJump = true := by
      cases k <;> first | rfl | cases hk
    simp only [hloop k hkeyword hisJump, Bool.false_eq_true, if_false]
    rfl

/-- Lines that turn both outlines alike. -/
theorem Matches.of_turns (h : outline.Matches other) {kinds : List BlockKind}
    (hturns : outline.Turns kinds behind) (hother : other.Turns kinds later) :
    behind.Matches later where
  declarations := by rw [hturns.declarations, hother.declarations, h.declarations]
  kinds := hother.kinds.trans hturns.kinds.symm

/-- A line is read along with an outline that has no mistake. -/
theorem Follows.of_turns (h : outline.Follows other) {kinds : List BlockKind}
    (hturns : outline.Turns kinds behind) (hother : other.Turns kinds later)
    (hdiagnostics : later.diagnostics = other.diagnostics) : behind.Follows later where
  toMatches := h.toMatches.of_turns hturns hother
  broken := by
    unfold isBroken
    rw [hdiagnostics]
    exact h.broken
  root := by
    rw [hturns.root]
    exact h.root

/-- A block is closed along with an outline that has no mistake. -/
theorem Follows.closeBlock (h : outline.Follows other) :
    outline.closeBlock.Follows other.closeBlock := by
  have hother := turns_closeBlock other
  rw [h.kinds] at hother
  exact h.of_turns (turns_closeBlock outline) hother rfl

/-- The innermost block is of a kind that no other kind is alike. -/
theorem Matches.top (h : outline.Matches other) {kind : BlockKind} (htop : outline.top? = some kind)
    (hkind : kind = .entry ∨ kind = .loop) : other.top? = some kind := by
  rcases h.exists_top htop with ⟨top, htop', hplain⟩
  rw [htop']
  rcases hkind with rfl | rfl <;> cases top <;> simp_all [BlockKind.plain]

/-- The innermost block is a conditional in both outlines. -/
theorem Matches.top_conditional (h : outline.Matches other)
    (htop : outline.top? = some .conditional ∨ outline.top? = some .branched) :
    other.top? = some .conditional ∨ other.top? = some .branched := by
  have hplain : ∃ top, other.top? = some top ∧ top.plain = .conditional := by
    rcases htop with htop | htop <;> exact h.exists_top htop
  rcases hplain with ⟨top, htop', hplain⟩
  rw [htop']
  cases top <;> simp_all [BlockKind.plain]

/-- A branch is read along with an outline that has no mistake. -/
theorem Follows.readBranch (h : outline.Follows other) {keyword : Keyword}
    (htop : outline.top? = some .conditional ∨ outline.top? = some .branched)
    (hcondition : keyword = .elseIfBranch → ∃ condition, line.IsConditioned keyword condition)
    (hread : outline.readBranch line keyword = .ok behind) :
    ∃ later, other.readBranch line keyword = .ok later ∧ behind.Follows later ∧
      later.diagnostics = other.diagnostics := by
  rcases readBranch_of_broken h.broken (h.top_conditional htop) hcondition with
    ⟨later, hlater, hdiagnostics⟩
  have hother := turns_readBranch hlater
  rw [h.kinds] at hother
  exact ⟨later, hlater, h.of_turns (turns_readBranch hread) hother hdiagnostics, hdiagnostics⟩

/-- Inside of the entry block, a line that is read without a mistake is not reported by an outline that
follows. -/
theorem Follows.readLine_inside (h : outline.Follows other)
    (hfinishes : outline.Finishes globals (line :: rest))
    (hread : readLine globals outline line = .ok behind)
    (hdeclaration : line.keyword? ≠ some .declaration) (hopening : line.keyword? ≠ some .beginBlock) :
    ∃ later, readLine globals other line = .ok later ∧ behind.Follows later ∧
      later.diagnostics = other.diagnostics := by
  have hopen := hfinishes.isOpen hdeclaration hopening
  have hopen' : other.top?.isNone = false := h.isNone_top.trans hopen
  -- A block is opened in both outlines.
  have hopened : ∀ kind, outline.Turns (kind.plain :: outline.kinds) behind →
      behind.Follows (other.openBlock kind none) := by
    intro kind hturns
    have hother := (Turns.refl other).openBlock kind none
    rw [h.kinds] at hother
    exact h.of_turns hturns hother rfl
  rcases line.plain_or_structural with hplain | ⟨keyword, hkeyword, hstructural⟩
  · rw [readLine_statement hplain] at hread ⊢
    rcases hfinishes.isLeaf hopen rfl hplain with ⟨expression, hleaf, -⟩
    have hloop : ∀ k, line.keyword? = some k → k.isLoopJump = true →
        (other.blocks.all fun block => block.kind != .loop) = false := by
      intro k hk hjump
      have hany := (hleaf k hk).2 hjump
      rw [all_kinds, h.kinds, ← all_kinds, ← Bool.not_eq_true, List.all_eq_true]
      intro hall
      rcases List.any_eq_true.1 hany with ⟨block, hblock, hkind⟩
      have hnot := hall block hblock
      simp_all
    have hother := Turns.refl other
    rw [h.kinds] at hother
    exact ⟨other, readStatement_of_broken h.broken hopen' hloop,
      h.of_turns (turns_readStatement hread) hother rfl, rfl⟩
  · have hline := hread
    rw [readLine_eq, hkeyword] at hline ⊢
    cases keyword with
    | header =>
      cases hline
      exact (hfinishes.not_report hread).elim
    | declaration => exact absurd hkeyword hdeclaration
    | beginBlock => exact absurd hkeyword hopening
    | whileLoop =>
      rcases hfinishes.isConditioned hkeyword hopen (by rw [readLine_eq, hkeyword]) with
        ⟨condition, hcondition⟩
      exact ⟨_, readConditioned_of_broken h.broken hopen' hcondition _ _ _,
        hopened _ (turns_readConditioned hline hopen), rfl⟩
    | ifBlock =>
      rcases hfinishes.isConditioned hkeyword hopen (by rw [readLine_eq, hkeyword]) with
        ⟨condition, hcondition⟩
      exact ⟨_, readConditioned_of_broken h.broken hopen' hcondition _ _ _,
        hopened _ (turns_readConditioned hline hopen), rfl⟩
    | forEachLoop =>
      rcases hfinishes.isForEach hkeyword hopen with ⟨iterator, slot, collection, hforEach⟩
      rw [← h.declarations] at hforEach
      exact ⟨_, readForEach_of_broken h.broken hopen' hforEach,
        hopened .loop (turns_readForEach hline hopen), rfl⟩
    | endBlock =>
      dsimp only [readEnd] at hline ⊢
      split at hline
      · next htop =>
        cases hline
        rw [if_pos (h.top htop (.inl rfl))]
        exact ⟨_, rfl, h.closeBlock, rfl⟩
      · cases hline
        exact (hfinishes.not_report hread).elim
    | endLoop =>
      dsimp only [readLoop] at hline ⊢
      split at hline
      · next htop =>
        cases hline
        rw [if_pos (h.top htop (.inr rfl))]
        exact ⟨_, rfl, h.closeBlock, rfl⟩
      · cases hline
        exact (hfinishes.not_report hread).elim
    | endIf =>
      dsimp only [readEndIf] at hline ⊢
      split at hline
      · next htop =>
        cases hline
        rw [if_pos (h.top_conditional htop)]
        exact ⟨_, rfl, h.closeBlock, rfl⟩
      · cases hline
        exact (hfinishes.not_report hread).elim
    | elseIfBranch =>
      rcases hfinishes.isBranch hkeyword (.inl rfl) with ⟨htop, hcondition⟩
      exact h.readBranch htop hcondition hline
    | elseBranch =>
      rcases hfinishes.isBranch hkeyword (.inr rfl) with ⟨htop, hcondition⟩
      exact h.readBranch htop hcondition hline
    | returnStatement | breakStatement | continueStatement => cases hstructural

/-- A line that is read without a mistake is not reported by an outline that follows. -/
theorem Follows.readLine (h : outline.Follows other) (hfinishes : outline.Finishes globals (line :: rest))
    (hread : readLine globals outline line = .ok behind) :
    ∃ later, readLine globals other line = .ok later ∧ behind.Follows later ∧
      later.diagnostics = other.diagnostics := by
  by_cases hdeclaration : line.keyword? = some .declaration
  · rcases readDeclaration_cases hread hdeclaration with ⟨e, rfl⟩ | ⟨htop, fresh, hline, rfl⟩
    · exact (hfinishes.not_report hread).elim
    · have htop' : other.top? = none := by
        rw [← Option.isNone_iff_eq_none, h.isNone_top, htop]
        rfl
      rw [← h.declarations] at hline
      refine ⟨_, readLine_declaration htop' hline, ⟨⟨?_, h.kinds⟩, h.broken, h.root⟩, rfl⟩
      simp only [h.declarations]
  · by_cases hopening : line.keyword? = some .beginBlock
    · -- There is an entry block already.
      have hbegin := hread
      rw [readLine_eq, hopening] at hbegin
      cases hbegin
      rcases readBegin_cases outline line line.tokens with ⟨e, he⟩ | ⟨hnone, -, -⟩
      · rw [he] at hread
        exact (hfinishes.not_report hread).elim
      · have hroot := h.root
        rw [hnone] at hroot
        cases hroot
    · exact h.readLine_inside hfinishes hread hdeclaration hopening

/-! ## Lines that are damaged -/

/-- All variables are declared by some lines. -/
def DeclaredIn (outline : Outline) (front : List Line) : Prop :=
  ∀ declared ∈ outline.declarations, ∃ earlier ∈ front, earlier.Introduces declared.name

variable {front : List Line}

/-- A name that no line declares has no slot. -/
theorem DeclaredIn.slotIn?_eq_none (h : outline.DeclaredIn front) {name : String}
    (hundeclared : ∀ earlier ∈ front, ¬ earlier.Introduces name) :
    Program.slotIn? outline.declarations name = none := by
  refine List.findIdx?_eq_none_iff.2 fun declared hdeclared => ?_
  rw [← Bool.not_eq_true]
  intro hsame
  rcases h declared hdeclared with ⟨earlier, hearlier, hkeyword, token, htoken, hname⟩
  refine hundeclared earlier hearlier ⟨hkeyword, token, htoken, ?_⟩
  rw [sameName_iff] at hname hsame ⊢
  exact hname.trans hsame

/-- Variables are still declared by lines when one more is read. -/
theorem DeclaredIn.readLine (h : outline.DeclaredIn front)
    (hread : readLine globals outline line = .ok behind) : behind.DeclaredIn (front ++ [line]) := by
  have hmore : ∀ name, (∃ earlier ∈ front, earlier.Introduces name) →
      ∃ earlier ∈ front ++ [line], earlier.Introduces name :=
    fun name ⟨earlier, hearlier, hname⟩ => ⟨earlier, List.mem_append_left _ hearlier, hname⟩
  by_cases hdeclaration : line.keyword? = some .declaration
  · rcases readDeclaration_cases hread hdeclaration with ⟨e, rfl⟩ | ⟨-, fresh, hline, rfl⟩
    · exact fun declared hdeclared => hmore _ (h declared hdeclared)
    · intro declared hdeclared
      rcases List.mem_append.1 hdeclared with hold | hnew
      · exact hmore _ (h declared hold)
      · rcases hline with ⟨hkeyword, token, htoken, -, -, -, hname, -⟩
        refine ⟨line, by simp, hkeyword, token, htoken, ?_⟩
        rw [List.mem_singleton.1 hnew, hname, sameName_iff, fold_fold]
  · have hsame : behind.declarations = outline.declarations := by
      by_cases hopening : line.keyword? = some .beginBlock
      · rw [readLine_eq, hopening] at hread
        cases hread
        rcases readBegin_cases outline line line.tokens with
          ⟨e, he⟩ | ⟨-, ⟨between, hadds, hdeclarations, -⟩, -⟩
        · rw [he]
          rfl
        · exact hdeclarations.trans hadds.declarations
      · rcases readLine_turns hread hdeclaration hopening with ⟨kinds, hturns⟩
        exact hturns.declarations
    intro declared hdeclared
    rw [hsame] at hdeclared
    exact hmore _ (h declared hdeclared)

/-- The head of a block without its condition is reported, and opens the block. -/
theorem readConditioned_of_empty (hopen : other.top?.isNone = false) {keyword : Keyword}
    (hempty : keyword.remainder? line.text = some []) (what : String) (block : BlockKind)
    (kind : NodeKind) : other.readConditioned line keyword what block kind =
      .ok ((other.report line.number .noCondition).openBlock block none) := by
  unfold readConditioned
  rw [hopen, behindKeyword_eq hempty]
  exact openAttached_of_broken (isBroken_report other line.number .noCondition) block _

/-- A branch without its condition is reported. -/
theorem readBranch_of_empty (htop : other.top? = some .conditional ∨ other.top? = some .branched)
    (hempty : Keyword.elseIfBranch.remainder? line.text = some []) :
    other.readBranch line .elseIfBranch = .ok (other.report line.number .noCondition) := by
  rcases exists_block_of_top htop with ⟨block, outer, hblocks, hconditional⟩
  unfold readBranch
  rw [hblocks, behindKeyword_eq hempty]
  simp only [if_pos hconditional]
  rfl

/-- A malformed head of a loop over an array is reported, and opens the loop. -/
theorem readForEach_of_malformed (hopen : other.top?.isNone = false)
    (hmalformed : line.tokens.length < 4 ∨ ∃ token, line.tokens[2]? = some token ∧
      sameName (String.ofList token.text) "in" = false) :
    other.readForEach line (clean .everything line.text) line.tokens =
      .ok ((other.report line.number .badForEach).openBlock .loop none) := by
  unfold readForEach
  rw [hopen]
  simp only [Bool.false_eq_true, if_false]
  split
  · next first name preposition array more htokens =>
    have hnot : sameName (String.ofList preposition.text) "in" = false := by
      rw [htokens] at hmalformed
      rcases hmalformed with hfew | ⟨token, htoken, hnot⟩
      · simp only [List.length_cons] at hfew
        omega
      · cases htoken
        exact hnot
    simp only [hnot, Bool.false_eq_true, if_false]
    rfl
  · rfl

/-- The head of a loop with a variable that is not declared is reported, and opens the loop. -/
theorem readForEach_of_unknown (hopen : other.top?.isNone = false)
    {first name preposition array : Token} {more : List Token}
    (htokens : line.tokens = first :: name :: preposition :: array :: more)
    (hin : sameName (String.ofList preposition.text) "in" = true)
    (hunknown : Program.slotIn? other.declarations (String.ofList name.text) = none) :
    other.readForEach line (clean .everything line.text) line.tokens =
      .ok ((other.report line.number (.unknownIterator (String.ofList name.text))).openBlock .loop
        none) := by
  unfold readForEach
  rw [hopen, htokens]
  simp only [Bool.false_eq_true, if_false, hin, if_true, hunknown]
  rfl

/-- A damaged line is reported, with the mistake that it is damaged by, and behind it the same blocks
are open as behind the line that it is left from. -/
theorem Matches.readLine_damaged (h : outline.Matches other)
    (hfinishes : outline.Finishes globals (line :: rest))
    (hread : readLine globals outline line = .ok behind)
    (hroot : outline.top?.isNone = false → outline.root.isSome = true)
    (hfront : outline.DeclaredIn front) (hnumber : damaged.number = line.number) {e : StructureError}
    (hdamaged : line.Damaged front damaged e) :
    ∃ later, Outline.readLine globals other damaged = .ok later ∧ behind.Follows later ∧
      later.diagnostics = other.diagnostics ++ [⟨line.number, .structural e⟩] := by
  have hopen := hfinishes.isOpen hdamaged.keyword_ne.1 hdamaged.keyword_ne.2.1
  have hopen' : other.top?.isNone = false := h.isNone_top.trans hopen
  -- The block is opened in both outlines.
  have hopened : ∀ kind, outline.Turns (kind.plain :: outline.kinds) behind →
      behind.Follows ((other.report damaged.number e).openBlock kind none) := by
    intro kind hturns
    have hother := (turns_report other damaged.number e).openBlock kind none
    rw [h.kinds] at hother
    exact ⟨h.of_turns hturns hother, isBroken_report other damaged.number e,
      by rw [hturns.root]; exact hroot hopen⟩
  have hreported : ∀ kind, ((other.report damaged.number e).openBlock kind none).diagnostics =
      other.diagnostics ++ [⟨line.number, .structural e⟩] := by
    intro kind
    rw [← hnumber]
    rfl
  rw [readLine_eq] at hread ⊢
  cases hdamaged with
  | @condition keyword hkeyword hline hdamaged hempty =>
    rw [hline] at hread
    rw [hdamaged]
    rcases hkeyword with rfl | rfl | rfl
    · exact ⟨_, readConditioned_of_empty hopen' hempty _ _ _,
        hopened .loop (turns_readConditioned hread hopen), hreported _⟩
    · exact ⟨_, readConditioned_of_empty hopen' hempty _ _ _,
        hopened .conditional (turns_readConditioned hread hopen), hreported _⟩
    · have hturns := turns_readBranch hread
      have hother := turns_report other damaged.number .noCondition
      rw [h.kinds] at hother
      refine ⟨_, readBranch_of_empty (h.top_conditional (hfinishes.isBranch hline (.inl rfl)).1) hempty,
        ⟨h.of_turns hturns hother, isBroken_report _ _ _, by rw [hturns.root]; exact hroot hopen⟩, ?_⟩
      rw [← hnumber]
      rfl
  | head hline hdamaged hmalformed =>
    rw [hline] at hread
    rw [hdamaged]
    exact ⟨_, readForEach_of_malformed hopen' hmalformed,
      hopened .loop (turns_readForEach hread hopen), hreported _⟩
  | iterator hline hdamaged htokens hname hin hundeclared =>
    subst hname
    rw [hline] at hread
    rw [hdamaged]
    have hunknown := hfront.slotIn?_eq_none hundeclared
    rw [← h.declarations] at hunknown
    exact ⟨_, readForEach_of_unknown hopen' htokens hin hunknown,
      hopened .loop (turns_readForEach hread hopen), hreported _⟩

/-! ## Lines one after the other -/

/-- Behind a damaged line, every damaged line is reported, and no other. -/
theorem Follows.foldlM_readLine (h : outline.Follows other) {lines left : List Line}
    {found : List Diagnostic} (hdamages : Damages front lines left found)
    (hfinishes : outline.Finishes globals lines) (hfront : outline.DeclaredIn front) :
    ∃ last, left.foldlM (Outline.readLine globals) other = .ok last ∧
      last.diagnostics = other.diagnostics ++ found := by
  induction hdamages generalizing outline other with
  | nil front => exact ⟨other, rfl, (List.append_nil _).symm⟩
  | @keep front rest left found line hrest ih =>
    rcases hfinishes.exists_behind with ⟨behind, hread, hbehind⟩
    rcases h.readLine hfinishes hread with ⟨later, hlater, hfollows, hdiagnostics⟩
    rcases ih hfollows hbehind (hfront.readLine hread) with ⟨last, hlast, hall⟩
    refine ⟨last, ?_, by rw [hall, hdiagnostics]⟩
    rw [List.foldlM_cons, hlater]
    exact hlast
  | @damage front rest left found line damaged e hnumber hdamaged hrest ih =>
    rcases hfinishes.exists_behind with ⟨behind, hread, hbehind⟩
    rcases h.readLine_damaged hfinishes hread (fun _ => h.root) hfront hnumber hdamaged with
      ⟨later, hlater, hfollows, hdiagnostics⟩
    rcases ih hfollows hbehind (hfront.readLine hread) with ⟨last, hlast, hall⟩
    refine ⟨last, ?_, by rw [hall, hdiagnostics, List.append_assoc]; rfl⟩
    rw [List.foldlM_cons, hlater]
    exact hlast

/-- Every damaged line is reported, and no other.  Up to the first of them nothing is different. -/
theorem Finishes.foldlM_readLine_damaged {lines left : List Line} {found : List Diagnostic}
    (hdamages : Damages front lines left found) (hfinishes : outline.Finishes globals lines)
    (hroot : outline.top?.isNone = false → outline.root.isSome = true)
    (hfront : outline.DeclaredIn front) :
    (found = [] ∧ left = lines) ∨ found ≠ [] ∧
      ∃ last, left.foldlM (Outline.readLine globals) outline = .ok last ∧
        last.diagnostics = found := by
  induction hdamages generalizing outline with
  | nil front => exact .inl ⟨rfl, rfl⟩
  | @keep front rest left found line hrest ih =>
    rcases hfinishes.exists_behind with ⟨behind, hread, hbehind⟩
    rcases ih hbehind (hfinishes.rooted hread hroot) (hfront.readLine hread) with
      ⟨hnone, rfl⟩ | ⟨hsome, last, hlast, hall⟩
    · exact .inl ⟨hnone, rfl⟩
    · refine .inr ⟨hsome, last, ?_, hall⟩
      rw [List.foldlM_cons, hread]
      exact hlast
  | @damage front rest left found line damaged e hnumber hdamaged hrest ih =>
    rcases hfinishes.exists_behind with ⟨behind, hread, hbehind⟩
    have hsame : outline.Matches outline := ⟨rfl, rfl⟩
    rcases hsame.readLine_damaged hfinishes hread hroot hfront hnumber hdamaged with
      ⟨later, hlater, hfollows, hdiagnostics⟩
    rcases hfollows.foldlM_readLine hrest hbehind (hfront.readLine hread) with ⟨last, hlast, hall⟩
    refine .inr ⟨by simp, last, ?_, by rw [hall, hdiagnostics, hfinishes.diagnostics_eq_nil]; rfl⟩
    rw [List.foldlM_cons, hlater]
    exact hlast

end Outline

/-! ## Programs -/

namespace Program

/-- When some of the lines of a script that is parsed are damaged, each of them has one diagnostic, in the
order of the lines, and there are no others. -/
theorem parse_damaged {globals : Globals} {program parsed : Program} {lines left : List Line}
    {found : List Diagnostic} (hparsed : program.parse globals lines = .ok parsed)
    (hstate : parsed.state = .parsed) (hdamages : Damages [] lines left found) :
    ∃ broken, program.parse globals left = .ok broken ∧
      broken.diagnostics = program.diagnostics ++ found ∧
      broken.state = if found.isEmpty then .parsed else .compileError := by
  rcases exists_read_of_parsed hparsed hstate with ⟨hnone, last, hread, hfine, hclosed, -⟩
  cases hdamages with
  | nil =>
    cases hread
    cases hfine
  | damage hnumber hdamaged hrest =>
    -- The header is not among the lines that can be damaged.
    have hbroken := (Outline.readHeader_spec _).2.2.2 hdamaged.keyword_ne.2.2
    rw [Outline.foldlM_readLine_broken hbroken hread] at hfine
    cases hfine
  | @keep _ rest left _ header hrest =>
    have hread : rest.foldlM (Outline.readLine globals) (Outline.start.readHeader header) = .ok last :=
      hread
    have hfinishes : (Outline.start.readHeader header).Finishes globals rest :=
      ⟨last, hread, hfine, hclosed⟩
    have hroot : (Outline.start.readHeader header).top?.isNone = false →
        (Outline.start.readHeader header).root.isSome = true := by
      unfold Outline.top?
      rw [blocks_readHeader]
      rintro ⟨⟩
    have hfront : (Outline.start.readHeader header).DeclaredIn ([] ++ [header]) := by
      intro declared hdeclared
      rw [(Outline.readHeader_spec header).1] at hdeclared
      cases hdeclared
    rcases hfinishes.foldlM_readLine_damaged hrest hroot hfront with
      ⟨rfl, rfl⟩ | ⟨hsome, last', hread', hfound⟩
    · exact ⟨parsed, hparsed, by rw [hnone, List.append_nil], hstate⟩
    · have hbroken : last'.isBroken = true := by
        unfold Outline.isBroken
        rw [hfound]
        simpa using hsome
      have hfinish : last'.finish (((header :: left).getLast?.map Line.number).getD 1) = last' := by
        unfold Outline.finish
        rw [if_pos hbroken]
      have hread' : Outline.readLines globals (header :: left) = .ok last' := hread'
      rcases parse_of_read program hread' hfinish with ⟨broken, hparse, htree, hfinal, hdiagnostics⟩
      refine ⟨broken, hparse, by rw [hdiagnostics, hfound], ?_⟩
      rw [hfinal, htree, hbroken, List.isEmpty_eq_false_iff.2 hsome]
      rfl

/-- Lines of texts, counted from one. -/
def numbered (texts : List String) : List Line :=
  texts.zipIdx 1 |>.map fun (text, number) => ⟨number, text.toList⟩

/-- A script with loops and a conditional. -/
def undamaged : List Line :=
  numbered ["scriptname A", "variable x", "begin", "while x", "foreach x in x", "if x", "elseif x",
    "x = 1", "endif", "loop", "loop", "foreach x in x", "loop", "end"]

/-- The script with damaged lines: conditions are missing, a loop has no array, and another loop has a
variable that is not declared. -/
def battered : List Line :=
  numbered ["scriptname A", "variable x", "begin", "while", "foreach x", "if", "elseif", "x = 1",
    "endif", "loop", "loop", "foreach y in x", "loop", "end"]

/-- The mistakes in the damaged lines. -/
def damages : List Diagnostic :=
  [⟨4, .structural .noCondition⟩, ⟨5, .structural .badForEach⟩, ⟨6, .structural .noCondition⟩,
    ⟨7, .structural .noCondition⟩, ⟨12, .structural (.unknownIterator "y")⟩]

/-- Whether the script is parsed. -/
def isUndamaged : Bool :=
  match (fresh 1 none).parse .empty undamaged with
  | .ok parsed => decide (parsed.state = .parsed)
  | .error _ => false

/-- The script is parsed, and just its damaged lines are reported. -/
theorem parse_damaged_battered : ∃ parsed broken,
    (fresh 1 none).parse .empty undamaged = .ok parsed ∧ parsed.state = .parsed ∧
      Damages [] undamaged battered damages ∧
      (fresh 1 none).parse .empty battered = .ok broken ∧ broken.diagnostics = damages := by
  have hdamages : Damages [] undamaged battered damages := by
    refine .keep _ <| .keep _ <| .keep _ <| .damage rfl ?_ <| .damage rfl ?_ <| .damage rfl ?_ <|
      .damage rfl ?_ <| .keep _ <| .keep _ <| .keep _ <| .keep _ <| .damage rfl ?_ <| .keep _ <|
      .keep _ <| .nil _
    · exact .condition (.inl rfl) (by decide +kernel) (by decide +kernel) (by decide +kernel)
    · exact .head (by decide +kernel) (by decide +kernel) (.inl (by decide +kernel))
    · exact .condition (.inr (.inl rfl)) (by decide +kernel) (by decide +kernel) (by decide +kernel)
    · exact .condition (.inr (.inr rfl)) (by decide +kernel) (by decide +kernel) (by decide +kernel)
    · have htokens : (⟨12, "foreach y in x".toList⟩ : Line).tokens =
          [⟨"foreach".toList, 0⟩, ⟨"y".toList, 8⟩, ⟨"in".toList, 10⟩, ⟨"x".toList, 13⟩] := by
        decide +kernel
      exact .iterator (by decide +kernel) (by decide +kernel) htokens (by decide +kernel)
        (by decide +kernel) (by decide +kernel)
  have hundamaged : isUndamaged = true := by decide +kernel
  unfold isUndamaged at hundamaged
  split at hundamaged
  case h_1 parsed hparsed =>
    have hstate := of_decide_eq_true hundamaged
    rcases parse_damaged hparsed hstate hdamages with ⟨broken, hbroken, hdiagnostics, -⟩
    exact ⟨parsed, broken, hparsed, hstate, hdamages, hbroken, hdiagnostics⟩
  case h_2 => cases hundamaged

end Program
end ScriptMachine
