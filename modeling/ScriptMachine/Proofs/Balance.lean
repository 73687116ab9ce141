import ScriptMachine.Proofs.Recognition
import ScriptMachine.Proofs.Stacks

/-!
# The two stacks are balanced

Up to the first mistake the stack of nodes is what the open blocks make of it: each block put
its node there, and a conditional its open branch above that.  After a mistake no line looks at
the stack of nodes any more.  So a reader with two stacks reads what the outline reads.  It
never misses a node, and of a script without mistakes only the bottom is left in the end.

Main results:

- {lit}`StackReader.Mirrors`: the stacks hold what the open blocks hold.
- {lit}`StackReader.Mirrors.readLine`: a line keeps this.
- {lit}`StackReader.parse_eq`: two stacks make the same program of the lines.
-/

namespace ScriptMachine

open Source Text

/-! ## What the stacks hold -/

/-- The nodes of an open block on the stack, the branch above the conditional. -/
def OpenBlock.code (block : OpenBlock) : List (Option Nat) :=
  if block.kind = .branched then [block.branch, block.node] else [block.node]

/-- A conditional has an open branch if it has branches at all; other blocks have none. -/
def OpenBlock.FitsKind (block : OpenBlock) : Prop :=
  block.branch.isSome = true ↔ block.kind = .branched

/-- What lies topmost of a block is where its statements go. -/
theorem OpenBlock.FitsKind.head_code {block : OpenBlock} (h : block.FitsKind) :
    ∃ rest, block.code = block.target :: rest := by
  unfold OpenBlock.code OpenBlock.target
  by_cases hkind : block.kind = .branched
  · rcases Option.isSome_iff_exists.1 (h.2 hkind) with ⟨branch, hbranch⟩
    rw [if_pos hkind, hbranch]
    exact ⟨_, rfl⟩
  · have hnone : block.branch = none :=
      Option.not_isSome_iff_eq_none.1 fun hsome => hkind (h.1 hsome)
    rw [if_neg hkind, hnone]
    exact ⟨[], rfl⟩

/-- The stack of nodes that open blocks amount to. -/
def Outline.code (outline : Outline) : List (Option Nat) :=
  outline.blocks.flatMap OpenBlock.code ++ [none]

namespace StackReader

/-- The stacks hold what an outline holds.  Once there is a mistake, nothing is known of the
stack of nodes. -/
structure Mirrors (reader : StackReader) (outline : Outline) : Prop where
  known : reader.known = { outline with blocks := [] }
  kinds : reader.kinds = outline.blocks.map OpenBlock.kind
  code : outline.isBroken = false → reader.code = outline.code
  fits : outline.isBroken = false → ∀ block ∈ outline.blocks, block.FitsKind

/-- When an outline is read, the stacks are read to hold the same. -/
def Follows (read : Except Fault StackReader) (result : Except Fault Outline) : Prop :=
  ∀ outline, result = .ok outline → ∃ reader, read = .ok reader ∧ reader.Mirrors outline

section Steps

variable {reader : StackReader} {outline : Outline}

/-- The stacks follow with what they hold. -/
theorem Mirrors.follows (h : reader.Mirrors outline) : Follows (.ok reader) (.ok outline) := by
  intro result hresult
  cases hresult
  exact ⟨reader, rfl, h⟩

/-- Nothing has to follow a fault. -/
theorem follows_error (read : Except Fault StackReader) (fault : Fault) :
    Follows read (.error fault) := by
  intro result hresult
  cases hresult

/-- What is left to be shown of a broken outline. -/
theorem Mirrors.of_broken (hbroken : outline.isBroken = true)
    (hknown : reader.known = { outline with blocks := [] })
    (hkinds : reader.kinds = outline.blocks.map OpenBlock.kind) : reader.Mirrors outline := by
  refine ⟨hknown, hkinds, fun hfine => ?_, fun hfine => ?_⟩
  · rw [hbroken] at hfine
    cases hfine
  · rw [hbroken] at hfine
    cases hfine

/-- The same mistakes are known. -/
theorem Mirrors.isBroken (h : reader.Mirrors outline) :
    reader.known.isBroken = outline.isBroken := by
  rw [h.known]
  rfl

/-- The innermost blocks are of one kind. -/
theorem Mirrors.top (h : reader.Mirrors outline) : reader.top? = outline.top? := by
  unfold StackReader.top? Outline.top?
  rw [h.kinds, List.head?_map]

/-- Statements go under the same node. -/
theorem Mirrors.target (h : reader.Mirrors outline) (hfine : outline.isBroken = false) :
    reader.target = outline.blocks.head?.bind OpenBlock.target := by
  unfold StackReader.target
  rw [h.code hfine]
  unfold Outline.code
  cases hblocks : outline.blocks with
  | nil => rfl
  | cons block outer =>
    rcases (h.fits hfine block (by rw [hblocks]; exact List.mem_cons_self)).head_code with
      ⟨rest, hcode⟩
    rw [List.flatMap_cons, hcode]
    rfl

/-- A mistake is noted. -/
theorem Mirrors.report (h : reader.Mirrors outline) (number : Nat) (e : StructureError) :
    (reader.report number e).Mirrors (outline.report number e) := by
  refine .of_broken (Outline.isBroken_report _ _ _) ?_ h.kinds
  show reader.known.report number e = _
  rw [h.known]
  rfl

/-- A mistake is noted with a block that gets no nodes. -/
theorem Mirrors.report_openBlock (h : reader.Mirrors outline) (number : Nat) (e : StructureError)
    (kind : BlockKind) :
    ((reader.openBlock kind).report number e).Mirrors
      ((outline.report number e).openBlock kind none) := by
  refine .of_broken (Outline.isBroken_report _ _ _) (h.report number e).known ?_
  show kind :: reader.kinds = _
  rw [h.kinds]
  rfl

/-- A block that is opened in a broken script gets no nodes. -/
theorem Mirrors.openBlock_broken (h : reader.Mirrors outline) (hbroken : outline.isBroken = true)
    (kind : BlockKind) :
    (reader.openBlock kind).Mirrors (outline.openBlock kind none) := by
  refine .of_broken hbroken h.known ?_
  show kind :: reader.kinds = _
  rw [h.kinds]
  rfl

/-- A block is opened with its node. -/
theorem Mirrors.openBlock (h : reader.Mirrors outline) {kind : BlockKind}
    (hkind : kind ≠ .branched) (id : Nat) :
    ((reader.openBlock kind).enter id).Mirrors (outline.openBlock kind (some id)) where
  known := h.known
  kinds := by
    show kind :: reader.kinds = _
    rw [h.kinds]
    rfl
  code := fun hfine => by
    show some id :: reader.code = (OpenBlock.code ⟨kind, some id, none⟩ ++ _) ++ [none]
    rw [h.code hfine]
    unfold OpenBlock.code
    rw [if_neg hkind]
    rfl
  fits := fun hfine block hblock => by
    rcases List.mem_cons.1 hblock with rfl | hblock
    · exact ⟨fun hsome => Bool.noConfusion hsome, fun hsame => absurd hsame hkind⟩
    · exact h.fits hfine block hblock

/-- A block is closed with its nodes. -/
theorem Mirrors.closeBlock (h : reader.Mirrors outline) {kind : BlockKind}
    (htop : outline.top? = some kind) {nodes : Nat}
    (hnodes : nodes = if kind = .branched then 2 else 1) :
    (reader.closeBlock nodes).Mirrors outline.closeBlock := by
  cases hblocks : outline.blocks with
  | nil =>
    unfold Outline.top? at htop
    rw [hblocks] at htop
    cases htop
  | cons block outer =>
    have hkind : block.kind = kind := by
      unfold Outline.top? at htop
      rw [hblocks] at htop
      exact Option.some.inj htop
    refine ⟨h.known, ?_, fun hfine => ?_, fun hfine other hother => ?_⟩
    · show reader.kinds.tail = outline.blocks.tail.map OpenBlock.kind
      rw [h.kinds, List.map_tail]
    · have hlength : block.code.length = nodes := by
        unfold OpenBlock.code
        rw [hnodes, ← hkind]
        split
        · rfl
        · rfl
      show reader.code.drop nodes = outline.blocks.tail.flatMap OpenBlock.code ++ [none]
      have hcode := h.code hfine
      unfold Outline.code at hcode
      rw [hcode, hblocks, List.flatMap_cons, List.append_assoc, ← hlength, List.drop_left]
      rfl
    · exact h.fits hfine other (List.mem_of_mem_tail hother)

/-- Other nodes are made for the same blocks. -/
theorem Mirrors.withNodes (h : reader.Mirrors outline) (nodes : Array Node) :
    ({ reader with known := { reader.known with nodes } } : StackReader).Mirrors
      { outline with nodes } where
  known := by rw [h.known]
  kinds := h.kinds
  code := h.code
  fits := h.fits

/-- The entry block is another one. -/
theorem Mirrors.withRoot (h : reader.Mirrors outline) (root : Option Nat) :
    ({ reader with known := { reader.known with root } } : StackReader).Mirrors
      { outline with root } where
  known := by rw [h.known]
  kinds := h.kinds
  code := h.code
  fits := h.fits

/-! ## Nodes -/

/-- Nodes are attached to the same places. -/
theorem Mirrors.attach (h : reader.Mirrors outline) (hfine : outline.isBroken = false)
    {node : Node} {id : Nat} {grown : Outline} (hattach : outline.attach node = .ok (id, grown)) :
    ∃ reader', reader.attach node = .ok (id, reader') ∧ reader'.Mirrors grown := by
  have hnodes : reader.known.nodes = outline.nodes := by rw [h.known]
  unfold Outline.attach at hattach
  unfold StackReader.attach
  rw [h.target hfine]
  cases htarget : outline.blocks.head?.bind OpenBlock.target with
  | none =>
    rw [htarget] at hattach
    cases hattach
  | some parent =>
    rw [htarget] at hattach
    simp only [hnodes] at hattach ⊢
    cases habove : outline.nodes[parent]? with
    | none =>
      rw [habove] at hattach
      cases hattach
    | some above =>
      rw [habove] at hattach
      simp only at hattach ⊢
      by_cases hleaf : above.kind = .expression
      · rw [if_pos hleaf] at hattach
        cases hattach
      · rw [if_neg hleaf] at hattach ⊢
        cases hattach
        exact ⟨_, rfl, h.withNodes _⟩

/-- A block is opened on a node that is attached. -/
theorem Mirrors.openAttached (h : reader.Mirrors outline) {kind : BlockKind}
    (hkind : kind ≠ .branched) (node : Node) :
    Follows ((reader.openBlock kind).enterAttached node) (outline.openAttached kind node) := by
  unfold StackReader.enterAttached Outline.openAttached
  show Follows (if reader.known.isBroken = true then _ else _) _
  rw [h.isBroken]
  cases hfine : outline.isBroken with
  | true => exact (h.openBlock_broken hfine kind).follows
  | false =>
    simp only [Bool.false_eq_true, if_false]
    rw [attach_openBlock]
    cases hattach : outline.attach node with
    | error fault => exact follows_error _ fault
    | ok made =>
      rcases h.attach hfine hattach with ⟨reader', hreader, hmirrors⟩
      rw [hreader]
      exact (hmirrors.openBlock hkind made.1).follows

/-! ## Lines outside of the entry block -/

/-- Outside of all blocks everything is known. -/
theorem Mirrors.known_eq (h : reader.Mirrors outline) (htop : outline.top?.isSome = false) :
    reader.known = outline ∧ outline.blocks = [] := by
  have hblocks : outline.blocks = [] := by
    unfold Outline.top? at htop
    cases hblocks : outline.blocks with
    | nil => rfl
    | cons block outer =>
      rw [hblocks] at htop
      cases htop
  refine ⟨?_, hblocks⟩
  rw [h.known, ← hblocks]

/-- More is known outside of all blocks. -/
theorem Mirrors.learn (h : reader.Mirrors outline) {later : Outline}
    (hkept : outline.isBroken = true → later.isBroken = true)
    (hblocks : later.blocks = outline.blocks) (hnone : outline.blocks = []) :
    ({ reader with known := later } : StackReader).Mirrors later := by
  have hfine : later.isBroken = false → outline.isBroken = false := by
    intro hlater
    rw [Bool.eq_false_iff] at hlater ⊢
    exact fun hbroken => hlater (hkept hbroken)
  refine ⟨?_, ?_, fun hlater => ?_, fun hlater => ?_⟩
  · show later = { later with blocks := [] }
    rw [← hnone, ← hblocks]
  · show reader.kinds = later.blocks.map OpenBlock.kind
    rw [hblocks]
    exact h.kinds
  · show reader.code = later.blocks.flatMap OpenBlock.code ++ [none]
    rw [hblocks]
    exact h.code (hfine hlater)
  · rw [hblocks]
    exact h.fits (hfine hlater)

/-- Reading a declaration forgets no mistake and leaves blocks alone. -/
theorem readDeclaration_spec {globals : Globals} {line : Line} {text : List Char}
    {tokens : List Token} {later : Outline}
    (hread : outline.readDeclaration globals line text tokens = .ok later) :
    (outline.isBroken = true → later.isBroken = true) ∧ later.blocks = outline.blocks := by
  -- All ways out but the last one report a mistake.
  have hreported : ∀ e : StructureError, Except.ok (outline.report line.number e) =
      (Except.ok later : Except Fault Outline) →
      (outline.isBroken = true → later.isBroken = true) ∧ later.blocks = outline.blocks := by
    intro e he
    cases he
    exact ⟨fun _ => Outline.isBroken_report _ _ _, rfl⟩
  unfold Outline.readDeclaration at hread
  cases hopen : outline.top?.isSome with
  | true =>
    rw [hopen] at hread
    exact hreported _ hread
  | false =>
    simp only [hopen, Bool.false_eq_true, if_false] at hread
    cases htoken : tokens[1]? with
    | none =>
      rw [htoken] at hread
      exact hreported _ hread
    | some token =>
      simp only [htoken] at hread
      split at hread
      · exact hreported _ hread
      · split at hread
        · exact hreported _ hread
        · split at hread
          · exact hreported _ hread
          · by_cases hmore : 2 < tokens.length
            · rw [if_pos hmore] at hread
              cases hcut : Outline.fromOffset line.number text token.offset with
              | error fault =>
                rw [hcut] at hread
                cases hread
              | ok initializer =>
                rw [hcut] at hread
                cases hread
                exact ⟨id, rfl⟩
            · rw [if_neg hmore] at hread
              cases hread
              exact ⟨id, rfl⟩

/-- Declarations are read alike. -/
theorem Mirrors.readDeclaration (h : reader.Mirrors outline) (globals : Globals) (line : Line)
    (text : List Char) (tokens : List Token) :
    Follows (reader.readDeclaration globals line text tokens)
      (outline.readDeclaration globals line text tokens) := by
  intro later hlater
  unfold StackReader.readDeclaration
  rw [h.top]
  cases hopen : outline.top?.isSome with
  | true =>
    unfold Outline.readDeclaration at hlater
    rw [hopen] at hlater
    cases hlater
    exact ⟨_, rfl, h.report _ _⟩
  | false =>
    rcases h.known_eq hopen with ⟨hknown, hnone⟩
    rcases readDeclaration_spec hlater with ⟨hkept, hblocks⟩
    simp only [Bool.false_eq_true, if_false]
    rw [hknown, hlater]
    exact ⟨_, rfl, h.learn hkept hblocks hnone⟩

/-- The opening line of the entry block is read alike. -/
theorem Mirrors.readBegin (h : reader.Mirrors outline) (line : Line) (tokens : List Token) :
    (reader.readBegin line tokens).Mirrors (outline.readBegin line tokens) := by
  unfold StackReader.readBegin Outline.readBegin
  rw [h.top]
  cases hopen : outline.top?.isSome with
  | true => exact h.report _ _
  | false =>
    rcases h.known_eq hopen with ⟨hknown, hnone⟩
    rw [hknown]
    cases hroot : outline.root.isSome with
    | true => exact h.report _ _
    | false =>
      simp only [Bool.false_eq_true, if_false]
      -- The outline behind the parameters.
      generalize hbetween : (if maxParameters < (tokens.drop 1).length then
        outline.report line.number (.tooManyParameters (tokens.drop 1).length)
        else (tokens.drop 1).foldl (Outline.readParameter line.number) outline) = between
      have hspec : (outline.isBroken = true → between.isBroken = true) ∧
          between.blocks = outline.blocks := by
        by_cases hmany : maxParameters < (tokens.drop 1).length
        · rw [if_pos hmany] at hbetween
          subst hbetween
          exact ⟨fun _ => Outline.isBroken_report _ _ _, rfl⟩
        · rw [if_neg hmany] at hbetween
          subst hbetween
          rcases Outline.foldl_readParameter_spec line.number outline (tokens.drop 1) with
            ⟨hkept, hblocks, _⟩
          exact ⟨hkept, hblocks⟩
      have hlearnt := h.learn hspec.1 hspec.2 hnone
      cases hfine : between.isBroken with
      | true => exact hlearnt.openBlock_broken hfine .entry
      | false =>
        have hnodes := hlearnt.withNodes (between.nodes.push (Outline.newNode .entry line none))
        exact (hnodes.withRoot (some between.nodes.size)).openBlock (by simp) between.nodes.size

/-- The ends of the entry block and of loops are read alike. -/
theorem Mirrors.readClosing (h : reader.Mirrors outline) (number : Nat) {kind : BlockKind}
    (hkind : kind ≠ .branched) (e : StructureError) :
    (reader.readClosing number kind e).Mirrors
      (if outline.top? = some kind then outline.closeBlock else outline.report number e) := by
  unfold StackReader.readClosing
  rw [h.top]
  by_cases htop : outline.top? = some kind
  · rw [if_pos htop, if_pos htop]
    exact h.closeBlock htop (if_neg hkind).symm
  · rw [if_neg htop, if_neg htop]
    exact h.report _ _

/-! ## Lines of loops and conditionals -/

/-- The head of a block with a condition is read alike. -/
theorem Mirrors.readConditioned (h : reader.Mirrors outline) (line : Line) (keyword : Keyword)
    (what : String) {block : BlockKind} (hblock : block ≠ .branched) (kind : NodeKind) :
    Follows (reader.readConditioned line keyword what block kind)
      (outline.readConditioned line keyword what block kind) := by
  unfold StackReader.readConditioned Outline.readConditioned
  rw [h.top]
  cases hopen : outline.top?.isNone with
  | true => exact (h.report _ _).follows
  | false =>
    simp only [Bool.false_eq_true, if_false]
    cases Outline.behindKeyword line keyword with
    | error fault => exact follows_error _ fault
    | ok condition =>
      simp only [bind, Except.bind]
      cases hempty : condition.isEmpty with
      | true =>
        exact (h.report line.number .noCondition).openAttached hblock
          (Outline.newNode kind line (some condition))
      | false => exact h.openAttached hblock (Outline.newNode kind line (some condition))

/-- The head of a loop over an array is read alike. -/
theorem Mirrors.readForEach (h : reader.Mirrors outline) (line : Line) (text : List Char)
    (tokens : List Token) :
    Follows (reader.readForEach line text tokens) (outline.readForEach line text tokens) := by
  unfold StackReader.readForEach Outline.readForEach
  rw [h.top]
  cases hopen : outline.top?.isNone with
  | true => exact (h.report _ _).follows
  | false =>
    have hbad : ((reader.openBlock .loop).report line.number .badForEach).Mirrors
        ((outline.report line.number .badForEach).openBlock .loop none) :=
      h.report_openBlock line.number .badForEach .loop
    rcases tokens with _ | ⟨first, _ | ⟨iterator, _ | ⟨preposition, _ | ⟨collection, more⟩⟩⟩⟩
    · exact hbad.follows
    · exact hbad.follows
    · exact hbad.follows
    · exact hbad.follows
    · simp only [Bool.false_eq_true, if_false]
      by_cases hin : sameName (String.ofList preposition.text) "in" = true
      · simp only [if_pos hin]
        have hdeclared : (reader.openBlock .loop).known.declarations = outline.declarations := by
          show reader.known.declarations = _
          rw [h.known]
        rw [hdeclared]
        cases Program.slotIn? outline.declarations (String.ofList iterator.text) with
        | none => exact (h.report_openBlock _ _ _).follows
        | some slot =>
          simp only
          cases Outline.fromOffset line.number text collection.offset with
          | error fault => exact follows_error _ fault
          | ok expression =>
            have hattached := h.openAttached (show BlockKind.loop ≠ .branched by simp)
              (Outline.newNode (.forEach (fold (String.ofList iterator.text)) slot) line
                (some expression))
            show Follows (if reader.known.isBroken = true then _ else _) _
            rw [h.isBroken]
            cases hfine : outline.isBroken with
            | true =>
              unfold Outline.openAttached
              simp only [hfine]
              exact (h.openBlock_broken hfine .loop).follows
            | false => exact hattached
      · simp only [if_neg hin]
        exact hbad.follows

/-- The end of a conditional is read alike. -/
theorem Mirrors.readEndIf (h : reader.Mirrors outline) (number : Nat) :
    (reader.readEndIf number).Mirrors (outline.readEndIf number) := by
  unfold StackReader.readEndIf Outline.readEndIf
  rw [h.top]
  by_cases hplain : outline.top? = some .conditional
  · rw [if_pos hplain, if_pos (.inl hplain)]
    exact h.closeBlock hplain rfl
  · rw [if_neg hplain]
    by_cases hbranched : outline.top? = some .branched
    · rw [if_pos hbranched, if_pos (.inr hbranched)]
      exact h.closeBlock hbranched rfl
    · rw [if_neg hbranched, if_neg fun hends => hends.elim hplain hbranched]
      exact h.report _ _

/-- Without its open branch, a conditional is topmost. -/
theorem Mirrors.code_at_branch (h : reader.Mirrors outline) (hfine : outline.isBroken = false)
    {block : OpenBlock} {outer : List OpenBlock} (hblocks : outline.blocks = block :: outer) :
    (if block.kind = .branched then reader.code.tail else reader.code) =
      block.node :: (outer.flatMap OpenBlock.code ++ [none]) := by
  have hcode := h.code hfine
  unfold Outline.code at hcode
  rw [hblocks, List.flatMap_cons] at hcode
  unfold OpenBlock.code at hcode
  by_cases hkind : block.kind = .branched
  · rw [if_pos hkind] at hcode ⊢
    rw [hcode]
    rfl
  · rw [if_neg hkind] at hcode ⊢
    rw [hcode]
    rfl

/-- Branches are added to the same conditional. -/
theorem Mirrors.addBranch (h : reader.Mirrors outline) (hfine : outline.isBroken = false)
    {block : OpenBlock} {outer : List OpenBlock} (hblocks : outline.blocks = block :: outer)
    (line : Line) (keyword : Keyword) (condition : Option (List Char)) :
    Follows
      (({ reader with
        kinds := .branched :: outer.map OpenBlock.kind
        code := if block.kind = .branched then reader.code.tail else reader.code
          } : StackReader).addBranch line keyword condition)
      ((outline.withBlock { block with kind := .branched } outer).addBranch line keyword condition
        { block with kind := .branched } outer) := by
  have hnodes : reader.known.nodes = outline.nodes := by rw [h.known]
  rw [h.code_at_branch hfine hblocks]
  have htarget : ({ reader with
      kinds := .branched :: outer.map OpenBlock.kind
      code := block.node :: (outer.flatMap OpenBlock.code ++ [none]) } : StackReader).target =
        block.node := rfl
  unfold StackReader.addBranch Outline.addBranch
  rw [htarget]
  cases hnode : block.node with
  | none => exact follows_error _ _
  | some owner =>
    simp only [hnodes, Outline.withBlock]
    cases habove : outline.nodes[owner]? with
    | none => exact follows_error _ _
    | some above =>
      simp only
      cases above.kind with
      | conditional elseIfs elseBranch =>
        simp only
        cases elseBranch with
        | some other =>
          refine Mirrors.follows (.of_broken (Outline.isBroken_report _ _ _) ?_ rfl)
          show reader.known.report line.number _ = _
          rw [h.known]
          rfl
        | none =>
          refine Mirrors.follows ⟨?_, rfl, fun _ => ?_, fun _ other hother => ?_⟩
          · show ({ reader.known with nodes := _ } : Outline) = _
            rw [h.known]
            rfl
          · show some outline.nodes.size :: some owner :: _ = _
            rfl
          · rcases List.mem_cons.1 hother with rfl | hother
            · exact ⟨fun _ => rfl, fun _ => rfl⟩
            · exact h.fits hfine other (by rw [hblocks]; exact List.mem_cons_of_mem _ hother)
      | _ => exact follows_error _ _

/-- Branches are read alike. -/
theorem Mirrors.readBranch (h : reader.Mirrors outline) (line : Line) (keyword : Keyword) :
    Follows (reader.readBranch line keyword) (outline.readBranch line keyword) := by
  unfold StackReader.readBranch Outline.readBranch
  cases hblocks : outline.blocks with
  | nil =>
    have hkinds : reader.kinds = [] := by rw [h.kinds, hblocks]; rfl
    rw [hkinds]
    exact (h.report _ _).follows
  | cons block outer =>
    have hkinds : reader.kinds = block.kind :: outer.map OpenBlock.kind := by
      rw [h.kinds, hblocks]
      rfl
    rw [hkinds]
    simp only
    by_cases hkind : block.kind = .conditional ∨ block.kind = .branched
    · rw [if_pos hkind, if_pos hkind]
      -- What is done with the condition of the branch.
      have hbranched : ∀ condition : Option (List Char), Follows
          (do
            if condition = some [] then return reader.report line.number .noCondition
            let reader := { reader with kinds := .branched :: outer.map OpenBlock.kind }
            if reader.known.isBroken then return reader
            let code := if block.kind = .branched then reader.code.tail else reader.code
            ({ reader with code } : StackReader).addBranch line keyword condition)
          (do
            if condition = some [] then return outline.report line.number .noCondition
            let outline := { outline with blocks := { block with kind := .branched } :: outer }
            if outline.isBroken then return outline
            outline.addBranch line keyword condition { block with kind := .branched } outer) := by
        intro condition
        by_cases hempty : condition = some []
        · rw [if_pos hempty, if_pos hempty]
          exact (h.report _ _).follows
        · rw [if_neg hempty, if_neg hempty]
          show Follows (if reader.known.isBroken = true then _ else _)
            (if outline.isBroken = true then _ else _)
          rw [h.isBroken]
          cases hfine : outline.isBroken with
          | true => exact Mirrors.follows (.of_broken hfine h.known rfl)
          | false => exact h.addBranch hfine hblocks line keyword condition
      by_cases helseIf : keyword = .elseIfBranch
      · rw [if_pos helseIf, if_pos helseIf]
        cases Outline.behindKeyword line keyword with
        | error fault => exact follows_error _ fault
        | ok text => exact hbranched (some text)
      · rw [if_neg helseIf, if_neg helseIf]
        exact hbranched none
    · rw [if_neg hkind, if_neg hkind]
      exact (h.report _ _).follows

/-! ## Statements -/

/-- The same statements stand inside of a loop. -/
theorem Mirrors.all_kinds (h : reader.Mirrors outline) :
    (reader.kinds.all fun kind => kind != .loop) =
      outline.blocks.all fun block => block.kind != .loop := by
  rw [h.kinds, List.all_map]
  rfl

/-- Statements are read alike. -/
theorem Mirrors.readStatement (h : reader.Mirrors outline) (line : Line)
    (keyword : Option Keyword) :
    Follows (reader.readStatement line keyword) (outline.readStatement line keyword) := by
  unfold StackReader.readStatement Outline.readStatement
  rw [h.top, h.all_kinds, h.isBroken]
  cases hopen : outline.top?.isNone with
  | true => exact (h.report _ _).follows
  | false =>
    simp only [Bool.false_eq_true, if_false]
    -- What remains when the statement is no loop jump or stands inside of a loop.
    have hattached : Follows
        (do
          if outline.isBroken then return reader
          let expression ← Outline.statementText line keyword
          let made ← reader.attach (Outline.newNode .expression line (some expression))
          return made.2)
        (do
          if outline.isBroken then return outline
          let expression ← Outline.statementText line keyword
          let made ← outline.attach (Outline.newNode .expression line (some expression))
          return made.2) := by
      cases hfine : outline.isBroken with
      | true => exact h.follows
      | false =>
        cases Outline.statementText line keyword with
        | error fault => exact follows_error _ fault
        | ok expression =>
          simp only [Bool.false_eq_true, if_false, bind, Except.bind]
          cases hattach : outline.attach (Outline.newNode .expression line (some expression)) with
          | error fault => exact follows_error _ fault
          | ok made =>
            rcases h.attach hfine hattach with ⟨reader', hreader, hmirrors⟩
            rw [hreader]
            exact hmirrors.follows
    cases hjump : keyword.filter fun k => k == .breakStatement || k == .continueStatement with
    | none => exact hattached
    | some k =>
      by_cases hloop : (outline.blocks.all fun block => block.kind != .loop) = true
      · simp only [if_pos hloop]
        exact (h.report _ _).follows
      · simp only [if_neg hloop]
        exact hattached

/-! ## Scripts -/

/-- Every line is read alike. -/
theorem Mirrors.readLine (h : reader.Mirrors outline) (globals : Globals) (line : Line) :
    Follows (StackReader.readLine globals reader line)
      (Outline.readLine globals outline line) := by
  unfold StackReader.readLine Outline.readLine
  simp only
  cases Keyword.ofTokens? (tokenize (clean .everything line.text)) with
  | none => exact h.readStatement line none
  | some keyword =>
    cases keyword with
    | header => exact (h.report _ _).follows
    | declaration => exact h.readDeclaration globals line _ _
    | beginBlock => exact (h.readBegin line _).follows
    | endBlock => exact (h.readClosing line.number (by simp) _).follows
    | whileLoop => exact h.readConditioned line _ _ (by simp) _
    | forEachLoop => exact h.readForEach line _ _
    | endLoop => exact (h.readClosing line.number (by simp) _).follows
    | ifBlock => exact h.readConditioned line _ _ (by simp) _
    | elseIfBranch => exact h.readBranch line _
    | elseBranch => exact h.readBranch line _
    | endIf => exact (h.readEndIf line.number).follows
    | returnStatement | breakStatement | continueStatement => exact h.readStatement line _

/-- Lines in a row are read alike. -/
theorem Mirrors.foldlM_readLine (h : reader.Mirrors outline) (globals : Globals)
    (lines : List Line) :
    Follows (lines.foldlM (StackReader.readLine globals) reader)
      (lines.foldlM (Outline.readLine globals) outline) := by
  induction lines generalizing reader outline with
  | nil => exact h.follows
  | cons line rest ih =>
    rw [List.foldlM_cons, List.foldlM_cons]
    intro last hlast
    cases hline : Outline.readLine globals outline line with
    | error fault =>
      rw [hline] at hlast
      cases hlast
    | ok behind =>
      rw [hline] at hlast
      rcases h.readLine globals line behind hline with ⟨reader', hreader, hmirrors⟩
      rw [hreader]
      exact ih hmirrors last hlast

end Steps

/-- The header opens no block. -/
theorem mirrors_readHeader (header : Line) :
    ({ start with known := Outline.start.readHeader header } : StackReader).Mirrors
      (Outline.start.readHeader header) := by
  have hblocks : (Outline.start.readHeader header).blocks = [] := blocks_readHeader header
  refine ⟨?_, ?_, fun _ => ?_, fun _ block hblock => ?_⟩
  · rw [← hblocks]
  · rw [hblocks]
    rfl
  · unfold Outline.code
    rw [hblocks]
    rfl
  · rw [hblocks] at hblock
    cases hblock

/-- Whole scripts are read alike. -/
theorem readLines_follows (globals : Globals) (lines : List Line) :
    Follows (readLines globals lines) (Outline.readLines globals lines) := by
  cases lines with
  | nil => exact (Mirrors.of_broken (Outline.isBroken_report _ _ _) rfl rfl).follows
  | cons header body => exact (mirrors_readHeader header).foldlM_readLine globals body

/-- At the end the same is known, and the stack of nodes is balanced. -/
theorem Mirrors.finish {reader : StackReader} {outline : Outline} (h : reader.Mirrors outline)
    (lastLine : Nat) :
    ∃ finished, reader.finish lastLine = .ok finished ∧
      finished.known = { outline.finish lastLine with blocks := [] } := by
  have hroot : reader.known.root = outline.root := by rw [h.known]
  unfold StackReader.finish Outline.finish
  rw [h.isBroken, hroot, h.top]
  cases hfine : outline.isBroken with
  | true => exact ⟨reader, rfl, h.known⟩
  | false =>
    simp only [Bool.false_eq_true, if_false]
    by_cases hnone : outline.root.isNone = true
    · rw [if_pos hnone, if_pos hnone]
      exact ⟨_, rfl, (h.report _ _).known⟩
    · rw [if_neg hnone, if_neg hnone]
      cases htop : outline.top? with
      | some kind => exact ⟨_, rfl, (h.report _ _).known⟩
      | none =>
        have hclosed := (h.known_eq (by rw [htop]; rfl)).2
        have hcode : reader.code = [none] := by
          rw [h.code hfine]
          unfold Outline.code
          rw [hclosed]
          rfl
        simp only
        rw [hcode, if_neg (by simp)]
        exact ⟨reader, rfl, h.known⟩

/-- Two stacks make the same program of all lines, and they never fault. -/
theorem parse_eq (globals : Globals) (program : Program) (lines : List Line) :
    parse globals program lines = program.parse globals lines := by
  rcases exists_readLines globals lines with ⟨last, hlast⟩
  rcases readLines_follows globals lines last hlast with ⟨reader, hreader, hmirrors⟩
  rcases hmirrors.finish ((lines.getLast?.map Line.number).getD 1) with
    ⟨finished, hfinished, hknown⟩
  unfold parse Program.parse
  rw [hreader, hlast]
  simp only [bind, Except.bind, hfinished, hknown]
  rfl

end StackReader
end ScriptMachine
