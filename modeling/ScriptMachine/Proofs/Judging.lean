import ScriptMachine.Proofs.Continuing
import ScriptMachine.Proofs.Recovering

/-!
# Mistakes that are seen behind other mistakes

Behind the first mistake no node is made any more, and most checks go on as before: they depend on the
names of variables, on the parameters and on the kinds of the open blocks.  Some do not.  A second entry
block is told by the node of the first one and a second {lit}`else` by the node of its conditional, and
the checks at the end of a script are left out.  So a mistake in front of a script keeps some of the
later ones from being reported.

Main results:

- {lit}`Outline.Footing.judge`: the mistakes that are seen without nodes.
- {lit}`Outline.readLine_heeds`: every line is read as it is judged, but for a second entry block.
- {lit}`Masks`: what is left of the diagnostics of a script behind a mistake in front of it.
- {lit}`Outline.Beside.foldlM_readLine`: the same lines read with that mistake and without.
- {lit}`Program.parse_marred`: a script with a malformed declaration behind its header.
-/

namespace ScriptMachine

open Source Text

/-! ## Mistakes that are seen without nodes -/

/-- Whether a mistake is seen without nodes, and in front of the end of a script. -/
def StructureError.isSeen : StructureError → Bool
  | .secondBegin | .elseIfAfterElse | .secondElse | .noBegin | .unterminated _ => false
  | _ => true

/-- Whether the mistake of a diagnostic is seen without nodes. -/
def Diagnostic.isSeen (diagnostic : Diagnostic) : Bool :=
  match diagnostic.cause with
  | .structural e => e.isSeen
  | _ => true

/-- The diagnostic of a mistake at a line. -/
def Diagnostic.at (number : Nat) (e : StructureError) : Diagnostic :=
  ⟨number, .structural e⟩

namespace Outline

/-- What the checks of a line depend on, apart from nodes: the names of the variables, the slots of the
parameters and the kinds of the open blocks, innermost first. -/
structure Footing where
  names : List String
  parameters : List Nat
  kinds : List BlockKind

/-- The footing of the next line. -/
def footing (outline : Outline) : Footing :=
  ⟨outline.declarations.map Variable.name, outline.parameters, outline.kinds⟩

namespace Footing

/-- The slot of a name. -/
def slot? (footing : Footing) (name : String) : Option Nat :=
  footing.names.findIdx? fun declared => sameName declared name

/-- A declaration of a variable. -/
def declare (globals : Globals) (footing : Footing) (tokens : List Token) :
    List StructureError × Footing :=
  if !footing.kinds.isEmpty then ([.declarationInBlock], footing)
  else
    match tokens[1]? with
    | none => ([.noVariableName], footing)
    | some token =>
      let name := String.ofList token.text
      if !isIdentifier token.text then ([.badVariableName name], footing)
      else if (footing.slot? name).isSome then ([.redeclared name], footing)
      else if globals.contains name then ([.shadowsGlobal name], footing)
      else ([], { footing with names := footing.names ++ [fold name] })

/-- One parameter of an entry block. -/
def bind (footing : Footing) (token : Token) : List StructureError × Footing :=
  let name := String.ofList token.text
  match footing.slot? name with
  | none => ([.unknownParameter name], footing)
  | some slot =>
    if footing.parameters.contains slot then ([.duplicateParameter name], footing)
    else ([], { footing with parameters := footing.parameters ++ [slot] })

/-- The parameters of an entry block. -/
def bindAll (footing : Footing) : List Token → List StructureError × Footing
  | [] => ([], footing)
  | token :: rest =>
    let first := footing.bind token
    let others := first.2.bindAll rest
    (first.1 ++ others.1, others.2)

/-- The opening line of an entry block, unless there is one already. -/
def enter (footing : Footing) (tokens : List Token) : List StructureError × Footing :=
  if !footing.kinds.isEmpty then ([.nestedBegin], footing)
  else
    let parameters := tokens.drop 1
    let bound :=
      if maxParameters < parameters.length then ([.tooManyParameters parameters.length], footing)
      else footing.bindAll parameters
    (bound.1, { bound.2 with kinds := .entry :: bound.2.kinds })

/-- The head of a block inside of the entry block, with a mistake in it or without. -/
def opening (footing : Footing) (what : String) (kind : BlockKind) (mistake? : Option StructureError) :
    List StructureError × Footing :=
  if footing.kinds.isEmpty then ([.outsideBegin what], footing)
  else (mistake?.toList, { footing with kinds := kind :: footing.kinds })

/-- A branch of a conditional, with a mistake in it or without. -/
def branch (footing : Footing) (keyword : Keyword) (mistake? : Option StructureError) :
    List StructureError × Footing :=
  if footing.kinds.head? = some .conditional then (mistake?.toList, footing)
  else ([.branchWithoutIf keyword], footing)

/-- The end of a block. -/
def closing (footing : Footing) (kind : BlockKind) (mistake : StructureError) :
    List StructureError × Footing :=
  if footing.kinds.head? = some kind then ([], { footing with kinds := footing.kinds.tail })
  else ([mistake], footing)

/-- A statement, which may be a loop jump. -/
def statement (footing : Footing) (keyword : Option Keyword) : List StructureError × Footing :=
  if footing.kinds.isEmpty then ([.statementOutside], footing)
  else
    match keyword.filter fun k => k == .breakStatement || k == .continueStatement with
    | none => ([], footing)
    | some k =>
      if footing.kinds.all (· != .loop) then ([.jumpOutsideLoop k], footing) else ([], footing)

/-- The mistake in a line that needs a condition. -/
def conditionMistake? (keyword : Keyword) (line : Line) : Option StructureError :=
  if keyword.remainder? line.text = some [] then some .noCondition else none

/-- The mistake in the head of a loop over an array. -/
def forEachMistake? (footing : Footing) : List Token → Option StructureError
  | _ :: iterator :: preposition :: _ :: _ =>
    let name := String.ofList iterator.text
    if sameName (String.ofList preposition.text) "in" then
      if (footing.slot? name).isSome then none else some (.unknownIterator name)
    else some .badForEach
  | _ => some .badForEach

/-- The mistakes in a line that are seen without nodes, and the footing behind it. -/
def judge (globals : Globals) (footing : Footing) (line : Line) : List StructureError × Footing :=
  match line.keyword? with
  | some .header => ([.headerAgain], footing)
  | some .declaration => footing.declare globals line.tokens
  | some .beginBlock => footing.enter line.tokens
  | some .endBlock => footing.closing .entry .endWithoutBegin
  | some .whileLoop => footing.opening "While" .loop (conditionMistake? .whileLoop line)
  | some .forEachLoop => footing.opening "ForEach" .loop (footing.forEachMistake? line.tokens)
  | some .endLoop => footing.closing .loop .loopWithoutStart
  | some .ifBlock => footing.opening "If" .conditional (conditionMistake? .ifBlock line)
  | some .elseIfBranch => footing.branch .elseIfBranch (conditionMistake? .elseIfBranch line)
  | some .elseBranch => footing.branch .elseBranch none
  | some .endIf => footing.closing .conditional .endIfWithoutIf
  | keyword => footing.statement keyword

end Footing

/-! ## Reading as judged -/

/-- A line is read as it is judged: what it adds to the diagnostics is, apart from mistakes that need
nodes, what it is judged to be, and an outline with mistakes has nothing else to add. -/
structure Heeds (outline : Outline) (number : Nat) (verdict : List StructureError × Footing)
    (later : Outline) : Prop where
  footing : later.footing = verdict.2
  root : outline.isBroken = true → later.root = outline.root
  diagnostics : ∃ found, later.diagnostics = outline.diagnostics ++ found.map (Diagnostic.at number) ∧
    found.filter StructureError.isSeen = verdict.1 ∧ (outline.isBroken = true → found = verdict.1)

variable {globals : Globals} {outline later : Outline} {line : Line} {number : Nat}

/-- The footing behind a line that opens or closes blocks. -/
theorem Turns.footing_eq {kinds : List BlockKind} (h : outline.Turns kinds later) :
    later.footing = { outline.footing with kinds } := by
  rw [footing, h.declarations, h.parameters, h.kinds]
  rfl

/-- A line with mistakes that are seen. -/
theorem Turns.heeds {kinds : List BlockKind} (h : outline.Turns kinds later)
    {found : List StructureError} (hseen : ∀ e ∈ found, e.isSeen = true)
    (hfound : later.diagnostics = outline.diagnostics ++ found.map (Diagnostic.at number)) :
    outline.Heeds number (found, { outline.footing with kinds }) later where
  footing := h.footing_eq
  root := fun _ => h.root
  diagnostics := ⟨found, hfound, List.filter_eq_self.2 hseen, fun _ => rfl⟩

/-- A line that is reported. -/
theorem heeds_report (outline : Outline) (number : Nat) {e : StructureError} (he : e.isSeen = true) :
    outline.Heeds number ([e], outline.footing) (outline.report number e) :=
  (turns_report outline number e).heeds (by simpa using he) rfl

/-- A check that is reported, and what is read behind it otherwise. -/
theorem heeds_check {reported : Prop} [Decidable reported] {e : StructureError} (he : e.isSeen = true)
    {run : Except Fault Outline} {verdict : List StructureError × Footing}
    (h : (if reported then .ok (outline.report number e) else run) = .ok later)
    (hrest : run = .ok later → outline.Heeds number verdict later) :
    outline.Heeds number (if reported then ([e], outline.footing) else verdict) later := by
  split at h
  · next hreported =>
    cases h
    rw [if_pos hreported]
    exact heeds_report outline number he
  · next hpassed =>
    rw [if_neg hpassed]
    exact hrest h

/-- No block is open. -/
theorem isEmpty_kinds (outline : Outline) : outline.footing.kinds.isEmpty = outline.top?.isNone := by
  unfold footing kinds top?
  cases outline.blocks <;> rfl

/-- A name has the same slot. -/
theorem footing_slot? (outline : Outline) (name : String) :
    outline.footing.slot? name = Program.slotIn? outline.declarations name := by
  unfold Footing.slot? footing Program.slotIn?
  rw [List.findIdx?_map]
  rfl

/-- The innermost block is of a kind. -/
theorem head?_footing (outline : Outline) :
    outline.footing.kinds.head? = outline.top?.map BlockKind.plain :=
  outline.head?_kinds

/-- A conditional is of one kind, with other branches or without. -/
theorem map_plain_top (outline : Outline) (kind : BlockKind) :
    outline.top?.map BlockKind.plain = some kind ↔ outline.top? = some kind ∧ kind ≠ .branched ∨
      outline.top? = some .branched ∧ kind = .conditional := by
  cases outline.top? with
  | none => simp
  | some block => cases block <;> cases kind <;> decide

/-- Closing a block. -/
theorem heeds_closing {kind : BlockKind} {e : StructureError} {closes : Prop} [Decidable closes]
    (he : e.isSeen = true) (hcloses : closes ↔ outline.top?.map BlockKind.plain = some kind) :
    outline.Heeds number (outline.footing.closing kind e)
      (if closes then outline.closeBlock else outline.report number e) := by
  unfold Footing.closing
  rw [head?_footing]
  split
  · next h =>
    rw [if_pos (hcloses.2 h)]
    exact (turns_closeBlock outline).heeds (List.forall_mem_nil _) (List.append_nil _).symm
  · next h =>
    rw [if_neg (mt hcloses.1 h)]
    exact heeds_report outline number he

/-- Attaching a node adds no diagnostics. -/
theorem diagnostics_attach {node : Node} {id : Nat} (h : outline.attach node = .ok (id, later)) :
    later.diagnostics = outline.diagnostics := by
  unfold attach at h
  split at h
  · cases h
  · split at h
    · cases h
    · split at h
      · cases h
      · cases h
        rfl

/-- Opening a block with a node adds no diagnostics. -/
theorem diagnostics_openAttached {kind : BlockKind} {node : Node}
    (h : outline.openAttached kind node = .ok later) : later.diagnostics = outline.diagnostics := by
  unfold openAttached at h
  split at h
  · cases h
    rfl
  · rcases exists_of_bind_ok h with ⟨⟨id, attached⟩, hattach, hlater⟩
    cases hlater
    show attached.diagnostics = outline.diagnostics
    exact diagnostics_attach hattach

/-- The head of a block that is opened outside of the entry block or inside of it. -/
theorem heeds_opening {what : String} {kind : BlockKind} {mistake? : Option StructureError}
    (houtside : outline.top?.isNone = true → later = outline.report number (.outsideBegin what))
    (hseen : ∀ e ∈ mistake?, e.isSeen = true)
    (hinside : outline.top?.isNone = false → outline.Turns (kind :: outline.kinds) later ∧
      later.diagnostics = outline.diagnostics ++ mistake?.toList.map (Diagnostic.at number)) :
    outline.Heeds number (outline.footing.opening what kind mistake?) later := by
  unfold Footing.opening
  rw [isEmpty_kinds]
  cases hopen : outline.top?.isNone with
  | true =>
    rw [houtside hopen]
    exact heeds_report outline number rfl
  | false =>
    rcases hinside hopen with ⟨hturns, hfound⟩
    exact hturns.heeds (by simpa using hseen) hfound

/-- The text behind a keyword that is read is what the line says behind it. -/
theorem remainder_of_behindKeyword {keyword : Keyword} {text : List Char}
    (h : behindKeyword line keyword = .ok text) : keyword.remainder? line.text = some text := by
  unfold behindKeyword at h
  split at h
  · next found hfound =>
    cases h
    exact hfound
  · cases h

/-- The head of a block with a condition. -/
theorem heeds_readConditioned {keyword : Keyword} {what : String} {block : BlockKind} {kind : NodeKind}
    (h : outline.readConditioned line keyword what block kind = .ok later) (hplain : block.plain = block) :
    outline.Heeds line.number
      (outline.footing.opening what block (Footing.conditionMistake? keyword line)) later := by
  apply heeds_opening
  · intro hopen
    unfold readConditioned at h
    rw [hopen] at h
    cases h
    rfl
  · unfold Footing.conditionMistake?
    split <;> simp [StructureError.isSeen]
  · intro hopen
    have hturns := turns_readConditioned h hopen
    rw [hplain] at hturns
    refine ⟨hturns, ?_⟩
    unfold readConditioned at h
    rw [hopen] at h
    rcases exists_of_bind_ok h with ⟨condition, hcondition, hattached⟩
    unfold Footing.conditionMistake?
    rw [remainder_of_behindKeyword hcondition]
    cases condition with
    | nil =>
      rw [diagnostics_openAttached hattached]
      rfl
    | cons c rest =>
      rw [diagnostics_openAttached hattached]
      simp

/-- The head of a loop over an array. -/
theorem heeds_readForEach {text : List Char} {tokens : List Token}
    (h : outline.readForEach line text tokens = .ok later) :
    outline.Heeds line.number
      (outline.footing.opening "ForEach" .loop (outline.footing.forEachMistake? tokens)) later := by
  apply heeds_opening
  · intro hopen
    unfold readForEach at h
    rw [hopen] at h
    cases h
    rfl
  · unfold Footing.forEachMistake?
    split
    · dsimp only
      split
      · split <;> simp [StructureError.isSeen]
      · simp [StructureError.isSeen]
    · simp [StructureError.isSeen]
  · intro hopen
    refine ⟨turns_readForEach h hopen, ?_⟩
    unfold readForEach at h
    rw [hopen] at h
    simp only [Bool.false_eq_true, if_false] at h
    rcases tokens with _ | ⟨first, _ | ⟨iterator, _ | ⟨preposition, _ | ⟨collection, more⟩⟩⟩⟩
    case cons.cons.cons.cons =>
      dsimp only [Footing.forEachMistake?] at h ⊢
      rw [footing_slot?]
      split at h
      · next hin =>
        rw [if_pos hin]
        split at h
        · next hslot =>
          cases h
          rw [hslot]
          rfl
        · next slot hslot =>
          rcases exists_of_bind_ok h with ⟨expression, -, hattached⟩
          rw [diagnostics_openAttached hattached, hslot]
          exact (List.append_nil _).symm
      · next hin =>
        cases h
        rw [if_neg hin]
        rfl
    all_goals
      cases h
      rfl

/-- Adding a branch adds no diagnostics, or one of a mistake that is told by nodes. -/
theorem diagnostics_addBranch {keyword : Keyword} {condition : Option (List Char)} {block : OpenBlock}
    {outer : List OpenBlock} (h : outline.addBranch line keyword condition block outer = .ok later) :
    ∃ found : List StructureError,
      later.diagnostics = outline.diagnostics ++ found.map (Diagnostic.at line.number) ∧
        found.filter StructureError.isSeen = [] := by
  unfold addBranch at h
  split at h
  · cases h
  · split at h
    · cases h
    · split at h
      · split at h
        · cases h
          by_cases helseIf : keyword = .elseIfBranch
          · rw [if_pos helseIf]
            exact ⟨[.elseIfAfterElse], rfl, rfl⟩
          · rw [if_neg helseIf]
            exact ⟨[.secondElse], rfl, rfl⟩
        · cases h
          exact ⟨[], (List.append_nil _).symm, rfl⟩
      · cases h

/-- The condition of a branch is read first, and it is empty just when this is a mistake. -/
theorem exists_condition {keyword : Keyword} {run : Option (List Char) → Except Fault Outline}
    (h : (if keyword = .elseIfBranch then (some <$> behindKeyword line keyword) >>= run
      else pure none >>= run) = .ok later) :
    ∃ condition, run condition = .ok later ∧
      (if keyword = .elseIfBranch then Footing.conditionMistake? keyword line else none) =
        if condition = some [] then some .noCondition else none := by
  split at h
  · next helseIf =>
    rcases exists_of_bind_ok h with ⟨condition, hcondition, hrun⟩
    rcases exists_of_bind_ok hcondition with ⟨text, htext, hsome⟩
    cases hsome
    refine ⟨some text, hrun, ?_⟩
    rw [if_pos helseIf, Footing.conditionMistake?, remainder_of_behindKeyword htext]
  · next helse =>
    refine ⟨none, h, ?_⟩
    rw [if_neg helse, if_neg (by simp)]

/-- A branch of a conditional. -/
theorem heeds_readBranch {keyword : Keyword} (h : outline.readBranch line keyword = .ok later) :
    outline.Heeds line.number (outline.footing.branch keyword
      (if keyword = .elseIfBranch then Footing.conditionMistake? keyword line else none)) later := by
  have hturns := turns_readBranch h
  have hhead : outline.footing.kinds.head? = outline.blocks.head?.map fun block => block.kind.plain := by
    rw [← List.head?_map]
    rfl
  unfold Footing.branch
  rw [hhead]
  unfold readBranch at h
  split at h
  · next block outer hblocks =>
    rw [hblocks, List.head?_cons, Option.map_some]
    split at h
    · next hkind =>
      have hplain : block.kind.plain = .conditional := by
        rcases hkind with hkind | hkind <;> rw [hkind] <;> rfl
      rw [hplain, if_pos rfl]
      rcases exists_condition h with ⟨condition, hbranched, hmistake⟩
      dsimp only at hbranched
      rw [hmistake]
      by_cases hempty : condition = some []
      · rw [if_pos hempty] at hbranched ⊢
        cases hbranched
        exact heeds_report outline line.number rfl
      · rw [if_neg hempty] at hbranched ⊢
        split at hbranched
        · cases hbranched
          exact hturns.heeds (List.forall_mem_nil _) (List.append_nil _).symm
        · next hbroken =>
          rcases diagnostics_addBranch hbranched with ⟨found, hfound, hunseen⟩
          exact ⟨hturns.footing_eq, fun _ => hturns.root, found, hfound, hunseen,
            fun h => absurd h hbroken⟩
    · next hkind =>
      cases h
      have hplain : block.kind.plain ≠ .conditional := by
        cases hblock : block.kind <;> simp_all [BlockKind.plain]
      rw [if_neg (by simpa using hplain)]
      exact heeds_report outline line.number rfl
  · next hblocks =>
    cases h
    rw [hblocks, if_neg (by simp)]
    exact heeds_report outline line.number rfl

/-- A statement. -/
theorem heeds_readStatement {keyword : Option Keyword}
    (h : outline.readStatement line keyword = .ok later) :
    outline.Heeds line.number (outline.footing.statement keyword) later := by
  have hturns := turns_readStatement h
  -- What remains when the statement is no loop jump or stands inside of a loop.
  have hattached : (do
      if outline.isBroken then return outline
      let expression ← statementText line keyword
      let attached ← outline.attach (newNode .expression line (some expression))
      return attached.2) = (.ok later : Except Fault Outline) →
      outline.Heeds line.number ([], outline.footing) later := by
    intro hrun
    refine hturns.heeds (List.forall_mem_nil _) ?_
    rw [List.map_nil, List.append_nil]
    split at hrun
    · cases hrun
      rfl
    · rcases exists_of_bind_ok hrun with ⟨expression, -, hrest⟩
      rcases exists_of_bind_ok hrest with ⟨attached, hattach, hlater⟩
      cases hlater
      exact diagnostics_attach hattach
  unfold Footing.statement
  rw [isEmpty_kinds]
  unfold readStatement at h
  refine heeds_check rfl h fun h => ?_
  dsimp only at h
  cases hjump : keyword.filter fun k => k == .breakStatement || k == .continueStatement with
  | none =>
    rw [hjump] at h
    exact hattached h
  | some k =>
    have hloops : (outline.footing.kinds.all (· != .loop)) =
        outline.blocks.all fun block => block.kind != .loop := (all_kinds outline).symm
    rw [hjump] at h
    dsimp only at h ⊢
    rw [hloops]
    exact heeds_check rfl h hattached

/-- A declaration. -/
theorem heeds_readDeclaration {text : List Char} {tokens : List Token}
    (h : outline.readDeclaration globals line text tokens = .ok later) :
    outline.Heeds line.number (outline.footing.declare globals tokens) later := by
  unfold Footing.declare
  rw [isEmpty_kinds, Option.not_isNone]
  unfold readDeclaration at h
  refine heeds_check rfl h fun h => ?_
  cases htoken : tokens[1]? with
  | none =>
    rw [htoken] at h
    cases h
    exact heeds_report outline line.number rfl
  | some token =>
    rw [htoken] at h
    dsimp only at h ⊢
    rw [footing_slot?]
    refine heeds_check rfl h fun h => heeds_check rfl h fun h => heeds_check rfl h fun h => ?_
    have hdeclared : ∃ initializer, later = { outline with
        declarations := outline.declarations ++
          [⟨fold (String.ofList token.text), initializer, line.number⟩] } := by
      split at h
      · rcases exists_of_bind_ok h with ⟨initializer, -, hlater⟩
        cases hlater
        exact ⟨initializer, rfl⟩
      · cases h
        exact ⟨none, rfl⟩
    rcases hdeclared with ⟨initializer, rfl⟩
    refine ⟨?_, fun _ => rfl, [], (List.append_nil _).symm, rfl, fun _ => rfl⟩
    simp [footing, kinds]

/-- An outline with mistakes keeps them. -/
theorem Heeds.isBroken {verdict : List StructureError × Footing} (h : outline.Heeds number verdict later)
    (hbroken : outline.isBroken = true) : later.isBroken = true := by
  rcases h.diagnostics with ⟨found, hfound, -⟩
  unfold Outline.isBroken at hbroken ⊢
  rw [hfound]
  cases hdiagnostics : outline.diagnostics with
  | nil => rw [hdiagnostics] at hbroken; cases hbroken
  | cons first rest => rfl

/-- Two parts of a line, one after the other. -/
theorem Heeds.trans {between : Outline} {first second : List StructureError × Footing}
    (h : outline.Heeds number first between) (h' : between.Heeds number second later) :
    outline.Heeds number (first.1 ++ second.1, second.2) later where
  footing := h'.footing
  root := fun hbroken => (h'.root (h.isBroken hbroken)).trans (h.root hbroken)
  diagnostics := by
    rcases h.diagnostics with ⟨found, hfound, hseen, hall⟩
    rcases h'.diagnostics with ⟨found', hfound', hseen', hall'⟩
    refine ⟨found ++ found', ?_, ?_, ?_⟩
    · rw [hfound', hfound, List.map_append, List.append_assoc]
    · rw [List.filter_append, hseen, hseen']
    · intro hbroken
      rw [hall hbroken, hall' (h.isBroken hbroken)]

/-- One parameter. -/
theorem heeds_readParameter (number : Nat) (outline : Outline) (token : Token) :
    outline.Heeds number (outline.footing.bind token) (readParameter number outline token) := by
  unfold Footing.bind readParameter
  dsimp only
  rw [footing_slot?]
  cases Program.slotIn? outline.declarations (String.ofList token.text) with
  | none => exact heeds_report outline number rfl
  | some slot =>
    dsimp only
    show outline.Heeds number (if outline.parameters.contains slot then _ else _) _
    split
    · exact heeds_report outline number rfl
    · exact ⟨rfl, fun _ => rfl, [], (List.append_nil _).symm, rfl, fun _ => rfl⟩

/-- The parameters of an opening line. -/
theorem heeds_readParameters (number : Nat) (outline : Outline) (tokens : List Token) :
    outline.Heeds number (outline.footing.bindAll tokens)
      (tokens.foldl (readParameter number) outline) := by
  induction tokens generalizing outline with
  | nil => exact ⟨rfl, fun _ => rfl, [], (List.append_nil _).symm, rfl, fun _ => rfl⟩
  | cons token rest ih =>
    have hfirst := heeds_readParameter number outline token
    have hrest := ih (readParameter number outline token)
    rw [hfirst.footing] at hrest
    exact hfirst.trans hrest

/-- The opening line of an entry block, where there is none yet. -/
theorem heeds_readBegin (hroot : outline.top?.isSome = false → outline.root.isSome = false)
    (tokens : List Token) :
    outline.Heeds line.number (outline.footing.enter tokens) (outline.readBegin line tokens) := by
  unfold Footing.enter readBegin
  rw [isEmpty_kinds, Option.not_isNone]
  cases hopen : outline.top?.isSome with
  | true => exact heeds_report outline line.number rfl
  | false =>
    rw [hroot hopen]
    simp only [Bool.false_eq_true, if_false]
    -- The block is opened behind the parameters, with its node or without.
    have hentered : ∀ {between : Outline} {bound : List StructureError × Footing},
        outline.Heeds line.number bound between →
        outline.Heeds line.number (bound.1, { bound.2 with kinds := .entry :: bound.2.kinds })
          (if between.isBroken then between.openBlock .entry none
          else
            ({ (between.addNode (newNode .entry line none)).2 with
              root := some (between.addNode (newNode .entry line none)).1 } : Outline).openBlock .entry
                (some (between.addNode (newNode .entry line none)).1)) := by
      intro between bound hbound
      split
      · next hbroken =>
        refine ⟨?_, hbound.root, hbound.diagnostics⟩
        rw [← hbound.footing]
        rfl
      · next hfine =>
        refine ⟨?_, fun hbroken => absurd (hbound.isBroken hbroken) hfine, hbound.diagnostics⟩
        rw [← hbound.footing]
        rfl
    split
    · exact hentered (heeds_report outline line.number rfl)
    · exact hentered (heeds_readParameters line.number outline _)

/-- A line is read as it is judged, or it is reported as a second entry block. -/
theorem readLine_heeds (h : readLine globals outline line = .ok later) :
    outline.Heeds line.number (outline.footing.judge globals line) later ∨
      outline.root.isSome = true ∧ later = outline.report line.number .secondBegin := by
  rw [readLine_eq] at h
  unfold Footing.judge
  cases hkeyword : line.keyword? with
  | none =>
    rw [hkeyword] at h
    exact .inl (heeds_readStatement h)
  | some keyword =>
    rw [hkeyword] at h
    cases keyword with
    | header =>
      cases h
      exact .inl (heeds_report outline line.number rfl)
    | declaration => exact .inl (heeds_readDeclaration h)
    | beginBlock =>
      cases h
      by_cases hsecond : outline.top?.isSome = false ∧ outline.root.isSome = true
      · refine .inr ⟨hsecond.2, ?_⟩
        unfold readBegin
        rw [hsecond.1, hsecond.2]
        rfl
      · exact .inl (heeds_readBegin
          (fun hopen => Bool.eq_false_iff.2 fun hroot => hsecond ⟨hopen, hroot⟩) _)
    | endBlock | endLoop | endIf =>
      cases h
      exact .inl (heeds_closing rfl (by rw [map_plain_top]; simp))
    | whileLoop | ifBlock => exact .inl (heeds_readConditioned h rfl)
    | forEachLoop => exact .inl (heeds_readForEach h)
    | elseIfBranch | elseBranch => exact .inl (heeds_readBranch h)
    | returnStatement | breakStatement | continueStatement => exact .inl (heeds_readStatement h)

end Outline

/-! ## What is left of diagnostics -/

/-- A diagnostic at a line that comes later by some lines. -/
def Diagnostic.later (count : Nat) (diagnostic : Diagnostic) : Diagnostic :=
  { diagnostic with line := diagnostic.line + count }

/-- What is left of diagnostics behind a mistake that was not there before.  Mistakes that are seen
without nodes are still there, at lines that come later, up to a second entry block at most; there are no
others up to there, and none at all that need nodes. -/
def Masks (count : Nat) (found left : List Diagnostic) : Prop :=
  (∀ diagnostic ∈ left, diagnostic.isSeen = true) ∧ ∃ front back more : List Diagnostic,
    found = front ++ back ∧
    left = (front.filter Diagnostic.isSeen).map (Diagnostic.later count) ++ more ∧
    (back = [] ∧ more = [] ∨ ∃ number rest, back = ⟨number, .structural .secondBegin⟩ :: rest)

/-- The diagnostics are left as they are exactly if all of them are seen without nodes. -/
theorem Masks.eq_iff {count : Nat} {found left : List Diagnostic} (h : Masks count found left) :
    left = found.map (Diagnostic.later count) ↔ ∀ diagnostic ∈ found, diagnostic.isSeen = true := by
  rcases h with ⟨hseen, front, back, more, rfl, rfl, hends⟩
  constructor
  · intro hsame diagnostic hmem
    have hlater : diagnostic.later count ∈ (front ++ back).map (Diagnostic.later count) :=
      List.mem_map_of_mem hmem
    rw [← hsame] at hlater
    have hleft := hseen _ hlater
    exact hleft
  · intro hall
    rcases hends with ⟨rfl, rfl⟩ | ⟨number, rest, rfl⟩
    · rw [List.append_nil] at hall ⊢
      rw [List.filter_eq_self.2 hall, List.append_nil]
    · have hsecond := hall ⟨number, .structural .secondBegin⟩ (by simp)
      cases hsecond

/-- More diagnostics in front, of which those are left that are seen. -/
theorem Masks.cons {count : Nat} {found left first : List Diagnostic} (h : Masks count found left) :
    Masks count (first ++ found)
      ((first.filter Diagnostic.isSeen).map (Diagnostic.later count) ++ left) := by
  rcases h with ⟨hseen, front, back, more, rfl, rfl, hends⟩
  refine ⟨?_, first ++ front, back, more, by simp, by simp, hends⟩
  refine List.forall_mem_append.2 ⟨fun diagnostic hmem => ?_, hseen⟩
  rcases List.mem_map.1 hmem with ⟨other, hother, rfl⟩
  exact (List.mem_filter.1 hother).2

namespace Outline

variable {globals : Globals} {outline other last last' : Outline} {count : Nat} {rest : List Line}

/-- A broken outline without entry block has the same footing as another one. -/
structure Beside (outline other : Outline) : Prop where
  footing : other.footing = outline.footing
  broken : other.isBroken = true
  root : other.root = none

/-- Diagnostics are only added to. -/
theorem exists_diagnostics_foldlM (h : rest.foldlM (readLine globals) outline = .ok last) :
    ∃ found, last.diagnostics = outline.diagnostics ++ found := by
  induction rest generalizing outline with
  | nil =>
    cases h
    exact ⟨[], (List.append_nil _).symm⟩
  | cons line behind ih =>
    rw [List.foldlM_cons] at h
    rcases exists_of_bind_ok h with ⟨between, hline, hrest⟩
    rcases ih hrest with ⟨found, hfound⟩
    rcases readLine_heeds hline with ⟨-, -, first, hfirst, -⟩ | ⟨-, hsecond⟩
    · exact ⟨first.map (Diagnostic.at line.number) ++ found, by rw [hfound, hfirst, List.append_assoc]⟩
    · exact ⟨⟨line.number, .structural .secondBegin⟩ :: found, by
        rw [hfound, hsecond]
        simp [report]⟩

/-- A line that is read by a broken outline without entry block. -/
theorem Heeds.of_broken {line : Line} {later : Outline}
    (hline : readLine globals outline line = .ok later) (hbroken : outline.isBroken = true)
    (hroot : outline.root = none) :
    later.footing = (outline.footing.judge globals line).2 ∧ later.isBroken = true ∧
      later.root = none ∧ later.diagnostics = outline.diagnostics ++
        (outline.footing.judge globals line).1.map (Diagnostic.at line.number) ∧
      ∀ e ∈ (outline.footing.judge globals line).1, e.isSeen = true := by
  rcases readLine_heeds hline with hheeds | ⟨hsome, -⟩
  · rcases hheeds.diagnostics with ⟨found, hfound, hseen, hall⟩
    rw [hall hbroken] at hfound
    refine ⟨hheeds.footing, hheeds.isBroken hbroken, (hheeds.root hbroken).trans hroot, hfound, ?_⟩
    intro e he
    rw [← hseen] at he
    exact (List.mem_filter.1 he).2
  · rw [hroot] at hsome
    cases hsome

/-- A broken outline without entry block adds only mistakes that are seen without nodes. -/
theorem exists_seen_foldlM (h : rest.foldlM (readLine globals) outline = .ok last)
    (hbroken : outline.isBroken = true) (hroot : outline.root = none) :
    ∃ found, last.diagnostics = outline.diagnostics ++ found ∧
      ∀ diagnostic ∈ found, diagnostic.isSeen = true := by
  induction rest generalizing outline with
  | nil =>
    cases h
    exact ⟨[], (List.append_nil _).symm, List.forall_mem_nil _⟩
  | cons line behind ih =>
    rw [List.foldlM_cons] at h
    rcases exists_of_bind_ok h with ⟨between, hline, hrest⟩
    rcases Heeds.of_broken hline hbroken hroot with ⟨-, hbetween, hnone, hfirst, hseen⟩
    rcases ih hrest hbetween hnone with ⟨found, hfound, hall⟩
    refine ⟨(outline.footing.judge globals line).1.map (Diagnostic.at line.number) ++ found,
      by rw [hfound, hfirst, List.append_assoc], List.forall_mem_append.2 ⟨?_, hall⟩⟩
    intro diagnostic hmem
    rcases List.mem_map.1 hmem with ⟨e, he, rfl⟩
    exact hseen e he

/-- The same lines are read by both, at later numbers by the broken one. -/
theorem Beside.foldlM_readLine (h : outline.Beside other)
    (hread : rest.foldlM (readLine globals) outline = .ok last)
    (hother : (rest.map (Line.later count)).foldlM (readLine globals) other = .ok last') :
    ∃ found left, last.diagnostics = outline.diagnostics ++ found ∧
      last'.diagnostics = other.diagnostics ++ left ∧ Masks count found left := by
  induction rest generalizing outline other with
  | nil =>
    cases hread
    cases hother
    exact ⟨[], [], (List.append_nil _).symm, (List.append_nil _).symm, List.forall_mem_nil _,
      [], [], [], rfl, rfl, .inl ⟨rfl, rfl⟩⟩
  | cons line behind ih =>
    rw [List.foldlM_cons] at hread
    rw [List.map_cons, List.foldlM_cons] at hother
    rcases exists_of_bind_ok hread with ⟨between, hline, hrest⟩
    rcases exists_of_bind_ok hother with ⟨between', hline', hrest'⟩
    rcases Heeds.of_broken hline' h.broken h.root with ⟨hfooting', hbroken', hroot', hfirst', hseen'⟩
    rcases readLine_heeds hline with ⟨hfooting, -, first, hfirst, hseen, -⟩ | ⟨-, hsecond⟩
    · have hverdict : other.footing.judge globals (line.later count) =
          outline.footing.judge globals line := by
        rw [h.footing]
        rfl
      rw [hverdict] at hfooting' hfirst'
      rcases ih ⟨hfooting'.trans hfooting.symm, hbroken', hroot'⟩ hrest hrest' with
        ⟨found, left, hfound, hleft, hmasks⟩
      refine ⟨first.map (Diagnostic.at line.number) ++ found, _,
        by rw [hfound, hfirst, List.append_assoc], ?_, hmasks.cons⟩
      rw [hleft, hfirst', ← hseen, List.filter_map, List.map_map, List.append_assoc]
      rfl
    · -- The second entry block is not told by the broken outline.
      rcases exists_diagnostics_foldlM hrest with ⟨found, hfound⟩
      rcases exists_seen_foldlM hrest' hbroken' hroot' with ⟨left, hleft, hall⟩
      refine ⟨⟨line.number, .structural .secondBegin⟩ :: found,
        (other.footing.judge globals (line.later count)).1.map
          (Diagnostic.at (line.later count).number) ++ left, ?_,
        by rw [hleft, hfirst', List.append_assoc], ?_, [], _, _, rfl, rfl, .inr ⟨_, _, rfl⟩⟩
      · rw [hfound, hsecond]
        simp [report]
      · refine List.forall_mem_append.2 ⟨fun diagnostic hmem => ?_, hall⟩
        rcases List.mem_map.1 hmem with ⟨e, he, rfl⟩
        exact hseen' e he

/-- At the end of a script without mistakes, at most one is found, and none otherwise. -/
theorem finish_cases (outline : Outline) (number : Nat) : outline.finish number = outline ∨
    outline.isBroken = false ∧ ∃ e : StructureError, e.isSeen = false ∧
      outline.finish number = outline.report number e := by
  unfold finish
  split
  · exact .inl rfl
  · next hfine =>
    have hfine : outline.isBroken = false := Bool.eq_false_iff.2 hfine
    split
    · exact .inr ⟨hfine, .noBegin, rfl, rfl⟩
    · split
      · exact .inl rfl
      · next kind htop => exact .inr ⟨hfine, .unterminated kind.closing, rfl, rfl⟩

/-- The end of a script hides nothing more. -/
theorem Beside.finish (h : outline.Beside other) (number number' : Nat)
    (hread : rest.foldlM (readLine globals) outline = .ok last)
    (hother : (rest.map (Line.later count)).foldlM (readLine globals) other = .ok last') :
    ∃ found left, (last.finish number).diagnostics = outline.diagnostics ++ found ∧
      (last'.finish number').diagnostics = other.diagnostics ++ left ∧ Masks count found left := by
  rcases h.foldlM_readLine hread hother with ⟨found, left, hfound, hleft, hmasks⟩
  have hbroken : last'.isBroken = true := foldlM_readLine_broken h.broken hother
  have hfinish : last'.finish number' = last' := by
    unfold Outline.finish
    rw [if_pos hbroken]
  rw [hfinish]
  rcases last.finish_cases number with hsame | ⟨hfine, e, he, hreported⟩
  · exact ⟨found, left, by rw [hsame, hfound], hleft, hmasks⟩
  · -- The script has no other mistake.
    have hnone : outline.diagnostics = [] ∧ found = [] := by
      unfold isBroken at hfine
      rw [hfound] at hfine
      simpa using hfine
    rcases hnone with ⟨houtline, rfl⟩
    have hempty := hmasks.eq_iff.2 (List.forall_mem_nil _)
    refine ⟨[Diagnostic.at number e], left, ?_, hleft, hmasks.1, [Diagnostic.at number e], [], [], rfl, ?_,
      .inl ⟨rfl, rfl⟩⟩
    · rw [hreported, report, hfound, List.append_nil]
      rfl
    · rw [hempty, List.filter_cons_of_neg (by simpa [Diagnostic.isSeen, Diagnostic.at] using he)]
      rfl

/-- Outside of blocks, a declaration with a name that is none is reported. -/
theorem readLine_of_badName {bad : Line} {token : Token} (hclosed : outline.blocks = [])
    (hkeyword : bad.keyword? = some .declaration) (htoken : bad.tokens[1]? = some token)
    (hname : isIdentifier token.text = false) : readLine globals outline bad =
      .ok (outline.report bad.number (.badVariableName (String.ofList token.text))) := by
  have htop : outline.top?.isSome = false := by
    unfold top?
    rw [hclosed]
    rfl
  rw [readLine_eq, hkeyword]
  show outline.readDeclaration globals bad (clean .everything bad.text) bad.tokens = _
  unfold readDeclaration
  rw [htop, htoken]
  simp only [Bool.false_eq_true, if_false, hname, Bool.not_false, if_true]
  rfl

/-- A mistake that is reported leaves an outline without entry block beside the outline as it was. -/
theorem beside_report (hroot : outline.root = none) (number : Nat) (e : StructureError) :
    outline.Beside (outline.report number e) where
  footing := (turns_report outline number e).footing_eq
  broken := isBroken_report outline number e
  root := hroot

end Outline

/-! ## Programs -/

namespace Program

/-- A declaration with a name that is none, behind the header of a script, is one more mistake.  Of the
other mistakes, those are left that are seen without nodes, up to a second entry block at most; all of
them are left exactly if all are seen without nodes. -/
theorem parse_marred {globals : Globals} {header bad : Line} {token : Token}
    (hkeyword : bad.keyword? = some .declaration) (htoken : bad.tokens[1]? = some token)
    (hname : isIdentifier token.text = false) (program : Program) (rest : List Line) (count : Nat) :
    ∃ parsed marred found left, program.parse globals (header :: rest) = .ok parsed ∧
      program.parse globals (header :: bad :: rest.map (Line.later count)) = .ok marred ∧
      parsed.diagnostics =
        program.diagnostics ++ (Outline.start.readHeader header).diagnostics ++ found ∧
      marred.diagnostics = program.diagnostics ++ (Outline.start.readHeader header).diagnostics ++
        ⟨bad.number, .structural (.badVariableName (String.ofList token.text))⟩ :: left ∧
      marred.state = .compileError ∧ Masks count found left ∧
      (left = found.map (Diagnostic.later count) ↔ ∀ diagnostic ∈ found, diagnostic.isSeen = true) := by
  rcases exists_readLines globals (header :: rest) with ⟨last, hread⟩
  rcases exists_readLines globals (header :: bad :: rest.map (Line.later count)) with ⟨last', hread'⟩
  have hreport := @Outline.readLine_of_badName globals _ _ _ (blocks_readHeader header) hkeyword htoken
    hname
  have hbody : (rest.map (Line.later count)).foldlM (Outline.readLine globals)
      ((Outline.start.readHeader header).report bad.number
        (.badVariableName (String.ofList token.text))) = .ok last' := by
    have hread' : (bad :: rest.map (Line.later count)).foldlM (Outline.readLine globals)
        (Outline.start.readHeader header) = .ok last' := hread'
    rw [List.foldlM_cons, hreport] at hread'
    exact hread'
  have hbeside := Outline.beside_report (Outline.readHeader_spec header).2.2.1 bad.number
    (.badVariableName (String.ofList token.text))
  rcases hbeside.finish (((header :: rest).getLast?.map Line.number).getD 1)
      (((header :: bad :: rest.map (Line.later count)).getLast?.map Line.number).getD 1) hread hbody with
    ⟨found, left, hfound, hleft, hmasks⟩
  rcases parse_of_read program hread rfl with ⟨parsed, hparsed, -, -, hdiagnostics⟩
  rcases parse_of_read program hread' rfl with ⟨marred, hmarred, htree, hstate, hdiagnostics'⟩
  have hbroken : (last'.finish (((header :: bad :: rest.map (Line.later count)).getLast?.map
      Line.number).getD 1)).isBroken = true := by
    unfold Outline.isBroken
    rw [hleft]
    simp [Outline.report]
  refine ⟨parsed, marred, found, left, hparsed, hmarred, ?_, ?_, ?_, hmasks, hmasks.eq_iff⟩
  · rw [hdiagnostics, hfound, List.append_assoc]
  · rw [hdiagnostics', hleft]
    simp [Outline.report]
  · rw [hstate, htree, hbroken]
    rfl

/-- A script with a second {lit}`else` and a second entry block. -/
def doubled : List Line :=
  numbered ["scriptname A", "begin", "if 1", "else", "else", "endif", "end", "begin", "end"]

/-- The script with a declaration of a name that is none. -/
def marred : List Line :=
  numbered ["scriptname A", "variable 1x", "begin", "if 1", "else", "else", "endif", "end", "begin",
    "end"]

/-- What is reported of a script. -/
def reported? (lines : List Line) : Option (List Diagnostic) :=
  ((fresh 1 none).parse .empty lines).toOption.map Program.diagnostics

/-- What is reported of a script is what its program holds. -/
theorem diagnostics_of_reported? {lines : List Line} {parsed : Program} {found : List Diagnostic}
    (hfound : reported? lines = some found) (hparsed : (fresh 1 none).parse .empty lines = .ok parsed) :
    parsed.diagnostics = found := by
  unfold reported? at hfound
  rw [hparsed] at hfound
  exact Option.some.inj hfound

/-- Three mistakes are reported in the script, and none of them behind the declaration. -/
theorem parse_marred_doubled : ∃ parsed other,
    (fresh 1 none).parse .empty doubled = .ok parsed ∧ (fresh 1 none).parse .empty marred = .ok other ∧
      parsed.diagnostics = [⟨5, .structural .secondElse⟩, ⟨8, .structural .secondBegin⟩,
        ⟨9, .structural .endWithoutBegin⟩] ∧
      other.diagnostics = [⟨2, .structural (.badVariableName "1x")⟩] := by
  have hmarred : marred = ⟨1, "scriptname A".toList⟩ :: ⟨2, "variable 1x".toList⟩ ::
      doubled.tail.map (Line.later 1) := by
    decide +kernel
  rcases @parse_marred .empty ⟨1, "scriptname A".toList⟩ ⟨2, "variable 1x".toList⟩
      ⟨"1x".toList, 9⟩ (by decide +kernel) (by decide +kernel) (by decide +kernel) (fresh 1 none)
      doubled.tail 1 with
    ⟨parsed, other, -, -, hparsed, hother, -⟩
  rw [← hmarred] at hother
  exact ⟨parsed, other, hparsed, hother, diagnostics_of_reported? (by decide +kernel) hparsed,
    diagnostics_of_reported? (by decide +kernel) hother⟩

end Program

end ScriptMachine
