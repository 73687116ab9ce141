import ScriptMachine.Proofs.Casing
import ScriptMachine.Proofs.Resolving

/-!
# Names of variables and parameters

Whatever lines come, good or bad and in whatever order, a script has a name for each of its variables
that no other has, and every spelling of a name leads to the slot of its variable.  The lines of blocks
change neither variables nor parameters, a declaration adds a variable whose name is new, and only the
opening line of an entry block adds parameters, ten at most.

A script without mistakes has one such line.  Behind a mistake no entry block is remembered, so another
opening line is read like the first, and its parameters come on top of those that are there.

Main results:

- {lit}`Outline.readLine_turns`: what lines leave alone.
- {lit}`Outline.readDeclaration_cases` and {lit}`Outline.readBegin_cases`: what the others do.
- {lit}`Outline.Named.readLine`: names stay in order.
- {lit}`Outline.length_parameters_foldlM` and {lit}`Outline.length_parameters_of_entered`: how many
  parameters there are.
- {lit}`Program.parse_names`: the variables and parameters of a script.
-/

namespace ScriptMachine

open Source Text

/-- Two steps that come to an end have a result in between. -/
theorem exists_of_bind_ok {α β : Type} {step : Except Fault α} {next : α → Except Fault β} {y : β}
    (h : step >>= next = .ok y) : ∃ x, step = .ok x ∧ next x = .ok y := by
  cases step with
  | error fault => cases h
  | ok x => exact ⟨x, rfl, h⟩

/-- A line opens an entry block by its keyword. -/
def Source.Line.opensEntry (line : Line) : Bool :=
  line.keyword? == some .beginBlock

/-! ## What lines leave alone -/

/-- The kind of a block, whether it has branches already or not. -/
def BlockKind.plain : BlockKind → BlockKind
  | .branched => .conditional
  | kind => kind

namespace Outline

/-- The kinds of the open blocks, innermost first. -/
def kinds (outline : Outline) : List BlockKind :=
  outline.blocks.map fun block => block.kind.plain

/-- An outline has the variables, the parameters and the entry block of an earlier one, and blocks of
certain kinds are open in it. -/
structure Turns (outline : Outline) (kinds : List BlockKind) (later : Outline) : Prop where
  declarations : later.declarations = outline.declarations
  parameters : later.parameters = outline.parameters
  root : later.root = outline.root
  kinds : later.kinds = kinds

variable {globals : Globals} {outline later : Outline} {line : Line}

/-- An outline is still the same. -/
theorem Turns.refl (outline : Outline) : outline.Turns outline.kinds outline :=
  ⟨rfl, rfl, rfl, rfl⟩

/-- Reporting a mistake. -/
theorem turns_report (outline : Outline) (number : Nat) (e : StructureError) :
    outline.Turns outline.kinds (outline.report number e) :=
  ⟨rfl, rfl, rfl, rfl⟩

/-- Opening a block. -/
theorem Turns.openBlock {kinds : List BlockKind} (h : outline.Turns kinds later) (kind : BlockKind)
    (node : Option Nat) : outline.Turns (kind.plain :: kinds) (later.openBlock kind node) where
  declarations := h.declarations
  parameters := h.parameters
  root := h.root
  kinds := by rw [← h.kinds]; rfl

/-- Closing a block. -/
theorem turns_closeBlock (outline : Outline) :
    outline.Turns outline.kinds.tail outline.closeBlock := by
  refine ⟨rfl, rfl, rfl, ?_⟩
  unfold kinds closeBlock
  rw [List.map_tail]

/-- Attaching a node. -/
theorem turns_attach {node : Node} {id : Nat} (h : outline.attach node = .ok (id, later)) :
    outline.Turns outline.kinds later := by
  unfold attach at h
  split at h
  · cases h
  · split at h
    · cases h
    · split at h
      · cases h
      · cases h
        exact ⟨rfl, rfl, rfl, rfl⟩

/-- Opening a block with a node. -/
theorem turns_openAttached {kind : BlockKind} {node : Node}
    (h : outline.openAttached kind node = .ok later) :
    outline.Turns (kind.plain :: outline.kinds) later := by
  unfold openAttached at h
  split at h
  · cases h
    exact (Turns.refl outline).openBlock kind none
  · rcases exists_of_bind_ok h with ⟨⟨id, attached⟩, hattach, hlater⟩
    cases hlater
    exact (turns_attach hattach).openBlock kind (some id)

/-- Reading the head of a block with a condition. -/
theorem turns_readConditioned {keyword : Keyword} {what : String} {block : BlockKind}
    {kind : NodeKind} (h : outline.readConditioned line keyword what block kind = .ok later)
    (hopen : outline.top?.isNone = false) :
    outline.Turns (block.plain :: outline.kinds) later := by
  unfold readConditioned at h
  rw [hopen] at h
  rcases exists_of_bind_ok h with ⟨condition, -, hattached⟩
  dsimp only at hattached
  -- A mistake changes none of this.
  split at hattached
  · have hopened := turns_openAttached hattached
    exact ⟨hopened.declarations, hopened.parameters, hopened.root, hopened.kinds⟩
  · exact turns_openAttached hattached

/-- Reading the head of a loop over an array. -/
theorem turns_readForEach {text : List Char} {tokens : List Token}
    (h : outline.readForEach line text tokens = .ok later) (hopen : outline.top?.isNone = false) :
    outline.Turns (.loop :: outline.kinds) later := by
  have hreported : ∀ e, .ok ((outline.report line.number e).openBlock .loop none) =
      (.ok later : Except Fault Outline) → outline.Turns (.loop :: outline.kinds) later := by
    intro e he
    cases he
    exact (turns_report outline line.number e).openBlock .loop none
  unfold readForEach at h
  rw [hopen] at h
  simp only [Bool.false_eq_true, if_false] at h
  split at h
  · split at h
    · split at h
      · exact hreported _ h
      · rcases exists_of_bind_ok h with ⟨expression, -, hattached⟩
        exact turns_openAttached hattached
    · exact hreported _ h
  · exact hreported _ h

/-- Adding a branch. -/
theorem turns_addBranch {keyword : Keyword} {condition : Option (List Char)} {block : OpenBlock}
    {outer : List OpenBlock} (h : outline.addBranch line keyword condition block outer = .ok later)
    (hblocks : outline.blocks = block :: outer) : outline.Turns outline.kinds later := by
  unfold addBranch at h
  split at h
  · cases h
  · split at h
    · cases h
    · split at h
      · split at h
        · cases h
          exact turns_report _ _ _
        · cases h
          refine ⟨rfl, rfl, rfl, ?_⟩
          unfold kinds
          rw [hblocks]
          rfl
      · cases h

/-- Reading a branch. -/
theorem turns_readBranch {keyword : Keyword} (h : outline.readBranch line keyword = .ok later) :
    outline.Turns outline.kinds later := by
  have hreported : ∀ e, .ok (outline.report line.number e) = (.ok later : Except Fault Outline) →
      outline.Turns outline.kinds later := by
    intro e he
    cases he
    exact turns_report outline line.number e
  unfold readBranch at h
  split at h
  · next block outer hblocks =>
    split at h
    · next hkind =>
      -- The block is of the same kind, apart from its branches.
      have hturns : outline.Turns outline.kinds
          { outline with blocks := { block with kind := .branched } :: outer } := by
        refine ⟨rfl, rfl, rfl, ?_⟩
        unfold kinds
        rw [hblocks]
        rcases hkind with hkind | hkind <;> simp [hkind, BlockKind.plain]
      have hbranched : ∃ condition, (if condition = some [] then
          .ok (outline.report line.number .noCondition)
        else if ({ outline with blocks := { block with kind := .branched } :: outer } :
            Outline).isBroken then
          .ok { outline with blocks := { block with kind := .branched } :: outer }
        else
          ({ outline with blocks := { block with kind := .branched } :: outer } : Outline).addBranch
            line keyword condition { block with kind := .branched } outer) =
          (.ok later : Except Fault Outline) := by
        split at h
        · rcases exists_of_bind_ok h with ⟨condition, -, hbranched⟩
          exact ⟨condition, hbranched⟩
        · exact ⟨none, h⟩
      rcases hbranched with ⟨condition, hbranched⟩
      split at hbranched
      · exact hreported _ hbranched
      · split at hbranched
        · cases hbranched
          exact hturns
        · have hadded := turns_addBranch hbranched rfl
          exact ⟨hadded.declarations, hadded.parameters, hadded.root, hadded.kinds.trans hturns.kinds⟩
    · exact hreported _ h
  · exact hreported _ h

/-- Reading a statement. -/
theorem turns_readStatement {keyword : Option Keyword}
    (h : outline.readStatement line keyword = .ok later) : outline.Turns outline.kinds later := by
  have hreported : ∀ e, .ok (outline.report line.number e) = (.ok later : Except Fault Outline) →
      outline.Turns outline.kinds later := by
    intro e he
    cases he
    exact turns_report outline line.number e
  -- What remains when the statement is no loop jump or stands inside of a loop.
  have hattached : (do
      if outline.isBroken then return outline
      let expression ← statementText line keyword
      let attached ← outline.attach (newNode .expression line (some expression))
      return attached.2) = (.ok later : Except Fault Outline) → outline.Turns outline.kinds later := by
    intro hrun
    split at hrun
    · cases hrun
      exact .refl outline
    · rcases exists_of_bind_ok hrun with ⟨expression, -, hrest⟩
      rcases exists_of_bind_ok hrest with ⟨attached, hattach, hlater⟩
      cases hlater
      exact turns_attach hattach
  unfold readStatement at h
  split at h
  · exact hreported _ h
  · dsimp only at h
    split at h
    · split at h
      · exact hreported _ h
      · exact hattached h
    · exact hattached h

/-- Lines other than declarations and opening lines of entry blocks change neither the variables and
parameters nor the entry block. -/
theorem readLine_turns (h : readLine globals outline line = .ok later)
    (hdeclaration : line.keyword? ≠ some .declaration) (hopening : line.keyword? ≠ some .beginBlock) :
    ∃ kinds, outline.Turns kinds later := by
  have hreported : ∀ number e, .ok (outline.report number e) = (.ok later : Except Fault Outline) →
      ∃ kinds, outline.Turns kinds later := by
    intro number e he
    cases he
    exact ⟨_, turns_report outline number e⟩
  have hclosed : .ok outline.closeBlock = (.ok later : Except Fault Outline) →
      ∃ kinds, outline.Turns kinds later := by
    intro hlater
    cases hlater
    exact ⟨_, turns_closeBlock outline⟩
  have hconditioned : ∀ keyword what block kind,
      outline.readConditioned line keyword what block kind = .ok later →
      ∃ kinds, outline.Turns kinds later := by
    intro keyword what block kind hread
    cases hopen : outline.top?.isNone with
    | false => exact ⟨_, turns_readConditioned hread hopen⟩
    | true =>
      unfold readConditioned at hread
      rw [hopen] at hread
      exact hreported _ _ hread
  rw [readLine_eq] at h
  split at h
  case h_1 => exact hreported _ _ h
  case h_2 hkeyword => exact absurd hkeyword hdeclaration
  case h_3 hkeyword => exact absurd hkeyword hopening
  case h_4 =>
    unfold readEnd at h
    split at h
    · exact hclosed h
    · exact hreported _ _ h
  case h_5 => exact hconditioned _ _ _ _ h
  case h_6 =>
    cases hopen : outline.top?.isNone with
    | false => exact ⟨_, turns_readForEach h hopen⟩
    | true =>
      unfold readForEach at h
      rw [hopen] at h
      exact hreported _ _ h
  case h_7 =>
    unfold readLoop at h
    split at h
    · exact hclosed h
    · exact hreported _ _ h
  case h_8 => exact hconditioned _ _ _ _ h
  case h_9 => exact ⟨_, turns_readBranch h⟩
  case h_10 => exact ⟨_, turns_readBranch h⟩
  case h_11 =>
    unfold readEndIf at h
    split at h
    · exact hclosed h
    · exact hreported _ _ h
  case h_12 => exact ⟨_, turns_readStatement h⟩

/-! ## Declarations and opening lines -/

/-- A declaration reports a mistake, or it declares a variable. -/
theorem readDeclaration_cases (h : readLine globals outline line = .ok later)
    (hkeyword : line.keyword? = some .declaration) :
    (∃ e, later = outline.report line.number e) ∨ outline.top? = none ∧
      ∃ fresh, line.IsDeclaration globals outline.declarations fresh ∧
        later = { outline with declarations := outline.declarations ++ [fresh] } := by
  have hreported : ∀ e, .ok (outline.report line.number e) = (.ok later : Except Fault Outline) →
      ∃ e, later = outline.report line.number e := by
    intro e he
    cases he
    exact ⟨e, rfl⟩
  have hread := h
  rw [readLine_eq, hkeyword] at hread
  dsimp only at hread
  unfold readDeclaration at hread
  split at hread
  · exact .inl (hreported _ hread)
  · next hopen =>
    have htop : outline.top? = none := by simpa using hopen
    split at hread
    · exact .inl (hreported _ hread)
    · next token htoken =>
      by_cases hname : isIdentifier token.text = true
      · cases hnew : Program.slotIn? outline.declarations (String.ofList token.text) with
        | some slot =>
          simp only [hname, hnew] at hread
          exact .inl (hreported _ hread)
        | none =>
          by_cases hglobal : globals.contains (String.ofList token.text) = true
          · simp only [hname, hnew, hglobal] at hread
            exact .inl (hreported _ hread)
          · -- The declaration is well-formed, so it is read as one.
            rcases Line.exists_fromToken (List.mem_of_getElem? htoken) with ⟨text, htext⟩
            have hline : line.IsDeclaration globals outline.declarations
                ⟨fold (String.ofList token.text),
                  if 2 < line.tokens.length then some text else none, line.number⟩ := by
              refine ⟨hkeyword, token, htoken, hname, hnew, Bool.eq_false_iff.2 hglobal, rfl, rfl, ?_⟩
              split
              · exact ⟨text, rfl, htext⟩
              · rfl
            have hdeclared := readLine_declaration htop hline
            rw [h] at hdeclared
            cases hdeclared
            exact .inr ⟨htop, _, hline, rfl⟩
      · simp only [Bool.eq_false_iff.2 hname] at hread
        exact .inl (hreported _ hread)

/-- A parameter is reported, or it is a new one. -/
theorem readParameter_cases (number : Nat) (outline : Outline) (token : Token) :
    (∃ e, readParameter number outline token = outline.report number e) ∨
      ∃ slot, slot < outline.declarations.length ∧ slot ∉ outline.parameters ∧
        readParameter number outline token =
          { outline with parameters := outline.parameters ++ [slot] } := by
  unfold readParameter
  dsimp only
  split
  · exact .inl ⟨_, rfl⟩
  · next slot hslot =>
    split
    · exact .inl ⟨_, rfl⟩
    · next hseen =>
      exact .inr ⟨slot, (List.findIdx?_eq_some_iff_getElem.1 hslot).1, by simpa using hseen, rfl⟩

/-- Parameters that are added to those of an outline, in a row, each of them new. -/
structure AddsParameters (outline : Outline) (count : Nat) (later : Outline) : Prop where
  declarations : later.declarations = outline.declarations
  nodup : outline.parameters.Nodup → later.parameters.Nodup
  lt : ∀ slot ∈ later.parameters, slot ∈ outline.parameters ∨ slot < outline.declarations.length
  length : later.parameters.length ≤ outline.parameters.length + count

/-- One more parameter, or a mistake. -/
theorem addsParameters_readParameter (number : Nat) (outline : Outline) (token : Token) :
    outline.AddsParameters 1 (readParameter number outline token) := by
  rcases readParameter_cases number outline token with ⟨e, he⟩ | ⟨slot, hslot, hnew, he⟩
  · rw [he]
    exact ⟨rfl, id, fun _ hmem => .inl hmem, by simp [report]⟩
  · rw [he]
    refine ⟨rfl, fun hnodup => ?_, fun other hother => ?_, by simp⟩
    · exact List.nodup_append.2 ⟨hnodup, by simp, by
        rintro first hfirst _ hsecond rfl
        rw [List.mem_singleton.1 hsecond] at hfirst
        exact hnew hfirst⟩
    · rcases List.mem_append.1 hother with hold | hadded
      · exact .inl hold
      · rw [List.mem_singleton.1 hadded]
        exact .inr hslot

/-- The parameters of an opening line. -/
theorem addsParameters_foldl (number : Nat) (outline : Outline) (tokens : List Token) :
    outline.AddsParameters tokens.length (tokens.foldl (readParameter number) outline) := by
  induction tokens generalizing outline with
  | nil => exact ⟨rfl, id, fun _ hmem => .inl hmem, Nat.le_refl _⟩
  | cons token rest ih =>
    have hfirst := addsParameters_readParameter number outline token
    have hrest := ih (readParameter number outline token)
    refine ⟨hrest.declarations.trans hfirst.declarations,
      fun hnodup => hrest.nodup (hfirst.nodup hnodup), fun slot hslot => ?_, ?_⟩
    · rcases hrest.lt slot hslot with hold | hless
      · exact hfirst.lt slot hold
      · rw [hfirst.declarations] at hless
        exact .inr hless
    · have hlength := hfirst.length
      have hlength' := hrest.length
      rw [List.foldl_cons, List.length_cons]
      omega

/-- An opening line reports a mistake, or there was no entry block and it adds ten parameters at most
to those that are there.  Then the entry block is there, unless there is a mistake. -/
theorem readBegin_cases (outline : Outline) (line : Line) (tokens : List Token) :
    (∃ e, outline.readBegin line tokens = outline.report line.number e) ∨
      outline.root = none ∧ (∃ between, outline.AddsParameters maxParameters between ∧
        (outline.readBegin line tokens).declarations = between.declarations ∧
        (outline.readBegin line tokens).parameters = between.parameters) ∧
      ((outline.readBegin line tokens).isBroken = false →
        (outline.readBegin line tokens).root.isSome = true) := by
  unfold readBegin
  split
  · exact .inl ⟨_, rfl⟩
  · split
    · exact .inl ⟨_, rfl⟩
    · next hroot =>
      refine .inr ⟨by simpa using hroot, ?_⟩
      dsimp only
      -- The outline behind the parameters.
      generalize hbetween : (if maxParameters < (tokens.drop 1).length then
        outline.report line.number (.tooManyParameters (tokens.drop 1).length)
        else (tokens.drop 1).foldl (readParameter line.number) outline) = between
      have hadds : outline.AddsParameters maxParameters between := by
        rw [← hbetween]
        split
        · exact ⟨rfl, fun hnodup => hnodup, fun _ hmem => .inl hmem, by simp [report]⟩
        · next hfew =>
          have hall := addsParameters_foldl line.number outline (tokens.drop 1)
          exact ⟨hall.declarations, hall.nodup, hall.lt,
            Nat.le_trans hall.length (Nat.add_le_add_left (Nat.not_lt.1 hfew) _)⟩
      split
      · next hbroken =>
        refine ⟨⟨between, hadds, rfl, rfl⟩, fun hfine => ?_⟩
        rw [show (between.openBlock .entry none).isBroken = between.isBroken from rfl, hbroken] at hfine
        cases hfine
      · exact ⟨⟨between, hadds, rfl, rfl⟩, fun _ => rfl⟩

/-! ## Names in order -/

/-- The variables of an outline have different names, which are folded identifiers and name no global,
and its parameters are different variables. -/
structure Named (globals : Globals) (outline : Outline) : Prop where
  distinct : (outline.declarations.map Variable.name).Nodup
  name : ∀ declared ∈ outline.declarations, isIdentifier declared.name.toList = true ∧
    fold declared.name = declared.name ∧ globals.contains declared.name = false
  parameters : outline.parameters.Nodup
  parameter : ∀ slot ∈ outline.parameters, slot < outline.declarations.length

/-- Names stay in order where variables stay and parameters are added. -/
theorem Named.of_addsParameters (h : outline.Named globals) {between : Outline} {count : Nat}
    (hadds : outline.AddsParameters count between) (hdeclarations : later.declarations = between.declarations)
    (hparameters : later.parameters = between.parameters) : later.Named globals where
  distinct := by
    rw [hdeclarations, hadds.declarations]
    exact h.distinct
  name := by
    rw [hdeclarations, hadds.declarations]
    exact h.name
  parameters := by
    rw [hparameters]
    exact hadds.nodup h.parameters
  parameter := by
    intro slot hslot
    rw [hparameters] at hslot
    rw [hdeclarations, hadds.declarations]
    exact (hadds.lt slot hslot).elim (h.parameter slot) id

/-- Names stay in order where variables and parameters stay. -/
theorem Named.of_turns (h : outline.Named globals) {kinds : List BlockKind}
    (hturns : outline.Turns kinds later) : later.Named globals := by
  have hnone : outline.AddsParameters 0 outline :=
    ⟨rfl, id, fun _ hmem => .inl hmem, Nat.le_refl _⟩
  exact h.of_addsParameters hnone hturns.declarations hturns.parameters

/-- Names stay in order when a variable is declared: its name is none of theirs. -/
theorem Named.declare (h : outline.Named globals) {fresh : Variable}
    (hline : line.IsDeclaration globals outline.declarations fresh) :
    ({ outline with declarations := outline.declarations ++ [fresh] } : Outline).Named globals := by
  rcases hline with ⟨-, token, -, hname, hnew, hglobal, hfresh, -, -⟩
  have hnone : ∀ declared ∈ outline.declarations, declared.name ≠ fresh.name := by
    intro declared hdeclared hsame
    have hother := List.findIdx?_eq_none_iff.1 hnew declared hdeclared
    rw [← Bool.not_eq_true, sameName_iff, (h.name declared hdeclared).2.1, hsame, hfresh] at hother
    exact hother rfl
  refine ⟨?_, ?_, h.parameters, fun slot hslot => ?_⟩
  · rw [List.map_append, List.nodup_append]
    refine ⟨h.distinct, by simp, ?_⟩
    rintro name hold _ hadded rfl
    rcases List.mem_map.1 hold with ⟨declared, hdeclared, rfl⟩
    exact hnone declared hdeclared (List.mem_singleton.1 hadded)
  · intro declared hdeclared
    rcases List.mem_append.1 hdeclared with hold | hadded
    · exact h.name declared hold
    · rw [List.mem_singleton.1 hadded, hfresh]
      refine ⟨?_, fold_fold _, ?_⟩
      · rw [fold_ofList, String.toList_ofList, isIdentifier_lower]
        exact hname
      · rw [Globals.contains_fold]
        exact hglobal
  · have hless := h.parameter slot hslot
    rw [List.length_append]
    omega

/-- Reading a line keeps names in order. -/
theorem Named.readLine (h : outline.Named globals) (hread : readLine globals outline line = .ok later) :
    later.Named globals := by
  by_cases hdeclaration : line.keyword? = some .declaration
  · rcases readDeclaration_cases hread hdeclaration with ⟨e, rfl⟩ | ⟨-, fresh, hline, rfl⟩
    · exact h.of_turns (turns_report outline line.number e)
    · exact h.declare hline
  · by_cases hopening : line.keyword? = some .beginBlock
    · rw [readLine_eq, hopening] at hread
      cases hread
      rcases readBegin_cases outline line line.tokens with
        ⟨e, he⟩ | ⟨-, ⟨between, hadds, hdeclarations, hparameters⟩, -⟩
      · rw [he]
        exact h.of_turns (turns_report outline line.number e)
      · exact h.of_addsParameters hadds hdeclarations hparameters
    · rcases readLine_turns hread hdeclaration hopening with ⟨kinds, hturns⟩
      exact h.of_turns hturns

/-- So does reading lines one after the other. -/
theorem Named.foldlM_readLine (h : outline.Named globals) (lines : List Line)
    (hread : lines.foldlM (Outline.readLine globals) outline = .ok later) : later.Named globals := by
  induction lines generalizing outline with
  | nil =>
    cases hread
    exact h
  | cons line rest ih =>
    rw [List.foldlM_cons] at hread
    rcases exists_of_bind_ok hread with ⟨next, hline, hrest⟩
    exact ih (h.readLine hline) hrest

/-! ## The number of parameters -/

/-- Only an opening line adds parameters, ten at most. -/
theorem length_parameters_readLine (hread : readLine globals outline line = .ok later) :
    later.parameters.length ≤ outline.parameters.length +
      maxParameters * if line.opensEntry then 1 else 0 := by
  by_cases hopening : line.keyword? = some .beginBlock
  · have hopens : line.opensEntry = true := by simp [Line.opensEntry, hopening]
    rw [hopens, if_pos rfl, Nat.mul_one]
    rw [readLine_eq, hopening] at hread
    cases hread
    rcases readBegin_cases outline line line.tokens with
      ⟨e, he⟩ | ⟨-, ⟨between, hadds, -, hparameters⟩, -⟩
    · rw [he]
      exact Nat.le_add_right _ _
    · rw [hparameters]
      exact hadds.length
  · refine Nat.le_trans (Nat.le_of_eq (congrArg List.length ?_)) (Nat.le_add_right _ _)
    by_cases hdeclaration : line.keyword? = some .declaration
    · rcases readDeclaration_cases hread hdeclaration with ⟨e, rfl⟩ | ⟨-, fresh, -, rfl⟩
      · rfl
      · rfl
    · rcases readLine_turns hread hdeclaration hopening with ⟨kinds, hturns⟩
      exact hturns.parameters

/-- Lines add ten parameters at most for each opening line among them. -/
theorem length_parameters_foldlM (lines : List Line)
    (hread : lines.foldlM (readLine globals) outline = .ok later) :
    later.parameters.length ≤ outline.parameters.length +
      maxParameters * lines.countP Line.opensEntry := by
  induction lines generalizing outline with
  | nil =>
    cases hread
    exact Nat.le_add_right _ _
  | cons line rest ih =>
    rw [List.foldlM_cons] at hread
    rcases exists_of_bind_ok hread with ⟨next, hline, hrest⟩
    have hfirst := length_parameters_readLine hline
    have hothers := ih hrest
    rw [List.countP_cons, Nat.mul_add]
    omega

/-- Once there is an entry block, it stays, and so do the parameters. -/
theorem readLine_of_root (hroot : outline.root.isSome = true)
    (hread : readLine globals outline line = .ok later) :
    later.root = outline.root ∧ later.parameters = outline.parameters := by
  by_cases hdeclaration : line.keyword? = some .declaration
  · rcases readDeclaration_cases hread hdeclaration with ⟨e, rfl⟩ | ⟨-, fresh, -, rfl⟩ <;> exact ⟨rfl, rfl⟩
  · by_cases hopening : line.keyword? = some .beginBlock
    · rw [readLine_eq, hopening] at hread
      cases hread
      rcases readBegin_cases outline line line.tokens with ⟨e, he⟩ | ⟨hnone, -, -⟩
      · rw [he]
        exact ⟨rfl, rfl⟩
      · rw [hnone] at hroot
        cases hroot
    · rcases readLine_turns hread hdeclaration hopening with ⟨kinds, hturns⟩
      exact ⟨hturns.root, hturns.parameters⟩

/-- Once there is an entry block, all lines that follow leave it and the parameters alone. -/
theorem foldlM_readLine_of_root (lines : List Line) (hroot : outline.root.isSome = true)
    (hread : lines.foldlM (readLine globals) outline = .ok later) :
    later.root = outline.root ∧ later.parameters = outline.parameters := by
  induction lines generalizing outline with
  | nil =>
    cases hread
    exact ⟨rfl, rfl⟩
  | cons line rest ih =>
    rw [List.foldlM_cons] at hread
    rcases exists_of_bind_ok hread with ⟨next, hline, hrest⟩
    rcases readLine_of_root hroot hline with ⟨hroot', hparameters⟩
    rcases ih (by rw [hroot']; exact hroot) hrest with ⟨hlast, hlast'⟩
    exact ⟨hlast.trans hroot', hlast'.trans hparameters⟩

/-- Without a mistake, lines with an opening line among them lead to an entry block with ten parameters
at most, if there was neither one nor a parameter before. -/
theorem entered_of_foldlM (lines : List Line) (hroot : outline.root = none)
    (hnone : outline.parameters = []) (hread : lines.foldlM (readLine globals) outline = .ok later)
    (hfine : later.isBroken = false) (hopens : lines.any Line.opensEntry = true) :
    later.root.isSome = true ∧ later.parameters.length ≤ maxParameters := by
  induction lines generalizing outline with
  | nil => cases hopens
  | cons line rest ih =>
    rw [List.foldlM_cons] at hread
    rcases exists_of_bind_ok hread with ⟨next, hline, hrest⟩
    have hnext : next.isBroken = false := by
      cases hbroken : next.isBroken with
      | false => rfl
      | true =>
        rw [foldlM_readLine_broken hbroken hrest] at hfine
        cases hfine
    by_cases hopening : line.keyword? = some .beginBlock
    · -- This line opens the entry block, and nothing changes behind it.
      have hbegin := hline
      rw [readLine_eq, hopening] at hbegin
      cases hbegin
      rcases readBegin_cases outline line line.tokens with
        ⟨e, he⟩ | ⟨-, ⟨between, hadds, -, hparameters⟩, hentered⟩
      · rw [he, isBroken_report] at hnext
        cases hnext
      · rcases foldlM_readLine_of_root rest (hentered hnext) hrest with ⟨hlast, hlast'⟩
        have hlength := hadds.length
        rw [hnone] at hlength
        rw [hlast, hlast', hparameters]
        exact ⟨hentered hnext, by simpa using hlength⟩
    · have hother : rest.any Line.opensEntry = true := by
        simpa [Line.opensEntry, hopening] using hopens
      by_cases hdeclaration : line.keyword? = some .declaration
      · rcases readDeclaration_cases hline hdeclaration with ⟨e, rfl⟩ | ⟨-, fresh, -, rfl⟩
        · exact ih (by exact hroot) (by exact hnone) hrest hother
        · exact ih (by exact hroot) (by exact hnone) hrest hother
      · rcases readLine_turns hline hdeclaration hopening with ⟨kinds, hturns⟩
        exact ih (hturns.root.trans hroot) (hturns.parameters.trans hnone) hrest hother

/-- The header declares nothing, and a line without its keyword is a mistake there. -/
theorem readHeader_spec (header : Line) : (start.readHeader header).declarations = [] ∧
    (start.readHeader header).parameters = [] ∧ (start.readHeader header).root = none ∧
    (header.keyword? ≠ some .header → (start.readHeader header).isBroken = true) := by
  unfold readHeader
  dsimp only
  split
  · next hkeyword =>
    split
    · exact ⟨rfl, rfl, rfl, fun hother => absurd hkeyword hother⟩
    · exact ⟨rfl, rfl, rfl, fun hother => absurd hkeyword hother⟩
  · exact ⟨rfl, rfl, rfl, fun _ => rfl⟩

/-- Behind all lines names are in order, and there are ten parameters at most for each opening line. -/
theorem named_readLines {lines : List Line} (hread : readLines globals lines = .ok later) :
    later.Named globals ∧ later.parameters.length ≤ maxParameters * lines.countP Line.opensEntry := by
  have hempty : ∀ first : Outline, first.declarations = [] → first.parameters = [] →
      first.Named globals := by
    intro first hdeclarations hparameters
    constructor <;> simp [hdeclarations, hparameters]
  cases lines with
  | nil =>
    cases hread
    exact ⟨hempty _ rfl rfl, Nat.zero_le _⟩
  | cons header rest =>
    rcases readHeader_spec header with ⟨hdeclarations, hparameters, -, -⟩
    have hread : rest.foldlM (readLine globals) (start.readHeader header) = .ok later := hread
    have hlength := length_parameters_foldlM rest hread
    rw [hparameters] at hlength
    have hcount : rest.countP Line.opensEntry ≤ (header :: rest).countP Line.opensEntry :=
      (List.sublist_cons_self header rest).countP_le
    exact ⟨(hempty _ hdeclarations hparameters).foldlM_readLine rest hread, Nat.le_trans hlength
      (by simpa using Nat.mul_le_mul_left maxParameters hcount)⟩

/-- When some of the first lines are read without a mistake and an opening line is among them, there
are ten parameters at most, whatever follows. -/
theorem length_parameters_of_entered {front behind : List Line} {entered : Outline}
    (hfront : readLines globals front = .ok entered) (hfine : entered.isBroken = false)
    (hopens : front.any Line.opensEntry = true)
    (hread : readLines globals (front ++ behind) = .ok later) :
    later.parameters.length ≤ maxParameters := by
  cases front with
  | nil => cases hopens
  | cons header rest =>
    rcases readHeader_spec header with ⟨-, hnone, hroot, hmistake⟩
    have hfront : rest.foldlM (readLine globals) (start.readHeader header) = .ok entered := hfront
    have hopens : rest.any Line.opensEntry = true := by
      rw [List.any_cons, Bool.or_eq_true] at hopens
      refine hopens.resolve_left fun hheader => ?_
      have hkeyword : header.keyword? = some .beginBlock := by simpa [Line.opensEntry] using hheader
      rw [foldlM_readLine_broken (hmistake (by simp [hkeyword])) hfront] at hfine
      cases hfine
    have hread : (rest ++ behind).foldlM (readLine globals) (start.readHeader header) = .ok later :=
      hread
    rw [List.foldlM_append, hfront] at hread
    rcases entered_of_foldlM rest hroot hnone hfront hfine hopens with ⟨hentered, hlength⟩
    rw [(foldlM_readLine_of_root behind hentered hread).2]
    exact hlength

end Outline

/-! ## Programs -/

namespace Program

/-- When names are folded and different, the slot of a name in any spelling is that of the only variable
of the name. -/
theorem slotIn?_eq_some_iff {declarations : List Variable}
    (hdistinct : (declarations.map Variable.name).Nodup)
    (hfolded : ∀ declared ∈ declarations, fold declared.name = declared.name) (name : String)
    (slot : Nat) : slotIn? declarations name = some slot ↔
      ∃ declared, declarations[slot]? = some declared ∧ sameName declared.name name = true := by
  unfold slotIn?
  rw [List.findIdx?_eq_some_iff_getElem]
  constructor
  · rintro ⟨hlt, hsame, -⟩
    exact ⟨declarations[slot], List.getElem?_eq_getElem hlt, hsame⟩
  · rintro ⟨declared, hdeclared, hsame⟩
    rcases List.getElem?_eq_some_iff.1 hdeclared with ⟨hlt, rfl⟩
    refine ⟨hlt, hsame, fun earlier hless hother => ?_⟩
    -- An earlier variable would have the same name.
    have hlt' : earlier < declarations.length := Nat.lt_trans hless hlt
    rw [sameName_iff, hfolded _ (List.getElem_mem hlt)] at hsame
    rw [sameName_iff, hfolded _ (List.getElem_mem hlt'), ← hsame] at hother
    exact List.pairwise_iff_getElem.1 hdistinct earlier slot (by simpa using hlt') (by simpa using hlt)
      hless (by simpa using hother)

/-- The variables and parameters of a script, whatever its lines are and whether it is parsed or not.
The names of the variables are different folded identifiers, none of them the name of a global, and
every spelling of a name leads to its variable.  The parameters are different variables.  There are ten
of them at most when the script is parsed, or when at least its entry block is opened without a mistake
in that line or in front of it, and ten at most for each line that opens an entry block in any case. -/
theorem parse_names (globals : Globals) (program : Program) (lines : List Line) :
    ∃ parsed, program.parse globals lines = .ok parsed ∧
      (parsed.declarations.map Variable.name).Nodup ∧
      (∀ declared ∈ parsed.declarations, isIdentifier declared.name.toList = true ∧
        fold declared.name = declared.name ∧ globals.contains declared.name = false) ∧
      (∀ name slot, parsed.slot? name = some slot ↔
        ∃ declared, parsed.declarations[slot]? = some declared ∧ sameName declared.name name = true) ∧
      parsed.parameters.Nodup ∧
      (∀ slot ∈ parsed.parameters, slot < parsed.declarations.length) ∧
      (parsed.state = .parsed → parsed.parameters.length ≤ maxParameters) ∧
      (∀ front behind entered, lines = front ++ behind → Outline.readLines globals front = .ok entered →
        entered.isBroken = false → front.any Line.opensEntry = true →
        parsed.parameters.length ≤ maxParameters) ∧
      parsed.parameters.length ≤ maxParameters * lines.countP Line.opensEntry := by
  rcases exists_readLines globals lines with ⟨last, hread⟩
  rcases Outline.named_readLines hread with ⟨hnamed, hlength⟩
  generalize hnumber : (lines.getLast?.map Line.number).getD 1 = number
  have hfinished : (last.finish number).declarations = last.declarations ∧
      (last.finish number).parameters = last.parameters := by
    unfold Outline.finish
    split
    · exact ⟨rfl, rfl⟩
    · split
      · exact ⟨rfl, rfl⟩
      · split <;> exact ⟨rfl, rfl⟩
  have hparsed : ∃ parsed, program.parse globals lines = .ok parsed ∧
      parsed.declarations = last.declarations ∧ parsed.parameters = last.parameters := by
    unfold parse
    rw [hread]
    subst hnumber
    exact ⟨_, rfl, hfinished⟩
  rcases hparsed with ⟨parsed, hparsed, hdeclarations, hparameters⟩
  refine ⟨parsed, hparsed, ?_⟩
  unfold slot?
  rw [hdeclarations, hparameters]
  refine ⟨hnamed.distinct, hnamed.name, slotIn?_eq_some_iff hnamed.distinct fun declared hdeclared =>
    (hnamed.name declared hdeclared).2.1, hnamed.parameters, hnamed.parameter, fun hstate => ?_, ?_,
    hlength⟩
  · rcases exists_derives hparsed hstate with ⟨script, hscript⟩
    rw [← hparameters, (hscript.parse hparsed).2.2.2.2]
    exact hscript.2.opening.2.1
  · rintro front behind entered rfl hfront hfine hopens
    exact Outline.length_parameters_of_entered hfront hfine hopens hread

/-- A script with two opening lines, behind a statement outside of the entry block. -/
def crowded : List Char :=
  "scriptname A\nvariable a\nvariable b\nvariable c\nvariable d\nvariable e\nvariable f\nvariable g\nvariable h\nvariable i\nvariable j\nvariable k\nx\nbegin a b c d e f g h i j\nend\nbegin k\nend".toList

-- Both opening lines are read, and there are eleven parameters.
example : ((fresh 1 none).parse .empty (logicalLines crowded)).toOption.map Program.parameters =
    some (List.range 11) := by decide +kernel

end Program
end ScriptMachine
