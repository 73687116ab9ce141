import ScriptMachine.Proofs.Operands

/-!
# Written expressions are read back

The grammar tries its alternatives in a fixed order and never takes a choice back.  That is enough
for every text of a term: what looks like an assignment at first is one only if an assignment
operator follows the name and its indices, and each operand ends where its text ends.

Chains and indices are read by repetition but written by nesting to the left.  So what is shown of
them by induction speaks of everything that is still to come: a text in front of further links is
read as the first operand of them all.

Main results:

- {lit}`Led`: what the parser of a level makes of a text and of what follows it.
- {lit}`Written.led`: the parser of a level reads every text of the level.
- {lit}`Term.parse_of_written`: every text of a term is read back.
-/

namespace ScriptMachine

open Text Parser Grammar

variable {inner : Parser Term}

/-! ## Indices -/

/-- A text in front of any indices is read as what they are taken of. -/
def Indexed (inner : Parser Term) (term : Term) (w : List Char) : Prop :=
  ∀ rest positions r, Stops .primary rest → Repeats (index inner) positions rest r →
    (postfixed inner).Reads (positions.foldl .index term) (w ++ rest) r

/-- No index follows what ends an operand with all its indices. -/
theorem Stops.no_index {level : Level} {rest : List Char} (h : Stops level rest)
    (hlevel : level ≠ .primary) : (index inner).Rejects (unblanked rest) := by
  apply index_rejects
  rintro c hc rfl
  have hmem := h '[' hc
  cases level <;> first | exact hlevel rfl | exact absurd hmem (by decide)

/-- An operand has no indices of its own. -/
theorem Indexed.of_heard {term : Term} {w : List Char} (h : Heard inner .primary term w) :
    Indexed inner term w := by
  intro rest positions r hstops hpositions
  exact ((h rest hstops).bind_skip (hpositions.many.map fun positions =>
    positions.foldl .index term)).named _

/-- One more index. -/
theorem Indexed.index {target : Term} {w : List Char} {position : Position}
    (h : Indexed inner target w) (hgap : Blanks position.gap)
    (hposition : Understood inner position.inside) :
    Indexed inner (.index target position.inside.term) (w ++ position.written) := by
  intro rest positions r hstops hpositions
  have hnext : Stops .primary (position.written ++ rest) := by
    rw [Position.written, List.append_assoc]
    exact .of_gap hgap (by decide) _
  rw [List.append_assoc]
  exact h _ (position.inside.term :: positions) r hnext (hposition.repeats_cons hgap hpositions)

/-- An operand with its indices is read. -/
theorem Indexed.heard {term : Term} {w : List Char} (h : Indexed inner term w) :
    Heard inner .postfixed term w :=
  fun rest hstops => h rest [] rest hstops.primary (.stop (hstops.no_index (by decide)))

/-! ## Unary operators -/

/-- A text is read as some unary operators and an operand behind them. -/
def Signed (inner : Parser Term) (term : Term) (w : List Char) : Prop :=
  ∀ rest, Stops .unary rest → ∃ ops operand m, Repeats unaryOp ops (w ++ rest) m ∧
    (postfixed inner).Reads operand (unblanked m) rest ∧ ops.foldr .unary operand = term

/-- There may be no operator. -/
theorem Signed.of_heard {term : Term} {w : List Char} (hw : Written .postfixed term w)
    (h : Heard inner .postfixed term w) : Signed inner term w := by
  intro rest hstops
  have hfront := hw.unblanked_append rest
  refine ⟨[], term, w ++ rest, .stop ?_, ?_, rfl⟩
  · rcases hw.exists_cons with ⟨c, others, rfl, hc⟩
    have hne := ne_of_beginsOperand hc
    rw [hfront]
    exact unaryOp_rejects hne.1 hne.2.1
  · rw [hfront]
    exact h rest hstops

/-- One more operator. -/
theorem Signed.unary (op : UnaryOp) {operand : Term} {gap w : List Char} (hgap : Blanks gap)
    (h : Signed inner operand w) : Signed inner (.unary op operand) (op.symbol.toList ++ gap ++ w) := by
  intro rest hstops
  rcases h rest hstops with ⟨ops, last, m, hops, hlast, rfl⟩
  rcases hops.congr (unblanked_append hgap (w ++ rest)).symm with ⟨m', hrest, hleft⟩
  have hfront : unblanked (op.symbol.toList ++ gap ++ w ++ rest) =
      op.symbol.toList ++ (gap ++ (w ++ rest)) := by
    rw [List.append_assoc, List.append_assoc]
    cases op <;> exact unblanked_cons (by decide) (by decide) _
  refine ⟨op :: ops, last, m', .more ?_ ?_ hrest, by rw [hleft]; exact hlast, rfl⟩
  · rw [hfront]
    exact (op.takes _).reads
  · have hle := length_unblanked_le (gap ++ (w ++ rest))
    have hsymbol : 0 < op.symbol.toList.length := by cases op <;> decide
    rw [hfront, List.length_append]
    omega

/-- An operand with its unary operators is read. -/
theorem Signed.heard {term : Term} {w : List Char} (hw : Written .unary term w)
    (h : Signed inner term w) : Heard inner .unary term w := by
  intro rest hstops
  rcases h rest hstops with ⟨ops, operand, m, hops, hoperand, rfl⟩
  have hmany := hops.many
  rw [hw.unblanked_append] at hmany
  exact (hmany.bind_skip (hoperand.map fun operand => ops.foldr .unary operand)).named _

/-! ## Chains -/

/-- A text in front of any links of a chain is read as the first operand of the chain. -/
def Chained (inner : Parser Term) (level : Level) (term : Term) (w : List Char) : Prop :=
  ∀ rest links r, Stops level.next rest →
    Repeats (link level.operator (level.next.parser inner)) links rest r →
      (level.parser inner).Reads (links.foldl (fun left (op, right) => .binary op left right) term)
        (w ++ rest) r

/-- The levels of binary operators are chains. -/
theorem BinaryOp.parser_level (op : BinaryOp) (inner : Parser Term) :
    op.level.parser inner = chain op.level.rule op.level.operator (op.level.next.parser inner) := by
  cases op <;> rfl

/-- What begins an operator may follow an operand of the operator. -/
theorem BinaryOp.symbol_eq_cons (op : BinaryOp) : ∃ c others, op.symbol.toList = c :: others ∧
    c ∈ op.level.next.enders ∧ c ∈ Level.primary.enders ∧ c ≠ '[' := by
  cases op <;> exact ⟨_, _, rfl, by decide⟩

/-- A text of the next level is the first operand of a chain. -/
theorem Chained.of_heard (op : BinaryOp) {term : Term} {w : List Char}
    (h : Heard inner op.level.next term w) : Chained inner op.level term w := by
  intro rest links r hstops hlinks
  rw [op.parser_level inner]
  exact ((h rest hstops).bind_skip (hlinks.many.map fun links =>
    links.foldl (fun left (op, right) => .binary op left right) term)).named _

/-- One more link. -/
theorem Chained.binary (op : BinaryOp) {left right : Term} {w gap gap' v : List Char}
    (hleft : Chained inner op.level left w) (hgap : Blanks gap) (hgap' : Blanks gap')
    (hv : Written op.level.next right v) (hright : Heard inner op.level.next right v) :
    Chained inner op.level (.binary op left right) (w ++ gap ++ op.symbol.toList ++ gap' ++ v) := by
  intro rest links r hstops hlinks
  rcases op.symbol_eq_cons with ⟨c, others, hsymbol, hc, -⟩
  have hnext : Stops op.level.next (gap ++ (op.symbol.toList ++ (gap' ++ v ++ rest))) := by
    rw [hsymbol]
    exact .of_gap hgap hc _
  have hfront : unblanked (gap ++ (op.symbol.toList ++ (gap' ++ v ++ rest))) =
      op.symbol.toList ++ (gap' ++ v ++ rest) := by
    have hblank := (Level.not_of_mem_enders c hc).2.2.2
    rw [unblanked_append hgap, hsymbol]
    exact unblanked_cons hblank.1 hblank.2 _
  have hlink : (link op.level.operator (op.level.next.parser inner)).Reads (op, right)
      (op.symbol.toList ++ (gap' ++ v ++ rest)) rest := by
    refine (op.operator_takes (hv.head_ne hgap' rest)).bind_reads ((Takes.skip _).bind_reads ?_)
    rw [List.append_assoc, unblanked_append hgap', hv.unblanked_append]
    exact (hright rest hstops).map fun right => (op, right)
  have hmore : Repeats (link op.level.operator (op.level.next.parser inner)) ((op, right) :: links)
      (gap ++ (op.symbol.toList ++ (gap' ++ v ++ rest))) r := by
    refine .more (by rw [hfront]; exact hlink) ?_ hlinks
    have hle := length_unblanked_le rest
    rw [hfront, hsymbol]
    simp only [List.length_append, List.length_cons]
    omega
  have hread := hleft _ ((op, right) :: links) r hnext hmore
  simpa only [List.append_assoc, List.foldl_cons] using hread

/-- A chain is read. -/
theorem Chained.heard (op : BinaryOp) {term : Term} {w : List Char}
    (h : Chained inner op.level term w) : Heard inner op.level term w := by
  intro rest hstops
  exact h rest [] rest hstops.next
    (.stop (((Level.operator_rejects fun c hc => hstops c hc).bind _)))

/-! ## Assignments -/

section Assignments

variable {word : String} {positions : List Term} {rest r : List Char}

/-- A name with some indices is read as a place. -/
theorem Grammar.place_reads (hname : isIdentifier word.toList = true) (hrest : Literal.Ended rest)
    (h : Repeats (index inner) positions rest r) :
    (place inner).Reads (word, positions) (word.toList ++ rest) r :=
  ((identifier_takes hname hrest).reads.bind_skip
    (h.many.map fun positions => (word, positions))).named _

/-- A place without an assignment operator behind it begins no assignment. -/
theorem Grammar.assignment_rejects_place (hname : isIdentifier word.toList = true)
    (hrest : Literal.Ended rest) (h : Repeats (index inner) positions rest r)
    (hop : assignOp.Rejects (unblanked r)) : (assignment inner).Rejects (word.toList ++ rest) := by
  rcases place_reads hname hrest h with ⟨r', hplace, hleft⟩
  rw [← hleft] at hop
  exact (hplace.bind_rejects ((Takes.skip r').bind_rejects (hop.bind _))).named _

/-- A place, an assignment operator and a value are read as an assignment. -/
theorem Grammar.assignment_reads (op : AssignOp) {value : Term} {gap gap' v : List Char}
    (hname : isIdentifier word.toList = true) (hrest : Literal.Ended rest)
    (h : Repeats (index inner) positions rest (gap ++ (op.symbol.toList ++ (gap' ++ v ++ r))))
    (hgap : Blanks gap) (hgap' : Blanks gap') (hv : Written .expression value v)
    (hvalue : inner.Reads value (v ++ r) r) :
    (assignment inner).Reads (.assign word positions op value) (word.toList ++ rest) r := by
  have hfront : unblanked (gap ++ (op.symbol.toList ++ (gap' ++ v ++ r))) =
      op.symbol.toList ++ (gap' ++ v ++ r) := by
    rw [unblanked_append hgap]
    cases op <;> exact unblanked_cons (by decide) (by decide) _
  rcases place_reads hname hrest h with ⟨m, hplace, hleft⟩
  rw [hfront] at hleft
  refine Reads.named (hplace.bind_reads ((Takes.skip m).bind_reads ?_)) _
  rw [hleft]
  refine (op.takes (hv.head_ne hgap' r)).bind_reads ((Takes.skip _).bind_reads ?_)
  rw [List.append_assoc, unblanked_append hgap', hv.unblanked_append]
  exact hvalue.map fun value => Term.assign word positions op value

end Assignments

/-- A text is not taken for the beginning of an assignment, unless an assignment operator follows
it and any further indices. -/
def Avoids (inner : Parser Term) (w : List Char) : Prop :=
  ∀ rest positions r, Stops .primary rest → Repeats (index inner) positions rest r →
    assignOp.Rejects (unblanked r) → (assignment inner).Rejects (w ++ rest)

namespace Avoids

variable {w : List Char}

/-- Assignments begin with a name. -/
theorem of_head {c : Char} {others : List Char} (h : isNameStart c = false) :
    Avoids inner (c :: others) :=
  fun _ _ _ _ _ _ => assignment_rejects h

/-- A name and the indices behind it need an assignment operator. -/
theorem name {word : String} (hname : isIdentifier word.toList = true) : Avoids inner word.toList :=
  fun _ _ _ hstops hpositions hop => assignment_rejects_place hname hstops.ended hpositions hop

/-- The name of a call is in front of a parenthesis. -/
theorem call {word : String} {gap s : List Char} (hname : isIdentifier word.toList = true)
    (hgap : Blanks gap) : Avoids inner (word.toList ++ gap ++ '(' :: s) := by
  intro rest positions r hstops hpositions hop
  have hopen : unblanked (gap ++ '(' :: (s ++ rest)) = '(' :: (s ++ rest) := by
    rw [unblanked_append hgap, unblanked_cons (by decide) (by decide)]
  rw [List.append_assoc, List.append_assoc]
  refine assignment_rejects_place hname (.of_gap hgap (by decide) _) (.stop (index_rejects ?_))
    (assignOp_rejects ?_)
  all_goals
    show ∀ c ∈ (unblanked (gap ++ '(' :: (s ++ rest))).head?, _
    rw [hopen]
    simp

/-- One more index. -/
theorem index {position : Position} (h : Avoids inner w) (hgap : Blanks position.gap)
    (hposition : Understood inner position.inside) : Avoids inner (w ++ position.written) := by
  intro rest positions r hstops hpositions hop
  have hnext : Stops .primary (position.written ++ rest) := by
    rw [Position.written, List.append_assoc]
    exact .of_gap hgap (by decide) _
  rw [List.append_assoc]
  exact h _ _ r hnext (hposition.repeats_cons hgap hpositions) hop

/-- What a binary operator follows is no place. -/
theorem binary (op : BinaryOp) {right : Term} {gap gap' v : List Char} (h : Avoids inner w)
    (hgap : Blanks gap) (hgap' : Blanks gap') (hv : Written op.level.next right v) :
    Avoids inner (w ++ gap ++ op.symbol.toList ++ gap' ++ v) := by
  intro rest positions r hstops hpositions hop
  rcases op.symbol_eq_cons with ⟨c, others, hsymbol, -, hc, hbracket⟩
  have hblank := (Level.not_of_mem_enders c hc).2.2.2
  have hfront : unblanked (gap ++ (op.symbol.toList ++ (gap' ++ v ++ rest))) =
      op.symbol.toList ++ (gap' ++ v ++ rest) := by
    rw [unblanked_append hgap, hsymbol]
    exact unblanked_cons hblank.1 hblank.2 _
  have hnext : Stops .primary (gap ++ (op.symbol.toList ++ (gap' ++ v ++ rest))) := by
    rw [hsymbol]
    exact .of_gap hgap hc _
  have hindex : (Grammar.index inner).Rejects
      (unblanked (gap ++ (op.symbol.toList ++ (gap' ++ v ++ rest)))) := by
    rw [hfront, hsymbol]
    apply index_rejects
    rintro d hd rfl
    exact hbracket (Option.some.inj hd)
  have hrejects := h _ [] _ hnext (.stop hindex) (by
    rw [hfront]
    exact op.assignOp_rejects (hv.head_ne hgap' rest))
  simpa only [List.append_assoc] using hrejects

end Avoids

/-! ## All levels -/

/-- What the parser of a level makes of a text and of what follows it. -/
def Led (inner : Parser Term) : Level → Term → List Char → Prop
  | .expression => Heard inner .expression
  | .unary => Signed inner
  | .postfixed => Indexed inner
  | .primary => Heard inner .primary
  | level => Chained inner level

namespace Led

variable {level : Level} {term : Term} {w : List Char}

/-- A text is read in front of what may follow it. -/
theorem heard (hw : Written level term w) (h : Led inner level term w) :
    Heard inner level term w := by
  cases level with
  | expression => exact h
  | disjunction => exact Chained.heard .or h
  | conjunction => exact Chained.heard .and h
  | equality => exact Chained.heard .equal h
  | comparison => exact Chained.heard .less h
  | sum => exact Chained.heard .add h
  | product => exact Chained.heard .multiply h
  | unary => exact Signed.heard hw h
  | postfixed => exact Indexed.heard h
  | primary => exact h

/-- What ends an expression, and no blank, is left when no assignment was read. -/
theorem expression (h : Heard inner .disjunction term w) (havoids : Avoids inner w) :
    Heard inner .expression term w := by
  intro rest hstops
  have hop : assignOp.Rejects (unblanked rest) := by
    apply assignOp_rejects
    intro c hc
    have hmem := hstops c hc
    exact List.mem_cons_of_mem _ hmem
  have hnone : Repeats (Grammar.index inner) [] rest rest := .stop (hstops.no_index (by decide))
  exact (Reads.or_right (havoids rest [] rest hstops.primary hnone hop) (h rest hstops.next)).named _

/-- At the levels of binary operators, texts are chained. -/
theorem level_eq (op : BinaryOp) : Led inner op.level = Chained inner op.level := by
  cases op <;> rfl

/-- A text of a level is one of the next looser level. -/
theorem of_next (hw : Written level.next term w) (h : Led inner level.next term w)
    (havoids : level = .expression → Avoids inner w) : Led inner level term w := by
  cases level with
  | expression => exact Led.expression (heard hw h) (havoids rfl)
  | disjunction => exact Chained.of_heard .or (heard hw h)
  | conjunction => exact Chained.of_heard .and (heard hw h)
  | equality => exact Chained.of_heard .equal (heard hw h)
  | comparison => exact Chained.of_heard .less (heard hw h)
  | sum => exact Chained.of_heard .add (heard hw h)
  | product => exact Chained.of_heard .multiply (heard hw h)
  | unary => exact Signed.of_heard hw (heard hw h)
  | postfixed => exact Indexed.of_heard h
  | primary => exact h

end Led

/-! ## Nested expressions -/

/-- No operand begins with a closing parenthesis. -/
theorem Grammar.primary_rejects_close (rest : List Char) : (primary inner).Rejects (')' :: rest) := by
  have hgroup : (literal "(").Rejects (')' :: rest) :=
    Rejects.literal (behind?_of_head (d := '(') (by simp))
  exact (number_rejects rfl (by decide)).or <| (string_rejects (by decide)).or <|
    (reference_rejects (by decide)).or <| (call_rejects rfl).or <|
      ((identifier_rejects rfl).bind _).or (hgroup.bind _)

/-- No expression begins with a closing parenthesis. -/
theorem Grammar.expression_rejects_close (depth : Nat) (rest : List Char) :
    (expression depth).Rejects (')' :: rest) := by
  cases depth with
  | zero => exact .fail _
  | succ depth =>
    have hchain : ∀ {rule : Rule} {op : Parser BinaryOp} {operand : Parser Term},
        operand.Rejects (')' :: rest) → (chain rule op operand).Rejects (')' :: rest) :=
      fun h => (h.bind _).named _
    have hclose : unblanked (')' :: rest) = ')' :: rest := unblanked_cons (by decide) (by decide) rest
    have hops : Repeats unaryOp [] (')' :: rest) (')' :: rest) := by
      refine .stop ?_
      rw [hclose]
      exact unaryOp_rejects (by decide) (by decide)
    have hpostfixed : (postfixed (expression depth)).Rejects (unblanked (')' :: rest)) := by
      rw [hclose]
      exact ((primary_rejects_close rest).bind _).named _
    have hmany := hops.many
    rw [hclose] at hmany
    have hunary : (unary (expression depth)).Rejects (')' :: rest) :=
      (hmany.bind_skip_rejects (hpostfixed.bind _)).named _
    exact ((assignment_rejects rfl).or
      (hchain (hchain (hchain (hchain (hchain (hchain hunary))))))).named _

/-- A nested expression is read by the parser for the depth below. -/
theorem Led.nested {term : Term} {w : List Char} {depth : Nat} (hless : w.length < depth)
    (h : ∀ depth, w.length ≤ depth → Led (Grammar.expression depth) .expression term w) :
    ∀ rest, Stops .expression rest → (Grammar.expression depth).Reads term (w ++ rest) rest := by
  intro rest hstops
  cases depth with
  | zero => cases hless
  | succ depth => exact h depth (Nat.le_of_lt_succ hless) rest hstops

/-- A nested expression is read between blanks. -/
theorem Written.understood {p : Padded} {depth : Nat} (h : Written .expression p.term p.text)
    (hspaced : p.Spaced) (hless : p.text.length < depth)
    (hled : ∀ depth, p.text.length ≤ depth →
      Led (Grammar.expression depth) .expression p.term p.text) :
    Understood (Grammar.expression depth) p :=
  ⟨hspaced, h.unblanked_append, Led.nested hless hled⟩

/-- An index is longer than the expression in it. -/
theorem Position.length_lt (position : Position) :
    position.inside.text.length < position.written.length := by
  simp only [written, Padded.bracketed, Padded.written, List.length_append, List.length_cons]
  omega

/-- An assignment is read. -/
theorem Heard.assign (op : AssignOp) {word : String} {positions : List Position} {value : Term}
    {gap gap' v : List Char} (h : isIdentifier word.toList = true)
    (hpositions : ∀ position ∈ positions, Understood inner position.inside)
    (hgaps : ∀ position ∈ positions, Blanks position.gap) (hgap : Blanks gap) (hgap' : Blanks gap')
    (hv : Written .expression value v)
    (hvalue : ∀ rest, Stops .expression rest → inner.Reads value (v ++ rest) rest) :
    Heard inner .expression
      (.assign word (positions.map fun position => position.inside.term) op value)
      (word.toList ++ positions.flatMap Position.written ++ gap ++ op.symbol.toList ++ gap' ++ v) := by
  intro rest hstops
  have hsymbol : ∃ c others, op.symbol.toList = c :: others ∧ (isNameChar c = false ∧ c ≠ '.') ∧
      c ≠ '[' ∧ c ≠ ' ' ∧ c ≠ '\t' := by
    cases op <;> exact ⟨_, _, rfl, by decide⟩
  rcases hsymbol with ⟨c, others, hsymbol, hc, hbracket, hspace, htab⟩
  have hindex : (Grammar.index inner).Rejects
      (unblanked (gap ++ (op.symbol.toList ++ (gap' ++ v ++ rest)))) := by
    rw [unblanked_append hgap, hsymbol, List.cons_append, unblanked_cons hspace htab]
    apply index_rejects
    rintro d hd rfl
    exact hbracket (Option.some.inj hd)
  have hended : Literal.Ended (positions.flatMap Position.written ++
      (gap ++ (op.symbol.toList ++ (gap' ++ v ++ rest)))) := by
    cases positions with
    | nil =>
      rw [hsymbol]
      exact .of_gap hgap hc _
    | cons position others =>
      rw [List.flatMap_cons, Position.written, List.append_assoc, List.append_assoc]
      exact .of_gap (hgaps position (by simp)) (by decide) _
  have hread := assignment_reads op h hended
    (Understood.repeats_positions hpositions hgaps hindex) hgap hgap' hv (hvalue rest hstops)
  refine Reads.named (Reads.or_left ?_) _
  simpa only [List.append_assoc] using hread

/-- The parser of a level reads every text of the level, and takes it for no assignment.  Every
nested expression is shorter than the text around it, so the length of the text is depth enough. -/
theorem Written.led {level : Level} {term : Term} {w : List Char} (h : Written level term w) :
    ∀ depth, w.length ≤ depth → Led (Grammar.expression depth) level term w ∧
      (level ≠ .expression → Avoids (Grammar.expression depth) w) := by
  induction h with
  | number h =>
    intro depth hdepth
    rcases h.exists_cons with ⟨c, rest, hcons, hc⟩
    refine ⟨Heard.number h, fun _ => ?_⟩
    rw [hcons]
    apply Avoids.of_head
    rw [Bool.eq_false_iff]
    intro hstart
    have hne := ne_of_isNameStart hstart
    rcases hc with hc | hc
    · rw [hne.1] at hc
      cases hc
    · exact hne.2.1 hc
  | text h => exact fun depth hdepth => ⟨Heard.text h, fun _ => .of_head rfl⟩
  | reference h hne => exact fun depth hdepth => ⟨Heard.reference h hne, fun _ => .of_head rfl⟩
  | name h => exact fun depth hdepth => ⟨Heard.name h, fun _ => .name h⟩
  | callNone h hgap hinside =>
    exact fun depth hdepth =>
      ⟨Heard.callNone h hgap hinside (expression_rejects_close depth), fun _ => .call h hgap⟩
  | @call word gap first others h hgap hspaced harguments ih =>
    intro depth hdepth
    refine ⟨Heard.call h hgap fun argument hmem => ?_, fun _ => by
      simpa only [List.append_assoc] using Avoids.call h hgap⟩
    refine (harguments argument hmem).understood (hspaced argument hmem) ?_ fun depth hle =>
      (ih argument hmem depth hle).1
    have hlength : argument.text.length < (first.written ++
        others.flatMap (fun argument => ',' :: argument.written) ++ [')']).length := by
      rcases List.mem_cons.1 hmem with rfl | hother
      · simp only [Padded.written, List.length_append, List.length_cons]
        omega
      · have hsub := (List.sublist_flatten_of_mem
          (List.mem_map_of_mem (f := fun argument : Padded => ',' :: argument.written) hother)).length_le
        simp only [List.flatMap_def, Padded.written, List.length_append, List.length_cons] at hsub ⊢
        omega
    simp only [List.length_append, List.length_cons] at hdepth hlength ⊢
    omega
  | @group inside hspaced h ih =>
    intro depth hdepth
    have hlength : inside.text.length < inside.grouped.length := by
      simp only [Padded.grouped, Padded.written, List.length_append, List.length_cons]
      omega
    exact ⟨Heard.group (h.understood hspaced (by omega) fun depth hle => (ih depth hle).1),
      fun _ => .of_head rfl⟩
  | @index target w position h hspaced hposition ihtarget ihposition =>
    intro depth hdepth
    have hlength := position.length_lt
    rw [List.length_append] at hdepth
    have hinside : Understood (Grammar.expression depth) position.inside :=
      hposition.understood hspaced.inside (by omega) fun depth hle => (ihposition depth hle).1
    rcases ihtarget depth (by omega) with ⟨hled, havoids⟩
    exact ⟨Indexed.index hled hspaced.gap hinside,
      fun _ => (havoids (by decide)).index hspaced.gap hinside⟩
  | unary op hgap h ih =>
    intro depth hdepth
    simp only [List.length_append] at hdepth
    refine ⟨Signed.unary op hgap (ih depth (by omega)).1, fun _ => ?_⟩
    cases op <;> exact .of_head rfl
  | binary op hleft hgap hgap' hright ihleft ihright =>
    intro depth hdepth
    simp only [List.length_append] at hdepth
    rcases ihleft depth (by omega) with ⟨hled, havoids⟩
    rw [Led.level_eq] at hled ⊢
    have hheard := Led.heard hright (ihright depth (by omega)).1
    exact ⟨hled.binary op hgap hgap' hright hheard,
      fun hlevel => (havoids hlevel).binary op hgap hgap' hright⟩
  | @assign op word positions value gap gap' v h hspaced hpositions hgap hgap' hvalue ihpositions
      ihvalue =>
    intro depth hdepth
    have hsymbol : 0 < op.symbol.toList.length := by cases op <;> decide
    simp only [List.length_append] at hdepth
    refine ⟨Heard.assign op h (fun position hmem => ?_) (fun position hmem => (hspaced position hmem).gap)
      hgap hgap' hvalue (Led.nested (by omega) fun depth hle => (ihvalue depth hle).1),
      fun hlevel => absurd rfl hlevel⟩
    have hlength := position.length_lt
    have hsub := (List.sublist_flatten_of_mem (List.mem_map_of_mem (f := Position.written)
      hmem)).length_le
    rw [← List.flatMap_def] at hsub
    exact (hpositions position hmem).understood (hspaced position hmem).inside (by omega)
      fun depth hle => (ihpositions position hmem depth hle).1
  | tighter h ih =>
    intro depth hdepth
    rcases ih depth hdepth with ⟨hled, havoids⟩
    have hnext : ∀ level : Level, level.next ≠ .expression := by
      intro level
      cases level <;> decide
    exact ⟨hled.of_next h fun _ => havoids (hnext _), fun _ => havoids (hnext _)⟩

/-- A statement is read to its end. -/
theorem Written.statement_reads {term : Term} {before w after : List Char} {depth : Nat}
    (hbefore : Blanks before) (h : Written .expression term w) (hafter : Blanks after)
    (hless : w.length < depth) : (statement depth).Reads term (before ++ w ++ after) [] := by
  have hread := Led.nested hless (fun depth hle => (h.led depth hle).1) after (.of_blanks hafter)
  have hend : (named .endOfInput endOfInput >>= fun _ => Pure.pure term : Parser Term).Reads term
      (unblanked after) [] := by
    rw [unblanked_eq_nil hafter]
    exact ((Takes.take rfl).named _).reads.map fun _ => term
  refine Reads.named ((Takes.skip _).bind_reads ?_) _
  rw [List.append_assoc, Parser.unblanked_append hbefore, h.unblanked_append]
  exact hread.bind_skip (f := fun term => named .endOfInput endOfInput >>= fun _ => Pure.pure term)
    hend

/-- Every text of a term, with any blanks around it, is read back. -/
theorem Term.parse_of_written {term : Term} {before w after : List Char} (hbefore : Blanks before)
    (h : Written .expression term w) (hafter : Blanks after) :
    Term.parse (before ++ w ++ after) = .ok term := by
  have hless : w.length < (before ++ w ++ after).length + 1 := by
    simp only [List.length_append]
    omega
  rcases h.statement_reads hbefore hafter hless with ⟨r, htakes, -⟩
  rcases htakes 0 .start with ⟨position, attempts, hrun⟩
  unfold Term.parse
  rw [hrun]

end ScriptMachine
