import ScriptMachine.Proofs.Expanding
import ScriptMachine.Proofs.Translating

/-!
# What initializers compile to

The initializer of a variable is its declaration from the name on, and is compiled as an expression.
It is a plain assignment to the variable exactly if an equals sign and a value follow the name.  Any
other expression that begins with the name is accepted as well, and evaluated in its place; what is no
expression is reported.

Main results:

- {lit}`Source.exists_second_word`: the second word of a text ends at a blank.
- {lit}`Written.assign_cases`: how assignments are written.
- {lit}`Script.named_declared`: a declared name stands for its slot.
- {lit}`Program.initializers_exact`: the code of every initializer.
-/

namespace ScriptMachine

open Source Text

/-- A blank stands in no name. -/
theorem not_isNameChar {c : Char} (h : isBlank c = true) : isNameChar c = false := by
  rw [Bool.eq_false_iff]
  intro hchar
  rw [isBlank_of_isNameChar hchar] at h
  cases h

/-- A text begins with one run of characters of names only. -/
theorem eq_of_append_names {first second rest behind : List Char}
    (hfirst : ∀ c ∈ first, isNameChar c = true) (hrest : ∀ c ∈ rest.head?, isNameChar c = false)
    (hsecond : ∀ c ∈ second, isNameChar c = true) (hbehind : ∀ c ∈ behind.head?, isNameChar c = false)
    (h : first ++ rest = second ++ behind) : first = second ∧ rest = behind := by
  have hsame : first = second := by
    rw [← Literal.takeWhile_append_of_head hfirst hrest, h,
      Literal.takeWhile_append_of_head hsecond hbehind]
  subst hsame
  exact ⟨rfl, List.append_cancel_left h⟩

/-- Blanks and an equals sign do not begin with a character of a name. -/
theorem not_isNameChar_head {gap text : List Char} (hgap : Blanks gap) :
    ∀ c ∈ (gap ++ '=' :: text).head?, isNameChar c = false := by
  intro c hc
  cases gap with
  | nil =>
    cases hc
    rfl
  | cons d more =>
    have heq : d = c := by simpa using hc
    rcases hgap d (by simp) with rfl | rfl <;> (rw [← heq]; rfl)

/-! ## Tokens -/

namespace Source

/-- Blanks begin no token. -/
theorem tokensFrom_blanks {blanks : List Char} (h : ∀ c ∈ blanks, isBlank c = true) (offset : Nat)
    (s : List Char) : tokensFrom offset (blanks ++ s) = tokensFrom (offset + byteSize blanks) s := by
  induction blanks generalizing offset with
  | nil => rfl
  | cons c rest ih =>
    rw [List.cons_append, tokensFrom]
    simp only [if_pos (h c (by simp)), ih fun d hd => h d (by simp [hd])]
    rw [byteSize, Nat.add_assoc]

/-- A run of other characters is a token, up to the next blank. -/
theorem tokensFrom_word {word s : List Char} (hne : word ≠ []) (h : ∀ c ∈ word, isBlank c = false)
    (hs : ∀ c ∈ s.head?, isBlank c = true) (offset : Nat) :
    tokensFrom offset (word ++ s) = ⟨word, offset⟩ :: tokensFrom (offset + byteSize word) s := by
  induction word generalizing offset with
  | nil => exact absurd rfl hne
  | cons c rest ih =>
    have hc : isBlank c = false := h c (by simp)
    rw [List.cons_append, tokensFrom]
    simp only [hc, Bool.false_eq_true, if_false]
    cases rest with
    | nil =>
      rw [List.nil_append]
      cases hfollowing : tokensFrom (offset + c.utf8Size) s with
      | nil => simp [byteSize, hfollowing]
      | cons first others =>
        -- The next token starts behind the blank.
        have hlater : first.offset ≠ offset + c.utf8Size := by
          cases s with
          | nil => cases hfollowing
          | cons d behind =>
            have hd : isBlank d = true := hs d rfl
            rw [tokensFrom, if_pos hd] at hfollowing
            rcases @tokensFrom_split _ _ first (by rw [hfollowing]; simp) with ⟨before, _, -, hoffset⟩
            have hpos := d.utf8Size_pos
            omega
        simp [byteSize, hfollowing, hlater]
    | cons d others =>
      rw [ih (by simp) (fun e he => h e (by simp [he]))]
      simp [byteSize, Nat.add_assoc]

/-- A text is blank, or its first word stands behind blanks and ends at a blank. -/
theorem exists_word (s : List Char) : (∀ c ∈ s, isBlank c = true) ∨ ∃ blanks word rest,
    s = blanks ++ (word ++ rest) ∧ (∀ c ∈ blanks, isBlank c = true) ∧ word ≠ [] ∧
      (∀ c ∈ word, isBlank c = false) ∧ ∀ c ∈ rest.head?, isBlank c = true := by
  rcases trimStart_suffix s with ⟨blanks, hs, hblanks⟩
  cases hstart : trimStart s with
  | nil =>
    left
    rw [hs, hstart, List.append_nil]
    exact hblanks
  | cons c rest =>
    right
    have hc : isBlank c = false := by
      have hfirst := List.head?_dropWhile_not isBlank s
      rw [show s.dropWhile isBlank = c :: rest from hstart] at hfirst
      simpa using hfirst
    refine ⟨blanks, (c :: rest).takeWhile (!isBlank ·), (c :: rest).dropWhile (!isBlank ·), ?_, hblanks,
      by simp [hc], ?_, ?_⟩
    · rw [List.takeWhile_append_dropWhile, ← hstart, ← hs]
    · intro d hd
      simpa using List.all_eq_true.1 List.all_takeWhile d hd
    · intro d hd
      have hstop := List.head?_dropWhile_not (!isBlank ·) (c :: rest)
      rw [Option.mem_def.1 hd] at hstop
      simpa using hstop

/-- The second word of a text stands somewhere in it, and ends at a blank. -/
theorem exists_second_word {offset : Nat} {s : List Char} {token : Token}
    (h : (tokensFrom offset s)[1]? = some token) :
    ∃ before after, s = before ++ (token.text ++ after) ∧ token.offset = offset + byteSize before ∧
      ∀ c ∈ after.head?, isBlank c = true := by
  rcases exists_word s with hblank | ⟨blanks, first, rest, rfl, hblanks, hne, hfirst, hrest⟩
  · rw [← List.append_nil s, tokensFrom_blanks hblank] at h
    cases h
  · rw [tokensFrom_blanks hblanks, tokensFrom_word hne hfirst hrest] at h
    rcases exists_word rest with hblank | ⟨gap, second, after, rfl, hgap, hne', hsecond, hafter⟩
    · rw [← List.append_nil rest, tokensFrom_blanks hblank] at h
      cases h
    · rw [tokensFrom_blanks hgap, tokensFrom_word hne' hsecond hafter] at h
      cases h
      exact ⟨blanks ++ first ++ gap, after, by simp, by simp [Nat.add_assoc], hafter⟩

end Source

/-! ## How assignments are written -/

/-- A text of an assignment is the target, the operator and the value, or is put in parentheses. -/
theorem Written.assign_cases {level : Level} {identifier : String} {positions : List Term}
    {op : AssignOp} {value : Term} {w : List Char}
    (h : Written level (.assign identifier positions op value) w) :
    (∃ rest, w = '(' :: rest) ∨
      ∃ (indices : List Position) (gap gap' v : List Char), isIdentifier identifier.toList = true ∧
        positions = (indices.map fun position => position.inside.term) ∧ Blanks gap ∧ Blanks gap' ∧
        Written .expression value v ∧
        w = identifier.toList ++ indices.flatMap Position.written ++ gap ++ op.symbol.toList ++
          gap' ++ v := by
  generalize hterm : Term.assign identifier positions op value = term at h
  induction h with
  | assign op h hspaced hpositions hgap hgap' hvalue =>
    cases hterm
    exact .inr ⟨_, _, _, _, h, rfl, hgap, hgap', hvalue, rfl⟩
  | group hspaced h => exact .inl ⟨_, rfl⟩
  | tighter h ih => exact ih hterm
  | number | text | reference | name | callNone | call | index | unary | binary => cases hterm

section Assignments

variable {name rest : List Char} {value : Term}

/-- Only an equals sign behind a name makes an assignment to the name. -/
theorem exists_of_spread_assign {identifier : String} (hname : isIdentifier name = true)
    (hrest : ∀ c ∈ rest.head?, isNameChar c = false)
    (h : Spread .expression (.assign identifier [] .set value) (name ++ rest)) :
    ∃ gap text, Blanks gap ∧ rest = gap ++ '=' :: text ∧ Spread .expression value text ∧
      identifier.toList = name := by
  rcases exists_cons_of_isIdentifier hname with ⟨c, others, rfl, hstart, hothers⟩
  rcases h with ⟨before, w, after, hbefore, hw, hafter, hsplit⟩
  have hne := ne_of_isNameStart hstart
  have hnone : before = [] := by
    cases before with
    | nil => rfl
    | cons d behind =>
      have hd : c = d := by simpa using congrArg List.head? hsplit
      rcases hbefore d (by simp) with rfl | rfl
      · exact absurd hd hne.2.2.2.2.2.2.2.1
      · exact absurd hd hne.2.2.2.2.2.2.2.2
  subst hnone
  rcases hw.assign_cases with
    ⟨behind, rfl⟩ | ⟨indices, gap, gap', v, hid, hindices, hgap, hgap', hv, rfl⟩
  · have hd : c = '(' := by simpa using congrArg List.head? hsplit
    exact absurd hd hne.2.2.2.2.1
  · have hempty : indices = [] := List.map_eq_nil_iff.1 hindices.symm
    subst hempty
    have hchars := isNameChar_of_isIdentifier hname
    have hidChars := isNameChar_of_isIdentifier hid
    have htext : (c :: others) ++ rest = identifier.toList ++ (gap ++ '=' :: (gap' ++ v ++ after)) := by
      simpa [AssignOp.symbol] using hsplit
    rcases eq_of_append_names hchars hrest hidChars (not_isNameChar_head hgap) htext with
      ⟨hsame, hbehind⟩
    exact ⟨gap, gap' ++ v ++ after, hgap, hbehind, ⟨gap', v, after, hgap', hv, hafter, rfl⟩, hsame.symm⟩

/-- An equals sign and a value behind a name make an assignment to the name. -/
theorem spread_assign {gap text : List Char} (hname : isIdentifier name = true) (hgap : Blanks gap)
    (h : Spread .expression value text) :
    Spread .expression (.assign (String.ofList name) [] .set value) (name ++ (gap ++ '=' :: text)) := by
  rcases h with ⟨before, w, after, hbefore, hw, hafter, rfl⟩
  have hassign := @Written.assign .set (String.ofList name) [] _ _ _ _
    (by rwa [String.toList_ofList]) (List.forall_mem_nil _) (List.forall_mem_nil _) hgap hbefore hw
  refine ⟨[], _, after, .nil, hassign, hafter, ?_⟩
  simp [AssignOp.symbol]

end Assignments

/-- Only plain assignments to a variable stand for plain assignments to it. -/
theorem Term.eq_assign_of_meaning {scope : Scope} {term : Term} {slot : Nat} {code : Expr}
    (h : term.meaning scope = .assignSlot slot .set code) :
    ∃ identifier value, term = .assign identifier [] .set value := by
  cases term with
  | assign identifier positions op value =>
    simp only [meaning] at h
    cases positions with
    | nil =>
      rcases scope.named_cases identifier with ⟨i, hnamed⟩ | ⟨key, hnamed⟩
      · simp only [meanings, Expr.stored, hnamed, Expr.assignSlot.injEq] at h
        exact ⟨identifier, value, by rw [h.2.1]⟩
      · simp [meanings, Expr.stored, hnamed] at h
    | cons position others =>
      simp [meanings, Expr.stored, Expr.storedAt_eq] at h
  | name identifier =>
    simp only [meaning] at h
    rcases scope.named_cases identifier with ⟨i, hnamed⟩ | ⟨key, hnamed⟩ <;> simp [hnamed] at h
  | unary op operand =>
    simp only [meaning, ← Expr.applyUnary_eq, Expr.applyUnary] at h
    split at h <;> cases h
  | number | text | reference | index | binary | call =>
    unfold meaning at h
    cases h

/-! ## Declared names -/

/-- A name with a slot stands for the slot. -/
theorem Scope.named_of_slot? {scope : Scope} {name : String} {slot : Nat}
    (h : scope.slot? name = some slot) : scope.named name = .slot slot := by
  rw [Expr.slot?_eq] at h
  unfold named
  split at h
  · next hmem =>
    cases h
    rw [if_pos hmem]
  · cases h

namespace Script

/-- The declarations of a script, on both sides of the entry block. -/
def entries (script : Script) : List (Line × Variable) :=
  script.before ++ script.after

end Script

/-- Each declaration conforms to the grammar behind those in front of it. -/
theorem DeclarationsConform.getElem {globals : Globals} {declared : List Variable}
    {entries : List (Line × Variable)} (h : DeclarationsConform globals declared entries) {i : Nat}
    {line : Line} {fresh : Variable} (hi : entries[i]? = some (line, fresh)) :
    line.IsDeclaration globals (declared ++ (entries.take i).map Prod.snd) fresh := by
  induction entries generalizing declared i with
  | nil => cases hi
  | cons entry others ih =>
    rcases entry with ⟨first, variable'⟩
    cases i with
    | zero =>
      cases hi
      simpa using h.1
    | succ i =>
      have hbehind := ih h.2 hi
      simpa using hbehind

/-- Declarations in a row. -/
theorem DeclarationsConform.append {globals : Globals} {declared : List Variable}
    {first second : List (Line × Variable)} (h : DeclarationsConform globals declared first)
    (h' : DeclarationsConform globals (declared ++ first.map Prod.snd) second) :
    DeclarationsConform globals declared (first ++ second) := by
  induction first generalizing declared with
  | nil => simpa using h'
  | cons entry others ih =>
    rcases entry with ⟨line, fresh⟩
    exact ⟨h.1, ih h.2 (by simpa using h')⟩

namespace Script

variable {globals : Globals} {script : Script}

/-- The variables of a script are those of its declarations. -/
theorem declaredVariables_eq (script : Script) :
    script.declaredVariables = script.entries.map Prod.snd :=
  rfl

/-- The lines of declarations are lines of the script. -/
theorem mem_lines_of_entry (script : Script) {entry : Line × Variable} (h : entry ∈ script.entries) :
    entry.1 ∈ script.lines := by
  unfold lines
  rcases List.mem_append.1 h with h | h
  · simp [List.mem_map_of_mem (f := Prod.fst) h]
  · simp [List.mem_map_of_mem (f := Prod.fst) h]

/-- A declaration of a script conforms to the grammar behind those in front of it. -/
theorem Conforms.isDeclaration (h : script.Conforms globals) {slot : Nat} {line : Line}
    {fresh : Variable} (hslot : script.entries[slot]? = some (line, fresh)) :
    line.IsDeclaration globals (script.declaredVariables.take slot) fresh := by
  have hall : DeclarationsConform globals [] script.entries :=
    h.before.append (by simpa using h.after)
  have hdeclaration := hall.getElem hslot
  rwa [List.nil_append, List.map_take] at hdeclaration

/-- A declared name is found at its slot. -/
theorem slotIn?_declared (h : script.Conforms globals) {slot : Nat} {line : Line} {fresh : Variable}
    (hslot : script.entries[slot]? = some (line, fresh)) {name : String}
    (hname : fresh.name = fold name) : Program.slotIn? script.declaredVariables name = some slot := by
  rcases h.isDeclaration hslot with ⟨-, token, -, -, hbefore, -, hfolded, -⟩
  rw [Program.slotIn?, List.findIdx?_eq_some_iff_getElem]
  have hfresh : script.declaredVariables[slot]? = some fresh := by
    rw [declaredVariables_eq, List.getElem?_map, hslot]
    rfl
  rcases List.getElem?_eq_some_iff.1 hfresh with ⟨hlt, hfresh⟩
  refine ⟨hlt, by rw [hfresh, sameName_iff, hname, fold_fold], fun i hi => ?_⟩
  rw [Program.slotIn?, List.findIdx?_eq_none_iff] at hbefore
  have hother := hbefore script.declaredVariables[i] (List.mem_take_iff_getElem.2 ⟨i, by omega, rfl⟩)
  rw [Bool.eq_false_iff, Ne, sameName_iff] at hother
  rw [sameName_iff, ← hname, hfolded]
  exact hother

/-- A declared name stands for its slot. -/
theorem named_declared (h : script.Conforms globals) {scope : Scope}
    (hlocals : scope.locals = script.declaredVariables.map Variable.name) {slot : Nat} {line : Line}
    {fresh : Variable} (hslot : script.entries[slot]? = some (line, fresh)) {name : String}
    (hname : fresh.name = fold name) : scope.named name = .slot slot := by
  apply Scope.named_of_slot?
  have hsame : scope.slot? name = Program.slotIn? script.declaredVariables name := by
    rw [Scope.slot?, hlocals, List.findIdx?_map]
    rfl
  rw [hsame, slotIn?_declared h hslot hname]

/-- The nodes of the initializers are those of variables that are no parameters. -/
theorem mem_initializerNodes {node : Node} : node ∈ script.initializerNodes ↔
    ∃ (slot : Nat) (line : Line) (fresh : Variable) (text : List Char),
      script.entries[slot]? = some (line, fresh) ∧ slot ∉ script.parameters ∧
        fresh.initializer = some text ∧ node = Outline.initializerNode fresh text := by
  unfold initializerNodes
  rw [List.mem_filterMap]
  constructor
  · rintro ⟨⟨fresh, slot⟩, hmem, hnode⟩
    rw [List.mem_zipIdx_iff_getElem?, declaredVariables_eq, List.getElem?_map] at hmem
    rcases Option.map_eq_some_iff.1 hmem with ⟨⟨line, same⟩, hentry, hsame⟩
    simp only at hnode hentry hsame
    subst hsame
    split at hnode
    · cases hnode
    · next hparameter =>
      rcases Option.map_eq_some_iff.1 hnode with ⟨text, htext, rfl⟩
      exact ⟨slot, line, same, text, hentry, by simpa using hparameter, htext, rfl⟩
  · rintro ⟨slot, line, fresh, text, hentry, hparameter, htext, rfl⟩
    refine ⟨(fresh, slot), ?_, ?_⟩
    · rw [List.mem_zipIdx_iff_getElem?, declaredVariables_eq, List.getElem?_map, hentry]
      rfl
    · simp [hparameter, htext]

/-- The initializers of the tree of a script lead to the nodes of initializers. -/
theorem exists_of_mem_initializers {i : Nat} (hi : i ∈ script.tree.initializers) :
    ∃ node ∈ script.initializerNodes, script.tree.nodes[i]? = some node := by
  have hmem : script.tree.nodes[i]? ∈ script.initializerNodes.map some := by
    rw [← script.isIn_tree.2]
    exact List.mem_map_of_mem hi
  rcases List.mem_map.1 hmem with ⟨node, hnode, hfound⟩
  exact ⟨node, hnode, hfound.symm⟩

/-- The node of an initializer is found among those of the tree. -/
theorem exists_initializer {node : Node} (hnode : node ∈ script.initializerNodes) :
    ∃ i ∈ script.tree.initializers, script.tree.nodes[i]? = some node := by
  have hmem : some node ∈ script.tree.initializers.map fun i => script.tree.nodes[i]? := by
    rw [script.isIn_tree.2]
    exact List.mem_map_of_mem hnode
  exact List.mem_map.1 hmem

end Script

/-! ## The code of initializers -/

/-- A line declares a name: it is a declaration, and behind its name something else follows, which is
cut off with the name. -/
def Source.Line.Declares (line : Line) (name rest : List Char) : Prop :=
  line.keyword? = some .declaration ∧ 2 < line.tokens.length ∧ isIdentifier name = true ∧
    (∀ c ∈ rest.head?, isBlank c = true) ∧ ∃ before,
      clean .everything line.text = before ++ (name ++ rest) ∧ line.tokens[1]? = some ⟨name, byteSize before⟩

/-- The name that a line declares is what stands in front of the first character of another kind. -/
theorem Source.Line.Declares.name_eq {line : Line} {name rest : List Char}
    (h : line.Declares name rest) : name = (name ++ rest).takeWhile isNameChar := by
  refine (Literal.takeWhile_append_of_head (isNameChar_of_isIdentifier h.2.2.1) fun c hc => ?_).symm
  exact not_isNameChar (h.2.2.2.1 c hc)

/-- What follows the name begins at the first character of another kind. -/
theorem Source.Line.Declares.rest_eq {line : Line} {name rest : List Char}
    (h : line.Declares name rest) : rest = (name ++ rest).dropWhile isNameChar := by
  have hall := List.takeWhile_append_dropWhile (p := isNameChar) (l := name ++ rest)
  rw [← h.name_eq] at hall
  exact (List.append_cancel_left hall).symm

/-- An equals sign and a value. -/
def IsPlainInitializer (rest : List Char) : Prop :=
  ∃ gap text value, Blanks gap ∧ rest = gap ++ '=' :: text ∧ Term.parse text = .ok value

/-- What a declaration of a script with an initializer says. -/
theorem Source.Line.IsDeclaration.declares {line : Line} {globals : Globals} {declared : List Variable}
    {fresh : Variable} (h : line.IsDeclaration globals declared fresh) {text : List Char}
    (htext : fresh.initializer = some text) : ∃ name rest, line.Declares name rest ∧
      text = name ++ rest ∧ fresh.name = fold (String.ofList name) ∧ fresh.line = line.number := by
  rcases h with ⟨hkeyword, token, htoken, hidentifier, -, -, hname, hnumber, hinitializer⟩
  split at hinitializer
  · next hlength =>
    rcases hinitializer with ⟨found, hfound, hcut⟩
    rw [htext] at hfound
    cases hfound
    rcases exists_second_word htoken with ⟨before, after, hclean, hoffset, hafter⟩
    rw [Nat.zero_add] at hoffset
    rw [hoffset, hclean, dropBytes?_append] at hcut
    cases hcut
    refine ⟨token.text, after, ⟨hkeyword, hlength, hidentifier, hafter, before, hclean, ?_⟩, rfl,
      hname, hnumber⟩
    rw [htoken, ← hoffset]
  · rw [hinitializer] at htext
    cases htext

/-- The text of an initializer assigns plainly to the declared slot exactly if it has code, and an
equals sign and a value follow the name. -/
theorem codeOf_eq_assignSlot_iff {scope : Scope} {name rest : List Char} {slot : Nat}
    (hname : isIdentifier name = true) (hrest : ∀ c ∈ rest.head?, isBlank c = true)
    (hslot : scope.named (String.ofList name) = .slot slot) :
    (∃ value, Expr.codeOf scope (name ++ rest) = some (.assignSlot slot .set value)) ↔
      (Expr.codeOf scope (name ++ rest)).isSome = true ∧ IsPlainInitializer rest := by
  constructor
  · rintro ⟨code, hcode⟩
    rcases Expr.codeOf_eq_some_iff.1 hcode with ⟨term, hterm, -, hmeaning⟩
    rcases Term.eq_assign_of_meaning hmeaning.symm with ⟨identifier, value, rfl⟩
    have hend : ∀ c ∈ rest.head?, isNameChar c = false := fun c hc => not_isNameChar (hrest c hc)
    rcases exists_of_spread_assign hname hend hterm with ⟨gap, text, hgap, hsplit, hvalue, -⟩
    exact ⟨by rw [hcode]; rfl, gap, text, value, hgap, hsplit, Term.parse_eq_ok_iff.2 hvalue⟩
  · rintro ⟨hsome, gap, text, value, hgap, rfl, hvalue⟩
    rcases Option.isSome_iff_exists.1 hsome with ⟨code, hcode⟩
    rcases Expr.codeOf_eq_some_iff.1 hcode with ⟨term, hterm, -, rfl⟩
    have hassign := spread_assign hname hgap (Term.parse_eq_ok_iff.1 hvalue)
    -- The text has one term only.
    have hsame : term = .assign (String.ofList name) [] .set value := by
      rw [← Term.parse_eq_ok_iff] at hterm hassign
      exact Except.ok.inj (hterm.symm.trans hassign)
    refine ⟨value.meaning scope, ?_⟩
    rw [hcode, hsame]
    simp [Term.meaning, Term.meanings, Expr.stored, hslot]

/-- What a text that is accepted is parsed to. -/
theorem Term.exists_parse {text : List Char} (h : (Term.parse text).isOk = true) :
    ∃ value, Term.parse text = .ok value := by
  cases hparse : Term.parse text with
  | error e =>
    rw [hparse] at h
    simp [Except.isOk, Except.toBool] at h
  | ok value => exact ⟨value, rfl⟩

namespace Program

/-- The code of every initializer is that of the declaration from the name on.  It is a plain assignment
to the slot of the declared variable exactly if an equals sign and a value follow the name; any other
expression that begins with the name is accepted too, and what has no code is reported. -/
theorem initializers_exact {globals : Globals} {commands : CommandTable} {id : Nat}
    {path : Option String} {source : List Char} {program : Program}
    (h : compile globals commands id path source = .ok program) :
    (program.state = .valid → program.tree.isSome = true) ∧
    ∀ tree, program.tree = some tree → ∀ i ∈ tree.initializers,
      ∃ (slot : Nat) (declared : Variable) (line : Line) (name rest : List Char) (node : Node),
        program.declarations[slot]? = some declared ∧ slot ∉ program.parameters ∧
        line ∈ logicalLines source ∧ line.Declares name rest ∧
        declared.name = fold (String.ofList name) ∧ tree.nodes[i]? = some node ∧
        node.line = line.number ∧ node.expression = some (name ++ rest) ∧
        node.code = Expr.codeOf (program.scope globals commands) (name ++ rest) ∧
        ((∃ value, node.code = some (.assignSlot slot .set value)) ↔
          node.code.isSome = true ∧ IsPlainInitializer rest) ∧
        (program.state = .valid → node.code.isSome = true) ∧
        (node.code = none → program.state = .compileError ∧
          ∃ e, ⟨line.number, .expression e⟩ ∈ program.diagnostics) := by
  constructor
  · intro hvalid
    rcases (finished_of_compile h).compiled hvalid with ⟨tree, htree, -⟩
    rw [htree]
    rfl
  · intro tree htree i hi
    rcases exists_translation h htree with
      ⟨script, hscript, hdeclared, hparameters, -, hinitializers, hnodes, hreported⟩
    rw [hinitializers] at hi
    rcases Script.exists_of_mem_initializers hi with ⟨node, hmem, hnode⟩
    rcases Script.mem_initializerNodes.1 hmem with
      ⟨slot, line, fresh, text, hentry, hparameter, htext, rfl⟩
    rcases (hscript.2.isDeclaration hentry).declares htext with
      ⟨name, rest, hdeclares, rfl, hname, hnumber⟩
    have hnamed : (program.scope globals commands).named (String.ofList name) = .slot slot :=
      Script.named_declared hscript.2 (by rw [← hdeclared]; rfl) hentry hname
    rcases Node.exists_translated hnodes hnode rfl with ⟨found, hfound, -, hat, hexpression, hcode⟩
    have hslot : program.declarations[slot]? = some fresh := by
      rw [hdeclared, Script.declaredVariables_eq, List.getElem?_map, hentry]
      rfl
    have hline : line ∈ logicalLines source := by
      rw [← hscript.1]
      exact script.mem_lines_of_entry (List.mem_of_getElem? hentry)
    have hreport : Expr.codeOf (program.scope globals commands) (name ++ rest) = none →
        program.state = .compileError ∧ ∃ e, ⟨line.number, .expression e⟩ ∈ program.diagnostics := by
      intro hnone
      have hall := hreported i _ hnode rfl hnone
      rwa [← hnumber]
    have hplain := codeOf_eq_assignSlot_iff hdeclares.2.2.1 hdeclares.2.2.2.1 hnamed
    rw [← hcode] at hplain hreport
    refine ⟨slot, fresh, line, name, rest, found, hslot, by rwa [hparameters], hline, hdeclares, hname,
      hfound, hat.trans hnumber, hexpression, hcode, hplain, fun hvalid => ?_, hreport⟩
    rw [Option.isSome_iff_ne_none]
    intro hnone
    rw [(hreport hnone).1] at hvalid
    cases hvalid

/-- A script with a variable that is initialized by another one. -/
def copying : List Char :=
  "scriptname Copying\nvariable first\nvariable second = first\nbegin\nend".toList

/-- A script with a variable that is compared where it is declared. -/
def comparing : List Char :=
  "scriptname Comparing\nvariable first == first\nbegin\nend".toList

/-- Whether a script is valid, with one initializer of a text that has code of a kind. -/
def hasInitializer (source text : List Char) (isCode : Expr → Bool) : Bool :=
  match compile .empty .standard 1 none source with
  | .ok program =>
    match program.tree with
    | some tree =>
      match tree.nodes[1]? with
      | some node => decide (program.state = .valid) && decide (tree.initializers = [1]) &&
          decide (node.expression = some text) && node.code.any isCode
      | none => false
    | none => false
  | .error _ => false

/-- What a script with such an initializer is compiled to. -/
theorem exists_hasInitializer {source text : List Char} {isCode : Expr → Bool}
    (h : hasInitializer source text isCode = true) : ∃ program tree node,
      compile .empty .standard 1 none source = .ok program ∧ program.state = .valid ∧
        program.tree = some tree ∧ tree.initializers = [1] ∧ tree.nodes[1]? = some node ∧
          node.expression = some text ∧ ∃ code, node.code = some code ∧ isCode code = true := by
  unfold hasInitializer at h
  split at h
  · next program hcompile =>
    split at h
    · next tree htree =>
      split at h
      · next node hnode =>
        simp only [Bool.and_eq_true, decide_eq_true_eq, Option.any_eq_true] at h
        exact ⟨program, tree, node, hcompile, h.1.1.1, htree, h.1.1.2, hnode, h.1.2, h.2⟩
      · cases h
    · cases h
  · cases h

/-- An initializer with an equals sign assigns to its variable. -/
theorem initializers_exact_copying : ∃ program tree node, ∃ (slot : Nat) (declared : Variable),
    compile .empty .standard 1 none copying = .ok program ∧ program.tree = some tree ∧
      program.declarations[slot]? = some declared ∧ declared.name = "second" ∧
      tree.initializers = [1] ∧ tree.nodes[1]? = some node ∧
      ∃ value, node.code = some (.assignSlot slot .set value) := by
  rcases @exists_hasInitializer copying "second = first".toList (fun _ => true)
    (by decide +kernel) with
    ⟨program, tree, node, hcompile, -, htree, hinitializers, hnode, htext, code, hcode, -⟩
  rcases (initializers_exact hcompile).2 tree htree 1 (by simp [hinitializers]) with
    ⟨slot, declared, line, name, rest, node', hslot, -, -, hdeclares, hname, hnode', -, htext', -,
      hplain, -⟩
  rw [hnode] at hnode'
  cases hnode'
  rw [htext] at htext'
  have hsplit : "second = first".toList = name ++ rest := Option.some.inj htext'
  have hword : name = "second".toList := by
    rw [hdeclares.name_eq, ← hsplit]
    decide +kernel
  have hbehind : rest = " = first".toList := by
    rw [hdeclares.rest_eq, ← hsplit]
    decide +kernel
  have hassigned : IsPlainInitializer rest := by
    rcases @Term.exists_parse " first".toList (by decide +kernel) with ⟨value, hvalue⟩
    refine ⟨[' '], _, value, by simp [Blanks], ?_, hvalue⟩
    rw [hbehind]
    decide +kernel
  refine ⟨program, tree, node, slot, declared, hcompile, htree, hslot, ?_, hinitializers, hnode, ?_⟩
  · rw [hname, hword]
    decide +kernel
  · apply hplain.2
    rw [hcode]
    exact ⟨rfl, hassigned⟩

/-- A comparison with itself is accepted where a variable is declared. -/
theorem initializers_exact_comparing : ∃ program tree node,
    compile .empty .standard 1 none comparing = .ok program ∧ program.state = .valid ∧
      program.tree = some tree ∧ tree.initializers = [1] ∧ tree.nodes[1]? = some node ∧
      node.code = some (.binary .equal (.slot 0) (.slot 0)) ∧
      ∀ slot value, node.code ≠ some (.assignSlot slot .set value) := by
  let isComparison : Expr → Bool
    | .binary .equal (.slot 0) (.slot 0) => true
    | _ => false
  rcases @exists_hasInitializer comparing "first == first".toList isComparison
    (by decide +kernel) with
    ⟨program, tree, node, hcompile, hvalid, htree, hinitializers, hnode, -, code, hcode, hcomparison⟩
  have heq : code = .binary .equal (.slot 0) (.slot 0) := by
    simp only [isComparison] at hcomparison
    split at hcomparison
    · rfl
    · cases hcomparison
  rw [heq] at hcode
  refine ⟨program, tree, node, hcompile, hvalid, htree, hinitializers, hnode, hcode, ?_⟩
  intro slot value
  rw [hcode]
  simp

end Program
end ScriptMachine
