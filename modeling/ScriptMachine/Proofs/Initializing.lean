import ScriptMachine.Proofs.Blanking
import ScriptMachine.Proofs.Declaring

/-!
# Expressions cut out of cleaned lines

Initializers and the arrays of loops are cut out of cleaned lines, which have blanks for tabs;
statements are taken as they are written.  So the same expression has the same code in all these places
exactly as long as no tab stands in one of its literals.

Main results:

- {lit}`Source.clean_everything`: a cleaned line ends in the expression, with blanks for tabs.
- {lit}`Script.exists_statement` and {lit}`Script.exists_loop`: the nodes that lines are read to.
- {lit}`Program.expressions_agree`: initializers and arrays beside the same expressions as statements.
-/

namespace ScriptMachine

open Source Text

/-! ## Cleaned lines -/

namespace Source

/-- A blank is no tab, with blanks for tabs in a row. -/
theorem blanked_cons (c : Char) (s : List Char) : blanked (c :: s) = blank c :: blanked s :=
  rfl

/-- Where an expression ends a line, the cleaned line ends in it, with blanks for tabs. -/
theorem clean_everything {lead front text : List Char} {c : Char} {level : Level} {term : Term}
    (hlead : ∀ c ∈ lead, isBlank c = true) (hfront : IsBare (c :: front)) (hc : isBlank c = false)
    (h : Spread level term text) : ∃ gap, (∀ c ∈ gap, isBlank c = true) ∧
      clean .everything (lead ++ (c :: front ++ text)) =
        blanked (c :: front) ++ (gap ++ blanked (trim text)) := by
  rcases h.exists_blanks with ⟨before, after, hbefore, hafter, htext, hw⟩
  rcases hw.exists_concat with ⟨body, d, hbody, hd⟩
  have hsays := (h.speaks.bare_append hfront).bare_append (isBare_of_isBlank hlead)
  have hkept := beforeComment_eq_self hsays.comment
  have hstart : trimStart (blanked (lead ++ (c :: front ++ text))) =
      blanked (c :: front) ++ blanked text := by
    rw [blanked_append, blanked_append, blanked_cons, List.cons_append]
    apply trimStart_append (isBlank_blanked hlead)
    rwa [isBlank_blank]
  have hend : trimEnd (blanked (c :: front) ++ blanked text) =
      blanked (c :: front) ++ (blanked before ++ blanked (trim text)) := by
    have hall : blanked (c :: front) ++ blanked text =
        (blanked (c :: front) ++ blanked before ++ blanked body) ++ blank d :: blanked after := by
      rw [htext, hbody]
      simp [blanked]
    rw [hall, trimEnd_append _ (by rwa [isBlank_blank]),
      (trimEnd_nil_iff _).2 (isBlank_blanked hafter.isBlank), hbody]
    simp [blanked]
  refine ⟨blanked before, isBlank_blanked hbefore.isBlank, ?_⟩
  show trimEnd (trimStart (blanked (beforeComment .outside (lead ++ (c :: front ++ text))))) = _
  rw [hkept, hstart, hend]

/-! ## Words of a line -/

/-- Words with blanks behind each of them, in a row. -/
def row (words : List (List Char × List Char)) : List Char :=
  words.flatMap fun word => word.1 ++ word.2

/-- The words with blanks for the tabs behind them. -/
def untabbed (words : List (List Char × List Char)) : List (List Char × List Char) :=
  words.map fun word => (word.1, blanked word.2)

/-- Each word is solid, and there are blanks behind it. -/
def AreWords (words : List (List Char × List Char)) : Prop :=
  ∀ word ∈ words, IsSolid word.1 ∧ word.2 ≠ [] ∧ ∀ c ∈ word.2, isBlank c = true

instance (words : List (List Char × List Char)) : Decidable (AreWords words) :=
  inferInstanceAs (Decidable (∀ word ∈ words, (word.1 ≠ [] ∧ ∀ c ∈ word.1, isSolid c = true) ∧
    word.2 ≠ [] ∧ ∀ c ∈ word.2, isBlank c = true))

section Words

variable {words : List (List Char × List Char)}

/-- Words hold neither quotes nor semicolons. -/
theorem AreWords.isBare (h : AreWords words) : IsBare (row words) := by
  intro c hc
  rcases List.mem_flatMap.1 hc with ⟨word, hword, hc⟩
  rcases h word hword with ⟨hsolid, -, hgap⟩
  exact isBare_append.2 ⟨hsolid.isBare, isBare_of_isBlank hgap⟩ c hc

/-- Only the blanks between words have tabs. -/
theorem AreWords.blanked (h : AreWords words) :
    AreWords (untabbed words) ∧ blanked (row words) = row (untabbed words) := by
  constructor
  · intro word hword
    rcases List.mem_map.1 hword with ⟨⟨text, gap⟩, hmem, rfl⟩
    rcases h _ hmem with ⟨hsolid, hne, hgap⟩
    exact ⟨hsolid, by simpa [Source.blanked] using hne, isBlank_blanked hgap⟩
  · induction words with
    | nil => rfl
    | cons first rest ih =>
      have hfirst := (h first (by simp)).1.blanked_eq
      have hrest := ih fun word hword => h word (by simp [hword])
      simp only [row, untabbed, List.flatMap_cons, List.map_cons] at hrest ⊢
      rw [blanked_append, blanked_append, hfirst, hrest]

/-- Words are tokens. -/
theorem tokensFrom_row (h : AreWords words) (offset : Nat) (s : List Char) :
    ∃ tokens : List Token, tokens.map Token.text = words.map Prod.fst ∧
      tokensFrom offset (row words ++ s) =
        tokens ++ tokensFrom (offset + byteSize (row words)) s := by
  induction words generalizing offset with
  | nil => exact ⟨[], rfl, rfl⟩
  | cons first rest ih =>
    rcases first with ⟨word, gap⟩
    rcases h _ (List.mem_cons_self ..) with ⟨hsolid, hne, hgap⟩
    rcases ih (fun word hword => h word (by simp [hword])) (offset + byteSize word + byteSize gap) with
      ⟨tokens, htexts, htokens⟩
    have hhead : ∀ c ∈ (gap ++ (row rest ++ s)).head?, isBlank c = true := by
      cases gap with
      | nil => exact absurd rfl hne
      | cons c others =>
        intro d hd
        cases hd
        exact hgap c (by simp)
    refine ⟨⟨word, offset⟩ :: tokens, by simp [htexts], ?_⟩
    have hall : row ((word, gap) :: rest) ++ s = word ++ (gap ++ (row rest ++ s)) := by
      simp [row]
    have hsize : byteSize (row ((word, gap) :: rest)) =
        byteSize word + (byteSize gap + byteSize (row rest)) := by
      simp [row]
    rw [hall, tokensFrom_word hsolid.1 hsolid.isBlank hhead, tokensFrom_blanks hgap, htokens, hsize,
      List.cons_append]
    simp only [Nat.add_assoc]

end Words

/-- A text that does not begin with a blank begins with a word. -/
theorem exists_first_word {c : Char} {s : List Char} (hc : isBlank c = false) (offset : Nat) :
    ∃ word rest, c :: s = word ++ rest ∧ (∀ d ∈ rest.head?, isBlank d = true) ∧
      tokensFrom offset (c :: s) = ⟨word, offset⟩ :: tokensFrom (offset + byteSize word) rest := by
  rcases exists_word (c :: s) with hblank | ⟨blanks, word, rest, hsplit, hblanks, hne, hword, hrest⟩
  · rw [hblank c (by simp)] at hc
    cases hc
  · cases blanks with
    | nil =>
      rw [List.nil_append] at hsplit
      refine ⟨word, rest, hsplit, hrest, ?_⟩
      rw [hsplit, tokensFrom_word hne hword hrest]
    | cons d more =>
      have hsame : c = d := (List.cons.inj hsplit).1
      rw [hsame, hblanks d (by simp)] at hc
      cases hc

/-- A text that is not blank has words. -/
theorem tokensFrom_ne_nil {s : List Char} {c : Char} (hmem : c ∈ s) (hc : isBlank c = false)
    (offset : Nat) : tokensFrom offset s ≠ [] := by
  rcases exists_word s with hblank | ⟨blanks, word, rest, rfl, hblanks, hne, hword, hrest⟩
  · rw [hblank c hmem] at hc
    cases hc
  · rw [tokensFrom_blanks hblanks, tokensFrom_word hne hword hrest]
    simp

/-- A word that spells a keyword is its text but for the case of letters. -/
theorem Keyword.text_of_ofWord? {word : List Char} {keyword : Keyword}
    (h : ofWord? word = some keyword) : keyword.text.toList = word.map Char.toLower := by
  have hfound := List.find?_some h
  exact beq_iff_eq.1 hfound

/-- A word that spells a keyword has the characters of a name. -/
theorem Keyword.isNameChar_of_ofWord? {word : List Char} {keyword : Keyword}
    (h : ofWord? word = some keyword) : ∀ c ∈ word, isNameChar c = true := by
  have hletters : ∀ c ∈ keyword.text.toList, isNameChar c = true := by
    cases keyword <;> decide
  intro c hc
  rw [← isNameChar_toLower]
  apply hletters
  rw [text_of_ofWord? h]
  exact List.mem_map_of_mem hc

/-- A word in small and capital letters that spells a keyword. -/
theorem Keyword.exists_of_ofWord? {word : List Char} {keyword : Keyword}
    (h : ofWord? word = some keyword) : IsSolid word ∧ ofToken? word = some keyword := by
  have hchars := isNameChar_of_ofWord? h
  constructor
  · refine ⟨?_, fun c hc => isSolid_of_isNameChar (hchars c hc)⟩
    rintro rfl
    exact keyword.text_ne_nil (text_of_ofWord? h)
  · have hall : word.dropWhile isNameChar = [] := by
      simpa using @List.dropWhile_append_of_pos _ isNameChar word [] hchars
    unfold ofToken?
    rw [hall]
    exact h

/-- A line of words and of a text behind them. -/
def Line.Spells (line : Line) (words : List (List Char × List Char)) (text : List Char) : Prop :=
  AreWords words ∧ ∃ lead, (∀ c ∈ lead, isBlank c = true) ∧ line.text = lead ++ (row words ++ text)

/-- Where an expression stands behind words, the tokens of the line are the words and then those of the
expression, with blanks for tabs. -/
theorem Line.Spells.tokens {line : Line} {words : List (List Char × List Char)} {text : List Char}
    {level : Level} {term : Term} (h : line.Spells words text) (hne : words ≠ [])
    (htext : Spread level term text) : ∃ before word rest, ∃ tokens : List Token,
      clean .everything line.text = before ++ (word ++ rest) ∧
      blanked (trim text) = word ++ rest ∧ (∀ c ∈ rest.head?, isBlank c = true) ∧
      tokens.map Token.text = words.map Prod.fst ∧ line.tokens =
        tokens ++ ⟨word, byteSize before⟩ :: tokensFrom (byteSize before + byteSize word) rest := by
  rcases h with ⟨hwords, lead, hlead, hline⟩
  rcases hwords.blanked with ⟨hblanked, hrow⟩
  have hfront : ∃ c front, row words = c :: front ∧ isBlank c = false := by
    cases words with
    | nil => exact absurd rfl hne
    | cons first others =>
      rcases first with ⟨word, gap⟩
      have hsolid := (hwords _ (List.mem_cons_self ..)).1
      cases word with
      | nil => exact absurd rfl hsolid.1
      | cons c rest => exact ⟨c, _, rfl, hsolid.isBlank c (by simp)⟩
  rcases hfront with ⟨c, front, hfront, hc⟩
  have hbare := hwords.isBare
  rw [hfront] at hbare hrow hline
  rcases clean_everything hlead hbare hc htext with ⟨gap, hgap, hclean⟩
  rw [← hline, hrow] at hclean
  rcases tokensFrom_row hblanked 0 (gap ++ blanked (trim text)) with ⟨tokens, htexts, htokens⟩
  rcases htext.exists_blanks with ⟨-, -, -, -, -, hw⟩
  rcases hw.exists_cons with ⟨d, behind, hcons, hbegins⟩
  have hd : isBlank (blank d) = false := by
    rw [isBlank_blank]
    exact isBlank_of_begins hbegins
  have hoffset : 0 + byteSize (row (untabbed words)) + byteSize gap =
      byteSize (row (untabbed words) ++ gap) := by
    simp
  rcases exists_first_word (s := blanked behind) hd (byteSize (row (untabbed words) ++ gap)) with
    ⟨word, rest, hsplit, hrest, hword⟩
  have hlast : blanked (trim text) = word ++ rest := by
    rw [hcons, blanked_cons, hsplit]
  refine ⟨row (untabbed words) ++ gap, word, rest, tokens, ?_, hlast, hrest, ?_, ?_⟩
  · rw [hclean, hlast, List.append_assoc]
  · rw [htexts, untabbed, List.map_map]
    rfl
  · rw [Line.tokens, tokenize, hclean, htokens, tokensFrom_blanks hgap, hoffset, hlast, ← hsplit, hword]

/-- The first word of a line is its keyword. -/
theorem Line.Spells.keyword_eq {line : Line} {words : List (List Char × List Char)}
    {word gap text : List Char} {level : Level} {term : Term} {keyword : Keyword} (h : line.Spells ((word, gap) :: words) text)
    (hword : Keyword.ofWord? word = some keyword) (htext : Spread level term text) :
    line.keyword? = some keyword := by
  rcases h.tokens (by simp) htext with ⟨before, word', rest, tokens, -, -, -, htexts, htokens⟩
  cases tokens with
  | nil => cases htexts
  | cons first others =>
    have hfirst : first.text = word := (List.cons.inj htexts).1
    rw [Line.keyword?, htokens, List.cons_append]
    show Keyword.ofToken? first.text = some keyword
    rw [hfirst]
    exact (Keyword.exists_of_ofWord? hword).2

/-- The variable of a loop is the second word, and its array the text behind the third word, with blanks
for tabs. -/
theorem Line.IsForEach.eq_of_spells {line : Line} {declared : List Variable} {iterator : String}
    {slot : Nat} {collection text : List Char} {level : Level} {term : Term}
    {first second third : List Char × List Char} (h : line.IsForEach declared iterator slot collection)
    (hline : line.Spells [first, second, third] text) (htext : Spread level term text) :
    iterator = fold (String.ofList second.1) ∧ collection = blanked (trim text) := by
  rcases hline.tokens (by simp) htext with
    ⟨before, word, rest, tokens, hclean, hlast, -, htexts, htokens⟩
  rcases h with ⟨-, keyword, name, preposition, array, more, hfound, -, hiterator, -, hcut⟩
  rcases tokens with _ | ⟨first', _ | ⟨second', _ | ⟨third', _ | ⟨fourth', others⟩⟩⟩⟩
  case cons.cons.cons.nil =>
    simp only [List.map_cons, List.map_nil, List.cons.injEq, and_true] at htexts
    rw [htokens] at hfound
    simp only [List.cons_append, List.nil_append, List.cons.injEq] at hfound
    rcases hfound with ⟨-, rfl, -, rfl, -⟩
    rw [hclean, dropBytes?_append] at hcut
    cases hcut
    exact ⟨by rw [hiterator, htexts.2.1], hlast.symm⟩
  all_goals simp at htexts

end Source

section Assignments

variable {name gap text : List Char} {value : Term}

/-- A trimmed assignment, with blanks for tabs. -/
theorem exists_blanked_assign (hname : isIdentifier name = true) : ∃ rest,
    blanked (trim (name ++ (gap ++ '=' :: text))) = name ++ (blanked gap ++ '=' :: rest) := by
  rcases exists_cons_of_isIdentifier hname with ⟨c, others, rfl, hstart, -⟩
  have hc := isBlank_of_isNameChar (isNameChar_of_isNameStart hstart)
  have hstart : trimStart ((c :: others) ++ (gap ++ '=' :: text)) =
      (c :: others) ++ (gap ++ '=' :: text) :=
    trimStart_append (List.forall_mem_nil _) hc
  refine ⟨blanked (trimEnd text), ?_⟩
  rw [trim, hstart, ← List.append_assoc, trimEnd_append text (by decide : isBlank '=' = false)]
  rw [blanked_append, blanked_append, (isSolid_of_isIdentifier hname).blanked_eq, List.append_assoc]
  rfl

/-- The initializer of a declared variable is the assignment behind the keyword, with blanks for
tabs. -/
theorem Source.Line.IsDeclaration.initializer_eq {line : Line} {globals : Globals}
    {declared : List Variable} {fresh : Variable} {word gap' : List Char}
    (h : line.IsDeclaration globals declared fresh) (hname : isIdentifier name = true)
    (hgap : Blanks gap) (hvalue : Spread .expression value text)
    (hline : line.Spells [(word, gap')] (name ++ (gap ++ '=' :: text))) :
    fresh.initializer = some (blanked (trim (name ++ (gap ++ '=' :: text)))) ∧
      fresh.name = fold (String.ofList name) := by
  rcases hline.tokens (by simp) (spread_assign hname hgap hvalue) with
    ⟨before, declared', rest, tokens, hclean, hsplit, hrest, htexts, htokens⟩
  rcases h with ⟨-, token, htoken, hidentifier, -, -, hfresh, -, hinitializer⟩
  have hlength : tokens.length = 1 := by
    rw [← List.length_map Token.text, htexts]
    rfl
  rw [htokens, List.getElem?_append_right (Nat.le_of_eq hlength), hlength] at htoken
  cases htoken
  -- The declared word is the name, which ends at a blank.
  rcases @exists_blanked_assign name gap text hname with ⟨behind, hassign⟩
  rw [hsplit] at hassign
  have hstop : ∀ c ∈ rest.head?, isNameChar c = false := fun c hc => not_isNameChar (hrest c hc)
  rcases eq_of_append_names (isNameChar_of_isIdentifier hidentifier) hstop
    (isNameChar_of_isIdentifier hname) (not_isNameChar_head hgap.blanked) hassign with ⟨hword, hbehind⟩
  -- The equals sign is part of a third word.
  have hmore : tokensFrom (byteSize before + byteSize declared') rest ≠ [] := by
    refine tokensFrom_ne_nil (c := '=') ?_ (by decide) _
    rw [hbehind]
    simp
  have hthree : 2 < line.tokens.length := by
    have hpos := List.length_pos_iff.2 hmore
    rw [htokens]
    simp only [List.length_append, List.length_cons, hlength]
    omega
  rw [if_pos hthree] at hinitializer
  rcases hinitializer with ⟨found, hfound, hcut⟩
  rw [hclean, dropBytes?_append] at hcut
  cases hcut
  exact ⟨by rw [hfound, hsplit], by rw [hfresh, hword]⟩

end Assignments

/-! ## The nodes of lines -/

/-- A node of a kind, made of a line and a text. -/
def Node.IsOf (node : Node) (kind : NodeKind) (line : Line) (text : List Char) : Prop :=
  node.kind = kind ∧ node.line = line.number ∧ node.expression = some text

/-- What a line in the entry block is there for: a statement and the head of a loop over an array have
nodes, and every other line has a keyword of its own. -/
inductive Source.Line.Makes (declared : List Variable) (nodes : List Node) (line : Line) : Prop where
  | statement {inLoop : Bool} {text : List Char} {node : Node} (h : line.IsLeaf inLoop text)
      (hmem : node ∈ nodes) (hnode : node.IsOf .expression line text)
  | loop {iterator : String} {slot : Nat} {text : List Char} {node : Node}
      (h : line.IsForEach declared iterator slot text) (hmem : node ∈ nodes)
      (hnode : node.IsOf (.forEach iterator slot) line text)
  | other {keyword : Keyword} (h : line.keyword? = some keyword)
      (hstructural : keyword.isStructural = true) (hdeclaration : keyword ≠ .declaration) (hloop : keyword ≠ .forEachLoop)

section Lines

variable {declared : List Variable} {line : Line}

/-- More nodes do not matter. -/
theorem Source.Line.Makes.mono {nodes nodes' : List Node} (h : line.Makes declared nodes)
    (hsub : ∀ node ∈ nodes, node ∈ nodes') : line.Makes declared nodes' := by
  cases h with
  | statement h hmem hnode => exact .statement h (hsub _ hmem) hnode
  | loop h hmem hnode => exact .loop h (hsub _ hmem) hnode
  | other h hstructural hdeclaration hloop => exact .other h hstructural hdeclaration hloop

mutual

/-- Every line of a statement has its purpose. -/
theorem Statement.makes {inLoop : Bool} (start : Nat) : (statement : Statement) →
    statement.Conforms declared inLoop → line ∈ statement.lines →
      line.Makes declared (statement.nodes start)
  | .leaf first expression, h, hline => by
    rw [Statement.lines, List.mem_singleton] at hline
    subst hline
    exact .statement h (List.mem_cons_self ..) ⟨rfl, rfl, rfl⟩
  | .whileLoop first condition body closing, h, hline => by
    simp only [Statement.lines, List.mem_append, List.mem_cons, List.not_mem_nil, or_false] at hline
    rcases hline with (rfl | hline) | rfl
    · exact .other h.1.1 rfl (by decide) (by decide)
    · exact (body.makes (start + 1) h.2.1 hline).mono fun node hnode => by simp [Statement.nodes, hnode]
    · exact .other h.2.2 rfl (by decide) (by decide)
  | .forEach first iterator slot collection body closing, h, hline => by
    simp only [Statement.lines, List.mem_append, List.mem_cons, List.not_mem_nil, or_false] at hline
    rcases hline with (rfl | hline) | rfl
    · exact .loop h.1 (List.mem_cons_self ..) ⟨rfl, rfl, rfl⟩
    · exact (body.makes (start + 1) h.2.1 hline).mono fun node hnode => by simp [Statement.nodes, hnode]
    · exact .other h.2.2 rfl (by decide) (by decide)
  | .conditional first condition body branches closing, h, hline => by
    simp only [Statement.lines, List.mem_append, List.mem_cons, List.not_mem_nil, or_false] at hline
    rcases hline with ((rfl | hline) | hline) | rfl
    · exact .other h.1.1 rfl (by decide) (by decide)
    · exact (body.makes (start + 1) h.2.1 hline).mono fun node hnode => by simp [Statement.nodes, hnode]
    · exact (branches.makes (start + 1 + body.size) h.2.2.1 hline).mono fun node hnode => by
        simp [Statement.nodes, hnode]
    · exact .other h.2.2.2 rfl (by decide) (by decide)

/-- So has every line of statements in a row. -/
theorem Block.makes {inLoop : Bool} (start : Nat) : (block : Block) → block.Conforms declared inLoop →
    line ∈ block.lines → line.Makes declared (block.nodes start)
  | .nil, _, hline => absurd hline List.not_mem_nil
  | .cons first rest, h, hline => by
    rcases List.mem_append.1 hline with hline | hline
    · exact (first.makes start h.1 hline).mono fun node hnode => by simp [Block.nodes, hnode]
    · exact (rest.makes (start + first.size) h.2 hline).mono fun node hnode => by
        simp [Block.nodes, hnode]

/-- So has every line of branches. -/
theorem Branches.makes {inLoop : Bool} (start : Nat) : (branches : Branches) →
    branches.Conforms declared inLoop → line ∈ branches.lines →
      line.Makes declared (branches.nodes start)
  | .none, _, hline => absurd hline List.not_mem_nil
  | .otherwise first body, h, hline => by
    rcases List.mem_cons.1 hline with rfl | hline
    · exact .other h.1 rfl (by decide) (by decide)
    · exact (body.makes (start + 1) h.2 hline).mono fun node hnode => by simp [Branches.nodes, hnode]
  | .elseIf first condition body rest, h, hline => by
    simp only [Branches.lines, List.cons_append, List.mem_append, List.mem_cons] at hline
    rcases hline with rfl | hline | hline
    · exact .other h.1.1 rfl (by decide) (by decide)
    · exact (body.makes (start + 1) h.2.1 hline).mono fun node hnode => by simp [Branches.nodes, hnode]
    · exact (rest.makes (start + 1 + body.size) h.2.2 hline).mono fun node hnode => by
        simp [Branches.nodes, hnode]

end

end Lines

namespace Script

variable {globals : Globals} {script : Script} {line : Line}

/-- A line of a script declares a variable or has a purpose of its own. -/
theorem Conforms.declares_or_makes (h : script.Conforms globals) (hline : line ∈ script.lines) :
    (line.keyword? = some .declaration ∧ ∃ (slot : Nat) (fresh : Variable),
        script.entries[slot]? = some (line, fresh)) ∨
      line.Makes (script.before.map Prod.snd) (script.body.nodes 1) := by
  have hentry : ∀ entry ∈ script.entries, entry.1 = line → line.keyword? = some .declaration ∧
      ∃ (slot : Nat) (fresh : Variable), script.entries[slot]? = some (line, fresh) := by
    rintro ⟨first, fresh⟩ hentry rfl
    rcases List.mem_iff_getElem?.1 hentry with ⟨slot, hslot⟩
    exact ⟨(h.isDeclaration hslot).1, slot, fresh, hslot⟩
  simp only [lines, List.mem_cons, List.mem_append, List.mem_map, List.cons_append] at hline
  rcases hline with rfl | (⟨entry, hmem, hsame⟩ | rfl | hline) | rfl | ⟨entry, hmem, hsame⟩
  · exact .inr (.other h.header.1 rfl (by decide) (by decide))
  · exact .inl (hentry entry (List.mem_append_left _ hmem) hsame)
  · exact .inr (.other h.opening.1 rfl (by decide) (by decide))
  · exact .inr (script.body.makes 1 h.body hline)
  · exact .inr (.other h.closing rfl (by decide) (by decide))
  · exact .inl (hentry entry (List.mem_append_right _ hmem) hsame)

/-- Nodes of the entry block are found in the tree. -/
theorem exists_node (script : Script) {node : Node} (h : node ∈ script.body.nodes 1) :
    ∃ id : Nat, script.tree.nodes[id]? = some node := by
  apply Array.mem_iff_getElem?.1
  simp [tree, h]

/-- A line without a keyword is a statement. -/
theorem exists_statement (h : script.Conforms globals) (hline : line ∈ script.lines)
    (hkeyword : line.keyword? = none) : ∃ (id : Nat) (node : Node),
      script.tree.nodes[id]? = some node ∧ node.IsOf .expression line (trim line.text) := by
  rcases h.declares_or_makes hline with ⟨hsome, -⟩ | hmakes
  · simp [hkeyword] at hsome
  · cases hmakes with
    | statement hleaf hmem hnode =>
      rcases script.exists_node hmem with ⟨id, hid⟩
      have htext := hleaf.2
      rw [hkeyword] at htext
      cases htext
      exact ⟨id, _, hid, hnode⟩
    | loop hloop => simp [Line.IsForEach, hkeyword] at hloop
    | other hsome => simp [hkeyword] at hsome

/-- The head of a loop over an array has a node. -/
theorem exists_loop (h : script.Conforms globals) (hline : line ∈ script.lines)
    (hkeyword : line.keyword? = some .forEachLoop) : ∃ (id : Nat) (node : Node) (iterator : String)
      (slot : Nat) (collection : List Char), script.tree.nodes[id]? = some node ∧
        line.IsForEach (script.before.map Prod.snd) iterator slot collection ∧
          node.IsOf (.forEach iterator slot) line collection := by
  rcases h.declares_or_makes hline with ⟨hsome, -⟩ | hmakes
  · simp [hkeyword] at hsome
  · cases hmakes with
    | statement hleaf => cases (hleaf.1 _ hkeyword).1
    | loop hloop hmem hnode =>
      rcases script.exists_node hmem with ⟨id, hid⟩
      exact ⟨id, _, _, _, _, hid, hloop, hnode⟩
    | other hsome hstructural hdeclaration hloop => simp_all

/-- A line that declares a variable is found among the declarations. -/
theorem exists_declaration (h : script.Conforms globals) (hline : line ∈ script.lines)
    (hkeyword : line.keyword? = some .declaration) :
    ∃ (slot : Nat) (fresh : Variable), script.entries[slot]? = some (line, fresh) := by
  rcases h.declares_or_makes hline with ⟨-, hentry⟩ | hmakes
  · exact hentry
  · cases hmakes with
    | statement hleaf => cases (hleaf.1 _ hkeyword).1
    | loop hloop => simp [Line.IsForEach, hkeyword] at hloop
    | other hsome hstructural hdeclaration hloop => simp_all

end Script

/-! ## The same expression in different places -/

/-- Names that differ in letter case stand for the same. -/
theorem Scope.named_congr {scope : Scope} {name name' : String} (h : fold name = fold name') :
    scope.named name = scope.named name' ∧ (scope.Knows name ↔ scope.Knows name') := by
  constructor
  · unfold named
    rw [h]
  · unfold Knows
    rw [← Globals.contains_fold, h, Globals.contains_fold]

/-- The code of a text is that of its only term. -/
theorem Expr.codeOf_spread {scope : Scope} {term : Term} {text : List Char} {code : Expr}
    (h : Spread .expression term text) :
    codeOf scope text = some code ↔ term.Resolvable scope ∧ code = term.meaning scope := by
  rw [codeOf_eq_some_iff]
  constructor
  · rintro ⟨other, hother, hresolvable, hcode⟩
    rw [← Term.parse_eq_ok_iff] at h hother
    rw [h] at hother
    cases hother
    exact ⟨hresolvable, hcode⟩
  · rintro ⟨hresolvable, hcode⟩
    exact ⟨term, h, hresolvable, hcode⟩

/-- Assignments of one value to one name have the same code, whatever the letter case of the name and
the blanks around it. -/
theorem Expr.codeOf_assign_congr {scope : Scope} {name name' gap gap' text : List Char} {value : Term}
    (hname : isIdentifier name = true) (hname' : isIdentifier name' = true)
    (hsame : fold (String.ofList name) = fold (String.ofList name')) (hgap : Blanks gap)
    (hgap' : Blanks gap') (hvalue : Spread .expression value text) :
    codeOf scope (trim (name ++ (gap ++ '=' :: text))) =
      codeOf scope (trim (name' ++ (gap' ++ '=' :: text))) := by
  rcases (spread_assign hname hgap hvalue).exists_blanks with ⟨-, -, -, -, -, hfirst⟩
  rcases (spread_assign hname' hgap' hvalue).exists_blanks with ⟨-, -, -, -, -, hsecond⟩
  rcases @Scope.named_congr scope _ _ hsame with ⟨hnamed, hknows⟩
  apply Option.ext
  intro code
  rw [codeOf_spread hfirst.spread, codeOf_spread hsecond.spread]
  simp only [Term.Resolvable, Term.meaning, hnamed, hknows]

/-- The same expression was cut out of a cleaned line for one node and is a statement at another one:
the code is the same as long as no tab stands in a literal, and it is another one otherwise, since the
statement says what the literals stand for and the other node says blanks for their tabs. -/
structure Node.Echoes (echo stated : Node) (text : List Char) : Prop where
  same : '\t' ∉ quoted text → echo.code = stated.code
  other : stated.code.isSome = true → '\t' ∈ quoted text → echo.code ≠ stated.code
  stated_said : ∀ code, stated.code = some code → code.said = said text
  echo_said : ∀ code, echo.code = some code → code.said = said (blanked text)

/-- A bare text in front of an expression is no part of its literals, and says nothing. -/
theorem Node.echoes_of_codes {scope : Scope} {echo stated : Node} {front front' text : List Char}
    {term term' : Term} (hfront : IsBare front) (hfront' : IsBare front')
    (hterm : Spread .expression term (front ++ text))
    (hterm' : Spread .expression term' (front' ++ text))
    (hecho : echo.code = Expr.codeOf scope (blanked (trim (front ++ text))))
    (hstated : stated.code = Expr.codeOf scope (trim (front' ++ text)))
    (hsame : Expr.codeOf scope (trim (front ++ text)) = Expr.codeOf scope (trim (front' ++ text))) :
    echo.Echoes stated text := by
  have hquoted := hfront.quoted_append text
  rw [← hsame] at hstated
  constructor
  · intro htab
    rw [hecho, hstated, Expr.codeOf_blanked hterm (by rwa [hquoted])]
  · intro hsome htab hcode
    rw [hstated] at hsome hcode
    rw [hecho, Expr.codeOf_blanked_iff hterm hsome, hquoted] at hcode
    exact hcode htab
  · intro code hcode
    rw [hstated, hsame] at hcode
    rw [Expr.said_of_codeOf hcode, hterm'.said_trim, hfront'.said_append]
  · intro code hcode
    rw [hecho] at hcode
    rw [Expr.said_of_codeOf hcode, hterm.said_blanked_trim, blanked_append,
      (isBare_blanked hfront).said_append]

/-- Blanks in front of a text are trimmed off. -/
theorem trim_append {blanks : List Char} (h : ∀ c ∈ blanks, isBlank c = true) (text : List Char) :
    trim (blanks ++ text) = trim text := by
  rw [trim, trimStart, List.dropWhile_append_of_pos h]
  rfl

namespace Script

variable {globals : Globals} {script : Script} {scope : Scope} {tree : Tree} {text : List Char}
  {value : Term}

/-- A line of an expression alone is a statement with the code of the expression. -/
theorem exists_stated (h : script.Conforms globals)
    (hnodes : ∀ id : Nat, tree.nodes[id]? = script.tree.nodes[id]?.map fun node =>
      { node with code := node.translation scope }) {line : Line} (hline : line ∈ script.lines)
    (hkeyword : line.keyword? = none) (hspells : line.Spells [] text) :
    ∃ (id : Nat) (node : Node), tree.nodes[id]? = some node ∧ node.IsOf .expression line (trim text) ∧
      node.code = Expr.codeOf scope (trim text) := by
  rcases exists_statement h hline hkeyword with ⟨id, node, hid, hkind, hnumber, hexpression⟩
  rcases hspells with ⟨-, lead, hlead, htext⟩
  have htrim : trim line.text = trim text := by
    rw [htext]
    exact trim_append hlead text
  rw [htrim] at hexpression
  rcases Node.exists_translated hnodes hid hexpression with
    ⟨stated, hstated, hkind', hnumber', hexpression', hcode⟩
  exact ⟨id, stated, hstated, ⟨hkind'.trans hkind, hnumber'.trans hnumber, hexpression'⟩, hcode⟩

/-- The initializer of a declared variable has the code of the assignment, with blanks for tabs. -/
theorem exists_initialized (h : script.Conforms globals)
    (hnodes : ∀ id : Nat, tree.nodes[id]? = script.tree.nodes[id]?.map fun node =>
      { node with code := node.translation scope }) {line : Line} (hline : line ∈ script.lines)
    {word blanks name gap : List Char} (hword : Keyword.ofWord? word = some .declaration)
    (hname : isIdentifier name = true) (hgap : Blanks gap) (hvalue : Spread .expression value text)
    (hspells : line.Spells [(word, blanks)] (name ++ (gap ++ '=' :: text)))
    (hparameter : ∀ slot ∈ script.parameters,
      Program.slotIn? script.declaredVariables (String.ofList name) ≠ some slot) :
    ∃ id ∈ script.tree.initializers, ∃ node : Node, tree.nodes[id]? = some node ∧
      node.IsOf .expression line (blanked (trim (name ++ (gap ++ '=' :: text)))) ∧
      node.code = Expr.codeOf scope (blanked (trim (name ++ (gap ++ '=' :: text)))) := by
  have hkeyword := hspells.keyword_eq hword (spread_assign hname hgap hvalue)
  rcases exists_declaration h hline hkeyword with ⟨slot, fresh, hentry⟩
  have hdeclaration := h.isDeclaration hentry
  rcases hdeclaration.initializer_eq hname hgap hvalue hspells with ⟨hinitializer, hfresh⟩
  have hmem := mem_initializerNodes.2 ⟨slot, line, fresh, _, hentry,
    fun hslot => hparameter slot hslot (slotIn?_declared h hentry hfresh), hinitializer, rfl⟩
  rcases exists_initializer hmem with ⟨id, hid, hnode⟩
  rcases Node.exists_translated hnodes hnode rfl with ⟨echo, hecho, hkind, hline', hexpression, hcode⟩
  rcases hdeclaration with ⟨-, token, -, -, -, -, -, hnumber, -⟩
  exact ⟨id, hid, echo, hecho, ⟨hkind, hline'.trans hnumber, hexpression⟩, hcode⟩

/-- The head of a loop over an array has the code of the array, with blanks for tabs. -/
theorem exists_headed (h : script.Conforms globals)
    (hnodes : ∀ id : Nat, tree.nodes[id]? = script.tree.nodes[id]?.map fun node =>
      { node with code := node.translation scope }) {line : Line} (hline : line ∈ script.lines)
    {word blanks iterator gap preposition gap' : List Char}
    (hword : Keyword.ofWord? word = some .forEachLoop) (hvalue : Spread .expression value text)
    (hspells : line.Spells [(word, blanks), (iterator, gap), (preposition, gap')] text) :
    ∃ (id : Nat) (node : Node) (slot : Nat), tree.nodes[id]? = some node ∧
      node.IsOf (.forEach (fold (String.ofList iterator)) slot) line (blanked (trim text)) ∧
      node.code = Expr.codeOf scope (blanked (trim text)) := by
  have hkeyword := hspells.keyword_eq hword hvalue
  rcases exists_loop h hline hkeyword with
    ⟨id, node, found, slot, collection, hid, hloop, hkind, hnumber, hexpression⟩
  rcases hloop.eq_of_spells hspells hvalue with ⟨rfl, rfl⟩
  rcases Node.exists_translated hnodes hid hexpression with
    ⟨echo, hecho, hkind', hnumber', hexpression', hcode⟩
  exact ⟨id, echo, slot, hecho, ⟨hkind'.trans hkind, hnumber'.trans hnumber, hexpression'⟩, hcode⟩

end Script

namespace Program

/-- An expression has the same code where a variable is initialized with it and where it is assigned to
the variable, and in the head of a loop over an array and on its own, exactly as long as no tab stands
in one of its literals.  The statement says all characters of the literals. -/
theorem expressions_agree {globals : Globals} {commands : CommandTable} {id : Nat}
    {path : Option String} {source text : List Char} {program : Program} {tree : Tree} {value : Term}
    (h : compile globals commands id path source = .ok program) (htree : program.tree = some tree)
    (hvalue : Term.parse text = .ok value) :
    (∀ (declaring stating : Line) (word blanks name name' gap gap' : List Char),
      declaring ∈ logicalLines source → stating ∈ logicalLines source →
      Keyword.ofWord? word = some .declaration → isIdentifier name = true → isIdentifier name' = true →
      fold (String.ofList name) = fold (String.ofList name') → Blanks gap → Blanks gap' →
      declaring.Spells [(word, blanks)] (name ++ (gap ++ '=' :: text)) →
      stating.Spells [] (name' ++ (gap' ++ '=' :: text)) → stating.keyword? = none →
      (∀ slot ∈ program.parameters,
        slotIn? program.declarations (String.ofList name) ≠ some slot) →
      ∃ i ∈ tree.initializers, ∃ (j : Nat) (echo stated : Node),
        tree.nodes[i]? = some echo ∧
        echo.IsOf .expression declaring (blanked (trim (name ++ (gap ++ '=' :: text)))) ∧
        tree.nodes[j]? = some stated ∧
        stated.IsOf .expression stating (trim (name' ++ (gap' ++ '=' :: text))) ∧
        echo.Echoes stated text) ∧
    (∀ (heading stating : Line) (word blanks iterator gap preposition gap' : List Char),
      heading ∈ logicalLines source → stating ∈ logicalLines source →
      Keyword.ofWord? word = some .forEachLoop →
      heading.Spells [(word, blanks), (iterator, gap), (preposition, gap')] text →
      stating.Spells [] text → stating.keyword? = none →
      ∃ (i j : Nat) (echo stated : Node) (slot : Nat),
        tree.nodes[i]? = some echo ∧
        echo.IsOf (.forEach (fold (String.ofList iterator)) slot) heading (blanked (trim text)) ∧
        tree.nodes[j]? = some stated ∧ stated.IsOf .expression stating (trim text) ∧
        echo.Echoes stated text) := by
  have hspread := Term.parse_eq_ok_iff.1 hvalue
  rcases exists_translation h htree with
    ⟨script, hscript, hdeclared, hparameters, -, hinitializers, hnodes, -⟩
  rw [← hscript.1, hinitializers, hdeclared, hparameters]
  constructor
  · intro declaring stating word blanks name name' gap gap' hdeclaring hstating hword hname hname' hsame
      hgap hgap' hdeclaration hstatement hkeyword hparameter
    rcases Script.exists_initialized hscript.2 hnodes hdeclaring hword hname hgap hspread hdeclaration
      hparameter with ⟨i, hi, echo, hecho, hisOf, hcode⟩
    rcases Script.exists_stated hscript.2 hnodes hstating hkeyword hstatement with
      ⟨j, stated, hstated, hisOf', hcode'⟩
    have hfront : ∀ {name gap : List Char}, isIdentifier name = true → Blanks gap →
        IsBare (name ++ (gap ++ ['='])) := fun hname hgap =>
      isBare_append.2 ⟨(isSolid_of_isIdentifier hname).isBare,
        isBare_append.2 ⟨hgap.isBare, by simp [isBare_cons, isBare_nil]⟩⟩
    have htext : ∀ name gap : List Char,
        name ++ (gap ++ '=' :: text) = name ++ (gap ++ ['=']) ++ text := by
      simp
    refine ⟨i, hi, j, echo, stated, hecho, hisOf, hstated, hisOf', ?_⟩
    apply Node.echoes_of_codes (hfront hname hgap) (hfront hname' hgap')
      (by rw [← htext]; exact spread_assign hname hgap hspread)
      (by rw [← htext]; exact spread_assign hname' hgap' hspread)
      (by rw [← htext]; exact hcode) (by rw [← htext]; exact hcode')
    rw [← htext, ← htext]
    exact Expr.codeOf_assign_congr hname hname' hsame hgap hgap' hspread
  · intro heading stating word blanks iterator gap preposition gap' hheading hstating hword hhead
      hstatement hkeyword
    rcases Script.exists_headed hscript.2 hnodes hheading hword hspread hhead with
      ⟨i, echo, slot, hecho, hisOf, hcode⟩
    rcases Script.exists_stated hscript.2 hnodes hstating hkeyword hstatement with
      ⟨j, stated, hstated, hisOf', hcode'⟩
    exact ⟨i, j, echo, stated, slot, hecho, hisOf, hstated, hisOf',
      @Node.echoes_of_codes _ _ _ [] [] _ _ _ isBare_nil isBare_nil hspread hspread hcode hcode' rfl⟩

/-- A script with one text in four places, with a tab in it. -/
def tabbing : List Char :=
  ("scriptname Tabbing\nvariable v = \"a\tb\"\nbegin\nv = \"a\tb\"\n" ++
    "foreach v in \"a\tb\"\nloop\n\"a\tb\"\nend").toList

/-- Whether that script is valid. -/
def isTabbing : Bool :=
  match compile .empty .standard 1 none tabbing with
  | .ok program => decide (program.state = .valid) && program.parameters.isEmpty
  | .error _ => false

/-- Two nodes with different code: the first one says a blank where the other one says a tab. -/
def LosesTab (echo stated : Node) : Prop :=
  ∃ code code', echo.code = some code ∧ stated.code = some code' ∧ code ≠ code' ∧
    code.said = "a b".toList ∧ code'.said = "a\tb".toList

/-- The code of a text with a tab in its literal. -/
theorem losesTab_of_echoes {echo stated : Node} {text : List Char} (h : echo.Echoes stated text)
    (hecho : echo.code.isSome = true) (hstated : stated.code.isSome = true)
    (htab : '\t' ∈ quoted text) (hsaid : said text = "a\tb".toList)
    (hblanked : said (blanked text) = "a b".toList) : LosesTab echo stated := by
  rcases Option.isSome_iff_exists.1 hecho with ⟨code, hcode⟩
  rcases Option.isSome_iff_exists.1 hstated with ⟨code', hcode'⟩
  refine ⟨code, code', hcode, hcode', fun hsame => ?_, ?_, ?_⟩
  · apply h.other hstated htab
    rw [hcode, hcode', hsame]
  · rw [h.echo_said code hcode, hblanked]
  · rw [h.stated_said code' hcode', hsaid]

/-- A literal loses its tab where a variable is initialized and in the head of a loop. -/
theorem expressions_agree_tabbing : ∃ program tree,
    compile .empty .standard 1 none tabbing = .ok program ∧ program.state = .valid ∧
      program.tree = some tree ∧
      (∃ i ∈ tree.initializers, ∃ (j : Nat) (echo stated : Node), tree.nodes[i]? = some echo ∧
        tree.nodes[j]? = some stated ∧ LosesTab echo stated) ∧
      ∃ (i j : Nat) (echo stated : Node), tree.nodes[i]? = some echo ∧
        tree.nodes[j]? = some stated ∧ LosesTab echo stated := by
  have htabbing : isTabbing = true := by decide +kernel
  unfold isTabbing at htabbing
  split at htabbing
  · next program hcompile =>
    simp only [Bool.and_eq_true, decide_eq_true_eq, List.isEmpty_iff] at htabbing
    rcases htabbing with ⟨hvalid, hparameters⟩
    rcases (finished_of_compile hcompile).compiled hvalid with ⟨tree, htree, hcompiled⟩
    rcases @Term.exists_parse " \"a\tb\"".toList (by decide +kernel) with ⟨value, hvalue⟩
    refine ⟨program, tree, hcompile, hvalid, htree, ?_, ?_⟩
    · rcases (expressions_agree hcompile htree hvalue).1 ⟨2, "variable v = \"a\tb\"".toList⟩
        ⟨4, "v = \"a\tb\"".toList⟩ "variable".toList [' '] ['v'] ['v'] [' '] [' '] (by decide +kernel)
        (by decide +kernel) (by decide +kernel) rfl rfl rfl (by simp [Blanks]) (by simp [Blanks])
        ⟨by decide +kernel, [], by simp, by decide +kernel⟩
        ⟨by decide +kernel, [], by simp, by decide +kernel⟩ (by decide +kernel)
        (by simp [hparameters]) with ⟨i, hi, j, echo, stated, hecho, hisOf, hstated, hisOf', hechoes⟩
      refine ⟨i, hi, j, echo, stated, hecho, hstated, ?_⟩
      exact losesTab_of_echoes hechoes (hcompiled i echo hecho (by rw [hisOf.1]; rfl))
        (hcompiled j stated hstated (by rw [hisOf'.1]; rfl)) (by decide +kernel) (by decide +kernel)
        (by decide +kernel)
    · rcases @Term.exists_parse "\"a\tb\"".toList (by decide +kernel) with ⟨value', hvalue'⟩
      rcases (expressions_agree hcompile htree hvalue').2 ⟨5, "foreach v in \"a\tb\"".toList⟩
        ⟨7, "\"a\tb\"".toList⟩ "foreach".toList [' '] ['v'] [' '] "in".toList [' '] (by decide +kernel)
        (by decide +kernel) (by decide +kernel) ⟨by decide +kernel, [], by simp, by decide +kernel⟩
        ⟨by decide +kernel, [], by simp, by decide +kernel⟩ (by decide +kernel) with
        ⟨i, j, echo, stated, slot, hecho, hisOf, hstated, hisOf', hechoes⟩
      refine ⟨i, j, echo, stated, hecho, hstated, ?_⟩
      exact losesTab_of_echoes hechoes (hcompiled i echo hecho (by rw [hisOf.1]; rfl))
        (hcompiled j stated hstated (by rw [hisOf'.1]; rfl)) (by decide +kernel) (by decide +kernel)
        (by decide +kernel)
  · cases htabbing

end Program
end ScriptMachine
