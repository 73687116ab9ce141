import ScriptMachine.Proofs.Matching

/-!
# Commands on machines that match

On machines that match, a command does the same with arguments that are alike: its arguments are
accepted or refused alike, paired arrays get elements that are alike, and the answers are alike.
Compiling a script depends on the names of the globals and not on their values, so scripts are
loaded alike where everything that programs share is the same.

Main results:

- {lit}`Program.compile_congr`: a script compiles alike where the same globals are declared.
- {lit}`Machine.load_pairs`: a script is loaded alike.
- {lit}`Builtin.perform_pairs` and {lit}`HostAction.perform_pairs`: what commands do.
- {lit}`invokePairs_invoke`: a call by name goes on alike.
-/

namespace ScriptMachine

variable {α : Type}

/-! ## Compiling -/

section Compiling

variable {first second : Globals}

/-- The same scripts are read where the same globals are declared. -/
theorem Program.parse_congr (hsame : ∀ name, first.contains name = second.contains name)
    (program : Program) (lines : List Source.Line) :
    program.parse first lines = program.parse second lines := by
  have hline : Outline.readLine first = Outline.readLine second := by
    funext outline line
    simp only [Outline.readLine, Outline.readDeclaration, hsame]
  have hlines : Outline.readLines first lines = Outline.readLines second lines := by
    unfold Outline.readLines
    rw [hline]
  unfold Program.parse
  rw [hlines]

namespace Expr

variable (locals : List String) (commands : CommandTable)

/-- A name stands for the same where the same globals are declared. -/
theorem resolveName_congr (hsame : ∀ name, first.contains name = second.contains name)
    (name : String) :
    resolveName ⟨locals, first, commands⟩ name = resolveName ⟨locals, second, commands⟩ name := by
  simp only [resolveName, hsame]
  rfl

mutual

/-- A term means the same where the same globals are declared. -/
theorem resolve_congr (hsame : ∀ name, first.contains name = second.contains name) :
    (term : Term) → resolve ⟨locals, first, commands⟩ term =
      resolve ⟨locals, second, commands⟩ term
  | .number _ | .text _ | .reference _ => by
    unfold resolve
    rfl
  | .name identifier => by
    unfold resolve
    rw [resolveName_congr locals commands hsame]
  | .index target position => by
    unfold resolve
    rw [resolve_congr hsame target, resolve_congr hsame position]
  | .unary op operand => by
    unfold resolve
    rw [resolve_congr hsame operand]
  | .binary op left right => by
    unfold resolve
    rw [resolve_congr hsame left, resolve_congr hsame right]
  | .assign identifier positions op value => by
    unfold resolve
    rw [resolve_congr hsame value, resolveName_congr locals commands hsame, resolveList_congr hsame positions]
  | .call identifier arguments => by
    unfold resolve
    rw [resolveList_congr hsame arguments]
    rfl

/-- Terms mean the same where the same globals are declared. -/
theorem resolveList_congr (hsame : ∀ name, first.contains name = second.contains name) :
    (terms : List Term) → resolveList ⟨locals, first, commands⟩ terms =
      resolveList ⟨locals, second, commands⟩ terms
  | [] => by
    unfold resolveList
    rfl
  | term :: rest => by
    unfold resolveList
    rw [resolve_congr hsame term, resolveList_congr hsame rest]

end

end Expr

/-- A script compiles alike where the same globals are declared. -/
theorem Program.compile_congr (hsame : ∀ name, first.contains name = second.contains name)
    (commands : CommandTable) (id : Nat) (path : Option String)
    (source : List Char) :
    Program.compile first commands id path source = Program.compile second commands id path source := by
  have hexpr : ∀ locals, Expr.compile ⟨locals, first, commands⟩ =
      Expr.compile ⟨locals, second, commands⟩ := by
    intro locals
    funext text
    unfold Expr.compile
    cases Term.parse text with
    | error e => rfl
    | ok term => exact Expr.resolve_congr locals commands hsame term
  have hnode : ∀ program : Program, Compilation.compileNode (program.scope first commands) =
      Compilation.compileNode (program.scope second commands) := by
    intro program
    funext compilation id
    simp only [Compilation.compileNode, Program.scope, hexpr]
  unfold Program.compile
  simp only [Program.parse_congr hsame, Program.generate, Compilation.ofTree, hnode]

end Compiling

/-! ## Loading -/

namespace Machine

variable {C : Comparison} {π : Pairing} {m n : Machine}

/-- The same programs are valid. -/
theorem Parallels.isValid_eq (h : m.Parallels C π n) (program : Program) :
    m.isValid program = n.isValid program := by
  unfold isValid
  rw [h.stale]

/-- A program is numbered. -/
theorem Parallels.countProgram (h : m.Parallels C π n) (hshared : C.shared) :
    m.countProgram.Parallels C π n.countProgram :=
  { h with
    mingles := fun _ => { h.mingles hshared with
      programCount := congrArg (· + 1) (h.mingles hshared).programCount }
    left := { h.left with programCount := fun hprivate => absurd hshared hprivate }
    right := { h.right with programCount := fun hprivate => absurd hshared hprivate } }

/-- A program is cached. -/
theorem Parallels.store (h : m.Parallels C π n) (hshared : C.shared) (path : List Char)
    (program : Program) : (m.store path program).Parallels C π (n.store path program) :=
  { h with
    mingles := fun _ => { h.mingles hshared with
      cache := by rw [Machine.store, Machine.store, (h.mingles hshared).cache] }
    left := { h.left with cache := fun hprivate => absurd hshared hprivate }
    right := { h.right with cache := fun hprivate => absurd hshared hprivate } }

/-- A source text is compiled alike. -/
theorem compile_pairs (hshared : C.shared) (path : Option String) (source : String) :
    (compile path source).Pairs (Parallels C) Pairing.Same π (compile path source) := by
  intro m n h
  have hcounted := h.countProgram hshared
  unfold compile
  simp only
  rw [Program.compile_congr (hcounted.mingles hshared).globals.contains_eq, hcounted.commands,
    (hcounted.mingles hshared).programCount]
  cases Program.compile n.countProgram.globals n.countProgram.commands
    n.countProgram.programCount path source.toList with
  | ok program => exact .done (le_refl π) hcounted rfl
  | error e => exact .failed (le_refl π) hcounted

/-- A script that is not cached is loaded alike. -/
theorem loadFresh_pairs (hshared : C.shared) (path : List Char) :
    (loadFresh path).Pairs (Parallels C) Pairing.Same π (loadFresh path) := by
  refine .get_bind fun m n h => ?_
  rw [h.files]
  cases n.files.read path with
  | error e => exact .fail _
  | ok source =>
    refine (compile_pairs hshared _ _).bind_same fun π' _ program => ?_
    refine .get_bind_put fun m n h => ?_
    rw [h.isValid_eq]
    split
    · exact .done (le_refl π') (h.store hshared path program) rfl
    · exact .failed (le_refl π') h

/-- A script is loaded alike. -/
theorem load_pairs (hshared : C.shared) (name : String) :
    (load name).Pairs (Parallels C) Pairing.Same π (load name) := by
  refine .get_bind fun m n h => ?_
  have hresolve : m.resolve name = n.resolve name := by
    unfold resolve
    rw [h.settings]
  have hcached : m.cached? (n.resolve name) = n.cached? (n.resolve name) := by
    unfold cached?
    rw [(h.mingles hshared).cache]
  simp only [hresolve, hcached]
  cases n.cached? (n.resolve name) with
  | none => exact loadFresh_pairs hshared _
  | some program =>
    simp only [h.isValid_eq]
    split
    · exact .pure rfl
    · exact loadFresh_pairs hshared _

end Machine

/-! ## Arguments and answers -/

namespace Arguments

variable {π : Pairing} {vs ws : List Value} (h : List.Forall₂ (Value.Like π) vs ws)
include h

/-- The arguments at a position are alike. -/
theorem value_rel (i : Nat) : ExceptRel (Value.Like π) (value vs i) (value ws i) := by
  have hat := forall₂_getElem? h i
  unfold value
  generalize vs[i]? = found at hat ⊢
  generalize ws[i]? = found' at hat ⊢
  cases hat with
  | none => exact .error
  | some hlike => exact .ok hlike

/-- The arguments at a position are one number. -/
theorem number_eq (i : Nat) : number vs i = number ws i := by
  have hvalue := value_rel h i
  unfold number
  generalize value vs i = found at hvalue ⊢
  generalize value ws i = found' at hvalue ⊢
  cases hvalue with
  | error => rfl
  | ok hlike => simp only [bind, Except.bind, hlike.number?_eq]

/-- The arguments at a position are one text. -/
theorem text_eq (i : Nat) : text vs i = text ws i := by
  have hvalue := value_rel h i
  unfold text
  generalize value vs i = found at hvalue ⊢
  generalize value ws i = found' at hvalue ⊢
  cases hvalue with
  | error => rfl
  | ok hlike => simp only [bind, Except.bind, hlike.text?_eq]

/-- The arguments at a position are paired arrays. -/
theorem array_rel (i : Nat) : ExceptRel π (array vs i) (array ws i) := by
  refine (value_rel h i).bind fun v w hlike => ?_
  cases hlike with
  | plain hplain =>
    rw [hplain]
    exact .error
  | array hpaired => exact .ok hpaired

/-- The arguments at a position are one position. -/
theorem index_eq (i : Nat) : index vs i = index ws i := by
  unfold index
  rw [number_eq h]

/-- The optional arguments at a position are one position. -/
theorem indexIfGiven_eq (i : Nat) : indexIfGiven vs i = indexIfGiven ws i := by
  unfold indexIfGiven
  rw [index_eq h, h.length_eq]

end Arguments

/-- Answers with values that are alike. -/
structure Reply.Like (π : Pairing) (first second : Reply) : Prop where
  value : first.value.Like π second.value
  checked : first.checked = second.checked

/-- An answer without an array. -/
theorem Reply.Like.plain (π : Pairing) {v : Value} (h : v.array? = none) :
    (Reply.ofValue v).Like π (Reply.ofValue v) :=
  ⟨.plain h, rfl⟩

/-- A type accepts alike values. -/
theorem ParameterType.accepts_eq {π : Pairing} {v w : Value} (h : v.Like π w) (type : ParameterType) :
    type.accepts v = type.accepts w := by
  cases h with
  | plain _ => rfl
  | array _ => cases type <;> rfl

/-- Among arguments that are alike, the first ones that are refused have one parameter and one type. -/
theorem find?_zip_map {π : Pairing} {vs ws : List Value} (h : List.Forall₂ (Value.Like π) vs ws)
    {refused : Parameter × Value → Bool}
    (hsame : ∀ parameter v w, v.Like π w → refused (parameter, v) = refused (parameter, w))
    (parameters : List Parameter) :
    ((parameters.zip vs).find? refused).map (Prod.map id Value.dataType) =
      ((parameters.zip ws).find? refused).map (Prod.map id Value.dataType) := by
  induction h generalizing parameters with
  | nil => rw [List.zip_nil_right]
  | cons hhead _ ih =>
    cases parameters with
    | nil => rfl
    | cons parameter rest =>
      simp only [List.zip_cons_cons, List.find?_cons, hsame parameter _ _ hhead]
      split
      · exact congrArg (fun type => some (parameter, type)) hhead.dataType_eq
      · exact ih rest

/-- Arguments that are alike are accepted, or refused for one reason. -/
theorem checkArguments_eq {π : Pairing} {vs ws : List Value}
    (h : List.Forall₂ (Value.Like π) vs ws) (signature : Signature) :
    checkArguments signature vs = checkArguments signature ws := by
  unfold checkArguments
  rw [h.length_eq]
  split
  · rfl
  · split
    · rfl
    · split
      · next parameter v hfound =>
        have hfirst := congrArg (Option.map (Prod.map id Value.dataType)) hfound
        rw [find?_zip_map h fun parameter v w hv => by simp only [ParameterType.accepts_eq hv]] at hfirst
        rcases Option.map_eq_some_iff.1 hfirst with ⟨⟨_, w⟩, hfound', hpair⟩
        have htype : w.dataType = v.dataType := congrArg Prod.snd hpair
        cases (congrArg Prod.fst hpair : _ = parameter)
        simp only [hfound', htype]
      · next hnone =>
        have hfirst := congrArg (Option.map (Prod.map id Value.dataType)) hnone
        rw [find?_zip_map h fun parameter v w hv => by simp only [ParameterType.accepts_eq hv]] at hfirst
        simp only [Option.map_eq_none_iff.1 hfirst]

/-- Answers that are alike are accepted, or refused for one reason. -/
theorem checkReply_rel {π : Pairing} {first second : Reply} (h : first.Like π second)
    (signature : Signature) :
    ExceptRel (Value.Like π) (checkReply signature first) (checkReply signature second) := by
  unfold checkReply
  rw [h.checked, ParameterType.accepts_eq h.value, h.value.dataType_eq]
  split
  · exact .error
  · exact .ok h.value

/-! ## Effects -/

namespace CommandStep

open Execution

variable {C : Comparison} {π : Pairing}

/-- The machines go on. -/
theorem onMachine_pairs {g g' : Machine → Machine}
    (h : ∀ m n : Machine, m.Parallels C π n → (g m).Parallels C π (g' n)) :
    (onMachine g).Pairs (Parallels C) Pairing.Same π (onMachine g') :=
  .change fun _ _ hboth => hboth.onMachine (h _ _ hboth.machine)

/-- The contexts go on. -/
theorem onContext_pairs {g g' : Context → Context} (hprogram : ∀ c, (g c).program = c.program)
    (h : ∀ c d : Context, c.Like π d → (g c).Like π (g' d)) :
    (onContext g).Pairs (Parallels C) Pairing.Same π (onContext g') := by
  refine .change fun e f hboth => ⟨hboth.machine, h _ _ hboth.context, ?_⟩
  have hadmits := hboth.admits
  rw [← hprogram e.context] at hadmits
  exact hadmits

/-- Arrays with alike elements are created and paired. -/
theorem createArray_pairs {vs ws : List Value} (h : List.Forall₂ (Value.Like π) vs ws) :
    (createArray vs).Pairs (Parallels C) (fun π => π) π (createArray ws) := by
  intro e f hboth
  have hle : π ≤ π.insert (e.machine.arrays.create vs).1 (f.machine.arrays.create ws).1 :=
    fun _ _ => .inl
  exact .done hle ⟨hboth.machine.create h, hboth.context.mono hle, hboth.admits⟩
    (.inr ⟨rfl, rfl⟩)

/-- Paired arrays are changed alike. -/
theorem updateArray_pairs {i j : ArrayId} (hpaired : π i j) (position : Nat)
    {update update' : Arrays → Option Arrays}
    (h : ∀ s t : Arrays, s.Paired π t →
      Option.Rel (Arrays.Paired.Edited π s t i j) (update s) (update' t)) :
    (updateArray i position update).Pairs (Parallels C) Pairing.Same π
      (updateArray j position update') := by
  refine .get_bind_put fun e f hboth => ?_
  have hupdate := h _ _ hboth.machine.arrays
  rw [hboth.machine.arrays.size_eq hpaired]
  generalize update e.machine.arrays = arrays at hupdate ⊢
  generalize update' f.machine.arrays = arrays' at hupdate ⊢
  cases hupdate with
  | none => exact .failed (le_refl π) hboth
  | some hedited =>
    exact .done (le_refl π) (hboth.onMachine (hboth.machine.edit hpaired hedited)) rfl

/-- Operations of the machine go on alike on behalf of contexts. -/
theorem operate_pairs {R : Pairing → α → α → Prop} {operation operation' : Operation α}
    (h : operation.Pairs (Machine.Parallels C) R π operation') :
    (operate operation).Pairs (Parallels C) (fun π => ExceptRel (R π)) π (operate operation') :=
  .attempt (.onPart h (fun _ _ hboth => hboth.machine)
    fun _ _ hboth _ hle _ _ hmachine =>
      ⟨hmachine, hboth.context.mono hle, hboth.admits⟩)

end CommandStep

/-! ## Built-in commands -/

/-- Other scripts run alike where everything that programs share is the same. -/
def Callee.Pairs (C : Comparison) (callee : Callee) : Prop :=
  C.shared → ∀ π program vs ws, List.Forall₂ (Value.Like π) vs ws →
    (callee.run program vs).Pairs (Machine.Parallels C) (fun π => Option.Rel (Value.Like π)) π
      (callee.run program ws)

namespace Builtin

open Execution CommandStep

variable {C : Comparison} {π : Pairing} {vs ws : List Value}

/-- The answer that is given when nothing else is. -/
theorem nothing_pairs {σ ε : Type} {V : Pairing → σ → σ → Prop} :
    (pure Reply.nothing : Action σ ε Reply).Pairs V Reply.Like π (pure Reply.nothing) :=
  .pure (.plain π rfl)

/-- A return. -/
theorem doReturn_pairs (h : List.Forall₂ (Value.Like π) vs ws) :
    (doReturn vs).Pairs (Parallels C) Reply.Like π (doReturn ws) := by
  have hhead : ∀ π', π ≤ π' → Option.Rel (Value.Like π') vs.head? ws.head? := by
    intro π' hle
    cases h with
    | nil => exact .none
    | cons hhead _ => exact .some (hhead.mono hle)
  have hhalt : haltArgument vs = haltArgument ws := by
    unfold haltArgument
    rw [h.length_eq, Arguments.number_eq h]
  unfold doReturn
  rw [h.length_eq, hhalt]
  split
  · exact .fail _
  · refine (Action.Pairs.ofExcept_same _).bind_same fun π' hle halt => ?_
    refine Action.Pairs.bind_same (onContext_pairs (fun _ => rfl) fun c d hlike => ?_)
      fun _ _ _ => .pure ⟨.plain rfl, rfl⟩
    exact { hlike with
      pending := rfl
      result := hhead π' hle
      halt := congrArg (· || _) hlike.halt }

/-- The script of a call is found alike. -/
theorem target_pairs (hshared : C.shared) (name : String) :
    (target name).Pairs (Parallels C) (fun _ => ExceptRel Eq) π (target name) := by
  refine .get_bind fun e f h => ?_
  split
  · exact .pure (.ok h.context.program)
  · exact operate_pairs (Machine.load_pairs hshared name)

/-- Another script is run alike. -/
theorem doCall_pairs {callee : Callee} (hcallee : callee.Pairs C) (hshared : C.shared)
    (h : List.Forall₂ (Value.Like π) vs ws) :
    (doCall callee vs).Pairs (Parallels C) Reply.Like π (doCall callee ws) := by
  unfold doCall
  rw [Arguments.text_eq h]
  refine (Action.Pairs.ofExcept_same _).bind_same fun π₁ hle₁ name => ?_
  have hforwarded := List.forall₂_drop 1 h
  simp only [hforwarded.length_eq]
  split
  · exact .fail _
  · refine (target_pairs hshared name).bind fun π₂ hle₂ found found' hfound => ?_
    cases hfound with
    | error => exact nothing_pairs
    | ok hprogram =>
      subst hprogram
      have hforwarded₂ := Value.Like.all_mono (le_trans hle₁ hle₂) hforwarded
      refine (operate_pairs (hcallee hshared π₂ _ _ _ hforwarded₂)).bind
        fun π₃ hle₃ answer answer' hanswer => ?_
      cases hanswer with
      | error => exact nothing_pairs
      | ok hresult =>
        cases hresult with
        | none => exact nothing_pairs
        | some hlike => exact .pure ⟨hlike, rfl⟩

/-- A number is formatted. -/
theorem doFormat_pairs (h : List.Forall₂ (Value.Like π) vs ws) :
    (doFormat vs).Pairs (Parallels C) Reply.Like π (doFormat ws) := by
  unfold doFormat
  rw [Arguments.text_eq h, Arguments.number_eq h 1, Arguments.number_eq h 2]
  refine (Action.Pairs.ofExcept_same _).bind_same fun _ _ format =>
    (Action.Pairs.ofExcept_same _).bind_same fun _ _ x =>
      (Action.Pairs.ofExcept_same _).bind_same fun π' _ unsigned => ?_
  cases Printf.format format x (!(unsigned == 0.0)) with
  | ok text => exact .pure (.plain π' rfl)
  | error fault => exact .fail _

/-- Something is written to the console. -/
theorem doPrint_pairs (h : List.Forall₂ (Value.Like π) vs ws) :
    (doPrint vs).Pairs (Parallels C) Reply.Like π (doPrint ws) := by
  refine (Action.Pairs.ofExcept (Arguments.value_rel h 0)).bind fun π₁ _ v w _ => ?_
  refine Action.Pairs.bind_same (onMachine_pairs fun m n hboth => ?_) fun _ _ _ => nothing_pairs
  exact { hboth with
    mingles := fun hshared => { hboth.mingles hshared with }
    left := { hboth.left with }
    right := { hboth.right with } }

/-- A drawn number and the next state of the generator depend on its state. -/
theorem draw_eq : ∃ next : UInt64 → Float × UInt64,
    ∀ m : Machine, m.draw = ((next m.random).1, { m with random := (next m.random).2 }) :=
  ⟨fun state =>
    let next := state * 6364136223846793005 + 1442695040888963407
    (Number.scaled false (next >>> 11).toNat (-53), next), fun _ => rfl⟩

/-- The same number is drawn where everything that programs share is the same. -/
theorem draw_parallels {m n : Machine} (hshared : C.shared) (h : m.Parallels C π n) :
    m.draw.1 = n.draw.1 ∧ m.draw.2.Parallels C π n.draw.2 := by
  rcases draw_eq with ⟨next, hnext⟩
  rw [hnext, hnext, (h.mingles hshared).random]
  refine ⟨rfl, ?_⟩
  exact { h with
    mingles := fun _ => { h.mingles hshared with random := rfl }
    left := { h.left with random := fun hprivate => absurd hshared hprivate }
    right := { h.right with random := fun hprivate => absurd hshared hprivate } }

/-- A random number is drawn alike. -/
theorem doRandom_pairs (hshared : C.shared) (h : List.Forall₂ (Value.Like π) vs ws) :
    (doRandom vs).Pairs (Parallels C) Reply.Like π (doRandom ws) := by
  unfold doRandom
  rw [Arguments.number_eq h 0, Arguments.number_eq h 1]
  refine (Action.Pairs.ofExcept_same _).bind_same fun _ _ a =>
    (Action.Pairs.ofExcept_same _).bind_same fun π' _ b => ?_
  split
  · refine .get_bind_put fun e f hboth => ?_
    have hdrawn := draw_parallels hshared hboth.machine
    generalize e.machine.draw = drawn at hdrawn ⊢
    generalize f.machine.draw = drawn' at hdrawn ⊢
    rcases drawn with ⟨x, m⟩
    rcases drawn' with ⟨y, n⟩
    rcases hdrawn with ⟨hsame, hmachine⟩
    have hsame : x = y := hsame
    subst hsame
    exact .done (le_refl π') ⟨hmachine, hboth.context, hboth.admits⟩ (.plain π' rfl)
  · exact .fail _

/-- The global exception is raised. -/
theorem raise_parallels {m n : Machine} (h : m.Parallels C π n) : m.raise.Parallels C π n.raise :=
  { h with
    raised := rfl
    mingles := fun hshared => { h.mingles hshared with }
    left := { h.left with }
    right := { h.right with } }

/-- An error is raised. -/
theorem doRaise_pairs (line : Nat) (h : List.Forall₂ (Value.Like π) vs ws) :
    (doRaise line vs).Pairs (Parallels C) Reply.Like π (doRaise line ws) := by
  unfold doRaise
  rw [Arguments.text_eq h]
  refine (Action.Pairs.ofExcept_same _).bind_same fun π' _ message => .get_bind fun e f _ => ?_
  refine Action.Pairs.bind_same (onMachine_pairs fun m n hboth => raise_parallels ?_)
    fun _ _ _ => nothing_pairs
  exact { hboth with
    mingles := fun hshared => { hboth.mingles hshared with }
    left := { hboth.left with }
    right := { hboth.right with } }

/-- Elements are inserted into paired arrays. -/
theorem doInsert_pairs (h : List.Forall₂ (Value.Like π) vs ws) :
    (doInsert vs).Pairs (Parallels C) Reply.Like π (doInsert ws) := by
  unfold doInsert
  rw [h.length_eq, Arguments.indexIfGiven_eq h]
  split
  · exact .fail _
  · refine (Action.Pairs.ofExcept (R := fun π => π) (Arguments.array_rel h 0)).bind
      fun π₁ hle₁ i j hpaired => ?_
    have hvalue := Arguments.value_rel (Value.Like.all_mono hle₁ h) 1
    refine (Action.Pairs.ofExcept hvalue).bind fun π₂ hle₂ v w hv => ?_
    refine (Action.Pairs.ofExcept_same _).bind_same fun π₃ hle₃ position => ?_
    have hpaired₃ := hle₃ _ _ (hle₂ _ _ hpaired)
    have hv₃ := hv.mono hle₃
    cases position with
    | none =>
      refine Action.Pairs.bind_same (onMachine_pairs fun m n hboth => ?_)
        fun _ _ _ => nothing_pairs
      exact hboth.edit hpaired₃ (hboth.arrays.push_edited hpaired₃ hv₃)
    | some at' =>
      exact (updateArray_pairs hpaired₃ at' fun s t hst => hst.insert?_edited hpaired₃ hv₃).bind_same
        fun _ _ _ => nothing_pairs

/-- Elements of paired arrays are removed. -/
theorem doErase_pairs (h : List.Forall₂ (Value.Like π) vs ws) :
    (doErase vs).Pairs (Parallels C) Reply.Like π (doErase ws) := by
  unfold doErase
  rw [Arguments.index_eq h]
  refine (Action.Pairs.ofExcept (R := fun π => π) (Arguments.array_rel h 0)).bind
    fun π₁ _ i j hpaired => (Action.Pairs.ofExcept_same _).bind_same fun π₂ hle₂ position => ?_
  have hpaired₂ := hle₂ _ _ hpaired
  exact (updateArray_pairs hpaired₂ position fun s t hst => hst.erase?_edited hpaired₂).bind_same
    fun _ _ _ => nothing_pairs

/-- Paired arrays are emptied. -/
theorem doClear_pairs (h : List.Forall₂ (Value.Like π) vs ws) :
    (doClear vs).Pairs (Parallels C) Reply.Like π (doClear ws) := by
  refine (Action.Pairs.ofExcept (R := fun π => π) (Arguments.array_rel h 0)).bind
    fun π₁ _ i j hpaired => ?_
  exact Action.Pairs.bind_same
    (onMachine_pairs fun m n hboth => hboth.edit hpaired Arrays.Paired.clear_edited)
    fun _ _ _ => nothing_pairs

/-- Paired arrays have one size. -/
theorem doSize_pairs (h : List.Forall₂ (Value.Like π) vs ws) :
    (doSize vs).Pairs (Parallels C) Reply.Like π (doSize ws) := by
  refine (Action.Pairs.ofExcept (R := fun π => π) (Arguments.array_rel h 0)).bind
    fun π₁ _ i j hpaired => .get_bind fun e f hboth => ?_
  rw [hboth.machine.arrays.size_eq hpaired]
  exact .pure (.plain π₁ rfl)

/-- Paired arrays have alike elements. -/
theorem doAt_pairs (h : List.Forall₂ (Value.Like π) vs ws) :
    (doAt vs).Pairs (Parallels C) Reply.Like π (doAt ws) := by
  unfold doAt
  rw [Arguments.index_eq h]
  refine (Action.Pairs.ofExcept (R := fun π => π) (Arguments.array_rel h 0)).bind
    fun π₁ _ i j hpaired => (Action.Pairs.ofExcept_same _).bind_same
      fun π₂ hle₂ position => .get_bind fun e f hboth => ?_
  have hpaired₂ := hle₂ _ _ hpaired
  have hat := hboth.machine.arrays.at?_rel hpaired₂ position
  rw [hboth.machine.arrays.size_eq hpaired₂]
  generalize e.machine.arrays.at? i position = found at hat ⊢
  generalize f.machine.arrays.at? j position = found' at hat ⊢
  cases hat with
  | none => exact .fail _
  | some hlike => exact .pure ⟨hlike, rfl⟩

/-- A built-in command goes on alike if everything that programs share is the same or it looks at
nothing of it. -/
theorem perform_pairs {callee : Callee} (hcallee : callee.Pairs C) (line : Nat)
    (h : List.Forall₂ (Value.Like π) vs ws) (builtin : Builtin)
    (hshared : builtin = .callScript ∨ builtin = .randomNumber → C.shared) :
    (builtin.perform callee line vs).Pairs (Parallels C) Reply.Like π
      (builtin.perform callee line ws) := by
  cases builtin with
  | returnValue => exact doReturn_pairs h
  | callScript => exact doCall_pairs hcallee (hshared (.inl rfl)) h
  | breakLoop | continueLoop =>
    exact Action.Pairs.bind_same
      (onContext_pairs (fun _ => rfl) fun _ _ hlike => { hlike with pending := rfl })
      fun _ _ _ => nothing_pairs
  | secondsPassed =>
    refine .get_bind fun e f hboth => ?_
    rw [hboth.context.secondsPassed]
    exact .pure (.plain π rfl)
  | formatNumber => exact doFormat_pairs h
  | printToConsole => exact doPrint_pairs h
  | randomNumber => exact doRandom_pairs (hshared (.inr rfl)) h
  | raiseError => exact doRaise_pairs line h
  | isBackgrounding =>
    refine .get_bind fun e f hboth => ?_
    rw [hboth.context.backgrounded]
    exact .pure (.plain π rfl)
  | arrayCreate =>
    exact (createArray_pairs h).bind fun π' _ i j hpaired => .pure ⟨.array hpaired, rfl⟩
  | arrayInsert => exact doInsert_pairs h
  | arrayErase => exact doErase_pairs h
  | arrayClear => exact doClear_pairs h
  | arraySize => exact doSize_pairs h
  | arrayAt => exact doAt_pairs h

end Builtin

/-! ## Actions of the host and calls by name -/

section Calls

open Execution

variable {C : Comparison} {π : Pairing} {vs ws : List Value}

/-- A harmless action of the host goes on alike. -/
theorem HostAction.perform_pairs (callee : Callee) (h : List.Forall₂ (Value.Like π) vs ws)
    (action : HostAction) (hharmless : action.Harmless) :
    (action.perform callee vs).Pairs (Parallels C) Reply.Like π (action.perform callee ws) := by
  cases action with
  | nothing => exact Builtin.nothing_pairs
  | echo i checked =>
    exact (Action.Pairs.ofExcept (Arguments.value_rel h i)).bind fun _ _ v w hv => .pure ⟨hv, rfl⟩
  | constant v => exact .pure (.plain π hharmless)
  | fail message => exact .fail _
  | countArguments =>
    simp only [perform, h.length_eq]
    exact .pure (.plain π rfl)
  | numberOf i =>
    simp only [perform, Arguments.number_eq h]
    exact (Action.Pairs.ofExcept_same _).bind_same fun π' _ _ => .pure (.plain π' rfl)
  | stringOf i =>
    simp only [perform, Arguments.text_eq h]
    exact (Action.Pairs.ofExcept_same _).bind_same fun π' _ _ => .pure (.plain π' rfl)
  | arrayOf i =>
    exact (Action.Pairs.ofExcept (R := fun π => π) (Arguments.array_rel h i)).bind
      fun _ _ _ _ hpaired => .pure ⟨.array hpaired, rfl⟩
  | indexOf i =>
    simp only [perform, Arguments.index_eq h]
    exact (Action.Pairs.ofExcept_same _).bind_same fun π' _ _ => .pure (.plain π' rfl)
  | raise =>
    exact Action.Pairs.bind_same (CommandStep.onMachine_pairs fun _ _ => Builtin.raise_parallels)
      fun _ _ _ => Builtin.nothing_pairs
  | removeGlobal name => exact hharmless.elim
  | unregister name => exact hharmless.elim
  | backgroundSelf => exact hharmless.elim

/-- A call by name goes on alike if everything that programs share is the same or the command looks
at nothing of it. -/
theorem invokePairs_invoke {callee : Callee} (hcallee : callee.Pairs C) (line : Nat) {name : String}
    (hshared : ∀ command, C.left.commands.lookup? name = some command → command.Outward → C.shared) :
    Expr.InvokePairs C (invoke callee line) name := by
  intro π vs ws h
  refine .get_bind fun e f hboth => ?_
  have hcommands := hboth.machine.left.commands
  rw [← hboth.machine.commands, hcommands]
  cases hlookup : C.left.commands.lookup? name with
  | none => exact .fail _
  | some command =>
    have hharmless := C.harmless command (CommandTable.lookup?_mem _ _ _ hlookup).1
    have hshared := hshared command hlookup
    simp only [Command.call, checkArguments_eq h]
    refine (Action.Pairs.ofExcept_same _).bind_same fun π₁ hle₁ _ => ?_
    have h₁ := Value.Like.all_mono hle₁ h
    refine Action.Pairs.bind (R := Reply.Like) (.mapError _ ?_)
      fun π₂ _ first second hlike => .ofExcept (checkReply_rel hlike _)
    unfold Command.perform
    unfold Command.Harmless at hharmless
    unfold Command.Outward at hshared
    cases haction : command.action with
    | builtin builtin =>
      rw [haction] at hshared
      refine Builtin.perform_pairs hcallee line h₁ builtin fun houtward => hshared ?_
      exact houtward.imp (congrArg _) (congrArg _)
    | host action =>
      rw [haction] at hharmless
      exact action.perform_pairs callee h₁ hharmless

end Calls
end ScriptMachine
