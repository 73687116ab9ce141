import ScriptMachine.Proofs.Compiling

/-!
# What names are resolved to

Compilation puts a slot, a key or the registered name of a command in place of every name.
Whatever it puts there exists: slots lie below the number of variables, keys are those of
globals, and a registered name leads back to its command, whose fixed number of arguments is
the number supplied.  The last point rests on the command table, in which no two commands
share a name or an alias.

Main results:

- {lit}`CommandTable.Assembled.distinct`: no two commands of a table share a key.
- {lit}`CommandTable.Distinct.lookup?_name`: a command is found under its own name.
- {lit}`Expr.resolve_bound`: everything in a resolved expression exists.
- {lit}`Program.bound_of_compile`: everything in the code of a compiled program exists.
-/

namespace ScriptMachine

open Source Text

/-! ## Keys of commands -/

namespace CommandTable

/-- A table that was put together by adding and removing commands. -/
inductive Assembled : CommandTable → Prop
  | empty : Assembled .empty
  | standard : Assembled .standard
  | registered {table table' : CommandTable} {command : Command} (h : Assembled table)
      (hregister : table.register command = .ok table') : Assembled table'
  | unregistered {table table' : CommandTable} {command : Command} {name : String}
      (h : Assembled table) (hunregister : table.unregister name = .ok (command, table')) :
      Assembled table'

/-- No two commands share a key. -/
def Distinct (table : CommandTable) : Prop :=
  table.commands.Pairwise fun first second =>
    ∀ key ∈ first.signature.keys, key ∉ second.signature.keys

/-- The keys of the built-in commands are different. -/
theorem distinct_standard : standard.Distinct := by
  unfold Distinct
  decide +kernel

/-- A command whose keys are free joins others with different keys. -/
theorem Distinct.register {table table' : CommandTable} {command : Command} (h : table.Distinct)
    (hregister : table.register command = .ok table') : table'.Distinct := by
  unfold CommandTable.register at hregister
  split at hregister
  · cases hregister
  · next hfree =>
    cases hregister
    refine List.pairwise_append.2 ⟨h, List.pairwise_singleton .., ?_⟩
    intro other hother added hadded key hkey hshared
    rw [List.mem_singleton] at hadded
    subst hadded
    -- The key is folded, so the older command answers to it.
    have hfolded : fold key = key := by
      rcases List.mem_map.1 hshared with ⟨name, -, rfl⟩
      exact fold_fold name
    have hanswers : other.signature.answersTo key = true := by
      unfold Signature.answersTo
      rw [hfolded]
      exact List.contains_iff_mem.2 hkey
    have htaken : table.contains key = true := by
      unfold CommandTable.contains lookup?
      rw [List.find?_isSome]
      exact ⟨other, hother, hanswers⟩
    have hnot := List.find?_eq_none.1 hfree key hshared
    exact hnot htaken

/-- The commands that are left have different keys. -/
theorem Distinct.unregister {table table' : CommandTable} {command : Command} {name : String}
    (h : table.Distinct) (hunregister : table.unregister name = .ok (command, table')) :
    table'.Distinct := by
  unfold CommandTable.unregister at hunregister
  split at hunregister
  · cases hunregister
  · cases hunregister
    exact List.Pairwise.filter _ h

/-- No two commands of a table share a key. -/
theorem Assembled.distinct {table : CommandTable} (h : table.Assembled) : table.Distinct := by
  induction h with
  | empty => exact List.Pairwise.nil
  | standard => exact distinct_standard
  | registered _ hregister ih => exact ih.register hregister
  | unregistered _ hunregister ih => exact ih.unregister hunregister

/-- Commands that share a key are the same command. -/
theorem Distinct.eq_of_key {table : CommandTable} (h : table.Distinct) {first second : Command}
    (hfirst : first ∈ table.commands) (hsecond : second ∈ table.commands) {key : String}
    (hkey : key ∈ first.signature.keys) (hkey' : key ∈ second.signature.keys) :
    first = second := by
  have hsame : ∀ first ∈ table.commands, ∀ second ∈ table.commands,
      key ∈ first.signature.keys → key ∈ second.signature.keys → first = second := by
    apply List.Pairwise.forall_of_forall_of_flip
    · exact fun _ _ _ _ => rfl
    · exact h.imp fun hapart hkey hkey' => absurd hkey' (hapart key hkey)
    · exact h.imp fun hapart hkey hkey' => absurd hkey (hapart key hkey')
  exact hsame first hfirst second hsecond hkey hkey'

/-- No other command goes away than the one that is unregistered. -/
theorem Distinct.eq_of_unregister {table table' : CommandTable} {command other : Command}
    {name : String} (h : table.Distinct) (hunregister : table.unregister name = .ok (command, table'))
    (hbefore : other ∈ table.commands) (hafter : other ∉ table'.commands) : other = command := by
  unfold CommandTable.unregister at hunregister
  split at hunregister
  · cases hunregister
  · next found hlookup =>
    cases hunregister
    have hanswers : other.signature.answersTo command.signature.name = true := by
      cases hother : other.signature.answersTo command.signature.name with
      | true => rfl
      | false => exact absurd (List.mem_filter.2 ⟨hbefore, by simp [hother]⟩) hafter
    have hkey : fold command.signature.name ∈ command.signature.keys :=
      List.mem_map_of_mem (List.mem_cons_self ..)
    exact h.eq_of_key hbefore (lookup?_mem table name command hlookup).1
      (List.contains_iff_mem.1 hanswers) hkey

/-- A command of a table is found under its own name. -/
theorem Distinct.lookup?_name {table : CommandTable} (h : table.Distinct) {command : Command}
    (hmem : command ∈ table.commands) : table.lookup? command.signature.name = some command := by
  have hkey : fold command.signature.name ∈ command.signature.keys :=
    List.mem_map_of_mem (List.mem_cons_self ..)
  have hanswers : command.signature.answersTo command.signature.name = true :=
    List.contains_iff_mem.2 hkey
  have hfound : (table.lookup? command.signature.name).isSome = true := by
    unfold lookup?
    rw [List.find?_isSome]
    exact ⟨command, hmem, hanswers⟩
  rcases Option.isSome_iff_exists.1 hfound with ⟨other, hother⟩
  rcases lookup?_mem table _ other hother with ⟨hmem', hanswers'⟩
  have hkey' : fold command.signature.name ∈ other.signature.keys :=
    List.contains_iff_mem.1 hanswers'
  rw [hother, h.eq_of_key hmem' hmem hkey' hkey]

end CommandTable

/-- A global is declared under its folded name. -/
theorem Globals.contains_fold (globals : Globals) (name : String) :
    globals.contains (fold name) = globals.contains name := by
  simp [Globals.contains, Globals.find?]

/-! ## Bound expressions -/

/-- A call names a command by its registered name and supplies as many arguments as a fixed
number of parameters asks for. -/
def CommandTable.Admits (table : CommandTable) (name : String) (supplied : Nat) : Prop :=
  ∃ command, table.lookup? name = some command ∧ command.signature.name = name ∧
    ∀ expected, command.signature.arity? = some expected → supplied = expected

namespace Expr

mutual

/-- Everything that an expression refers to exists in a scope. -/
def Bound (scope : Scope) : Expr → Prop
  | .number _ | .text _ | .reference _ => True
  | .slot i => i < scope.locals.length
  | .global key => scope.globals.contains key = true
  | .index target position => target.Bound scope ∧ position.Bound scope
  | .unary _ operand => operand.Bound scope
  | .binary _ left right => left.Bound scope ∧ right.Bound scope
  | .assignSlot i _ value => i < scope.locals.length ∧ value.Bound scope
  | .assignGlobal key _ value => scope.globals.contains key = true ∧ value.Bound scope
  | .assignElement base position _ value =>
    base.Bound scope ∧ position.Bound scope ∧ value.Bound scope
  | .call command arguments =>
    scope.commands.Admits command arguments.length ∧ AllBound scope arguments

/-- Everything that a list of expressions refers to exists in a scope. -/
def AllBound (scope : Scope) : List Expr → Prop
  | [] => True
  | e :: rest => e.Bound scope ∧ AllBound scope rest

end

/-- A list of expressions is bound when each of them is. -/
theorem allBound_iff (scope : Scope) (es : List Expr) :
    AllBound scope es ↔ ∀ e ∈ es, e.Bound scope := by
  induction es with
  | nil => simp [AllBound]
  | cons e rest ih => simp [AllBound, ih]

end Expr

/-! ## Resolving -/

variable {α β : Type}

/-- Whatever a compilation step answers has a property. -/
def Resolve.Gives (P : α → Prop) (step : Resolve α) : Prop :=
  ∀ before x after, step.run before = .ok x after → P x

namespace Resolve.Gives

variable {P : α → Prop} {Q : β → Prop}

theorem pure {x : α} (h : P x) : Resolve.Gives P (pure x : Resolve α) := by
  intro before y after hrun
  cases hrun
  exact h

theorem throw (e : ExprError) : Resolve.Gives P (throw e : Resolve α) := by
  intro before x after hrun
  cases hrun

/-- A sequence answers what its second part makes of the answer of the first. -/
theorem bind {step : Resolve α} {next : α → Resolve β} (h : Resolve.Gives P step)
    (hnext : ∀ x, P x → Resolve.Gives Q (next x)) : Resolve.Gives Q (step >>= next) := by
  intro before y last hrun
  rw [EStateM.run_bind] at hrun
  cases hstep : step.run before with
  | ok x after =>
    rw [hstep] at hrun
    exact hnext x (h before x after hstep) after y last hrun
  | error e after =>
    rw [hstep] at hrun
    cases hrun

end Resolve.Gives

namespace Expr

/-- A target exists in a scope. -/
def Target.Bound (scope : Scope) (target : Target) : Prop :=
  (ofTarget target).Bound scope

section Resolving

variable {scope : Scope}

/-- A name stands for something that exists. -/
theorem resolveName_bound (name : String) :
    Resolve.Gives (Target.Bound scope) (resolveName scope name) := by
  unfold resolveName
  cases hslot : scope.slot? name with
  | some i =>
    refine .pure ?_
    show i < scope.locals.length
    exact (List.findIdx?_eq_some_iff_getElem.1 hslot).1
  | none =>
    simp only
    split
    · next hcontains =>
      refine .bind (P := fun _ => True) (fun _ _ _ _ => trivial) fun _ _ => .pure ?_
      show scope.globals.contains (fold name) = true
      rw [Globals.contains_fold]
      exact hcontains
    · exact .throw _

/-- The minus of a literal makes no difference. -/
theorem applyUnary_bound {operand : Expr} (h : operand.Bound scope) (op : UnaryOp) :
    (applyUnary op operand).Bound scope := by
  unfold applyUnary
  split
  · trivial
  · unfold Bound
    exact h

/-- Indices on top of a bound expression. -/
theorem foldl_index_bound (positions : List Expr) {base : Expr} (hbase : base.Bound scope)
    (h : ∀ e ∈ positions, e.Bound scope) : (positions.foldl .index base).Bound scope := by
  induction positions generalizing base with
  | nil => exact hbase
  | cons first rest ih =>
    refine ih ?_ fun e he => h e (List.mem_cons_of_mem _ he)
    unfold Bound
    exact ⟨hbase, h first (List.mem_cons_self ..)⟩

/-- The assignment to a bound target. -/
theorem assignTo_bound {target : Target} (htarget : target.Bound scope) {positions : List Expr}
    (hpositions : ∀ e ∈ positions, e.Bound scope) (op : AssignOp) {value : Expr}
    (hvalue : value.Bound scope) : (assignTo target positions op value).Bound scope := by
  unfold assignTo
  cases hlast : positions.getLast? with
  | none =>
    cases target with
    | slot i =>
      simp only
      unfold Bound
      exact ⟨htarget, hvalue⟩
    | global key =>
      simp only
      unfold Bound
      exact ⟨htarget, hvalue⟩
  | some last =>
    simp only
    unfold Bound
    refine ⟨foldl_index_bound _ htarget fun e he => ?_, ?_, hvalue⟩
    · exact hpositions e (List.dropLast_subset positions he)
    · exact hpositions last (List.mem_of_getLast? hlast)

/-- A call with bound arguments of a command that is found. -/
theorem resolveCall_bound (hdistinct : scope.commands.Distinct) (name : String)
    {arguments : List Expr} (harguments : AllBound scope arguments) :
    Resolve.Gives (Bound scope) (resolveCall scope name arguments) := by
  unfold resolveCall
  cases hlookup : scope.commands.lookup? name with
  | none => exact .throw _
  | some command =>
    have hname := hdistinct.lookup?_name (CommandTable.lookup?_mem _ _ _ hlookup).1
    have hcall : (∀ expected, command.signature.arity? = some expected →
        arguments.length = expected) → Resolve.Gives (Bound scope) (do
          modify fun references => references.addCommand command.signature.name
          return .call command.signature.name arguments) := by
      intro hcount
      refine .bind (P := fun _ => True) (fun _ _ _ _ => trivial) fun _ _ => .pure ?_
      unfold Bound
      exact ⟨⟨command, hname, rfl, hcount⟩, harguments⟩
    cases harity : command.signature.arity? with
    | none =>
      simp only [harity]
      exact hcall fun expected h => by rw [harity] at h; cases h
    | some expected =>
      simp only [harity]
      by_cases hsame : arguments.length = expected
      · rw [if_neg (not_not_intro hsame)]
        refine hcall fun other hother => ?_
        rw [harity] at hother
        cases hother
        exact hsame
      · rw [if_pos hsame]
        exact .bind (P := fun _ => False) (.throw _) fun _ h => h.elim

mutual

/-- Everything in a resolved expression exists. -/
theorem resolve_bound (hdistinct : scope.commands.Distinct) :
    (term : Term) → Resolve.Gives (Bound scope) (resolve scope term)
  | .number digits => by
    unfold resolve resolveNumber
    split
    · exact .pure trivial
    · exact .throw _
  | .text s => by
    unfold resolve
    exact .pure trivial
  | .reference digits => by
    unfold resolve resolveReference
    split
    · exact .pure trivial
    · exact .throw _
  | .name identifier => by
    unfold resolve
    exact .bind (resolveName_bound identifier) fun _ htarget => .pure htarget
  | .index target position => by
    unfold resolve
    refine .bind (resolve_bound hdistinct target) fun _ htarget =>
      .bind (resolve_bound hdistinct position) fun _ hposition => .pure ?_
    unfold Bound
    exact ⟨htarget, hposition⟩
  | .unary op operand => by
    unfold resolve
    exact .bind (resolve_bound hdistinct operand) fun _ h => .pure (applyUnary_bound h op)
  | .binary op left right => by
    unfold resolve
    refine .bind (resolve_bound hdistinct left) fun _ hleft =>
      .bind (resolve_bound hdistinct right) fun _ hright => .pure ?_
    unfold Bound
    exact ⟨hleft, hright⟩
  | .assign identifier positions op value => by
    unfold resolve
    refine .bind (resolve_bound hdistinct value) fun _ hvalue =>
      .bind (resolveName_bound identifier) fun _ htarget =>
        .bind (resolveList_bound hdistinct positions) fun found hpositions => .pure ?_
    exact assignTo_bound htarget ((allBound_iff scope found).1 hpositions) op hvalue
  | .call identifier arguments => by
    unfold resolve
    exact .bind (resolveList_bound hdistinct arguments) fun _ h =>
      resolveCall_bound hdistinct identifier h

/-- Everything in a list of resolved expressions exists. -/
theorem resolveList_bound (hdistinct : scope.commands.Distinct) :
    (terms : List Term) → Resolve.Gives (AllBound scope) (resolveList scope terms)
  | [] => by
    unfold resolveList
    exact .pure trivial
  | term :: rest => by
    unfold resolveList
    refine .bind (resolve_bound hdistinct term) fun _ hfirst =>
      .bind (resolveList_bound hdistinct rest) fun _ hothers => .pure ?_
    unfold AllBound
    exact ⟨hfirst, hothers⟩

end

/-- Everything in a compiled expression exists. -/
theorem compile_bound (hdistinct : scope.commands.Distinct) (source : List Char) :
    Resolve.Gives (Bound scope) (compile scope source) := by
  unfold compile
  split
  · exact .throw _
  · exact resolve_bound hdistinct _

end Resolving
end Expr

/-! ## Code of nodes -/

/-- Everything in the code of every node exists. -/
def CodeBound (scope : Scope) (nodes : Array Node) : Prop :=
  ∀ (id : Nat) (node : Node) (code : Expr), nodes[id]? = some node → node.code = some code →
    code.Bound scope

mutual

/-- The nodes of a statement have no code yet. -/
theorem Statement.code_nodes (start : Nat) :
    (statement : Statement) → ∀ node ∈ statement.nodes start, node.code = none
  | .leaf line expression => by
    unfold Statement.nodes
    simp [Outline.newNode]
  | .whileLoop line condition body closing => by
    have hbody := body.code_nodes (start + 1)
    unfold Statement.nodes
    simpa [Outline.newNode] using hbody
  | .forEach line iterator slot collection body closing => by
    have hbody := body.code_nodes (start + 1)
    unfold Statement.nodes
    simpa [Outline.newNode] using hbody
  | .conditional line condition body branches closing => by
    have hbody := body.code_nodes (start + 1)
    have hbranches := branches.code_nodes (start + 1 + body.size)
    unfold Statement.nodes
    intro node hnode
    rcases List.mem_append.1 hnode with hnode | hnode
    · rcases List.mem_cons.1 hnode with rfl | hnode
      · rfl
      · exact hbody node hnode
    · exact hbranches node hnode

/-- The nodes of a block have no code yet. -/
theorem Block.code_nodes (start : Nat) :
    (block : Block) → ∀ node ∈ block.nodes start, node.code = none
  | .nil => by
    unfold Block.nodes
    simp
  | .cons first rest => by
    have hfirst := first.code_nodes start
    have hrest := rest.code_nodes (start + first.size)
    unfold Block.nodes
    intro node hnode
    rcases List.mem_append.1 hnode with hnode | hnode
    · exact hfirst node hnode
    · exact hrest node hnode

/-- The nodes of branches have no code yet. -/
theorem Branches.code_nodes (start : Nat) :
    (branches : Branches) → ∀ node ∈ branches.nodes start, node.code = none
  | .none => by
    unfold Branches.nodes
    simp
  | .otherwise line body => by
    have hbody := body.code_nodes (start + 1)
    unfold Branches.nodes
    simpa [Outline.newNode] using hbody
  | .elseIf line condition body rest => by
    have hbody := body.code_nodes (start + 1)
    have hrest := rest.code_nodes (start + 1 + body.size)
    unfold Branches.nodes
    intro node hnode
    rcases List.mem_append.1 hnode with hnode | hnode
    · rcases List.mem_cons.1 hnode with rfl | hnode
      · rfl
      · exact hbody node hnode
    · exact hrest node hnode

end

/-- The nodes of the tree of a script have no code yet. -/
theorem Script.code_tree (script : Script) {id : Nat} {node : Node}
    (hnode : script.tree.nodes[id]? = some node) : node.code = none := by
  rw [← Array.getElem?_toList, tree_toList] at hnode
  rcases List.mem_append.1 (List.mem_of_getElem? hnode) with hmem | hmem
  · rcases List.mem_cons.1 hmem with rfl | hmem
    · rfl
    · exact Block.code_nodes 1 script.body node hmem
  · rcases List.mem_filterMap.1 hmem with ⟨⟨declared, slot⟩, -, hinitializer⟩
    simp only at hinitializer
    split at hinitializer
    · cases hinitializer
    · rcases Option.map_eq_some_iff.1 hinitializer with ⟨text, -, rfl⟩
      rfl

/-- Everything in the code of a tree without code exists. -/
theorem Script.codeBound_tree (script : Script) (scope : Scope) :
    CodeBound scope script.tree.nodes := by
  intro id node code hnode hcode
  rw [script.code_tree hnode] at hcode
  cases hcode

namespace Compilation

variable {scope : Scope} {before after : Compilation}

/-- Compiling a node adds code in which everything exists. -/
theorem codeBound_compileNode (hdistinct : scope.commands.Distinct) {id : Nat}
    (h : CodeBound scope before.nodes) (hcompile : compileNode scope before id = .ok after) :
    CodeBound scope after.nodes := by
  unfold compileNode at hcompile
  cases hnode : before.nodes[id]? with
  | none =>
    rw [hnode] at hcompile
    cases hcompile
  | some node =>
    rw [hnode] at hcompile
    simp only at hcompile
    cases hexpression : node.expression with
    | none =>
      rw [hexpression] at hcompile
      cases hcompile
    | some source =>
      rw [hexpression] at hcompile
      simp only at hcompile
      cases hrun : (Expr.compile scope source).run before.references with
      | error e references =>
        rw [hrun] at hcompile
        cases hcompile
        exact h
      | ok compiled references =>
        rw [hrun] at hcompile
        cases hcompile
        have hlt : id < before.nodes.size := (Array.getElem?_eq_some_iff.1 hnode).1
        intro other found code hfound hcode
        by_cases hself : id = other
        · subst hself
          rw [Array.getElem?_setIfInBounds_self_of_lt hlt] at hfound
          cases hfound
          cases hcode
          exact Expr.compile_bound hdistinct source _ _ _ hrun
        · rw [Array.getElem?_setIfInBounds_ne hself] at hfound
          exact h other found code hfound hcode

/-- Compiling nodes adds code in which everything exists. -/
theorem codeBound_foldlM (hdistinct : scope.commands.Distinct) (ids : List Nat)
    (h : CodeBound scope before.nodes)
    (hcompile : ids.foldlM (compileNode scope) before = .ok after) :
    CodeBound scope after.nodes := by
  induction ids generalizing before with
  | nil =>
    cases hcompile
    exact h
  | cons first rest ih =>
    rw [List.foldlM_cons] at hcompile
    cases hfirst : compileNode scope before first with
    | error fault =>
      rw [hfirst] at hcompile
      cases hcompile
    | ok next =>
      rw [hfirst] at hcompile
      exact ih (codeBound_compileNode hdistinct h hfirst) hcompile

end Compilation

/-! ## Code of programs -/

namespace Program

/-- The tree of a compiled program is that of a script whose nodes were compiled, and the program
is valid only if nothing was reported on the way. -/
theorem exists_compilation {globals : Globals} {commands : CommandTable} {id : Nat}
    {path : Option String} {source : List Char} {program : Program}
    (h : compile globals commands id path source = .ok program) {tree : Tree}
    (htree : program.tree = some tree) :
    ∃ (script : Script) (compilation : Compilation),
      Compilation.ofTree (program.scope globals commands) script.tree = .ok compilation ∧
        tree.nodes = compilation.nodes ∧ program.references = some compilation.references ∧
          (program.state = .valid → compilation.diagnostics = []) := by
  rcases exists_ofTree h htree with
    ⟨script, compilation, -, -, -, hcode, rfl, hreferences, hstate, -⟩
  refine ⟨script, compilation, hcode, rfl, hreferences, fun hvalid => ?_⟩
  rw [hstate] at hvalid
  split at hvalid
  · next hempty => exact List.isEmpty_iff.1 hempty
  · cases hvalid

/-- Everything in the code of a compiled program exists: slots lie below the number of its
variables, keys are those of globals, and calls name registered commands by their registered
names, with as many arguments as they take. -/
theorem bound_of_compile {globals : Globals} {commands : CommandTable}
    (hdistinct : commands.Distinct) {id : Nat} {path : Option String} {source : List Char}
    {program : Program} (h : compile globals commands id path source = .ok program) {tree : Tree}
    (htree : program.tree = some tree) : CodeBound (program.scope globals commands) tree.nodes := by
  rcases exists_compilation h htree with ⟨script, compilation, hcode, hnodes, -, -⟩
  rw [hnodes]
  exact Compilation.codeBound_foldlM hdistinct script.tree.visits (script.codeBound_tree _) hcode

end Program
end ScriptMachine
