import ScriptMachine.Proofs.Evolution
import ScriptMachine.Proofs.Resolving

/-!
# What a program refers to

While names are resolved, the references of a program are collected on the side.  For a valid
program nothing is forgotten and nothing is added: the references are the folded names of the
commands that its code calls and the keys of the globals that its code reads or assigns.  So it
depends on a symbol, in any spelling, if and only if its code uses a command or a global of that
name.

Main results:

- {lit}`Expr.resolve_adds`: resolving a term adds the names in the resolved expression.
- {lit}`Expr.resolve_agrees`: what a term is resolved to does not depend on earlier references.
- {lit}`Compilation.recorded_foldlM`: the references are those of the code compiled so far.
- {lit}`Program.references_of_compile`: the references of a valid program are those of its code.
-/

namespace ScriptMachine

open Source Text

/-! ## Names in expressions -/

namespace Expr

mutual

/-- The keys of the globals that an expression reads or assigns. -/
def keys : Expr → List String
  | .number _ | .text _ | .reference _ | .slot _ => []
  | .global key => [key]
  | .index target position => target.keys ++ position.keys
  | .unary _ operand => operand.keys
  | .binary _ left right => left.keys ++ right.keys
  | .assignSlot _ _ value => value.keys
  | .assignGlobal key _ value => key :: value.keys
  | .assignElement base position _ value => base.keys ++ position.keys ++ value.keys
  | .call _ arguments => keysList arguments

/-- The keys of the globals that a list of expressions reads or assigns. -/
def keysList : List Expr → List String
  | [] => []
  | e :: rest => e.keys ++ keysList rest

end

/-- A list of expressions calls what one of them calls. -/
theorem mem_callsList (name : String) (es : List Expr) :
    name ∈ callsList es ↔ ∃ e ∈ es, name ∈ e.calls := by
  induction es with
  | nil => simp [callsList]
  | cons e rest ih => simp [callsList, ih]

/-- A list of expressions uses the globals that one of them uses. -/
theorem mem_keysList (key : String) (es : List Expr) :
    key ∈ keysList es ↔ ∃ e ∈ es, key ∈ e.keys := by
  induction es with
  | nil => simp [keysList]
  | cons e rest ih => simp [keysList, ih]

/-- The commands called under some indices. -/
theorem mem_calls_foldl_index (name : String) (positions : List Expr) (base : Expr) :
    name ∈ (positions.foldl .index base).calls ↔ name ∈ base.calls ∨ name ∈ callsList positions := by
  induction positions generalizing base with
  | nil => simp [callsList]
  | cons first rest ih => simp [ih, calls, callsList, or_assoc]

/-- The globals used under some indices. -/
theorem mem_keys_foldl_index (key : String) (positions : List Expr) (base : Expr) :
    key ∈ (positions.foldl .index base).keys ↔ key ∈ base.keys ∨ key ∈ keysList positions := by
  induction positions generalizing base with
  | nil => simp [keysList]
  | cons first rest ih => simp [ih, keys, keysList, or_assoc]

/-- The commands called by an assignment stand in its indices or on its right side. -/
theorem mem_calls_assignTo (name : String) (target : Target) (positions : List Expr) (op : AssignOp)
    (value : Expr) :
    name ∈ (assignTo target positions op value).calls ↔
      name ∈ value.calls ∨ name ∈ (ofTarget target).calls ∨ name ∈ callsList positions := by
  unfold assignTo
  cases hlast : positions.getLast? with
  | none =>
    have hnone : positions = [] := List.getLast?_eq_none_iff.1 hlast
    cases target <;> simp [hnone, calls, callsList, ofTarget]
  | some last =>
    rcases List.getLast?_eq_some_iff.1 hlast with ⟨front, rfl⟩
    simp only [calls, List.dropLast_concat, List.mem_append, mem_calls_foldl_index, mem_callsList,
      List.mem_singleton, or_and_right, exists_or, exists_eq_left]
    grind

/-- The globals used by an assignment stand in its target, in its indices or on its right side. -/
theorem mem_keys_assignTo (key : String) (target : Target) (positions : List Expr) (op : AssignOp)
    (value : Expr) :
    key ∈ (assignTo target positions op value).keys ↔
      key ∈ value.keys ∨ key ∈ (ofTarget target).keys ∨ key ∈ keysList positions := by
  unfold assignTo
  cases hlast : positions.getLast? with
  | none =>
    have hnone : positions = [] := List.getLast?_eq_none_iff.1 hlast
    cases target <;> simp [hnone, keys, keysList, ofTarget, or_comm]
  | some last =>
    rcases List.getLast?_eq_some_iff.1 hlast with ⟨front, rfl⟩
    simp only [keys, List.dropLast_concat, List.mem_append, mem_keys_foldl_index, mem_keysList,
      List.mem_singleton, or_and_right, exists_or, exists_eq_left]
    grind

end Expr

/-! ## References that are added -/

namespace References

/-- The references behind are those before, the called commands and the used globals, whose keys
are folded. -/
structure Adds (calls keys : List String) (before after : References) : Prop where
  commands : ∀ key, key ∈ after.commands ↔ key ∈ before.commands ∨ ∃ name ∈ calls, fold name = key
  globals : ∀ key, key ∈ after.globals ↔ key ∈ before.globals ∨ key ∈ keys
  folded : ∀ key ∈ keys, fold key = key

variable {calls keys calls' keys' : List String} {before between after : References}

/-- Nothing is added. -/
theorem Adds.refl (before : References) : Adds [] [] before before :=
  ⟨by simp, by simp, by simp⟩

/-- What is added twice is added. -/
theorem Adds.trans (h : Adds calls keys before between) (h' : Adds calls' keys' between after) :
    Adds (calls ++ calls') (keys ++ keys') before after where
  commands := by
    intro key
    rw [h'.commands, h.commands, or_assoc]
    simp only [List.mem_append, or_and_right, exists_or]
  globals := by
    intro key
    rw [h'.globals, h.globals, or_assoc, List.mem_append]
  folded := fun key hkey => (List.mem_append.1 hkey).elim (h.folded key) (h'.folded key)

/-- The order of the added names does not matter. -/
theorem Adds.congr (h : Adds calls keys before after) (hcalls : ∀ name, name ∈ calls' ↔ name ∈ calls)
    (hkeys : ∀ key, key ∈ keys' ↔ key ∈ keys) : Adds calls' keys' before after where
  commands := by
    intro key
    simp only [h.commands, hcalls]
  globals := by
    intro key
    rw [h.globals, hkeys]
  folded := fun key hkey => h.folded key ((hkeys key).1 hkey)

/-- A command is added. -/
theorem adds_addCommand (before : References) (name : String) :
    Adds [name] [] before (before.addCommand name) where
  commands := by
    intro key
    simp only [addCommand, mem_insertName, List.mem_singleton, exists_eq_left]
    rw [or_comm, eq_comm]
  globals := by simp [addCommand]
  folded := by simp

/-- A global is added by its key. -/
theorem adds_addGlobal (before : References) (name : String) :
    Adds [] [fold name] before (before.addGlobal (fold name)) where
  commands := by simp [addGlobal]
  globals := by
    intro other
    simp only [addGlobal, mem_insertName, List.mem_singleton]
    exact or_comm
  folded := by simp

end References

/-! ## Resolving with references -/

variable {α β : Type}

namespace Resolve

/-- Whatever a compilation step answers, it leaves references with a property behind. -/
def Leaves (Q : α → References → Prop) (step : Resolve α) (before : References) : Prop :=
  ∀ x after, step.run before = .ok x after → Q x after

/-- Whatever a compilation step answers does not depend on the references before it. -/
def Agrees (step : Resolve α) : Prop :=
  ∀ before x after before' x' after', step.run before = .ok x after →
    step.run before' = .ok x' after' → x = x'

/-- An answer of a sequence comes from answers of both parts. -/
theorem run_bind_ok {step : Resolve α} {next : α → Resolve β} {before after : References} {y : β}
    (h : (step >>= next).run before = .ok y after) :
    ∃ x between, step.run before = .ok x between ∧ (next x).run between = .ok y after := by
  rw [EStateM.run_bind] at h
  cases hstep : step.run before with
  | ok x between =>
    rw [hstep] at h
    exact ⟨x, between, rfl, h⟩
  | error e between =>
    rw [hstep] at h
    cases h

namespace Leaves

variable {Q : β → References → Prop} {P : α → References → Prop} {before : References}

theorem pure {x : α} (h : P x before) : Leaves P (pure x : Resolve α) before := by
  intro y after hrun
  cases hrun
  exact h

theorem throw (e : ExprError) : Leaves P (throw e : Resolve α) before := by
  intro x after hrun
  cases hrun

theorem modify {f : References → References} {P : PUnit → References → Prop}
    (h : P ⟨⟩ (f before)) : Leaves P (modify f : Resolve PUnit) before := by
  intro x after hrun
  cases hrun
  exact h

/-- A sequence leaves behind what its second part makes of what the first left behind. -/
theorem bind {step : Resolve α} {next : α → Resolve β} (h : Leaves P step before)
    (hnext : ∀ x between, P x between → Leaves Q (next x) between) :
    Leaves Q (step >>= next) before := by
  intro y after hrun
  rcases run_bind_ok hrun with ⟨x, between, hstep, hrest⟩
  exact hnext x between (h x between hstep) y after hrest

end Leaves

namespace Agrees

theorem pure (x : α) : Agrees (pure x : Resolve α) := by
  intro before y after before' y' after' hrun hrun'
  cases hrun
  cases hrun'
  rfl

theorem throw (e : ExprError) : Agrees (throw e : Resolve α) := by
  intro before x after before' x' after' hrun
  cases hrun

theorem bind {step : Resolve α} {next : α → Resolve β} (h : Agrees step)
    (hnext : ∀ x, Agrees (next x)) : Agrees (step >>= next) := by
  intro before y after before' y' after' hrun hrun'
  rcases run_bind_ok hrun with ⟨x, between, hstep, hrest⟩
  rcases run_bind_ok hrun' with ⟨x', between', hstep', hrest'⟩
  cases h _ _ _ _ _ _ hstep hstep'
  exact hnext x _ _ _ _ _ _ hrest hrest'

end Agrees
end Resolve

namespace Expr

open Resolve References

section Resolving

variable (scope : Scope)

/-! ### Names that are added -/

/-- Resolving a name adds the key of a global. -/
theorem resolveName_adds (name : String) (before : References) :
    Leaves (fun target after => Adds (ofTarget target).calls (ofTarget target).keys before after)
      (resolveName scope name) before := by
  unfold resolveName
  cases hslot : scope.slot? name with
  | some i => exact .pure (.refl before)
  | none =>
    simp only
    split
    · exact .bind (.modify (adds_addGlobal before _)) fun _ _ h => .pure h
    · exact .throw _

/-- Resolving a call behind its arguments adds the registered name of the command. -/
theorem resolveCall_adds (name : String) (arguments : List Expr) (before : References) :
    Leaves (fun e after => ∃ called, e = .call called arguments ∧ Adds [called] [] before after)
      (resolveCall scope name arguments) before := by
  unfold resolveCall
  cases hlookup : scope.commands.lookup? name with
  | none => exact .throw _
  | some command =>
    have hnoted : Leaves
        (fun e after => ∃ called, e = .call called arguments ∧ Adds [called] [] before after) (do
          modify fun references => references.addCommand command.signature.name
          return Expr.call command.signature.name arguments) before :=
      .bind (.modify (adds_addCommand before _)) fun _ _ h => .pure ⟨_, rfl, h⟩
    cases harity : command.signature.arity? with
    | none =>
      simp only [harity]
      exact hnoted
    | some expected =>
      simp only [harity]
      split
      · exact .bind (P := fun _ _ => False) (.throw _) fun _ _ h => h.elim
      · exact hnoted

/-- The minus of a literal takes no name away. -/
theorem applyUnary_names (op : UnaryOp) (operand : Expr) :
    (applyUnary op operand).calls = operand.calls ∧ (applyUnary op operand).keys = operand.keys := by
  unfold applyUnary
  split
  · simp [calls, keys]
  · simp [calls, keys]

mutual

/-- Resolving a term adds the names in the resolved expression. -/
theorem resolve_adds : (term : Term) → (before : References) →
    Leaves (fun e after => Adds e.calls e.keys before after) (resolve scope term) before
  | .number digits, before => by
    unfold resolve resolveNumber
    split
    · exact .pure (.refl before)
    · exact .throw _
  | .text s, before => by
    unfold resolve
    exact .pure (.refl before)
  | .reference digits, before => by
    unfold resolve resolveReference
    split
    · exact .pure (.refl before)
    · exact .throw _
  | .name identifier, before => by
    unfold resolve
    exact .bind (resolveName_adds scope identifier before) fun _ _ h => .pure h
  | .index target position, before => by
    unfold resolve
    exact .bind (resolve_adds target before) fun _ between htarget =>
      .bind (resolve_adds position between) fun _ _ hposition => .pure (htarget.trans hposition)
  | .unary op operand, before => by
    unfold resolve
    refine .bind (resolve_adds operand before) fun e _ h => .pure ?_
    rw [(applyUnary_names op e).1, (applyUnary_names op e).2]
    exact h
  | .binary op left right, before => by
    unfold resolve
    exact .bind (resolve_adds left before) fun _ between hleft =>
      .bind (resolve_adds right between) fun _ _ hright => .pure (hleft.trans hright)
  | .assign identifier positions op value, before => by
    unfold resolve
    refine .bind (resolve_adds value before) fun v first hvalue =>
      .bind (resolveName_adds scope identifier first) fun target second htarget =>
        .bind (resolveList_adds positions second) fun found _ hpositions => .pure ?_
    refine (hvalue.trans (htarget.trans hpositions)).congr (fun name => ?_) fun key => ?_
    · simp only [mem_calls_assignTo, List.mem_append]
    · simp only [mem_keys_assignTo, List.mem_append]
  | .call identifier arguments, before => by
    unfold resolve
    refine .bind (resolveList_adds arguments before) fun found between harguments => ?_
    intro e after hrun
    rcases resolveCall_adds scope identifier found between e after hrun with ⟨called, rfl, hcall⟩
    refine (harguments.trans hcall).congr (fun name => ?_) fun key => ?_
    · simp [calls, or_comm]
    · simp [keys]

/-- Resolving a list of terms adds the names in the resolved expressions. -/
theorem resolveList_adds : (terms : List Term) → (before : References) →
    Leaves (fun es after => Adds (callsList es) (keysList es) before after)
      (resolveList scope terms) before
  | [], before => by
    unfold resolveList
    exact .pure (.refl before)
  | term :: rest, before => by
    unfold resolveList
    exact .bind (resolve_adds term before) fun _ between hfirst =>
      .bind (resolveList_adds rest between) fun _ _ hothers => .pure (hfirst.trans hothers)

end

/-! ### Answers that agree -/

theorem resolveName_agrees (name : String) : Agrees (resolveName scope name) := by
  unfold resolveName
  cases scope.slot? name with
  | some i => exact .pure _
  | none =>
    simp only
    split
    · exact .bind (fun _ _ _ _ _ _ _ _ => rfl) fun _ => .pure _
    · exact .throw _

theorem resolveCall_agrees (name : String) (arguments : List Expr) :
    Agrees (resolveCall scope name arguments) := by
  unfold resolveCall
  cases scope.commands.lookup? name with
  | none => exact .throw _
  | some command =>
    have hnoted : Agrees (do
        modify fun references => references.addCommand command.signature.name
        return .call command.signature.name arguments : Resolve Expr) :=
      .bind (fun _ _ _ _ _ _ _ _ => rfl) fun _ => .pure _
    cases harity : command.signature.arity? with
    | none =>
      simp only [harity]
      exact hnoted
    | some expected =>
      simp only [harity]
      split
      · exact .bind (.throw _) fun _ => hnoted
      · exact hnoted

mutual

/-- What a term is resolved to does not depend on the references before it. -/
theorem resolve_agrees : (term : Term) → Agrees (resolve scope term)
  | .number digits => by
    unfold resolve resolveNumber
    split
    · exact .pure _
    · exact .throw _
  | .text s => by
    unfold resolve
    exact .pure _
  | .reference digits => by
    unfold resolve resolveReference
    split
    · exact .pure _
    · exact .throw _
  | .name identifier => by
    unfold resolve
    exact .bind (resolveName_agrees scope identifier) fun _ => .pure _
  | .index target position => by
    unfold resolve
    exact .bind (resolve_agrees target) fun _ => .bind (resolve_agrees position) fun _ => .pure _
  | .unary op operand => by
    unfold resolve
    exact .bind (resolve_agrees operand) fun _ => .pure _
  | .binary op left right => by
    unfold resolve
    exact .bind (resolve_agrees left) fun _ => .bind (resolve_agrees right) fun _ => .pure _
  | .assign identifier positions op value => by
    unfold resolve
    exact .bind (resolve_agrees value) fun _ => .bind (resolveName_agrees scope identifier) fun _ =>
      .bind (resolveList_agrees positions) fun _ => .pure _
  | .call identifier arguments => by
    unfold resolve
    exact .bind (resolveList_agrees arguments) fun found => resolveCall_agrees scope identifier found

/-- What a list of terms is resolved to does not depend on the references before it. -/
theorem resolveList_agrees : (terms : List Term) → Agrees (resolveList scope terms)
  | [] => by
    unfold resolveList
    exact .pure _
  | term :: rest => by
    unfold resolveList
    exact .bind (resolve_agrees term) fun _ => .bind (resolveList_agrees rest) fun _ => .pure _

end

/-- Compiling a source text adds the names in the compiled expression. -/
theorem compile_adds (source : List Char) (before : References) :
    Leaves (fun e after => Adds e.calls e.keys before after) (compile scope source) before := by
  unfold compile
  split
  · exact .throw _
  · exact resolve_adds scope _ before

/-- What a source text is compiled to does not depend on the references before it. -/
theorem compile_agrees (source : List Char) : Agrees (compile scope source) := by
  unfold compile
  split
  · exact .throw _
  · exact resolve_agrees scope _

end Resolving
end Expr

/-! ## References of compiled nodes -/

/-- The code of some node calls a command of the given name. -/
def CodeCalls (nodes : Array Node) (name : String) : Prop :=
  ∃ (id : Nat) (node : Node) (code : Expr),
    nodes[id]? = some node ∧ node.code = some code ∧ name ∈ code.calls

/-- The code of some node reads or assigns the global of the given key. -/
def CodeTouches (nodes : Array Node) (key : String) : Prop :=
  ∃ (id : Nat) (node : Node) (code : Expr),
    nodes[id]? = some node ∧ node.code = some code ∧ key ∈ code.keys

namespace Compilation

/-- The references of a compilation are those of the code so far, and all code is what its text is
compiled to. -/
structure Recorded (scope : Scope) (compilation : Compilation) : Prop where
  compiled : ∀ (id : Nat) (node : Node) (code : Expr), compilation.nodes[id]? = some node →
    node.code = some code → ∃ source before after, node.expression = some source ∧
      (Expr.compile scope source).run before = .ok code after
  commands : ∀ key, key ∈ compilation.references.commands ↔
    ∃ name, CodeCalls compilation.nodes name ∧ fold name = key
  globals : ∀ key, key ∈ compilation.references.globals ↔ CodeTouches compilation.nodes key

variable {scope : Scope} {before after : Compilation}

/-- Setting the code of a node that has none, or the same code, adds the names of that code. -/
theorem exists_code_iff {nodes : Array Node} {id : Nat} {node : Node} {code : Expr}
    (hnode : nodes[id]? = some node) (hsame : ∀ old, node.code = some old → old = code)
    (P : Expr → Prop) :
    (∃ (other : Nat) (found : Node) (compiled : Expr),
        (nodes.setIfInBounds id { node with code := some code })[other]? = some found ∧
          found.code = some compiled ∧ P compiled) ↔
      (∃ (other : Nat) (found : Node) (compiled : Expr),
        nodes[other]? = some found ∧ found.code = some compiled ∧ P compiled) ∨ P code := by
  have hlt : id < nodes.size := (Array.getElem?_eq_some_iff.1 hnode).1
  constructor
  · rintro ⟨other, found, compiled, hfound, hcompiled, hP⟩
    by_cases hself : id = other
    · subst hself
      rw [Array.getElem?_setIfInBounds_self_of_lt hlt] at hfound
      cases hfound
      cases hcompiled
      exact .inr hP
    · rw [Array.getElem?_setIfInBounds_ne hself] at hfound
      exact .inl ⟨other, found, compiled, hfound, hcompiled, hP⟩
  · rintro (⟨other, found, compiled, hfound, hcompiled, hP⟩ | hP)
    · by_cases hself : id = other
      · subst hself
        rw [hnode] at hfound
        cases hfound
        rw [hsame compiled hcompiled] at hP
        exact ⟨id, _, code, Array.getElem?_setIfInBounds_self_of_lt hlt, rfl, hP⟩
      · refine ⟨other, found, compiled, ?_, hcompiled, hP⟩
        rw [Array.getElem?_setIfInBounds_ne hself]
        exact hfound
    · exact ⟨id, _, code, Array.getElem?_setIfInBounds_self_of_lt hlt, rfl, hP⟩

/-- Compiling a node without a mistake records what its code refers to. -/
theorem recorded_compileNode {id : Nat} (hcompile : compileNode scope before id = .ok after)
    (hnone : after.diagnostics = []) :
    before.diagnostics = [] ∧ (before.Recorded scope → after.Recorded scope) := by
  unfold compileNode at hcompile
  cases hnode : before.nodes[id]? with
  | none =>
    rw [hnode] at hcompile
    cases hcompile
  | some node =>
    rw [hnode] at hcompile
    rcases node with ⟨kind, text, expression, line, children, old⟩
    cases expression with
    | none => cases hcompile
    | some source =>
      simp only at hcompile
      cases hrun : (Expr.compile scope source).run before.references with
      | error e references =>
        rw [hrun] at hcompile
        cases hcompile
        simp at hnone
      | ok code references =>
        rw [hrun] at hcompile
        cases hcompile
        refine ⟨hnone, fun h => ?_⟩
        have hadds := Expr.compile_adds scope source before.references code references hrun
        -- A node that is compiled again gets the same code again.
        have hsame : ∀ earlier, old = some earlier → earlier = code := by
          intro earlier hold
          rcases h.compiled id _ earlier hnode hold with ⟨source', first, last, hsource, hfirst⟩
          cases hsource
          exact Expr.compile_agrees scope source _ _ _ _ _ _ hfirst hrun
        have hlt : id < before.nodes.size := (Array.getElem?_eq_some_iff.1 hnode).1
        refine ⟨?_, fun key => ?_, fun key => ?_⟩
        · intro other found compiled hfound hcompiled
          by_cases hself : id = other
          · subst hself
            rw [Array.getElem?_setIfInBounds_self_of_lt hlt] at hfound
            cases hfound
            cases hcompiled
            exact ⟨source, _, _, rfl, hrun⟩
          · rw [Array.getElem?_setIfInBounds_ne hself] at hfound
            exact h.compiled other found compiled hfound hcompiled
        · have hiff := fun name => exists_code_iff hnode hsame fun compiled => name ∈ compiled.calls
          simp only [hadds.commands, h.commands, CodeCalls, hiff, or_and_right, exists_or]
        · have hiff := exists_code_iff hnode hsame fun compiled => key ∈ compiled.keys
          simp only [hadds.globals, h.globals, CodeTouches, hiff]

/-- Compiling nodes without a mistake records what their code refers to. -/
theorem recorded_foldlM (ids : List Nat) (hcompile : ids.foldlM (compileNode scope) before = .ok after)
    (hnone : after.diagnostics = []) :
    before.diagnostics = [] ∧ (before.Recorded scope → after.Recorded scope) := by
  induction ids generalizing before with
  | nil =>
    cases hcompile
    exact ⟨hnone, id⟩
  | cons first rest ih =>
    rw [List.foldlM_cons] at hcompile
    cases hfirst : compileNode scope before first with
    | error fault =>
      rw [hfirst] at hcompile
      cases hcompile
    | ok next =>
      rw [hfirst] at hcompile
      rcases ih hcompile with ⟨hbetween, hrest⟩
      rcases recorded_compileNode hfirst hbetween with ⟨hstart, hnext⟩
      exact ⟨hstart, fun h => hrest (hnext h)⟩

/-- Nothing is recorded before anything is compiled. -/
theorem recorded_start (script : Script) (scope : Scope) :
    Recorded scope ⟨script.tree.nodes, .empty, []⟩ := by
  have hnone : ∀ (id : Nat) (node : Node) (code : Expr), script.tree.nodes[id]? = some node →
      node.code ≠ some code := by
    intro id node code hnode
    rw [script.code_tree hnode]
    simp
  refine ⟨fun id node code hnode hcode => absurd hcode (hnone id node code hnode), fun key => ?_,
    fun key => ?_⟩
  · refine ⟨fun h => (List.not_mem_nil h).elim, ?_⟩
    rintro ⟨name, ⟨id, node, code, hnode, hcode, -⟩, -⟩
    exact absurd hcode (hnone id node code hnode)
  · refine ⟨fun h => (List.not_mem_nil h).elim, ?_⟩
    rintro ⟨id, node, code, hnode, hcode, -⟩
    exact absurd hcode (hnone id node code hnode)

end Compilation

/-! ## Names that exist -/

/-- Commands are registered under the names in calls, and keys are those of declared globals. -/
structure Scope.Provides (scope : Scope) (calls keys : List String) : Prop where
  registered : ∀ name ∈ calls,
    ∃ command, scope.commands.lookup? name = some command ∧ command.signature.name = name
  declared : ∀ key ∈ keys, scope.globals.contains key = true

namespace Scope.Provides

variable {scope : Scope} {calls keys calls' keys' : List String}

/-- Without names there is nothing to provide. -/
theorem nil : scope.Provides [] [] :=
  ⟨by simp, by simp⟩

/-- Names of two parts are provided together. -/
theorem append (h : scope.Provides calls keys) (h' : scope.Provides calls' keys') :
    scope.Provides (calls ++ calls') (keys ++ keys') where
  registered := fun name hname =>
    (List.mem_append.1 hname).elim (h.registered name) (h'.registered name)
  declared := fun key hkey => (List.mem_append.1 hkey).elim (h.declared key) (h'.declared key)

end Scope.Provides

namespace Expr

section Bound

variable {scope : Scope}

mutual

/-- The names in a bound expression are provided. -/
theorem provides_of_bound : (e : Expr) → e.Bound scope → scope.Provides e.calls e.keys
  | .number _, _ => .nil
  | .text _, _ => .nil
  | .reference _, _ => .nil
  | .slot _, _ => .nil
  | .global key, h => by
    unfold Expr.Bound at h
    exact ⟨by simp [calls], by simpa [keys] using h⟩
  | .index target position, h => by
    unfold Expr.Bound at h
    exact (provides_of_bound target h.1).append (provides_of_bound position h.2)
  | .unary _ operand, h => by
    unfold Expr.Bound at h
    exact provides_of_bound operand h
  | .binary _ left right, h => by
    unfold Expr.Bound at h
    exact (provides_of_bound left h.1).append (provides_of_bound right h.2)
  | .assignSlot _ _ value, h => by
    unfold Expr.Bound at h
    exact provides_of_bound value h.2
  | .assignGlobal key _ value, h => by
    unfold Expr.Bound at h
    have hkey : scope.Provides [] [key] := ⟨by simp, by simpa using h.1⟩
    exact hkey.append (provides_of_bound value h.2)
  | .assignElement base position _ value, h => by
    unfold Expr.Bound at h
    have hplace := (provides_of_bound base h.1).append (provides_of_bound position h.2.1)
    exact hplace.append (provides_of_bound value h.2.2)
  | .call command arguments, h => by
    unfold Expr.Bound at h
    rcases h.1 with ⟨found, hlookup, hsame, -⟩
    have hcommand : scope.Provides [command] [] := ⟨by simpa using ⟨found, hlookup, hsame⟩, by simp⟩
    exact hcommand.append (provides_of_allBound arguments h.2)

/-- The names in a list of bound expressions are provided. -/
theorem provides_of_allBound : (es : List Expr) → AllBound scope es →
    scope.Provides (callsList es) (keysList es)
  | [], _ => .nil
  | e :: rest, h => by
    unfold AllBound at h
    exact (provides_of_bound e h.1).append (provides_of_allBound rest h.2)

end

end Bound
end Expr

/-! ## References of programs -/

namespace Program

/-- The code of a program, in its body or an initializer, calls a command by the given registered
name. -/
def Calls (program : Program) (name : String) : Prop :=
  ∃ tree, program.tree = some tree ∧ CodeCalls tree.nodes name

/-- The code of a program, in its body or an initializer, reads or assigns the global of the given
key. -/
def Touches (program : Program) (key : String) : Prop :=
  ∃ tree, program.tree = some tree ∧ CodeTouches tree.nodes key

/-- The code of a program calls a command or uses a global of the given name, in any spelling. -/
def Refers (program : Program) (symbol : String) : Prop :=
  (∃ name, program.Calls name ∧ sameName name symbol = true) ∨ program.Touches (fold symbol)

/-- References that hold what the code of a program calls, reads and assigns, and nothing else. -/
structure Named (program : Program) (references : References) : Prop where
  commands : ∀ key, key ∈ references.commands ↔ ∃ name, program.Calls name ∧ fold name = key
  globals : ∀ key, key ∈ references.globals ↔ program.Touches key

/-- A program depends on the names to which its code refers. -/
theorem Named.dependsOn {program : Program} {references : References}
    (h : program.Named references) (symbol : String) :
    references.dependsOn symbol = true ↔ program.Refers symbol := by
  simp only [References.dependsOn, Bool.or_eq_true, List.contains_iff_mem, h.commands, h.globals,
    Refers, sameName_iff]

/-- The references of a program, if it is valid, are those of its code, and its globals are named
by folded names. -/
def Faithful (program : Program) : Prop :=
  program.state = .valid →
    ∃ references, program.references = some references ∧ program.Named references ∧
      ∀ key, program.Touches key → fold key = key

section Compiled

variable {globals : Globals} {commands : CommandTable} {id : Nat} {path : Option String}
  {source : List Char} {program : Program}

/-- Every command that a compiled program calls is registered under the name in the call. -/
theorem registered_of_compile (hassembled : commands.Assembled)
    (h : compile globals commands id path source = .ok program) {name : String}
    (hcalls : program.Calls name) :
    ∃ command, commands.lookup? name = some command ∧ command.signature.name = name := by
  rcases hcalls with ⟨tree, htree, number, node, code, hnode, hcode, hname⟩
  have hbound := bound_of_compile hassembled.distinct h htree number node code hnode hcode
  exact (Expr.provides_of_bound code hbound).registered name hname

/-- Every global that a compiled program reads or assigns is declared. -/
theorem declared_of_compile (hassembled : commands.Assembled)
    (h : compile globals commands id path source = .ok program) {key : String}
    (htouches : program.Touches key) : globals.contains key = true := by
  rcases htouches with ⟨tree, htree, number, node, code, hnode, hcode, hkey⟩
  have hbound := bound_of_compile hassembled.distinct h htree number node code hnode hcode
  exact (Expr.provides_of_bound code hbound).declared key hkey

/-- The references of a valid program were recorded while its code was compiled. -/
theorem recorded_of_compile (h : compile globals commands id path source = .ok program)
    (hvalid : program.state = .valid) : ∃ tree references, program.tree = some tree ∧
      program.references = some references ∧
        Compilation.Recorded (program.scope globals commands) ⟨tree.nodes, references, []⟩ := by
  rcases (finished_of_compile h).compiled hvalid with ⟨tree, htree, -⟩
  rcases exists_compilation h htree with
    ⟨script, ⟨nodes, references, diagnostics⟩, hcode, hnodes, hreferences, hnone⟩
  cases hnone hvalid
  refine ⟨tree, references, htree, hreferences, ?_⟩
  rw [hnodes]
  exact (Compilation.recorded_foldlM script.tree.visits hcode rfl).2
    (Compilation.recorded_start script _)

/-- The globals of a valid program are named by folded names. -/
theorem folded_of_compile (h : compile globals commands id path source = .ok program)
    (hvalid : program.state = .valid) {key : String} (htouches : program.Touches key) :
    fold key = key := by
  rcases recorded_of_compile h hvalid with ⟨tree, references, htree, -, hrecorded⟩
  rcases htouches with ⟨found, hfound, number, node, code, hnode, hcode, hkey⟩
  rw [htree] at hfound
  cases hfound
  rcases hrecorded.compiled number node code hnode hcode with ⟨text, before, after, -, hrun⟩
  exact (Expr.compile_adds _ text before code after hrun).folded key hkey

/-- A compiled program is faithful. -/
theorem faithful_of_compile (h : compile globals commands id path source = .ok program) :
    program.Faithful := by
  intro hvalid
  rcases recorded_of_compile h hvalid with ⟨tree, references, htree, hreferences, hrecorded⟩
  refine ⟨references, hreferences, ⟨?_, ?_⟩, fun key hkey => folded_of_compile h hvalid hkey⟩
  · simpa [Calls, htree] using hrecorded.commands
  · simpa [Touches, htree] using hrecorded.globals

/-- The references of a valid program are the folded names of the commands that its code calls, all
of them by registered names, and the keys of the globals that its code reads or assigns.  So it
depends on a symbol if and only if its code uses a command or a global of that name. -/
theorem references_of_compile (hassembled : commands.Assembled)
    (h : compile globals commands id path source = .ok program) (hvalid : program.state = .valid) :
    ∃ references, program.references = some references ∧
      (∀ key, key ∈ references.commands ↔
        ∃ command ∈ commands.commands,
          program.Calls command.signature.name ∧ fold command.signature.name = key) ∧
      (∀ name, program.Calls name → ∃ command ∈ commands.commands, command.signature.name = name) ∧
      (∀ key, key ∈ references.globals ↔ program.Touches key) ∧
      ∀ symbol, references.dependsOn symbol = true ↔ program.Refers symbol := by
  rcases faithful_of_compile h hvalid with ⟨references, hreferences, hnamed, -⟩
  have hregistered : ∀ name, program.Calls name →
      ∃ command ∈ commands.commands, command.signature.name = name := by
    intro name hname
    rcases registered_of_compile hassembled h hname with ⟨command, hlookup, hsame⟩
    exact ⟨command, (CommandTable.lookup?_mem commands name command hlookup).1, hsame⟩
  refine ⟨references, hreferences, fun key => ?_, hregistered, hnamed.globals,
    fun symbol => hnamed.dependsOn symbol⟩
  rw [hnamed.commands]
  constructor
  · rintro ⟨name, hname, hkey⟩
    rcases hregistered name hname with ⟨command, hmem, rfl⟩
    exact ⟨command, hmem, hname, hkey⟩
  · rintro ⟨command, -, hname, hkey⟩
    exact ⟨command.signature.name, hname, hkey⟩

/-- A script that calls a command by its alias in the index of an assigned element, and reads a
global in an initializer. -/
def referring : List Char :=
  "scriptname Referring\nvariable item = Total\nbegin\nScore[printc(0)] += ArraySize(item)\nend".toList

/-- Two globals. -/
def scores : Globals := .ofList [("Score", .text ""), ("TOTAL", .text "")]

/-- Whether the script is valid, with the references that it has. -/
def refersToAll : Bool :=
  match compile scores .standard 1 none referring with
  | .ok program => decide (program.state = .valid) &&
      decide (program.references = some ⟨["arraysize", "printtoconsole"], ["score", "total"]⟩)
  | .error _ => false

/-- A program depends on a global in any spelling, and on a command that it calls by its alias. -/
theorem references_of_compile_referring : ∃ program references,
    compile scores .standard 1 none referring = .ok program ∧ program.state = .valid ∧
      program.references = some references ∧ program.Touches "score" ∧ program.Touches "total" ∧
        program.Refers "PrintToConsole" ∧ references.dependsOn "SCORE" = true ∧
          references.dependsOn "PRINTTOCONSOLE" = true := by
  rcases exists_compile scores .standard 1 none referring with ⟨program, hcompile, -⟩
  have hrefers : refersToAll = true := by decide +kernel
  unfold refersToAll at hrefers
  rw [hcompile] at hrefers
  simp only [Bool.and_eq_true, decide_eq_true_eq] at hrefers
  rcases references_of_compile .standard hcompile hrefers.1 with
    ⟨references, hfound, -, -, hglobals, hdepends⟩
  rw [hrefers.2] at hfound
  cases hfound
  have hprinter : References.dependsOn ⟨["arraysize", "printtoconsole"], ["score", "total"]⟩
      "PrintToConsole" = true := by decide +kernel
  exact ⟨program, _, hcompile, hrefers.1, hrefers.2, (hglobals _).1 (by simp),
    (hglobals _).1 (by simp), (hdepends _).1 hprinter, by decide +kernel, by decide +kernel⟩

end Compiled
end Program
end ScriptMachine
