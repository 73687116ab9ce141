import Mathlib.Algebra.Order.Field.Rat
import Mathlib.Tactic.Linarith
import ScriptMachine.Proofs.Declining

/-!
# Elements at an index

Expressions and commands find the element of an array at an index each in their own way: an
expression converts the value of the index itself, a command is checked for its types first and
then converts an argument.  Both accept what reads as a natural number, whether it is a number, a
reference or a string, and cut it off at the last position that a machine word can name.

Main results:

- {lit}`Number.toIndex?_eq_some_iff`: the position that a number names, by its exact value.
- {lit}`Value.position_finds` and {lit}`Value.index_finds`: the two conversions.
- {lit}`Evaluation.Indexed`: an operation that works at the positions below a bound only.
- {lit}`Execution.subscripts_exact`: reading, assigning, removing and inserting are of this kind.
-/

namespace ScriptMachine

/-! ## Exact values -/

namespace Number

/-- The exact value of a magnitude. -/
def Magnitude.value (x : Magnitude) : ℚ :=
  x.mantissa * 2 ^ x.exponent

/-- The exact value of a number, if it is finite. -/
def exactValue? (x : Float) : Option ℚ :=
  match decode x with
  | .finite negative magnitude =>
    some (if negative then -magnitude.value else magnitude.value)
  | _ => none

/-- A magnitude is a natural number when it has no fraction, namely the one that truncation
finds. -/
theorem Magnitude.value_eq_iff (x : Magnitude) (n : Nat) :
    x.value = n ↔ x.isIntegral = true ∧ x.floor = n := by
  have htwo : (2 : ℚ) ≠ 0 := by decide
  by_cases hexponent : 0 ≤ x.exponent
  · rcases Int.eq_ofNat_of_zero_le hexponent with ⟨k, hk⟩
    simp only [value, isIntegral, floor, hk, zpow_natCast, Int.natCast_nonneg, Int.toNat_natCast,
      decide_true, Bool.true_or, if_true, true_and]
    exact_mod_cast Iff.rfl
  · obtain ⟨k, hk⟩ : ∃ k : Nat, x.exponent = -(k : Int) := ⟨(-x.exponent).toNat, by omega⟩
    have hnot : ¬(0 : Int) ≤ -(k : Int) := hk ▸ hexponent
    have hpow : (2 : ℚ) ^ k ≠ 0 := pow_ne_zero k htwo
    simp only [value, isIntegral, floor, hk, zpow_neg, zpow_natCast, Int.neg_neg,
      Int.toNat_natCast, if_neg hnot, decide_eq_false hnot, Bool.false_or, decide_eq_true_eq]
    rw [← div_eq_mul_inv, div_eq_iff hpow]
    have hnat : (x.mantissa : ℚ) = n * 2 ^ k ↔ x.mantissa = n * 2 ^ k := by norm_cast
    show _ ↔ x.mantissa % 2 ^ k = 0 ∧ x.mantissa / 2 ^ k = n
    rw [hnat]
    constructor
    · intro hproduct
      rw [hproduct]
      exact ⟨Nat.mul_mod_left .., Nat.mul_div_cancel _ (Nat.two_pow_pos k)⟩
    · rintro ⟨hmod, hdiv⟩
      rw [← hdiv, Nat.div_mul_cancel (Nat.dvd_of_mod_eq_zero hmod)]

/-- A magnitude is zero when its mantissa is. -/
theorem Magnitude.value_eq_zero (x : Magnitude) : x.value = 0 ↔ x.mantissa = 0 := by
  have hpow : (2 : ℚ) ^ x.exponent ≠ 0 := zpow_ne_zero _ (by decide)
  simp [value, hpow]

/-- A signed magnitude is a natural number when it has no fraction and its sign does not matter. -/
theorem Magnitude.signed_eq_iff (x : Magnitude) (negative : Bool) (n : Nat) :
    (if negative then -x.value else x.value) = n ↔
      (x.isIntegral && (!negative || x.mantissa == 0)) = true ∧ x.floor = n := by
  cases negative with
  | false => simp [x.value_eq_iff]
  | true =>
    have hnonneg : 0 ≤ x.value := mul_nonneg (Nat.cast_nonneg _) (zpow_nonneg (by decide) _)
    have hn : (0 : ℚ) ≤ n := Nat.cast_nonneg n
    simp only [if_true, Bool.not_true, Bool.false_or, Bool.and_eq_true, beq_iff_eq]
    constructor
    · intro hvalue
      have hzero : x.value = 0 := by linarith
      have hn' : (n : ℚ) = 0 := by linarith
      rcases (x.value_eq_iff n).1 (hzero.trans hn'.symm) with ⟨hintegral, hfloor⟩
      exact ⟨⟨hintegral, x.value_eq_zero.1 hzero⟩, hfloor⟩
    · rintro ⟨⟨hintegral, hmantissa⟩, hfloor⟩
      have hzero := x.value_eq_zero.2 hmantissa
      rw [← (x.value_eq_iff n).2 ⟨hintegral, hfloor⟩, hzero, neg_zero]

/-- A number names a position exactly when it is a natural number: that one, or the last one if it
is too large. -/
theorem toIndex?_eq_some_iff (x : Float) (i : Nat) :
    toIndex? x = some i ↔ ∃ n : Nat, exactValue? x = some (n : ℚ) ∧ min maxIndex n = i := by
  unfold toIndex? exactValue?
  cases decode x with
  | nan => simp
  | infinity negative => simp
  | finite negative magnitude =>
    simp only [Option.ite_none_right_eq_some, Option.some_inj, magnitude.signed_eq_iff]
    constructor
    · rintro ⟨hnames, hi⟩
      exact ⟨_, ⟨hnames, rfl⟩, hi⟩
    · rintro ⟨n, ⟨hnames, rfl⟩, hi⟩
      exact ⟨hnames, hi⟩

end Number

/-! ## Indices -/

namespace Value

/-- The numeric reading of a value is a natural number. -/
def Names (v : Value) (n : Nat) : Prop :=
  ∃ x, v.number? = some x ∧ Number.exactValue? x = some (n : ℚ)

/-- A conversion to a position answers for natural numbers and for nothing else. -/
structure Finds {ε : Type} (v : Value) (result : Except ε Nat) : Prop where
  named : ∀ n, v.Names n → result = .ok (min Number.maxIndex n)
  unnamed : (∀ n, ¬v.Names n) → ∃ e, result = .error e

/-- A conversion that goes through the numeric reading. -/
theorem finds_of {ε : Type} {v : Value} {result : Except ε Nat}
    (hsome : ∀ x i, v.number? = some x → Number.toIndex? x = some i → result = .ok i)
    (hnone : v.number?.bind Number.toIndex? = none → ∃ e, result = .error e) : v.Finds result := by
  constructor
  · rintro n ⟨x, hx, hexact⟩
    exact hsome x _ hx ((Number.toIndex?_eq_some_iff x _).2 ⟨n, hexact, rfl⟩)
  · intro hunnamed
    refine hnone (Option.bind_eq_none_iff.2 fun x hx => Option.eq_none_iff_forall_ne_some.2 ?_)
    intro i hi
    rcases (Number.toIndex?_eq_some_iff x i).1 hi with ⟨n, hexact, -⟩
    exact hunnamed n ⟨x, hx, hexact⟩

/-- The index of an element in an expression. -/
theorem position_finds (v : Value) : v.Finds v.position := by
  refine finds_of (fun x i hx hi => ?_) fun hnone => ?_
  · simp [position, numeric, hx, hi, bind, Except.bind]
  · cases hx : v.number? with
    | none => exact ⟨.operandNotNumeric "[]" v.dataType, by simp [position, numeric, hx]; rfl⟩
    | some x =>
      rw [hx, Option.bind_some] at hnone
      exact ⟨.invalidIndex x, by simp [position, numeric, hx, bind, Except.bind, hnone]⟩

/-- The index among the arguments of a command. -/
theorem index_finds {arguments : List Value} {v : Value} {k : Nat} (h : arguments[k]? = some v) :
    v.Finds (Arguments.index arguments k) := by
  refine finds_of (fun x i hx hi => ?_) fun hnone => ?_
  · simp [Arguments.index, Arguments.number, Arguments.value, h, hx, hi, bind, Except.bind]
  · cases hx : v.number? with
    | none =>
      exact ⟨.argumentNotNumeric k, by
        simp [Arguments.index, Arguments.number, Arguments.value, h, hx, bind, Except.bind]⟩
    | some x =>
      rw [hx, Option.bind_some] at hnone
      exact ⟨.invalidIndex x, by
        simp [Arguments.index, Arguments.number, Arguments.value, h, hx, hnone, bind, Except.bind]⟩

end Value

/-! ## Operations at an index -/

/-- Nothing but the elements of one array has changed. -/
structure Execution.Edits (id : ArrayId) (elements : List Value) (s t : Execution) : Prop where
  elements : t.machine.arrays.elements id = elements
  others : ∀ other, other ≠ id → t.machine.arrays.elements other = s.machine.arrays.elements other
  rest : t = s.onMachine fun machine => { machine with arrays := t.machine.arrays }

/-- A live array gets a new list of elements. -/
theorem Execution.edits_replace {s : Execution} {id : ArrayId} (list : List Value)
    (h : id.index < s.machine.arrays.lists.size) : s.Edits id list
      (s.onMachine fun machine => { machine with arrays := machine.arrays.replace id list }) where
  elements := Arrays.elements_replace _ id list h
  others other hne := Arrays.elements_replace_ne _ id other list hne
  rest := rfl

/-- An operation on the element of an array at an index does its work at the positions below a
bound; with anything else it fails and changes nothing. -/
structure Evaluation.Indexed (operation : Evaluation Value) (s : Execution) (a i : Value)
    (bound : ArrayId → Nat) (Work : ArrayId → Nat → Value → Execution → Prop) : Prop where
  inside : ∀ id n, a = .array id → i.Names n → n < bound id →
    ∃ w t, operation s = .done w t ∧ Work id n w t
  outside : (∀ id n, a = .array id → i.Names n → bound id ≤ n) →
    ∃ e, operation s = .failed e s

section Operations

variable {s : Execution} {a i v : Value} {base position value : Expr} {invoke : Invoker}
  {callee : Callee} {line : Nat} {Work : ArrayId → Nat → Value → Execution → Prop}

/-- An operation that converts its index first.  Arrays have fewer elements than there are
positions, so a position that had to be cut off is beyond all elements anyway. -/
theorem Evaluation.indexed_of {ε : Type} {operation : Evaluation Value} {bound : ArrayId → Nat}
    {result : Except ε Nat} (hfinds : i.Finds result)
    (hbound : ∀ id, a = .array id → bound id ≤ Number.maxIndex)
    (hinside : ∀ id n, a = .array id → result = .ok n → n < bound id →
      ∃ w t, operation s = .done w t ∧ Work id n w t)
    (houtside : ∀ id n, a = .array id → result = .ok n → bound id ≤ n →
      ∃ e, operation s = .failed e s)
    (hunnamed : ∀ id e, a = .array id → result = .error e → ∃ e, operation s = .failed e s)
    (hother : (∀ id, a ≠ .array id) → ∃ e, operation s = .failed e s) :
    operation.Indexed s a i bound Work := by
  constructor
  · intro id n ha hi hn
    have hresult := hfinds.named n hi
    rw [Nat.min_eq_right (Nat.le_trans (Nat.le_of_lt hn) (hbound id ha))] at hresult
    exact hinside id n ha hresult hn
  · intro hout
    by_cases harray : ∃ id, a = .array id
    · rcases harray with ⟨id, ha⟩
      by_cases hnames : ∃ n, i.Names n
      · rcases hnames with ⟨n, hi⟩
        exact houtside id _ ha (hfinds.named n hi) (Nat.le_min.2 ⟨hbound id ha, hout id n ha hi⟩)
      · rcases hfinds.unnamed fun n hi => hnames ⟨n, hi⟩ with ⟨e, he⟩
        exact hunnamed id e ha he
    · exact hother fun id ha => harray ⟨id, ha⟩

/-! ### In expressions -/

/-- Only arrays are indexed. -/
theorem Value.indexable_of_ne (ha : ∀ id, a ≠ .array id) : ∃ e, a.indexable = .error e := by
  cases a with
  | array id => exact (ha id rfl).elim
  | _ => exact ⟨_, rfl⟩

/-- Reading an element in an expression. -/
theorem Expr.index_indexed (hbase : base.eval invoke s = .done a s)
    (hposition : position.eval invoke s = .done i s)
    (hsize : ∀ id, a = .array id → s.machine.arrays.size id < Number.maxIndex) :
    Evaluation.Indexed ((Expr.index base position).eval invoke) s a i s.machine.arrays.size
      fun id n w t => s.machine.arrays.at? id n = some w ∧ t = s := by
  have hrun : (Expr.index base position).eval invoke s =
      Action.ofExcept (a.element s.machine.arrays i) s := by
    simp [Expr.eval, Action.bind_run, hbase, hposition, Evaluation.withArrays]
  have helement {id : ArrayId} {n : Nat} (ha : a = .array id) (hi : i.position = .ok n) :
      a.element s.machine.arrays i = Value.elementAt s.machine.arrays id n := by
    rw [Value.element, ha, hi]
    rfl
  refine Evaluation.indexed_of i.position_finds (fun id ha => Nat.le_of_lt (hsize id ha))
    ?_ ?_ ?_ ?_
  · intro id n ha hi hn
    have hat : s.machine.arrays.at? id n = some ((s.machine.arrays.elements id)[n]) :=
      List.getElem?_eq_getElem hn
    exact ⟨_, s, by simp [hrun, helement ha hi, Value.elementAt, hat], hat, rfl⟩
  · intro id n ha hi hn
    have hat : s.machine.arrays.at? id n = none := List.getElem?_eq_none hn
    exact ⟨.indexOutOfRange n (s.machine.arrays.size id), by
      simp [hrun, helement ha hi, Value.elementAt, hat]⟩
  · intro id e ha hi
    exact ⟨e, by rw [hrun, Value.element, ha, hi]; rfl⟩
  · intro ha
    rcases Value.indexable_of_ne ha with ⟨e, he⟩
    exact ⟨e, by rw [hrun, Value.element, he]; rfl⟩

/-- An element that exists is replaced. -/
theorem Evaluation.writeElement_done {id : ArrayId} {n : Nat} (v : Value)
    (h : n < s.machine.arrays.size id) :
    Evaluation.writeElement id n v s =
      .done () (s.onMachine fun machine => { machine with
        arrays := machine.arrays.replace id ((s.machine.arrays.elements id).set n v) }) := by
  simp [writeElement, Action.bind_run, Arrays.set?, h, Execution.onMachine]

/-- An element that does not exist is not. -/
theorem Evaluation.writeElement_failed {id : ArrayId} {n : Nat} (v : Value)
    (h : s.machine.arrays.size id ≤ n) :
    Evaluation.writeElement id n v s =
      .failed (.indexOutOfRange n (s.machine.arrays.size id)) s := by
  simp [writeElement, Action.bind_run, Arrays.set?, Nat.not_lt.2 h]

/-- Assigning to an element. -/
theorem Expr.assignElement_indexed (hbase : base.eval invoke s = .done a s)
    (hposition : position.eval invoke s = .done i s) (hvalue : value.eval invoke s = .done v s)
    (hlive : ∀ id, a = .array id → id.index < s.machine.arrays.lists.size)
    (hsize : ∀ id, a = .array id → s.machine.arrays.size id < Number.maxIndex) :
    Evaluation.Indexed ((Expr.assignElement base position .set value).eval invoke) s a i
      s.machine.arrays.size
      fun id n w t => w = v ∧ s.Edits id ((s.machine.arrays.elements id).set n v) t := by
  refine Evaluation.indexed_of i.position_finds (fun id ha => Nat.le_of_lt (hsize id ha))
    ?_ ?_ ?_ ?_
  · intro id n ha hi hn
    refine ⟨v, _, ?_, rfl, Execution.edits_replace _ (hlive id ha)⟩
    simp [-bind_pure_comp, Expr.eval, Action.bind_run, hbase, hposition, hvalue, ha,
      Value.indexable, Value.array?, hi, Evaluation.combined, AssignOp.combine?,
      Evaluation.writeElement_done v hn]
  · intro id n ha hi hn
    refine ⟨.indexOutOfRange n (s.machine.arrays.size id), ?_⟩
    simp [-bind_pure_comp, Expr.eval, Action.bind_run, hbase, hposition, hvalue, ha,
      Value.indexable, Value.array?, hi, Evaluation.combined, AssignOp.combine?,
      Evaluation.writeElement_failed v hn]
  · intro id e ha hi
    exact ⟨e, by simp [Expr.eval, Action.bind_run, hbase, hposition, hvalue, ha, Value.indexable,
      Value.array?, hi]⟩
  · intro ha
    rcases Value.indexable_of_ne ha with ⟨e, he⟩
    exact ⟨e, by simp [Expr.eval, Action.bind_run, hbase, hvalue, he]⟩

/-! ### By commands -/

/-- An array and what reads as a number pass the check of such parameters. -/
theorem checkArguments_pair {signature : Signature} {first second : String}
    (hparameters : signature.parameters = [⟨first, .array⟩, ⟨second, .numeric⟩])
    (hvariadic : signature.variadic = false) (id : ArrayId) (i : Value) :
    checkArguments signature [.array id, i] =
      if i.number?.isSome then .ok ()
      else .error (.argumentType signature.name second .numeric i.dataType) := by
  have haccepts : i.isNumber true = i.number?.isSome := by
    cases i <;> rfl
  cases hnumber : i.number?.isSome <;>
    simp [checkArguments, Signature.arity?, hparameters, hvariadic, ParameterType.accepts,
      Value.dataType, haccepts, hnumber]

/-- Anything but an array does not. -/
theorem checkArguments_of_ne {signature : Signature} {first second : String}
    (hparameters : signature.parameters = [⟨first, .array⟩, ⟨second, .numeric⟩])
    (hvariadic : signature.variadic = false) (ha : ∀ id, a ≠ .array id) (i : Value) :
    ∃ e, checkArguments signature [a, i] = .error e := by
  cases a with
  | array id => exact (ha id rfl).elim
  | _ =>
    exact ⟨_, by simp [checkArguments, Signature.arity?, hparameters, hvariadic,
      ParameterType.accepts, Value.dataType]; rfl⟩

/-- A call whose arguments are refused. -/
theorem Builtin.call_refused {builtin : Builtin} {arguments : List Value} {e : RuntimeCause}
    (hcheck : checkArguments builtin.signature arguments = .error e) :
    builtin.command.call callee line arguments s = .failed e s := by
  simp [Command.call, Action.bind_run, Builtin.command, hcheck]

/-- A call of a command that answers. -/
theorem Builtin.call_done {builtin : Builtin} {arguments : List Value} {reply : Reply}
    {t : Execution} (hcheck : checkArguments builtin.signature arguments = .ok ())
    (hperform : builtin.perform callee line arguments s = .done reply t) :
    builtin.command.call callee line arguments s = .done reply.value t := by
  have hadmits := perform_declines callee line arguments builtin s
  rw [hperform] at hadmits
  have hreply : checkReply builtin.signature reply = .ok reply.value := hadmits
  simp [Command.call, Action.bind_run, Builtin.command, hcheck, Command.perform,
    Action.mapError_run, hperform, hreply]

/-- A call of a command that fails. -/
theorem Builtin.call_failed {builtin : Builtin} {arguments : List Value} {e : CommandCause}
    (hcheck : checkArguments builtin.signature arguments = .ok ())
    (hperform : builtin.perform callee line arguments s = .failed e s) :
    builtin.command.call callee line arguments s =
      .failed (.inCommand builtin.signature.name e) s := by
  simp [Command.call, Action.bind_run, Builtin.command, hcheck, Command.perform,
    Action.mapError_run, hperform]

/-- A command with an array and a number for parameters. -/
theorem Builtin.call_indexed {builtin : Builtin} {first second : String} {bound : ArrayId → Nat}
    (hparameters : builtin.signature.parameters = [⟨first, .array⟩, ⟨second, .numeric⟩])
    (hvariadic : builtin.signature.variadic = false)
    (hbound : ∀ id, a = .array id → bound id ≤ Number.maxIndex)
    (hinside : ∀ id n, a = .array id → Arguments.index [a, i] 1 = .ok n → n < bound id →
      ∃ reply t, builtin.perform callee line [a, i] s = .done reply t ∧ Work id n reply.value t)
    (houtside : ∀ id n, a = .array id → Arguments.index [a, i] 1 = .ok n → bound id ≤ n →
      ∃ e, builtin.perform callee line [a, i] s = .failed e s)
    (hunnamed : ∀ id e, a = .array id → Arguments.index [a, i] 1 = .error e →
      ∃ e, builtin.perform callee line [a, i] s = .failed e s) :
    Evaluation.Indexed (builtin.command.call callee line [a, i]) s a i bound Work := by
  have hpair {id : ArrayId} (ha : a = .array id) : checkArguments builtin.signature [a, i] =
      if i.number?.isSome then .ok ()
      else .error (.argumentType builtin.signature.name second .numeric i.dataType) :=
    ha ▸ checkArguments_pair hparameters hvariadic id i
  have hnumber {n : Nat} (hi : Arguments.index [a, i] 1 = .ok n) : i.number?.isSome = true := by
    cases hx : i.number? with
    | none => simp [Arguments.index, Arguments.number, Arguments.value, hx, bind, Except.bind] at hi
    | some x => rfl
  have hfinds : i.Finds (Arguments.index [a, i] 1) := Value.index_finds rfl
  refine Evaluation.indexed_of hfinds hbound ?_ ?_ ?_ ?_
  · intro id n ha hi hn
    rcases hinside id n ha hi hn with ⟨reply, t, hperform, hwork⟩
    exact ⟨reply.value, t, call_done (by rw [hpair ha, if_pos (hnumber hi)]) hperform, hwork⟩
  · intro id n ha hi hn
    rcases houtside id n ha hi hn with ⟨e, hperform⟩
    exact ⟨_, call_failed (by rw [hpair ha, if_pos (hnumber hi)]) hperform⟩
  · intro id e ha hi
    by_cases hsome : i.number?.isSome = true
    · rcases hunnamed id e ha hi with ⟨e, hperform⟩
      exact ⟨_, call_failed (by rw [hpair ha, if_pos hsome]) hperform⟩
    · exact ⟨_, call_refused ((hpair ha).trans (if_neg hsome))⟩
  · intro ha
    rcases checkArguments_of_ne hparameters hvariadic ha i with ⟨e, he⟩
    exact ⟨e, call_refused he⟩

/-- Reading an element by a command. -/
theorem Builtin.at_indexed (callee : Callee) (line : Nat)
    (hsize : ∀ id, a = .array id → s.machine.arrays.size id < Number.maxIndex) :
    Evaluation.Indexed (Builtin.arrayAt.command.call callee line [a, i]) s a i
      s.machine.arrays.size fun id n w t => s.machine.arrays.at? id n = some w ∧ t = s := by
  have harray {id : ArrayId} (ha : a = .array id) : Arguments.array [a, i] 0 = .ok id := by
    rw [ha]
    rfl
  refine Builtin.call_indexed rfl rfl (fun id ha => Nat.le_of_lt (hsize id ha)) ?_ ?_ ?_
  · intro id n ha hi hn
    have hat : s.machine.arrays.at? id n = some ((s.machine.arrays.elements id)[n]) :=
      List.getElem?_eq_getElem hn
    refine ⟨⟨_, false⟩, s, ?_, hat, rfl⟩
    simp [perform, doAt, Action.bind_run, harray ha, hi, hat]
  · intro id n ha hi hn
    have hat : s.machine.arrays.at? id n = none := List.getElem?_eq_none hn
    refine ⟨.indexOutOfRange n (s.machine.arrays.size id), ?_⟩
    simp [perform, doAt, Action.bind_run, harray ha, hi, hat]
  · intro id e ha hi
    exact ⟨e, by simp [perform, doAt, Action.bind_run, harray ha, hi]⟩

/-- Removing an element by a command. -/
theorem Builtin.erase_indexed (callee : Callee) (line : Nat)
    (hlive : ∀ id, a = .array id → id.index < s.machine.arrays.lists.size)
    (hsize : ∀ id, a = .array id → s.machine.arrays.size id < Number.maxIndex) :
    Evaluation.Indexed (Builtin.arrayErase.command.call callee line [a, i]) s a i
      s.machine.arrays.size fun id n w t =>
        w = Reply.preset ∧ s.Edits id ((s.machine.arrays.elements id).eraseIdx n) t := by
  have harray {id : ArrayId} (ha : a = .array id) : Arguments.array [a, i] 0 = .ok id := by
    rw [ha]
    rfl
  refine Builtin.call_indexed rfl rfl (fun id ha => Nat.le_of_lt (hsize id ha)) ?_ ?_ ?_
  · intro id n ha hi hn
    refine ⟨.nothing, _, ?_, rfl, Execution.edits_replace _ (hlive id ha)⟩
    simp [-bind_pure_comp, perform, doErase, Action.bind_run, harray ha, hi,
      CommandStep.updateArray, Arrays.erase?, hn, CommandStep.onMachine, Execution.onMachine]
  · intro id n ha hi hn
    refine ⟨.indexOutOfRange n (s.machine.arrays.size id), ?_⟩
    simp [-bind_pure_comp, perform, doErase, Action.bind_run, harray ha, hi,
      CommandStep.updateArray, Arrays.erase?, Nat.not_lt.2 hn]
  · intro id e ha hi
    exact ⟨e, by simp [perform, doErase, Action.bind_run, harray ha, hi]⟩

/-- Inserting an element by a command. -/
theorem Builtin.insert_indexed (callee : Callee) (line : Nat)
    (hlive : ∀ id, a = .array id → id.index < s.machine.arrays.lists.size)
    (hsize : ∀ id, a = .array id → s.machine.arrays.size id < Number.maxIndex) :
    Evaluation.Indexed (Builtin.arrayInsert.command.call callee line [a, v, i]) s a i
      (fun id => s.machine.arrays.size id + 1) fun id n w t =>
        w = Reply.preset ∧ s.Edits id ((s.machine.arrays.elements id).insertIdx n v) t := by
  have harray {id : ArrayId} (ha : a = .array id) : Arguments.array [a, v, i] 0 = .ok id := by
    rw [ha]
    rfl
  have hvalue : Arguments.value [a, v, i] 1 = .ok v := rfl
  have hcheck : checkArguments arrayInsert.signature [a, v, i] = .ok () :=
    checkArguments_variadic _ _ rfl
  have hgiven : Arguments.indexIfGiven [a, v, i] 2 = (Arguments.index [a, v, i] 2).map some := by
    cases hi : Arguments.index [a, v, i] 2 <;> simp [Arguments.indexIfGiven, hi] <;> rfl
  have hfinds : i.Finds (Arguments.index [a, v, i] 2) := Value.index_finds rfl
  refine Evaluation.indexed_of hfinds (fun id ha => hsize id ha) ?_ ?_ ?_ ?_
  · intro id n ha hi hn
    have hn' : n ≤ s.machine.arrays.size id := Nat.le_of_lt_succ hn
    suffices hperform : arrayInsert.perform callee line [a, v, i] s = .done .nothing _ from
      ⟨Reply.preset, _, call_done hcheck hperform, rfl, Execution.edits_replace _ (hlive id ha)⟩
    simp [-bind_pure_comp, perform, doInsert, Action.bind_run, harray ha, hvalue,
      hgiven, hi, Except.map, CommandStep.updateArray, Arrays.insert?, hn',
      CommandStep.onMachine, Execution.onMachine]
  · intro id n ha hi hn
    have hn' : ¬n ≤ s.machine.arrays.size id := Nat.not_le.2 hn
    refine ⟨_, call_failed (e := .indexOutOfRange n (s.machine.arrays.size id)) hcheck ?_⟩
    simp [-bind_pure_comp, perform, doInsert, Action.bind_run, harray ha, hvalue,
      hgiven, hi, Except.map, CommandStep.updateArray, Arrays.insert?, hn']
  · intro id e ha hi
    refine ⟨_, call_failed (e := e) hcheck ?_⟩
    simp [perform, doInsert, Action.bind_run, harray ha, hvalue, hgiven, hi, Except.map]
  · intro ha
    obtain ⟨e, he⟩ : ∃ e, Arguments.array [a, v, i] 0 = .error e := by
      cases a with
      | array id => exact (ha id rfl).elim
      | _ => exact ⟨_, rfl⟩
    refine ⟨_, call_failed (e := e) hcheck ?_⟩
    simp [perform, doInsert, Action.bind_run, he]

/-! ### Together -/

/-- Two operations at an index that do the same work answer alike. -/
theorem Evaluation.Indexed.same {first second : Evaluation Value} {bound : ArrayId → Nat}
    (h : first.Indexed s a i bound Work) (h' : second.Indexed s a i bound Work)
    (hwork : ∀ id n w w' t t', Work id n w t → Work id n w' t' → w = w' ∧ t = t')
    {w : Value} {t : Execution} (hdone : first s = .done w t) : second s = .done w t := by
  by_cases hinside : ∃ id n, a = .array id ∧ i.Names n ∧ n < bound id
  · rcases hinside with ⟨id, n, ha, hi, hn⟩
    rcases h.inside id n ha hi hn with ⟨w₁, t₁, hfirst, hwork₁⟩
    rcases h'.inside id n ha hi hn with ⟨w₂, t₂, hsecond, hwork₂⟩
    rw [hfirst] at hdone
    cases hdone
    rcases hwork _ _ _ _ _ _ hwork₁ hwork₂ with ⟨rfl, rfl⟩
    exact hsecond
  · rcases h.outside fun id n ha hi => Nat.not_lt.1 fun hn => hinside ⟨id, n, ha, hi, hn⟩
      with ⟨e, hfailed⟩
    rw [hfailed] at hdone
    cases hdone

end Operations

/-- What the operations on an array and an index do. -/
structure Execution.Subscripted (s : Execution) (a i v : Value)
    (read element assign erase insert : Evaluation Value) : Prop where
  /-- Reading in an expression answers with the element. -/
  reads : read.Indexed s a i s.machine.arrays.size
    fun id n w t => s.machine.arrays.at? id n = some w ∧ t = s
  /-- So does reading by a command. -/
  fetches : element.Indexed s a i s.machine.arrays.size
    fun id n w t => s.machine.arrays.at? id n = some w ∧ t = s
  /-- Both answer in the same cases, with the same value. -/
  alike : ∀ w t, read s = .done w t ↔ element s = .done w t
  /-- An assignment replaces the element, and no other. -/
  assigns : assign.Indexed s a i s.machine.arrays.size
    fun id n w t => w = v ∧ s.Edits id ((s.machine.arrays.elements id).set n v) t
  /-- A removal takes the element away; those behind it move up. -/
  erases : erase.Indexed s a i s.machine.arrays.size fun id n w t =>
    w = Reply.preset ∧ s.Edits id ((s.machine.arrays.elements id).eraseIdx n) t
  /-- An insertion puts the value in front of the element or behind all elements. -/
  inserts : insert.Indexed s a i (fun id => s.machine.arrays.size id + 1) fun id n w t =>
    w = Reply.preset ∧ s.Edits id ((s.machine.arrays.elements id).insertIdx n v) t

/-- Reading, assigning, removing and inserting at an index accept the same indices of the same
arrays: numeric readings that are natural numbers below the size, or up to it for an insertion.
Everything else is refused, with nothing changed. -/
theorem Execution.subscripts_exact {s : Execution} {a i v : Value} {base position value : Expr}
    {invoke : Invoker} (callee : Callee) (line : Nat) (hbase : base.eval invoke s = .done a s)
    (hposition : position.eval invoke s = .done i s) (hvalue : value.eval invoke s = .done v s)
    (hlive : ∀ id, a = .array id → id.index < s.machine.arrays.lists.size)
    (hsize : ∀ id, a = .array id → s.machine.arrays.size id < Number.maxIndex) :
    s.Subscripted a i v
      ((Expr.index base position).eval invoke)
      (Builtin.arrayAt.command.call callee line [a, i])
      ((Expr.assignElement base position .set value).eval invoke)
      (Builtin.arrayErase.command.call callee line [a, i])
      (Builtin.arrayInsert.command.call callee line [a, v, i]) := by
  have hread := Expr.index_indexed hbase hposition hsize
  have helement := Builtin.at_indexed (i := i) callee line hsize
  have hwork (id : ArrayId) (n : Nat) (w w' : Value) (t t' : Execution)
      (h : s.machine.arrays.at? id n = some w ∧ t = s)
      (h' : s.machine.arrays.at? id n = some w' ∧ t' = s) : w = w' ∧ t = t' :=
    ⟨Option.some.inj (h.1.symm.trans h'.1), h.2.trans h'.2.symm⟩
  exact
    { reads := hread
      fetches := helement
      alike := fun w t => ⟨hread.same helement hwork, helement.same hread hwork⟩
      assigns := Expr.assignElement_indexed hbase hposition hvalue hlive hsize
      erases := Builtin.erase_indexed callee line hlive hsize
      inserts := Builtin.insert_indexed callee line hlive hsize }

/-- An array with one element and a string that reads as zero. -/
theorem Execution.subscripts_exact_casting :
    Builtin.holding.Subscripted (.array ⟨0⟩) (.text "0") (.reference 7)
      ((Expr.index (.slot 0) (.text "0")).eval (invoke (Machine.callee 1) 3))
      (Builtin.arrayAt.command.call (Machine.callee 1) 3 [.array ⟨0⟩, .text "0"])
      ((Expr.assignElement (.slot 0) (.text "0") .set (.reference 7)).eval
        (invoke (Machine.callee 1) 3))
      (Builtin.arrayErase.command.call (Machine.callee 1) 3 [.array ⟨0⟩, .text "0"])
      (Builtin.arrayInsert.command.call (Machine.callee 1) 3
        [.array ⟨0⟩, .reference 7, .text "0"]) :=
  subscripts_exact (Machine.callee 1) 3 rfl rfl rfl
    (fun _ h => by rw [← Value.array.inj h]; decide)
    (fun _ h => by rw [← Value.array.inj h]; decide)

end ScriptMachine
