import Mathlib.Data.List.Forall2
import Mathlib.Order.Basic
import ScriptMachine.Globals
import ScriptMachine.Machine.Operator

/-!
# Paired arrays

Two machines that do the same need not number their arrays alike.  A pairing says which arrays of
the one stand for which arrays of the other.  Values are alike when they are the same number,
reference or text, or paired arrays, and paired arrays have elements that are alike.  Alike values
look the same, are equal to the same values and give the same results.

Main results:

- {lit}`Value.Like`: values that are alike under a pairing.
- {lit}`Arrays.Paired`: a pairing is one-to-one, and paired arrays have elements that are alike.
- {lit}`Pairing.Grows`: a pairing goes on, and arrays outside of it stay as they are.
- {lit}`Arrays.Paired.snapshot_eq` and {lit}`Arrays.Paired.apply_rel`: alike values look the same
  and are combined to alike values.
- {lit}`Arrays.Paired.create` and {lit}`Arrays.Paired.replace`: what is done to paired arrays alike
  keeps them paired.
-/

namespace ScriptMachine

/-! ## Lists side by side -/

section Lists

variable {α β : Type} {R : α → β → Prop} {xs : List α} {ys : List β} {x : α} {y : β}

/-- What stands at a position of related lists is related. -/
theorem forall₂_getElem? (h : List.Forall₂ R xs ys) (i : Nat) : Option.Rel R xs[i]? ys[i]? := by
  induction h generalizing i with
  | nil => exact .none
  | cons hhead _ ih =>
    cases i with
    | zero => exact .some hhead
    | succ i => exact ih i

/-- Related lists with related elements put at a position. -/
theorem forall₂_set (h : List.Forall₂ R xs ys) (i : Nat) (hnew : R x y) :
    List.Forall₂ R (xs.set i x) (ys.set i y) := by
  induction h generalizing i with
  | nil => exact .nil
  | cons hhead htail ih =>
    cases i with
    | zero => exact .cons hnew htail
    | succ i => exact .cons hhead (ih i)

/-- Related lists with related elements inserted at a position. -/
theorem forall₂_insertIdx (h : List.Forall₂ R xs ys) (i : Nat) (hnew : R x y) :
    List.Forall₂ R (xs.insertIdx i x) (ys.insertIdx i y) := by
  induction h generalizing i with
  | nil =>
    cases i with
    | zero => exact .cons hnew .nil
    | succ i => exact .nil
  | cons hhead htail ih =>
    cases i with
    | zero => exact .cons hnew (.cons hhead htail)
    | succ i => exact .cons hhead (ih i)

/-- Related lists without what stands at a position. -/
theorem forall₂_eraseIdx (h : List.Forall₂ R xs ys) (i : Nat) :
    List.Forall₂ R (xs.eraseIdx i) (ys.eraseIdx i) := by
  induction h generalizing i with
  | nil => exact .nil
  | cons hhead htail ih =>
    cases i with
    | zero => exact htail
    | succ i => exact .cons hhead (ih i)

end Lists

/-! ## Results side by side -/

/-- Both results are errors, and the same one, or both are values that are related. -/
inductive ExceptRel {ε α β : Type} (R : α → β → Prop) : Except ε α → Except ε β → Prop where
  | ok {x : α} {y : β} (h : R x y) : ExceptRel R (.ok x) (.ok y)
  | error {e : ε} : ExceptRel R (.error e) (.error e)

/-- Related results are used in related ways. -/
theorem ExceptRel.bind {ε α β γ δ : Type} {R : α → β → Prop} {S : γ → δ → Prop} {a : Except ε α}
    {b : Except ε β} {f : α → Except ε γ} {g : β → Except ε δ} (h : ExceptRel R a b)
    (hnext : ∀ x y, R x y → ExceptRel S (f x) (g y)) : ExceptRel S (a >>= f) (b >>= g) := by
  cases h with
  | ok h => exact hnext _ _ h
  | error => exact .error

/-- The same result is used in related ways. -/
theorem ExceptRel.bind_self {ε α γ δ : Type} {S : γ → δ → Prop} (a : Except ε α)
    {f : α → Except ε γ} {g : α → Except ε δ} (hnext : ∀ x, ExceptRel S (f x) (g x)) :
    ExceptRel S (a >>= f) (a >>= g) := by
  cases a with
  | ok x => exact hnext x
  | error e => exact .error

/-- Which arrays of one machine stand for which arrays of another one. -/
abbrev Pairing : Type := ArrayId → ArrayId → Prop

/-! ## Alike values -/

/-- The same value, apart from which arrays stand for which. -/
inductive Value.Like (π : Pairing) : Value → Value → Prop where
  | plain {v : Value} (h : v.array? = none) : Like π v v
  | array {i j : ArrayId} (h : π i j) : Like π (.array i) (.array j)

namespace Value.Like

variable {π π' : Pairing} {v w v' w' : Value}

/-- A pairing with more arrays. -/
theorem mono (h : v.Like π w) (hle : π ≤ π') : v.Like π' w := by
  cases h with
  | plain hplain => exact .plain hplain
  | array hpaired => exact .array (hle _ _ hpaired)

/-- Alike values have one type. -/
theorem dataType_eq (h : v.Like π w) : v.dataType = w.dataType := by
  cases h <;> rfl

/-- Alike values have one numeric reading. -/
theorem number?_eq (h : v.Like π w) : v.number? = w.number? := by
  cases h <;> rfl

/-- Alike values have one text. -/
theorem text?_eq (h : v.Like π w) : v.text? = w.text? := by
  cases h <;> rfl

/-- Alike values have one reading as a condition. -/
theorem truth?_eq (h : v.Like π w) : v.truth? = w.truth? := by
  unfold Value.truth?
  rw [h.number?_eq]

/-- Alike values are the same operand of an operator on numbers. -/
theorem numeric_eq (h : v.Like π w) (symbol : String) : v.numeric symbol = w.numeric symbol := by
  unfold Value.numeric
  rw [h.number?_eq, h.dataType_eq]

/-- Alike values are the same operand of a logical operator. -/
theorem condition_eq (h : v.Like π w) : v.condition = w.condition := by
  unfold Value.condition
  rw [h.truth?_eq, h.dataType_eq]

/-- Alike values name one position. -/
theorem position_eq (h : v.Like π w) : v.position = w.position := by
  unfold Value.position
  rw [h.numeric_eq]

/-- Alike values name paired arrays, or no arrays. -/
theorem indexable_rel (h : v.Like π w) : ExceptRel π v.indexable w.indexable := by
  cases h with
  | plain hplain =>
    unfold Value.indexable
    rw [hplain]
    exact .error
  | array hpaired => exact .ok hpaired

/-- Alike values are ordered alike. -/
theorem ordered_rel (h : v.Like π w) (h' : v'.Like π w') (symbol : String)
    (texts : String → String → Bool) (numbers : Float → Float → Bool) :
    ExceptRel (Value.Like π) (v.ordered symbol texts numbers v')
      (w.ordered symbol texts numbers w') := by
  have hsame : v.ordered symbol texts numbers v' = w.ordered symbol texts numbers w' := by
    cases h with
    | plain _ =>
      cases h' with
      | plain _ => rfl
      | array _ => cases v <;> rfl
    | array _ => cases h' <;> rfl
  rw [hsame]
  unfold Value.ordered
  split
  · exact .ok (.plain rfl)
  · exact .bind_self _ fun _ => .bind_self _ fun _ => .ok (.plain rfl)

/-- Alike values are computed with alike. -/
theorem arithmetic_rel (h : v.Like π w) (h' : v'.Like π w') (symbol : String)
    (compute : Float → Float → Except RuntimeCause Float) :
    ExceptRel (Value.Like π) (v.arithmetic symbol compute v') (w.arithmetic symbol compute w') := by
  unfold Value.arithmetic
  rw [h.numeric_eq, h'.numeric_eq]
  exact .bind_self _ fun _ => .bind_self _ fun _ => .bind_self _ fun _ => .ok (.plain rfl)

/-- A unary operator gives one number. -/
theorem apply_rel (h : v.Like π w) (op : UnaryOp) :
    ExceptRel (Value.Like π) (op.apply v) (op.apply w) := by
  cases op with
  | negate =>
    unfold UnaryOp.apply
    rw [h.numeric_eq]
    exact .bind_self _ fun _ => .ok (.plain rfl)
  | not =>
    unfold UnaryOp.apply
    rw [h.condition_eq]
    exact .bind_self _ fun _ => .ok (.plain rfl)

end Value.Like

/-! ## Paired arrays -/

/-- A pairing is one-to-one among the arrays that there are, and paired arrays have elements that
are alike. -/
structure Arrays.Paired (π : Pairing) (s t : Arrays) : Prop where
  exist : ∀ {i j}, π i j → i.index < s.lists.size ∧ j.index < t.lists.size
  unique : ∀ {i j i' j'}, π i j → π i' j' → (i = i' ↔ j = j')
  elements : ∀ {i j}, π i j → List.Forall₂ (Value.Like π) (s.elements i) (t.elements j)

namespace Arrays.Paired

variable {π : Pairing} {s t : Arrays} {v w v' w' : Value} {i j : ArrayId}

/-! ## Reading -/

/-- Paired arrays have one size. -/
theorem size_eq (h : s.Paired π t) (hpaired : π i j) : s.size i = t.size j :=
  (h.elements hpaired).length_eq

/-- Paired arrays have alike elements at each position. -/
theorem at?_rel (h : s.Paired π t) (hpaired : π i j) (position : Nat) :
    Option.Rel (Value.Like π) (s.at? i position) (t.at? j position) :=
  forall₂_getElem? (h.elements hpaired) position

/-- The elements at a position are alike, or there are none. -/
theorem elementAt_rel (h : s.Paired π t) (hpaired : π i j) (position : Nat) :
    ExceptRel (Value.Like π) (Value.elementAt s i position) (Value.elementAt t j position) := by
  have helement := h.at?_rel hpaired position
  unfold Value.elementAt
  rw [h.size_eq hpaired]
  generalize s.at? i position = found at helement ⊢
  generalize t.at? j position = found' at helement ⊢
  cases helement with
  | none => exact .error
  | some hlike => exact .ok hlike

/-- Alike values have alike elements. -/
theorem element_rel (h : s.Paired π t) (hv : v.Like π w) (hv' : v'.Like π w') :
    ExceptRel (Value.Like π) (v.element s v') (w.element t w') := by
  unfold Value.element
  rw [hv'.position_eq]
  refine hv.indexable_rel.bind fun i j hpaired => ?_
  exact .bind_self _ fun position => h.elementAt_rel hpaired position

/-- Alike values look the same. -/
theorem snapshot_eq (h : s.Paired π t) (hlike : v.Like π w) : s.snapshot v = t.snapshot w := by
  unfold snapshot
  generalize maxDepth = depth
  induction depth generalizing v w with
  | zero =>
    cases hlike with
    | plain hplain =>
      cases v with
      | array id => cases hplain
      | _ => rfl
    | array hpaired => rfl
  | succ depth ih =>
    cases hlike with
    | plain hplain =>
      cases v with
      | array id => cases hplain
      | _ => rfl
    | array hpaired =>
      have helements := (h.elements hpaired).imp fun _ _ hlike => ih hlike
      rw [← List.forall₂_map_right_iff, ← List.forall₂_map_left_iff] at helements
      rw [List.forall₂_eq_eq_eq] at helements
      exact congrArg Snapshot.array helements

/-- Alike values are equal to alike values. -/
theorem equal_eq (h : s.Paired π t) (hv : v.Like π w) (hv' : v'.Like π w') :
    v.equal v' = w.equal w' := by
  cases hv with
  | plain hplain =>
    cases hv' with
    | plain _ => rfl
    | array _ =>
      cases v with
      | array id => cases hplain
      | _ => rfl
  | array hpaired =>
    cases hv' with
    | plain hplain =>
      cases v' with
      | array id => cases hplain
      | _ => rfl
    | array hpaired' =>
      have hunique := h.unique hpaired hpaired'
      simpa [Value.equal, beq_eq_beq] using hunique

/-! ## Operators -/

/-- A sum depends on the readings of its operands and on what they look like. -/
theorem add_eq_readings (s : Arrays) (l r : Value) :
    l.add s r =
      match l.text?, r.text? with
      | some a, some b => .ok (.text (a ++ b))
      | _, _ =>
        match l.number?, r.number? with
        | some x, some y => .ok (.number (x + y))
        | _, _ =>
          if l.dataType = .string ∨ r.dataType = .string then
            .ok (.text ((s.snapshot l).toText ++ (s.snapshot r).toText))
          else .error (.cannotCombine l.dataType r.dataType) := by
  cases l <;> cases r <;> rfl

/-- Alike values are added to the same value, which is no array. -/
theorem add_rel (h : s.Paired π t) (hv : v.Like π w) (hv' : v'.Like π w') :
    ExceptRel (Value.Like π) (v.add s v') (w.add t w') := by
  rw [add_eq_readings, add_eq_readings, hv.text?_eq, hv'.text?_eq, hv.number?_eq, hv'.number?_eq,
    hv.dataType_eq, hv'.dataType_eq, h.snapshot_eq hv, h.snapshot_eq hv']
  split
  · exact .ok (.plain rfl)
  · split
    · exact .ok (.plain rfl)
    · split
      · exact .ok (.plain rfl)
      · exact .error

/-- Alike values are combined to the same value, which is no array. -/
theorem apply_rel (h : s.Paired π t) (hv : v.Like π w) (hv' : v'.Like π w') (op : BinaryOp) :
    ExceptRel (Value.Like π) (op.apply s v v') (op.apply t w w') := by
  unfold BinaryOp.apply
  cases op with
  | equal | notEqual =>
    simp only [h.equal_eq hv hv']
    exact .ok (.plain rfl)
  | or | and =>
    simp only [hv.condition_eq, hv'.condition_eq]
    refine .bind_self _ fun b => ?_
    cases b with
    | true => first | exact .ok (.plain rfl) | exact .bind_self _ fun _ => .ok (.plain rfl)
    | false => first | exact .ok (.plain rfl) | exact .bind_self _ fun _ => .ok (.plain rfl)
  | add => exact h.add_rel hv hv'
  | less | lessEqual | greater | greaterEqual => exact hv.ordered_rel hv' _ _ _
  | subtract | multiply | divide | remainder => exact hv.arithmetic_rel hv' _ _

end Arrays.Paired

/-! ## Pairings that go on -/

/-- A pairing goes on: it keeps its pairs and gets none of older arrays, and arrays outside of it
stay as they are. -/
structure Pairing.Grows (π π' : Pairing) (s t s' t' : Arrays) : Prop where
  le : π ≤ π'
  fresh : ∀ {i j}, π' i j → π i j ∨ (s.lists.size ≤ i.index ∧ t.lists.size ≤ j.index)
  left_size : s.lists.size ≤ s'.lists.size
  right_size : t.lists.size ≤ t'.lists.size
  left : ∀ i : ArrayId, i.index < s.lists.size → (∀ j, ¬π i j) → s'.elements i = s.elements i
  right : ∀ j : ArrayId, j.index < t.lists.size → (∀ i, ¬π i j) → t'.elements j = t.elements j

/-- A pairing and one more pair. -/
def Pairing.insert (π : Pairing) (i j : ArrayId) : Pairing :=
  fun k l => π k l ∨ (k = i ∧ l = j)

namespace Pairing.Grows

variable {π π' : Pairing} {s t s' t' : Arrays}

/-- Nothing happens. -/
theorem refl (π : Pairing) (s t : Arrays) : π.Grows π s t s t :=
  ⟨le_refl π, .inl, Nat.le_refl _, Nat.le_refl _, fun _ _ _ => rfl, fun _ _ _ => rfl⟩

/-- New arrays are paired. -/
theorem create (h : π.Grows π' s t s' t') (xs ys : List Value) :
    π.Grows (π'.insert (s'.create xs).1 (t'.create ys).1) s t (s'.create xs).2 (t'.create ys).2 where
  le := fun i j hpaired => .inl (h.le i j hpaired)
  fresh := by
    rintro i j (hbefore | ⟨rfl, rfl⟩)
    · exact h.fresh hbefore
    · exact .inr ⟨h.left_size, h.right_size⟩
  left_size := by simpa [Arrays.create] using Nat.le_succ_of_le h.left_size
  right_size := by simpa [Arrays.create] using Nat.le_succ_of_le h.right_size
  left := by
    intro i hlt hout
    rw [Arrays.elements_create_of_lt xs (Nat.lt_of_lt_of_le hlt h.left_size), h.left i hlt hout]
  right := by
    intro j hlt hout
    rw [Arrays.elements_create_of_lt ys (Nat.lt_of_lt_of_le hlt h.right_size), h.right j hlt hout]

/-- Paired arrays get new elements. -/
theorem replace (h : π.Grows π' s t s' t') {i j : ArrayId} (hpaired : π' i j)
    (xs ys : List Value) : π.Grows π' s t (s'.replace i xs) (t'.replace j ys) where
  le := h.le
  fresh := h.fresh
  left_size := by simpa using h.left_size
  right_size := by simpa using h.right_size
  left := by
    intro k hlt hout
    have hne : k ≠ i := by
      rintro rfl
      rcases h.fresh hpaired with hbefore | hfresh
      · exact hout j hbefore
      · exact absurd hlt (Nat.not_lt_of_le hfresh.1)
    rw [Arrays.elements_replace_ne _ _ _ _ hne, h.left k hlt hout]
  right := by
    intro k hlt hout
    have hne : k ≠ j := by
      rintro rfl
      rcases h.fresh hpaired with hbefore | hfresh
      · exact hout i hbefore
      · exact absurd hlt (Nat.not_lt_of_le hfresh.2)
    rw [Arrays.elements_replace_ne _ _ _ _ hne, h.right k hlt hout]

end Pairing.Grows

namespace Arrays.Paired

variable {π : Pairing} {s t : Arrays} {i j : ArrayId} {xs ys : List Value}

/-- New arrays with alike elements are paired. -/
theorem create (h : s.Paired π t) (hnew : List.Forall₂ (Value.Like π) xs ys) :
    (s.create xs).2.Paired (π.insert (s.create xs).1 (t.create ys).1) (t.create ys).2 := by
  have hle : π ≤ π.insert (s.create xs).1 (t.create ys).1 := fun _ _ => .inl
  have hgrown : ∀ {k l}, π k l → k ≠ (s.create xs).1 ∧ l ≠ (t.create ys).1 := by
    intro k l hpaired
    have hlt := h.exist hpaired
    refine ⟨?_, ?_⟩ <;> rintro rfl
    · exact Nat.lt_irrefl _ hlt.1
    · exact Nat.lt_irrefl _ hlt.2
  refine ⟨?_, ?_, ?_⟩
  · rintro k l (hpaired | ⟨rfl, rfl⟩)
    · have hlt := h.exist hpaired
      simp only [Arrays.create, Array.size_push]
      exact ⟨Nat.lt_succ_of_lt hlt.1, Nat.lt_succ_of_lt hlt.2⟩
    · simp [Arrays.create]
  · rintro k l k' l' (hpaired | ⟨rfl, rfl⟩) (hpaired' | ⟨rfl, rfl⟩)
    · exact h.unique hpaired hpaired'
    · exact iff_of_false (hgrown hpaired).1 (hgrown hpaired).2
    · exact iff_of_false (hgrown hpaired').1.symm (hgrown hpaired').2.symm
    · exact iff_of_true rfl rfl
  · rintro k l (hpaired | ⟨rfl, rfl⟩)
    · have hlt := h.exist hpaired
      rw [elements_create_of_lt xs hlt.1, elements_create_of_lt ys hlt.2]
      exact (h.elements hpaired).imp fun _ _ hlike => hlike.mono hle
    · rw [elements_create, elements_create]
      exact hnew.imp fun _ _ hlike => hlike.mono hle

/-- Paired arrays with new elements that are alike stay paired. -/
theorem replace (h : s.Paired π t) (hpaired : π i j) (hnew : List.Forall₂ (Value.Like π) xs ys) :
    (s.replace i xs).Paired π (t.replace j ys) where
  exist := by
    intro k l hother
    simpa using h.exist hother
  unique := h.unique
  elements := by
    intro k l hother
    have hlt := h.exist hpaired
    have hunique := h.unique hother hpaired
    by_cases hk : k = i
    · have hl := hunique.1 hk
      subst hk hl
      rw [elements_replace _ _ _ hlt.1, elements_replace _ _ _ hlt.2]
      exact hnew
    · have hl : l ≠ j := fun hl => hk (hunique.2 hl)
      rw [elements_replace_ne _ _ _ _ hk, elements_replace_ne _ _ _ _ hl]
      exact h.elements hother

/-! ## Edits -/

/-- A pair of arrays has got elements that are alike. -/
def Edited (π : Pairing) (s t : Arrays) (i j : ArrayId) (s' t' : Arrays) : Prop :=
  ∃ xs ys, List.Forall₂ (Value.Like π) xs ys ∧ s' = s.replace i xs ∧ t' = t.replace j ys

variable {v w : Value} {position : Nat}

/-- Alike elements are appended. -/
theorem push_edited (h : s.Paired π t) (hpaired : π i j) (hv : v.Like π w) :
    Edited π s t i j (s.push i v) (t.push j w) :=
  ⟨_, _, List.rel_append (h.elements hpaired) (.cons hv .nil), rfl, rfl⟩

/-- Alike elements are inserted, or none is. -/
theorem insert?_edited (h : s.Paired π t) (hpaired : π i j) (hv : v.Like π w) :
    Option.Rel (Edited π s t i j) (s.insert? i v position) (t.insert? j w position) := by
  unfold Arrays.insert?
  rw [h.size_eq hpaired]
  split
  · exact .some ⟨_, _, forall₂_insertIdx (h.elements hpaired) position hv, rfl, rfl⟩
  · exact .none

/-- Elements at one position are removed, or none is. -/
theorem erase?_edited (h : s.Paired π t) (hpaired : π i j) :
    Option.Rel (Edited π s t i j) (s.erase? i position) (t.erase? j position) := by
  unfold Arrays.erase?
  rw [h.size_eq hpaired]
  split
  · exact .some ⟨_, _, forall₂_eraseIdx (h.elements hpaired) position, rfl, rfl⟩
  · exact .none

/-- Elements at one position are replaced by alike ones, or none is. -/
theorem set?_edited (h : s.Paired π t) (hpaired : π i j) (position : Nat) (hv : v.Like π w) :
    Option.Rel (Edited π s t i j) (s.set? i position v) (t.set? j position w) := by
  unfold Arrays.set?
  rw [h.size_eq hpaired]
  split
  · exact .some ⟨_, _, forall₂_set (h.elements hpaired) position hv, rfl, rfl⟩
  · exact .none

/-- Every element is removed. -/
theorem clear_edited : Edited π s t i j (s.clear i) (t.clear j) :=
  ⟨[], [], .nil, rfl, rfl⟩

end Arrays.Paired
end ScriptMachine
