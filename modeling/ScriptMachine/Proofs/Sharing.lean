import Mathlib.Data.List.Perm.Basic
import ScriptMachine.Proofs.Counting
import ScriptMachine.Proofs.Reaching

/-!
# Shared arrays

In a plain model of holders an array is an identity with one list: nothing is counted and nothing is
freed.  Holders with counts and the plain model tell and show the same.  An edit through one holder
changes the list of one identity, so that it is seen wherever that identity is held, and nothing
else; storing and dropping change no list.

Main results:

- {lit}`PlainHolders.perform`: the plain model.
- {lit}`MirrorInvariant`: what every change of counted and plain arrays side by side keeps.
- {lit}`Holders.perform_preserves`: a step tells the same in both and keeps such an invariant.
- {lit}`Holders.perform_effect`: what a step does to the names and to the lists.
- {lit}`Holders.run_shared`: any sequence of steps is told and shown as in the plain model.
-/

namespace ScriptMachine

/-! ## Steps -/

namespace HolderStep

/-- The draft of the value that a step hands over. -/
def draft : HolderStep → Draft
  | .store _ draft | .insert _ _ draft | .push _ draft | .replace _ _ draft | .compare _ draft =>
    draft
  | .drop _ | .erase _ _ | .clear _ => .invalid

/-- The name that a step puts a value under or forgets. -/
def names? : HolderStep → Option String
  | .store name _ | .drop name => some name
  | _ => none

/-- The name whose array a step edits. -/
def edits? : HolderStep → Option String
  | .insert name _ _ | .push name _ | .erase name _ | .replace name _ _ | .clear name => some name
  | _ => none

/-- What becomes of the elements that a step edits with a value; nothing when the position is out
of range. -/
def edit? (v : Value) (elements : List Value) : HolderStep → Option (List Value)
  | .insert _ position _ =>
    if position ≤ elements.length then some (elements.insertIdx position v) else none
  | .push _ _ => some (elements ++ [v])
  | .erase _ position =>
    if position < elements.length then some (elements.eraseIdx position) else none
  | .replace _ position _ =>
    if position < elements.length then some (elements.set position v) else none
  | .clear _ => some []
  | .store _ _ | .drop _ | .compare _ _ => some elements

end HolderStep

/-! ## The plain model -/

/-- Values by name, with one list for each array. -/
structure PlainHolders where
  names : Names Value
  arrays : Arrays

namespace PlainHolders

/-- Nothing is held. -/
def empty : PlainHolders := ⟨.empty, .empty⟩

/-- The value under a name; an unknown name holds the invalid value. -/
def value (holders : PlainHolders) (name : String) : Value :=
  (holders.names.get? name).getD .invalid

/-- The elements of the array under a name; none without an array. -/
def elements (holders : PlainHolders) (name : String) : List Value :=
  match (holders.value name).array? with
  | some id => holders.arrays.elements id
  | none => []

/-- Gives an array the elements that an edit makes of the ones it has, if it makes any. -/
def edit (holders : PlainHolders) (id : ArrayId) (edit? : List Value → Option (List Value)) :
    HolderAnswer × PlainHolders :=
  match edit? (holders.arrays.elements id) with
  | some elements =>
    (.edited true elements.length, { holders with arrays := holders.arrays.replace id elements })
  | none => (.edited false (holders.arrays.size id), holders)

/-- The array under a name, or a new one that no name holds. -/
def arrayOf (holders : PlainHolders) (name : String) : ArrayId × PlainHolders :=
  match (holders.value name).array? with
  | some id => (id, holders)
  | none =>
    let (id, arrays) := holders.arrays.create []
    (id, { holders with arrays := arrays })

/-- The answer to a step. -/
def perform (holders : PlainHolders) (step : HolderStep) : HolderAnswer × PlainHolders :=
  let (v, arrays) := step.draft.make holders.value holders.arrays
  let holders := { holders with arrays := arrays }
  match step with
  | .store name _ => (.stored, { holders with names := holders.names.set name v })
  | .drop name =>
    (.dropped (holders.names.get? name).isSome, { holders with names := holders.names.drop name })
  | .compare name _ => (.equal ((holders.value name).equal v), holders)
  | .insert name _ _ | .push name _ | .erase name _ | .replace name _ _ | .clear name =>
    let (id, holders) := holders.arrayOf name
    holders.edit id fun elements => step.edit? v elements

/-- The answers to steps, one after the other. -/
def run (holders : PlainHolders) : List HolderStep → List HolderAnswer × PlainHolders
  | [] => ([], holders)
  | step :: rest =>
    let (answer, holders) := holders.perform step
    let (answers, holders) := holders.run rest
    (answer :: answers, holders)

end PlainHolders

/-! ## Counted and plain arrays -/

/-- Counted arrays stand for plain ones: the counts are right, and what is held has the elements
that it has in the plain model. -/
structure Mirrors (owners : List Value) (counted : CountedArrays) (arrays : Arrays) : Prop where
  balanced : counted.Balanced owners
  size : counted.arrays.lists.size = arrays.lists.size
  elements : ∀ id, 0 < counted.count id → counted.arrays.elements id = arrays.elements id

namespace Mirrors

variable {owners : List Value} {counted : CountedArrays} {arrays : Arrays}

/-- The order of the owners does not matter. -/
theorem perm (h : Mirrors owners counted arrays) {others : List Value}
    (hperm : owners.Perm others) : Mirrors others counted arrays :=
  ⟨h.balanced.perm hperm, h.size, h.elements⟩

/-- One more holder of a value that is held. -/
theorem retain (h : Mirrors owners counted arrays) {v : Value}
    (hv : ∀ id, v.array? = some id → 0 < counted.count id) :
    Mirrors (v :: owners) (counted.retain v) arrays := by
  have hbalanced := h.balanced.retain hv
  unfold CountedArrays.retain at hbalanced ⊢
  cases harray : v.array? with
  | none =>
    rw [harray] at hbalanced
    exact ⟨hbalanced, h.size, h.elements⟩
  | some held =>
    rw [harray] at hbalanced
    refine ⟨hbalanced, h.size, fun id hid => h.elements id ?_⟩
    by_cases hsame : id = held
    · rw [hsame]
      exact hv held harray
    · rw [CountedArrays.count_setCount, if_neg fun hboth => hsame hboth.1] at hid
      exact hid

/-- A new array is the same in both. -/
theorem create {elements : List Value} (h : Mirrors (elements ++ owners) counted arrays) :
    (counted.create elements).1 = (arrays.create elements).1 ∧
      Mirrors (.array (counted.create elements).1 :: owners) (counted.create elements).2
        (arrays.create elements).2 := by
  refine ⟨congrArg ArrayId.mk h.size, h.balanced.create, ?_, fun id hid => ?_⟩
  · simp [CountedArrays.create, Arrays.create, h.size]
  · show (counted.arrays.create elements).2.elements id = _
    by_cases hlt : id.index < counted.arrays.lists.size
    · rw [Arrays.elements_create_of_lt elements hlt,
        Arrays.elements_create_of_lt elements (h.size ▸ hlt)]
      refine h.elements id ?_
      have hne : id.index ≠ counted.counts.size := h.balanced.size ▸ Nat.ne_of_lt hlt
      rwa [CountedArrays.count_create, if_neg hne] at hid
    · have hsize := h.balanced.create.lt_of_count hid
      have hlast : id.index = counted.arrays.lists.size := by
        have hpush : (counted.create elements).2.arrays.lists.size =
            counted.arrays.lists.size + 1 := by
          simp [CountedArrays.create, Arrays.create]
        omega
      have hnew : id = (counted.arrays.create elements).1 := by
        cases id
        exact congrArg ArrayId.mk hlast
      have hsame : (counted.arrays.create elements).1 = (arrays.create elements).1 :=
        congrArg ArrayId.mk h.size
      rw [hnew, Arrays.elements_create, hsame, Arrays.elements_create]

/-- Letting go of values frees nothing that is still held. -/
theorem release {values : List Value} (h : Mirrors (values ++ owners) counted arrays) :
    Mirrors owners (counted.release values) arrays where
  balanced := h.balanced.release
  size := (counted.size_release values).trans h.size
  elements := fun id hid => by
    rw [CountedArrays.elements_release h.balanced hid]
    exact h.elements id (Nat.lt_of_lt_of_le hid (counted.count_release_le values id))

/-- An array that is held gets the same new elements in both. -/
theorem replace {id : ArrayId} {handed left list : List Value}
    (h : Mirrors (handed ++ owners) counted arrays) (hid : 0 < counted.count id)
    (hlist : ∀ other, occurrences other list + occurrences other left =
      occurrences other (counted.arrays.elements id) + occurrences other handed) :
    Mirrors (left ++ owners) { counted with arrays := counted.arrays.replace id list }
      (arrays.replace id list) where
  balanced := h.balanced.replace hid hlist
  size := by simpa using h.size
  elements := fun other hother => by
    have hlt := h.balanced.lt_of_count hid
    show (counted.arrays.replace id list).elements other = _
    by_cases hsame : other = id
    · rw [hsame, Arrays.elements_replace _ _ _ hlt, Arrays.elements_replace _ _ _ (h.size ▸ hlt)]
    · rw [Arrays.elements_replace_ne _ _ _ _ hsame, Arrays.elements_replace_ne _ _ _ _ hsame]
      exact h.elements other hother

/-- What is read back from a value that is held is the same in both, and is held. -/
theorem readBack (h : Mirrors owners counted arrays) {v : Value} (position : Nat)
    (hv : ∀ id, v.array? = some id → 0 < counted.count id) :
    counted.arrays.readBack v position = arrays.readBack v position ∧
      ∀ id, (counted.arrays.readBack v position).array? = some id → 0 < counted.count id := by
  unfold Arrays.readBack
  cases harray : v.array? with
  | none => exact ⟨rfl, fun id hid => by cases hid⟩
  | some holder =>
    simp only [Option.bind_some, Arrays.at?]
    refine ⟨by rw [h.elements holder (hv holder harray)], fun id hid => ?_⟩
    cases hfound : (counted.arrays.elements holder)[position]? with
    | none =>
      rw [hfound] at hid
      cases hid
    | some element =>
      rw [hfound] at hid
      exact h.balanced.count_of_slot (List.mem_of_getElem? hfound) hid

end Mirrors

/-! ## Invariants -/

/-- An invariant of counted and plain arrays that stand for each other, with the values that are
held outside of arrays.  Every change of the two side by side keeps it. -/
structure MirrorInvariant (I : List Value → CountedArrays → Arrays → Prop) : Prop where
  mirrors : ∀ {owners counted arrays}, I owners counted arrays → Mirrors owners counted arrays
  perm : ∀ {owners others counted arrays}, I owners counted arrays → owners.Perm others →
    I others counted arrays
  retain : ∀ {owners counted arrays} {v : Value}, I owners counted arrays →
    (∀ id, v.array? = some id → 0 < counted.count id) → I (v :: owners) (counted.retain v) arrays
  create : ∀ {owners elements counted arrays}, I (elements ++ owners) counted arrays →
    I (.array (counted.create elements).1 :: owners) (counted.create elements).2
      (arrays.create elements).2
  release : ∀ {owners values counted arrays}, I (values ++ owners) counted arrays →
    I owners (counted.release values) arrays
  replace : ∀ {owners counted arrays} {id : ArrayId} {handed left list : List Value},
    I (handed ++ owners) counted arrays → 0 < counted.count id →
    (∀ other, occurrences other list + occurrences other left =
      occurrences other (counted.arrays.elements id) + occurrences other handed) →
    I (left ++ owners) { counted with arrays := counted.arrays.replace id list }
      (arrays.replace id list)

/-- Standing for plain arrays is such an invariant. -/
theorem mirrors_invariant : MirrorInvariant Mirrors where
  mirrors := id
  perm := fun h hperm => h.perm hperm
  retain := fun h hv => h.retain hv
  create := fun h => h.create.2
  release := Mirrors.release
  replace := Mirrors.replace

/-! ## Making values -/

section Make

variable {held : String → Value} {I : List Value → CountedArrays → Arrays → Prop}

mutual

/-- A draft makes the same value in both, with one more holder. -/
theorem Draft.make_preserves (hI : MirrorInvariant I) : (draft : Draft) → {owners : List Value} →
    {counted : CountedArrays} → {arrays : Arrays} → I owners counted arrays →
    (∀ name id, (held name).array? = some id → held name ∈ owners) →
    (draft.makeCounted held counted).1 = (draft.make held arrays).1 ∧
      I ((draft.make held arrays).1 :: owners) (draft.makeCounted held counted).2
        (draft.make held arrays).2
  | .invalid, _, _, _, h, _ => ⟨rfl, hI.retain (v := .invalid) h fun _ hid => by cases hid⟩
  | .number x, _, _, _, h, _ => ⟨rfl, hI.retain (v := .number x) h fun _ hid => by cases hid⟩
  | .reference handle, _, _, _, h, _ =>
    ⟨rfl, hI.retain (v := .reference handle) h fun _ hid => by cases hid⟩
  | .text s, _, _, _, h, _ => ⟨rfl, hI.retain (v := .text s) h fun _ hid => by cases hid⟩
  | .held name, _, _, _, h, hheld =>
    ⟨rfl, hI.retain h fun id hid => (hI.mirrors h).balanced.count_of_mem (hheld name id hid) hid⟩
  | .element name position, _, _, _, h, hheld => by
    have hread := (hI.mirrors h).readBack position fun id hid =>
      (hI.mirrors h).balanced.count_of_mem (hheld name id hid) hid
    refine ⟨hread.1, ?_⟩
    have hretained := hI.retain h hread.2
    rw [hread.1] at hretained
    simpa only [Draft.makeCounted, Draft.make, hread.1] using hretained
  | .array elements, _, _, _, h, hheld => by
    rcases makeAll_preserves hI elements h hheld with ⟨hvalues, hmade⟩
    have hid := (hI.mirrors hmade).create.1
    have hcreated := hI.create hmade
    simp only [Draft.makeCounted, Draft.make, hvalues]
    rw [← hid]
    exact ⟨rfl, hcreated⟩

/-- Drafts make the same values in both. -/
theorem Draft.makeAll_preserves (hI : MirrorInvariant I) : (drafts : List Draft) →
    {owners : List Value} → {counted : CountedArrays} → {arrays : Arrays} →
    I owners counted arrays → (∀ name id, (held name).array? = some id → held name ∈ owners) →
    (Draft.makeAllCounted held drafts counted).1 = (Draft.makeAll held drafts arrays).1 ∧
      I ((Draft.makeAll held drafts arrays).1 ++ owners)
        (Draft.makeAllCounted held drafts counted).2 (Draft.makeAll held drafts arrays).2
  | [], _, _, _, h, _ => ⟨rfl, h⟩
  | draft :: rest, _, _, _, h, hheld => by
    rcases draft.make_preserves hI h hheld with ⟨hv, hmade⟩
    rcases makeAll_preserves hI rest hmade fun name id hid =>
      List.mem_cons_of_mem _ (hheld name id hid) with ⟨hvalues, hall⟩
    exact ⟨congrArg₂ List.cons hv hvalues, hI.perm hall List.perm_middle⟩

end

mutual

/-- Counting changes no value that is made and no list. -/
theorem Draft.makeCounted_eq : (draft : Draft) → (counted : CountedArrays) →
    (draft.makeCounted held counted).1 = (draft.make held counted.arrays).1 ∧
      (draft.makeCounted held counted).2.arrays = (draft.make held counted.arrays).2
  | .invalid, _ => ⟨rfl, rfl⟩
  | .number _, _ => ⟨rfl, rfl⟩
  | .reference _, _ => ⟨rfl, rfl⟩
  | .text _, _ => ⟨rfl, rfl⟩
  | .held _, counted => ⟨rfl, counted.arrays_retain _⟩
  | .element _ _, counted => ⟨rfl, counted.arrays_retain _⟩
  | .array elements, counted => by
    rcases makeAllCounted_eq elements counted with ⟨hvalues, harrays⟩
    simp only [Draft.makeCounted, Draft.make, CountedArrays.create, hvalues, harrays, and_self]

/-- Counting changes no values that are made and no list. -/
theorem Draft.makeAllCounted_eq : (drafts : List Draft) → (counted : CountedArrays) →
    (Draft.makeAllCounted held drafts counted).1 = (Draft.makeAll held drafts counted.arrays).1 ∧
      (Draft.makeAllCounted held drafts counted).2.arrays =
        (Draft.makeAll held drafts counted.arrays).2
  | [], _ => ⟨rfl, rfl⟩
  | draft :: rest, counted => by
    rcases draft.makeCounted_eq counted with ⟨hv, harrays⟩
    rcases makeAllCounted_eq rest (draft.makeCounted held counted).2 with ⟨hvalues, hall⟩
    rw [harrays] at hvalues hall
    exact ⟨congrArg₂ List.cons hv hvalues, hall⟩

end

mutual

/-- Making a value leaves the arrays that are there alone. -/
theorem Draft.make_keeps : (draft : Draft) → (arrays : Arrays) →
    arrays.lists.size ≤ (draft.make held arrays).2.lists.size ∧
      ∀ id : ArrayId, id.index < arrays.lists.size →
        (draft.make held arrays).2.elements id = arrays.elements id
  | .invalid, _ => ⟨Nat.le_refl _, fun _ _ => rfl⟩
  | .number _, _ => ⟨Nat.le_refl _, fun _ _ => rfl⟩
  | .reference _, _ => ⟨Nat.le_refl _, fun _ _ => rfl⟩
  | .text _, _ => ⟨Nat.le_refl _, fun _ _ => rfl⟩
  | .held _, _ => ⟨Nat.le_refl _, fun _ _ => rfl⟩
  | .element _ _, _ => ⟨Nat.le_refl _, fun _ _ => rfl⟩
  | .array elements, arrays => by
    rcases makeAll_keeps elements arrays with ⟨hsize, hkept⟩
    refine ⟨Nat.le_trans hsize ?_, fun id hid => ?_⟩
    · simp [Draft.make, Arrays.create]
    · rw [← hkept id hid]
      exact Arrays.elements_create_of_lt _ (Nat.lt_of_lt_of_le hid hsize)

/-- Making values leaves the arrays that are there alone. -/
theorem Draft.makeAll_keeps : (drafts : List Draft) → (arrays : Arrays) →
    arrays.lists.size ≤ (Draft.makeAll held drafts arrays).2.lists.size ∧
      ∀ id : ArrayId, id.index < arrays.lists.size →
        (Draft.makeAll held drafts arrays).2.elements id = arrays.elements id
  | [], _ => ⟨Nat.le_refl _, fun _ _ => rfl⟩
  | draft :: rest, arrays => by
    rcases draft.make_keeps arrays with ⟨hsize, hkept⟩
    rcases makeAll_keeps rest (draft.make held arrays).2 with ⟨hsizes, hall⟩
    refine ⟨Nat.le_trans hsize hsizes, fun id hid => ?_⟩
    rw [← hkept id hid]
    exact hall id (Nat.lt_of_lt_of_le hid hsize)

end

end Make

/-! ## Edits -/

/-- A change of a counted array is an edit of its elements.  Some of what was handed over is among
the new elements and the rest is let go of, together with what is left out. -/
def Carries (handed : List Value) (edit? : List Value → Option (List Value))
    (change : CountedArrays → ArrayId → Bool × CountedArrays) : Prop :=
  ∀ counted id,
    (∃ list left, edit? (counted.arrays.elements id) = some list ∧
      (∀ other, occurrences other list + occurrences other left =
        occurrences other (counted.arrays.elements id) + occurrences other handed) ∧
      change counted id =
        (true, { counted with arrays := counted.arrays.replace id list }.release left)) ∨
    (edit? (counted.arrays.elements id) = none ∧
      change counted id = (false, counted.release handed))

/-- Letting go of nothing. -/
theorem CountedArrays.release_nil (counted : CountedArrays) : counted.release [] = counted := by
  rw [release]

/-- Inserting carries a value into the list. -/
theorem carries_insert (name : String) (position : Nat) (draft : Draft) (v : Value) :
    Carries [v] (fun elements => HolderStep.edit? v elements (.insert name position draft))
      (fun counted id => counted.insert id v position) := by
  intro counted id
  unfold HolderStep.edit? CountedArrays.insert Arrays.insert? Arrays.size
  by_cases hrange : position ≤ (counted.arrays.elements id).length
  · simp only [if_pos hrange]
    refine .inl ⟨_, [], rfl, fun other => ?_, by rw [CountedArrays.release_nil]⟩
    rw [occurrences_perm other (List.perm_insertIdx v _ hrange), occurrences_cons]
    simp only [occurrences_nil]
    omega
  · simp only [if_neg hrange]
    exact .inr ⟨trivial, trivial⟩

/-- Pushing carries a value into the list. -/
theorem carries_push (name : String) (draft : Draft) (v : Value) :
    Carries [v] (fun elements => HolderStep.edit? v elements (.push name draft))
      (fun counted id => (true, counted.push id v)) := by
  intro counted id
  refine .inl ⟨_, [], rfl, fun other => ?_, by rw [CountedArrays.release_nil]; rfl⟩
  rw [occurrences_append, occurrences_nil]
  rfl

/-- What stands at a position, and the list without it. -/
theorem occurrences_eraseIdx (id : ArrayId) {values : List Value} {position : Nat}
    (h : position < values.length) :
    occurrences id (values.eraseIdx position) + occurrences id values[position]?.toList =
      occurrences id values := by
  have hcons := occurrences_cons id values[position] (values.eraseIdx position)
  rw [occurrences_perm id (List.getElem_cons_eraseIdx_perm h)] at hcons
  rw [List.getElem?_eq_getElem h, Option.toList_some]
  omega

/-- A value takes the place of another one. -/
theorem occurrences_set (id : ArrayId) {values : List Value} {position : Nat} (v : Value)
    (h : position < values.length) :
    occurrences id (values.set position v) + occurrences id values[position]?.toList =
      occurrences id values + occurrences id [v] := by
  have hold := occurrences_eraseIdx id h
  rw [occurrences_perm id (List.set_perm_cons_eraseIdx h v), occurrences_cons]
  omega

/-- Erasing carries an element out of the list. -/
theorem carries_erase (name : String) (position : Nat) (v : Value) :
    Carries [] (fun elements => HolderStep.edit? v elements (.erase name position))
      (fun counted id => counted.erase id position) := by
  intro counted id
  unfold HolderStep.edit? CountedArrays.erase Arrays.erase? Arrays.size
  by_cases hrange : position < (counted.arrays.elements id).length
  · simp only [if_pos hrange]
    refine .inl ⟨_, _, rfl, fun other => ?_, rfl⟩
    exact occurrences_eraseIdx other hrange
  · simp only [if_neg hrange]
    exact .inr ⟨trivial, by rw [CountedArrays.release_nil]⟩

/-- Replacing carries a value into the list and an element out of it. -/
theorem carries_replace (name : String) (position : Nat) (draft : Draft) (v : Value) :
    Carries [v] (fun elements => HolderStep.edit? v elements (.replace name position draft))
      (fun counted id => counted.set id position v) := by
  intro counted id
  unfold HolderStep.edit? CountedArrays.set Arrays.set? Arrays.size
  by_cases hrange : position < (counted.arrays.elements id).length
  · simp only [if_pos hrange]
    refine .inl ⟨_, _, rfl, fun other => ?_, rfl⟩
    exact occurrences_set other v hrange
  · simp only [if_neg hrange]
    exact .inr ⟨trivial, trivial⟩

/-- Clearing carries every element out of the list. -/
theorem carries_clear (name : String) (v : Value) :
    Carries [] (fun elements => HolderStep.edit? v elements (.clear name))
      (fun counted id => (true, counted.clear id)) := by
  intro counted id
  exact .inl ⟨[], counted.arrays.elements id, rfl, fun other => Nat.add_comm .., rfl⟩

section Carries

variable {handed owners : List Value} {edit? : List Value → Option (List Value)}
  {change : CountedArrays → ArrayId → Bool × CountedArrays} {counted : CountedArrays}
  {id : ArrayId} {v : Value} {I : List Value → CountedArrays → Arrays → Prop}

/-- A change tells and does what the plain model does. -/
theorem Carries.preserves (hI : MirrorInvariant I) (hcarries : Carries handed edit? change)
    {plain : PlainHolders} (h : I (handed ++ owners) counted plain.arrays) (hmem : v ∈ owners)
    (hv : v.array? = some id) :
    HolderAnswer.edited (change counted id).1 ((change counted id).2.arrays.size id) =
        (plain.edit id edit?).1 ∧
      I owners (change counted id).2 (plain.edit id edit?).2.arrays ∧
      (plain.edit id edit?).2.names = plain.names := by
  have hmirrors := hI.mirrors h
  have hid := hmirrors.balanced.count_of_mem (List.mem_append_right handed hmem) hv
  have hsize : ∀ {later : CountedArrays} {arrays : Arrays}, I owners later arrays →
      later.arrays.size id = arrays.size id := fun hlater =>
    congrArg List.length ((hI.mirrors hlater).elements id
      ((hI.mirrors hlater).balanced.count_of_mem hmem hv))
  unfold PlainHolders.edit
  rw [← hmirrors.elements id hid]
  rcases hcarries counted id with ⟨list, left, hedit, hlist, hchange⟩ | ⟨hedit, hchange⟩
  · have hafter := hI.release (hI.replace h hid hlist)
    have hlength : (plain.arrays.replace id list).size id = list.length :=
      congrArg List.length
        (Arrays.elements_replace _ _ _ (hmirrors.size ▸ hmirrors.balanced.lt_of_count hid))
    rw [hchange, hedit]
    refine ⟨?_, hafter, rfl⟩
    rw [hsize hafter, hlength]
  · have hafter := hI.release h
    rw [hchange, hedit]
    refine ⟨?_, hafter, rfl⟩
    rw [hsize hafter]

/-- A change gives its array the edited elements, if there are any, and leaves the others alone. -/
theorem Carries.effect (hcarries : Carries handed edit? change)
    (h : counted.Balanced (handed ++ owners)) (hmem : v ∈ owners) (hv : v.array? = some id)
    {other : ArrayId} (hother : 0 < (change counted id).2.count other) :
    (change counted id).2.arrays.elements other =
      if other = id then (edit? (counted.arrays.elements other)).getD (counted.arrays.elements other)
      else counted.arrays.elements other := by
  have hid := h.count_of_mem (List.mem_append_right handed hmem) hv
  rcases hcarries counted id with ⟨list, left, hedit, hlist, hchange⟩ | ⟨hedit, hchange⟩
  · rw [hchange] at hother ⊢
    rw [CountedArrays.elements_release (h.replace hid hlist) hother]
    show (counted.arrays.replace id list).elements other = _
    by_cases hsame : other = id
    · rw [if_pos hsame, hsame, hedit, Arrays.elements_replace _ _ _ (h.lt_of_count hid)]
      rfl
    · rw [if_neg hsame, Arrays.elements_replace_ne _ _ _ _ hsame]
  · rw [hchange] at hother ⊢
    rw [CountedArrays.elements_release h hother]
    by_cases hsame : other = id
    · rw [if_pos hsame, hsame, hedit]
      rfl
    · rw [if_neg hsame]

end Carries

/-! ## Steps of counted holders -/

namespace Holders

/-- Holders and those of the plain model hold the same values under the same names, and what is
held keeps an invariant of the two. -/
structure MirroredWith (I : List Value → CountedArrays → Arrays → Prop) (holders : Holders)
    (plain : PlainHolders) : Prop where
  names : holders.names = plain.names
  tidy : holders.names.Tidy
  arrays : I holders.names.held holders.counted plain.arrays

/-- Holders stand for those of the plain model. -/
abbrev Mirrored (holders : Holders) (plain : PlainHolders) : Prop :=
  MirroredWith Mirrors holders plain

/-- A value under a name is held if it is an array. -/
theorem mem_held_of_array? {holders : Holders} {name : String} {id : ArrayId}
    (h : (holders.value name).array? = some id) : holders.value name ∈ holders.names.held := by
  unfold value at h ⊢
  cases hfound : holders.names.get? name with
  | none =>
    rw [hfound] at h
    cases h
  | some v => exact Names.mem_held_of_get? hfound

section Edit

variable {holders : Holders} {handed : List Value} {edit? : List Value → Option (List Value)}
  {change : CountedArrays → ArrayId → Bool × CountedArrays}
  {I : List Value → CountedArrays → Arrays → Prop}

/-- What a name holds comes into hand when the name is forgotten. -/
theorem drop_preserves (hI : MirrorInvariant I) {counted : CountedArrays} {arrays : Arrays}
    (h : I (handed ++ holders.names.held) counted arrays) (htidy : holders.names.Tidy)
    (name : String) :
    I (holders.value name :: (handed ++ (holders.names.drop name).held)) counted arrays := by
  unfold value
  cases hfound : holders.names.get? name with
  | none =>
    rw [Names.drop_of_get?_eq_none hfound]
    exact hI.retain (v := .invalid) h fun _ hid => by cases hid
  | some v =>
    have hperm := (htidy.held_perm hfound).append_left handed
    exact hI.perm h (hperm.trans List.perm_middle)

/-- With an array in hand that no name holds. -/
theorem create_preserves (hI : MirrorInvariant I) {owners : List Value} {counted : CountedArrays}
    {arrays : Arrays} (h : I (handed ++ owners) counted arrays) :
    (counted.create []).1 = (arrays.create []).1 ∧
      I (handed ++ .array (counted.create []).1 :: owners) (counted.create []).2
        (arrays.create []).2 := by
  have hnothing : I ([] ++ (handed ++ owners)) counted arrays := h
  exact ⟨(hI.mirrors hnothing).create.1, hI.perm (hI.create hnothing) List.perm_middle.symm⟩

/-- An edit through a name tells and does what the plain model does. -/
theorem edit_preserves (hI : MirrorInvariant I) (hcarries : Carries handed edit? change)
    {plain : PlainHolders} (hnames : holders.names = plain.names) (htidy : holders.names.Tidy)
    (h : I (handed ++ holders.names.held) holders.counted plain.arrays) (name : String) :
    (holders.edit name change).1 =
        ((plain.arrayOf name).2.edit (plain.arrayOf name).1 edit?).1 ∧
      MirroredWith I (holders.edit name change).2
        ((plain.arrayOf name).2.edit (plain.arrayOf name).1 edit?).2 := by
  have hvalue : plain.value name = holders.value name := by
    unfold PlainHolders.value value
    rw [hnames]
  unfold edit PlainHolders.arrayOf
  rw [hvalue]
  cases harray : (holders.value name).array? with
  | some id =>
    rcases hcarries.preserves hI h (mem_held_of_array? harray) harray with ⟨htold, hafter, hsame⟩
    exact ⟨htold, hnames.trans hsame.symm, htidy, hafter⟩
  | none =>
    rcases create_preserves hI h with ⟨hid, hcreated⟩
    have htarget : I (handed ++ .array (holders.counted.create []).1 :: holders.names.held)
        (holders.counted.create []).2
        ({ plain with arrays := (plain.arrays.create []).2 } : PlainHolders).arrays :=
      hcreated
    rcases hcarries.preserves hI htarget List.mem_cons_self rfl with ⟨htold, hafter, hsame⟩
    have hinHand : I ([.array (holders.counted.create []).1] ++ holders.names.held) _ _ := hafter
    simp only [← hid]
    exact ⟨htold, hnames.trans hsame.symm, htidy, hI.release hinHand⟩

/-- An edit through a name changes the list of the array under it, if there are edited elements,
and leaves the others alone. -/
theorem edit_effect (hcarries : Carries handed edit? change) {plain : PlainHolders}
    (h : Mirrors (handed ++ holders.names.held) holders.counted plain.arrays) (name : String)
    {id : ArrayId} (hlt : id.index < holders.counted.arrays.lists.size)
    (hid : 0 < (holders.edit name change).2.counted.count id) :
    (holders.edit name change).2.counted.arrays.elements id =
      if (holders.value name).array? = some id then
        (edit? (holders.counted.arrays.elements id)).getD (holders.counted.arrays.elements id)
      else holders.counted.arrays.elements id := by
  unfold edit at hid ⊢
  cases harray : (holders.value name).array? with
  | some held =>
    rw [harray] at hid
    have heffect := hcarries.effect h.balanced (mem_held_of_array? harray) harray hid
    simp only [Option.some.injEq, eq_comm (a := held)]
    exact heffect
  | none =>
    rw [harray] at hid
    rw [if_neg fun hsome => by cases hsome]
    have hcreated := (create_preserves mirrors_invariant h).2
    have htarget : Mirrors (handed ++ .array (holders.counted.create []).1 :: holders.names.held)
        (holders.counted.create []).2
        ({ plain with arrays := (plain.arrays.create []).2 } : PlainHolders).arrays :=
      hcreated
    have hafter :=
      (hcarries.preserves mirrors_invariant htarget List.mem_cons_self rfl).2.1.balanced
    have hbefore := Nat.lt_of_lt_of_le hid (CountedArrays.count_release_le _ _ id)
    have hfresh : id ≠ (holders.counted.create []).1 := by
      rintro rfl
      exact Nat.lt_irrefl _ hlt
    refine (CountedArrays.elements_release hafter hid).trans ?_
    rw [hcarries.effect hcreated.balanced List.mem_cons_self rfl hbefore, if_neg hfresh]
    exact Arrays.elements_create_of_lt [] hlt

end Edit

section Perform

variable {holders : Holders} {plain : PlainHolders}
  {I : List Value → CountedArrays → Arrays → Prop}

/-- The same value is under a name. -/
theorem value_mirrored (h : MirroredWith I holders plain) (name : String) :
    holders.value name = plain.value name := by
  unfold PlainHolders.value value
  rw [h.names]

section Invariant

variable (hI : MirrorInvariant I) (h : MirroredWith I holders plain)
include hI h

/-- A step makes the same value in both and has it in hand. -/
theorem make_preserves (draft : Draft) :
    (holders.make draft).1 = (draft.make plain.value plain.arrays).1 ∧
      I ([(draft.make plain.value plain.arrays).1] ++ holders.names.held)
        (holders.make draft).2.counted (draft.make plain.value plain.arrays).2 := by
  have hvalues : plain.value = holders.value := funext fun name => (value_mirrored h name).symm
  rw [hvalues]
  exact draft.make_preserves hI h.arrays fun name id hid => mem_held_of_array? hid

/-- A value is made and an edit through a name takes it over. -/
theorem make_edit_preserves {edit? : Value → List Value → Option (List Value)}
    {change : Value → CountedArrays → ArrayId → Bool × CountedArrays}
    (hcarries : ∀ v, Carries [v] (edit? v) (change v)) (draft : Draft) (name : String) :
    let made := draft.make plain.value plain.arrays
    let target := ({ plain with arrays := made.2 } : PlainHolders).arrayOf name
    ((holders.make draft).2.edit name (change (holders.make draft).1)).1 =
        (target.2.edit target.1 (edit? made.1)).1 ∧
      MirroredWith I ((holders.make draft).2.edit name (change (holders.make draft).1)).2
        (target.2.edit target.1 (edit? made.1)).2 := by
  rcases make_preserves hI h draft with ⟨hv, hmade⟩
  have hnames : (holders.make draft).2.names =
      ({ plain with arrays := (draft.make plain.value plain.arrays).2 } : PlainHolders).names :=
    h.names
  rw [hv]
  exact edit_preserves hI (hcarries _) hnames h.tidy hmade name

/-- A step tells the same in both and keeps the invariant. -/
theorem perform_preserves (step : HolderStep) :
    (holders.perform step).1 = (plain.perform step).1 ∧
      MirroredWith I (holders.perform step).2 (plain.perform step).2 := by
  have hnothing : I ([] ++ holders.names.held) holders.counted plain.arrays := h.arrays
  cases step with
  | store name draft =>
    rcases make_preserves hI h draft with ⟨hv, hmade⟩
    refine ⟨rfl, ?_, h.tidy.set name _, ?_⟩
    · show holders.names.set name (holders.make draft).1 =
        plain.names.set name (draft.make plain.value plain.arrays).1
      rw [h.names, hv]
    · rw [← hv] at hmade
      have hdropped : I ([holders.value name] ++
          ([(holders.make draft).1] ++ (holders.names.drop name).held)) _ _ :=
        drop_preserves hI hmade h.tidy name
      exact hI.release hdropped
  | drop name =>
    have hdropped : I ([holders.value name] ++ (holders.names.drop name).held) _ _ :=
      drop_preserves hI hnothing h.tidy name
    refine ⟨?_, ?_, h.tidy.drop name, hI.release hdropped⟩
    · show HolderAnswer.dropped _ = HolderAnswer.dropped _
      rw [h.names]
    · show holders.names.drop name = plain.names.drop name
      rw [h.names]
  | insert name position draft =>
    exact make_edit_preserves hI h (carries_insert name position draft) draft name
  | push name draft => exact make_edit_preserves hI h (carries_push name draft) draft name
  | erase name position =>
    exact edit_preserves hI (carries_erase name position .invalid) h.names h.tidy hnothing name
  | replace name position draft =>
    exact make_edit_preserves hI h (carries_replace name position draft) draft name
  | clear name =>
    exact edit_preserves hI (carries_clear name .invalid) h.names h.tidy hnothing name
  | compare name draft =>
    rcases make_preserves hI h draft with ⟨hv, hmade⟩
    rw [← hv] at hmade
    refine ⟨?_, h.names, h.tidy, hI.release hmade⟩
    show HolderAnswer.equal ((holders.value name).equal (holders.make draft).1) =
      HolderAnswer.equal ((plain.value name).equal (draft.make plain.value plain.arrays).1)
    rw [value_mirrored h name, hv]

end Invariant

end Perform

/-! ## What a step does -/

/-- The elements that an array has behind a step: those that the step makes of the ones it has, if
the name that the step edits holds it and the position is in range. -/
def editedElements (holders : Holders) (step : HolderStep) (id : ArrayId) : List Value :=
  let elements := holders.counted.arrays.elements id
  if (step.edits?.bind fun name => (holders.value name).array?) = some id then
    (step.edit? (holders.make step.draft).1 elements).getD elements
  else elements

/-- The array is held under a name, or by a slot of an array that is. -/
def Reaches (holders : Holders) (id : ArrayId) : Prop :=
  holders.counted.arrays.Reaches holders.names.held id

/-- What a step changes among the values and the arrays that are held behind it. -/
structure Effect (before : Holders) (step : HolderStep) (told : HolderAnswer) (after : Holders) :
    Prop where
  /-- Names that nothing is put under keep their values. -/
  names : ∀ name, step.names? ≠ some name → after.value name = before.value name
  /-- The list of the array that is edited changes, and no other one. -/
  lists : ∀ id : ArrayId, id.index < before.counted.arrays.lists.size → after.Reaches id →
    after.counted.arrays.elements id = before.editedElements step id
  /-- Nothing changes when the position is out of range. -/
  refused : ∀ size, told = .edited false size →
    after.names = before.names ∧
      ∀ id : ArrayId, id.index < before.counted.arrays.lists.size → after.Reaches id →
        after.counted.arrays.elements id = before.counted.arrays.elements id

/-- An array that is reached has a holder. -/
theorem Mirrored.count_of_reaches {holders : Holders} {plain : PlainHolders}
    (h : holders.Mirrored plain) {id : ArrayId} (hid : holders.Reaches id) :
    0 < holders.counted.count id := by
  cases hid with
  | held hmem harray => exact h.arrays.balanced.count_of_mem hmem harray
  | slot _ hmem harray => exact h.arrays.balanced.count_of_slot hmem harray

/-- Making a value leaves the arrays that are there alone. -/
theorem make_keeps (holders : Holders) (draft : Draft) :
    holders.counted.arrays.lists.size ≤ (holders.make draft).2.counted.arrays.lists.size ∧
      ∀ id : ArrayId, id.index < holders.counted.arrays.lists.size →
        (holders.make draft).2.counted.arrays.elements id = holders.counted.arrays.elements id := by
  have harrays : (holders.make draft).2.counted.arrays = _ :=
    (draft.makeCounted_eq holders.counted).2
  rw [harrays]
  exact draft.make_keeps holders.counted.arrays

/-- An edit that is refused has no edited elements. -/
theorem edit_refused {holders : Holders} {handed : List Value}
    {edit? : List Value → Option (List Value)}
    {change : CountedArrays → ArrayId → Bool × CountedArrays}
    (hcarries : Carries handed edit? change) {name : String} {size : Nat}
    (htold : (holders.edit name change).1 = .edited false size) {id : ArrayId}
    (harray : (holders.value name).array? = some id) :
    edit? (holders.counted.arrays.elements id) = none := by
  unfold edit at htold
  rw [harray] at htold
  rcases hcarries holders.counted id with ⟨list, left, -, -, hchange⟩ | ⟨hedit, -⟩
  · simp only [hchange] at htold
    cases htold
  · exact hedit

/-- A refused step has no edited elements for the array that it edits. -/
theorem edit?_of_refused {holders : Holders} {step : HolderStep} {size : Nat}
    (htold : (holders.perform step).1 = .edited false size) {id : ArrayId}
    (hlt : id.index < holders.counted.arrays.lists.size)
    (harray : (step.edits?.bind fun name => (holders.value name).array?) = some id) :
    step.edit? (holders.make step.draft).1 (holders.counted.arrays.elements id) = none := by
  rw [← (make_keeps holders step.draft).2 id hlt]
  cases step with
  | store name draft => cases harray
  | drop name => cases harray
  | insert name position draft =>
    exact edit_refused (carries_insert name position draft _) htold harray
  | push name draft => exact edit_refused (carries_push name draft _) htold harray
  | erase name position => exact edit_refused (carries_erase name position .invalid) htold harray
  | replace name position draft =>
    exact edit_refused (carries_replace name position draft _) htold harray
  | clear name => exact edit_refused (carries_clear name .invalid) htold harray
  | compare name draft => cases harray

/-- An edit leaves the names alone. -/
theorem names_edit (holders : Holders) (name : String)
    (change : CountedArrays → ArrayId → Bool × CountedArrays) :
    (holders.edit name change).2.names = holders.names := by
  unfold edit
  split <;> rfl

/-- Only what is stored or dropped changes the names. -/
theorem names_perform (holders : Holders) (step : HolderStep) :
    (holders.perform step).2.names =
      match step with
      | .store name draft => holders.names.set name (holders.make draft).1
      | .drop name => holders.names.drop name
      | _ => holders.names := by
  cases step with
  | store name draft => rfl
  | drop name => rfl
  | insert name position draft => exact names_edit _ name _
  | push name draft => exact names_edit _ name _
  | erase name position => exact names_edit _ name _
  | replace name position draft => exact names_edit _ name _
  | clear name => exact names_edit _ name _
  | compare name draft => rfl

section Effects

variable {holders : Holders} {plain : PlainHolders} (h : holders.Mirrored plain)
include h

/-- Making a value and editing through a name changes the list of the array under it, if there are
edited elements, and leaves the others alone. -/
theorem make_edit_effect {edit? : Value → List Value → Option (List Value)}
    {change : Value → CountedArrays → ArrayId → Bool × CountedArrays}
    (hcarries : ∀ v, Carries [v] (edit? v) (change v)) (draft : Draft) (name : String)
    {id : ArrayId} (hlt : id.index < holders.counted.arrays.lists.size)
    (hid : 0 < ((holders.make draft).2.edit name
      (change (holders.make draft).1)).2.counted.count id) :
    ((holders.make draft).2.edit name (change (holders.make draft).1)).2.counted.arrays.elements
        id =
      if (holders.value name).array? = some id then
        (edit? (holders.make draft).1 (holders.counted.arrays.elements id)).getD
          (holders.counted.arrays.elements id)
      else holders.counted.arrays.elements id := by
  rcases make_preserves mirrors_invariant h draft with ⟨hv, hmade⟩
  rw [← hv] at hmade
  have hmirrors : Mirrors ([(holders.make draft).1] ++ (holders.make draft).2.names.held)
      (holders.make draft).2.counted
      ({ plain with arrays := (draft.make plain.value plain.arrays).2 } : PlainHolders).arrays :=
    hmade
  rcases make_keeps holders draft with ⟨hsize, hkept⟩
  rw [← hkept id hlt]
  exact edit_effect (hcarries _) hmirrors name (Nat.lt_of_lt_of_le hlt hsize) hid

/-- Behind a step, what is held has its elements as they were, or as the step edits them. -/
theorem perform_elements (step : HolderStep) {id : ArrayId}
    (hlt : id.index < holders.counted.arrays.lists.size)
    (hid : 0 < (holders.perform step).2.counted.count id) :
    (holders.perform step).2.counted.arrays.elements id = holders.editedElements step id := by
  have hmade : Mirrors ([(holders.make step.draft).1] ++ holders.names.held)
      (holders.make step.draft).2.counted
      (step.draft.make plain.value plain.arrays).2 := by
    rcases make_preserves mirrors_invariant h step.draft with ⟨hv, hmade⟩
    rw [← hv] at hmade
    exact hmade
  have hkept := (make_keeps holders step.draft).2 id hlt
  cases step with
  | store name draft =>
    have hdropped := (drop_preserves mirrors_invariant hmade h.tidy name).balanced
    exact (CountedArrays.elements_release hdropped hid).trans hkept
  | drop name =>
    have hnothing : Mirrors ([] ++ holders.names.held) holders.counted plain.arrays := h.arrays
    have hdropped := drop_preserves mirrors_invariant hnothing h.tidy name
    exact CountedArrays.elements_release hdropped.balanced hid
  | insert name position draft =>
    exact make_edit_effect h (carries_insert name position draft) draft name hlt hid
  | push name draft => exact make_edit_effect h (carries_push name draft) draft name hlt hid
  | erase name position =>
    exact edit_effect (carries_erase name position .invalid) h.arrays name hlt hid
  | replace name position draft =>
    exact make_edit_effect h (carries_replace name position draft) draft name hlt hid
  | clear name => exact edit_effect (carries_clear name .invalid) h.arrays name hlt hid
  | compare name draft => exact (CountedArrays.elements_release hmade.balanced hid).trans hkept

/-- What a step does to the names and to the lists. -/
theorem perform_effect (step : HolderStep) :
    holders.Effect step (holders.perform step).1 (holders.perform step).2 := by
  have hafter : (holders.perform step).2.Mirrored _ :=
    (perform_preserves mirrors_invariant h step).2
  have hlists : ∀ id : ArrayId, id.index < holders.counted.arrays.lists.size →
      (holders.perform step).2.Reaches id →
      (holders.perform step).2.counted.arrays.elements id = holders.editedElements step id :=
    fun id hlt hid => perform_elements h step hlt (hafter.count_of_reaches hid)
  have hnames := names_perform holders step
  refine ⟨fun name hname => ?_, hlists, fun size htold => ⟨?_, fun id hlt hid => ?_⟩⟩
  · unfold value
    rw [hnames]
    cases step with
    | store other draft =>
      have hne : name ≠ other := fun heq => hname (congrArg some heq.symm)
      rw [Names.get?_set_ne _ _ _ _ hne]
    | drop other =>
      have hne : name ≠ other := fun heq => hname (congrArg some heq.symm)
      rw [Names.get?_drop_ne _ hne]
    | _ => rfl
  · rw [hnames]
    cases step with
    | store other draft => cases htold
    | drop other => cases htold
    | _ => rfl
  · rw [hlists id hlt hid]
    unfold editedElements
    simp only
    split
    · next harray =>
      rw [edit?_of_refused htold hlt harray]
      rfl
    · rfl

end Effects

/-! ## Sequences of steps -/

/-- The answers to steps, one after the other. -/
def run (holders : Holders) : List HolderStep → List HolderAnswer × Holders
  | [] => ([], holders)
  | step :: rest =>
    let (answer, holders) := holders.perform step
    let (answers, holders) := holders.run rest
    (answer :: answers, holders)

/-- Steps tell the same in both and keep the invariant. -/
theorem run_preserves {I : List Value → CountedArrays → Arrays → Prop} (hI : MirrorInvariant I)
    {holders : Holders} {plain : PlainHolders} (h : MirroredWith I holders plain)
    (steps : List HolderStep) :
    (holders.run steps).1 = (plain.run steps).1 ∧
      MirroredWith I (holders.run steps).2 (plain.run steps).2 := by
  induction steps generalizing holders plain with
  | nil => exact ⟨rfl, h⟩
  | cons step rest ih =>
    rcases perform_preserves hI h step with ⟨htold, hafter⟩
    rcases ih hafter with ⟨hrest, hlast⟩
    exact ⟨congrArg₂ List.cons htold hrest, hlast⟩

/-- What holders and the plain model show is the same: the values under all names, the elements of
the arrays under them, and the values written out to any depth. -/
structure Shows (holders : Holders) (plain : PlainHolders) : Prop where
  value : ∀ name, holders.value name = plain.value name
  elements : ∀ name, holders.elements name = plain.elements name
  reached : ∀ id, holders.Reaches id → holders.counted.arrays.elements id = plain.arrays.elements id
  snapshot : ∀ name depth, holders.counted.arrays.snapshotWithin depth (holders.value name) =
    plain.arrays.snapshotWithin depth (plain.value name)

/-- Holders show what the plain holders show that they stand for. -/
theorem Mirrored.shows {holders : Holders} {plain : PlainHolders} (h : holders.Mirrored plain) :
    holders.Shows plain := by
  have hreached : ∀ id, holders.Reaches id →
      holders.counted.arrays.elements id = plain.arrays.elements id :=
    fun id hid => h.arrays.elements id (h.count_of_reaches hid)
  refine ⟨value_mirrored h, fun name => ?_, hreached, fun name depth => ?_⟩
  · unfold PlainHolders.elements elements
    rw [← value_mirrored h name]
    cases harray : (holders.value name).array? with
    | none => rfl
    | some id => exact hreached id (.held (mem_held_of_array? harray) harray)
  · rw [← value_mirrored h name]
    refine Arrays.snapshotWithin_congr (fun id hid => hreached id ?_) depth
    refine hid.trans fun v hv other harray => ?_
    rw [List.mem_singleton.1 hv] at harray
    exact .held (mem_held_of_array? harray) harray

/-- No holders stand for no holders. -/
theorem mirrored_empty : empty.Mirrored .empty where
  names := rfl
  tidy := List.nodup_nil
  arrays := ⟨⟨rfl, fun _ => rfl⟩, rfl, fun _ _ => rfl⟩

/-- Any sequence of steps is told and shown as in the plain model, in which each array is an
identity with one list.  Each further step leaves the names alone that nothing is put under,
changes the list of no array but the one that it edits, and changes nothing when its position is
out of range. -/
theorem run_shared (steps : List HolderStep) :
    (empty.run steps).1 = (PlainHolders.empty.run steps).1 ∧
      (empty.run steps).2.Shows (PlainHolders.empty.run steps).2 ∧
      ∀ step, (empty.run steps).2.Effect step ((empty.run steps).2.perform step).1
        ((empty.run steps).2.perform step).2 := by
  rcases run_preserves mirrors_invariant mirrored_empty steps with ⟨htold, hmirrored⟩
  exact ⟨htold, Mirrored.shows hmirrored, perform_effect hmirrored⟩

end Holders

end ScriptMachine
