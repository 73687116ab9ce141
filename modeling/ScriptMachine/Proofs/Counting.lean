import ScriptMachine.Host.Holders

/-!
# Counts of holders

The number of holders of an array is the number of places it stands in: values that are held by
name or in hand, and elements of arrays.  Freed arrays have no elements.  Making values, letting go
of them and editing arrays keep the counts right, and only an array without a holder is freed.

Main results:

- {lit}`CountedArrays.Balanced`: every array has as many holders as it has places it stands in.
- {lit}`CountedArrays.Balanced.release`: letting go of values keeps the counts right.
- {lit}`CountedArrays.elements_release`: what is still held keeps its elements when values are let
  go of.
- {lit}`CountedArrays.Balanced.edit`: a new list of elements, with what it takes over and what it
  leaves out.
-/

namespace ScriptMachine

/-! ## Occurrences -/

/-- How often an array stands among values. -/
def occurrences (id : ArrayId) (values : List Value) : Nat :=
  values.countP fun v => v.array? == some id

section Occurrences

variable (id : ArrayId)

@[simp]
theorem occurrences_nil : occurrences id [] = 0 :=
  rfl

/-- Occurrences in two lists of values add up. -/
@[simp]
theorem occurrences_append (values others : List Value) :
    occurrences id (values ++ others) = occurrences id values + occurrences id others :=
  List.countP_append

/-- The first value and the others add up. -/
theorem occurrences_cons (v : Value) (values : List Value) :
    occurrences id (v :: values) = occurrences id [v] + occurrences id values :=
  occurrences_append id [v] values

/-- The order of values does not matter. -/
theorem occurrences_perm {values others : List Value} (h : values.Perm others) :
    occurrences id values = occurrences id others :=
  h.countP_eq _

/-- A value that is no array counts for none. -/
theorem occurrences_of_array?_none {v : Value} (h : v.array? = none) : occurrences id [v] = 0 := by
  simp [occurrences, h]

/-- An array counts once for itself and not for others. -/
theorem occurrences_of_array? {v : Value} {other : ArrayId} (h : v.array? = some other) :
    occurrences id [v] = if other = id then 1 else 0 := by
  by_cases hsame : other = id <;> simp [occurrences, h, hsame]

/-- An array that stands among values occurs there. -/
theorem occurrences_pos {values : List Value} {v : Value} (hmem : v ∈ values)
    (h : v.array? = some id) : 0 < occurrences id values :=
  List.countP_pos_iff.2 ⟨v, hmem, by simp [h]⟩

end Occurrences

namespace Arrays

/-! ## Slots -/

/-- The elements of all arrays. -/
def slotValues (arrays : Arrays) : List Value :=
  arrays.lists.toList.flatten

/-- The elements of an array stand among the elements of all arrays. -/
theorem mem_slotValues {arrays : Arrays} {id : ArrayId} {v : Value}
    (h : v ∈ arrays.elements id) : v ∈ arrays.slotValues := by
  unfold elements at h
  cases hlist : arrays.lists[id.index]? with
  | none =>
    rw [hlist] at h
    cases h
  | some list =>
    rw [hlist] at h
    have hmem : list ∈ arrays.lists.toList := by
      rw [← Array.getElem?_toList] at hlist
      exact List.mem_of_getElem? hlist
    exact List.mem_flatten_of_mem hmem h

/-- A list among lists is exchanged. -/
theorem occurrences_flatten_set (id : ArrayId) {lists : List (List Value)} {i : Nat}
    (h : i < lists.length) (list : List Value) :
    occurrences id (lists.set i list).flatten + occurrences id (lists[i]?.getD []) =
      occurrences id lists.flatten + occurrences id list := by
  induction lists generalizing i with
  | nil => cases h
  | cons first rest ih =>
    cases i with
    | zero =>
      simp only [List.set_cons_zero, List.flatten_cons, occurrences_append,
        List.getElem?_cons_zero, Option.getD_some]
      omega
    | succ i =>
      have hrest := ih (Nat.lt_of_succ_lt_succ h)
      simp only [List.set_cons_succ, List.flatten_cons, occurrences_append,
        List.getElem?_cons_succ]
      omega

/-- What an array gets for its elements counts for them. -/
theorem occurrences_replace (id : ArrayId) {arrays : Arrays} {edited : ArrayId}
    (h : edited.index < arrays.lists.size) (list : List Value) :
    occurrences id (arrays.replace edited list).slotValues +
        occurrences id (arrays.elements edited) =
      occurrences id arrays.slotValues + occurrences id list := by
  have hlength : edited.index < arrays.lists.toList.length := h
  simpa [slotValues, replace, elements] using occurrences_flatten_set id hlength list

/-- A new array adds its elements. -/
theorem slotValues_create (arrays : Arrays) (elements : List Value) :
    (arrays.create elements).2.slotValues = arrays.slotValues ++ elements := by
  simp [slotValues, create]

end Arrays

namespace CountedArrays

/-! ## Counts -/

/-- The count that was set. -/
theorem count_setCount (counted : CountedArrays) (id other : ArrayId) (n : Nat) :
    (counted.setCount id n).count other =
      if other = id ∧ id.index < counted.counts.size then n else counted.count other := by
  unfold setCount count
  by_cases hsame : other = id
  · subst hsame
    by_cases hlt : other.index < counted.counts.size
    · simp [hlt]
    · simp [hlt]
  · have hindex : id.index ≠ other.index := fun heq => hsame (by cases id; cases other; simp_all)
    simp [hsame, hindex]

@[simp]
theorem arrays_setCount (counted : CountedArrays) (id : ArrayId) (n : Nat) :
    (counted.setCount id n).arrays = counted.arrays :=
  rfl

@[simp]
theorem size_counts_setCount (counted : CountedArrays) (id : ArrayId) (n : Nat) :
    (counted.setCount id n).counts.size = counted.counts.size :=
  Array.size_setIfInBounds

@[simp]
theorem arrays_retain (counted : CountedArrays) (v : Value) :
    (counted.retain v).arrays = counted.arrays := by
  unfold retain
  split <;> rfl

/-- What is freed has no holder; other counts stay. -/
theorem count_free (counted : CountedArrays) (id other : ArrayId) :
    (counted.free id).count other =
      if other = id ∧ id.index < counted.counts.size then 0 else counted.count other :=
  counted.count_setCount id other 0

/-- No count falls when a holder is noted. -/
theorem count_le_retain (counted : CountedArrays) (v : Value) (id : ArrayId) :
    counted.count id ≤ (counted.retain v).count id := by
  unfold retain
  split
  · exact Nat.le_refl _
  · next held _ =>
    rw [count_setCount]
    split
    · next hboth =>
      rw [hboth.1]
      exact Nat.le_succ _
    · exact Nat.le_refl _

/-- A new array has one holder; other counts stay. -/
theorem count_create (counted : CountedArrays) (elements : List Value) (id : ArrayId) :
    (counted.create elements).2.count id =
      if id.index = counted.counts.size then 1 else counted.count id := by
  unfold create count
  simp only [Array.getElem?_push]
  split <;> rfl

/-- Counts are right: there is one for each array, and an array has as many holders as there are
places it stands in, among the values held outside and in slots. -/
structure Balanced (counted : CountedArrays) (owners : List Value) : Prop where
  size : counted.counts.size = counted.arrays.lists.size
  count : ∀ id, counted.count id =
    occurrences id owners + occurrences id counted.arrays.slotValues

namespace Balanced

variable {counted : CountedArrays} {owners : List Value}

/-- The order of the owners does not matter. -/
theorem perm (h : counted.Balanced owners) {others : List Value} (hperm : owners.Perm others) :
    counted.Balanced others where
  size := h.size
  count := fun id => by rw [h.count id, occurrences_perm id hperm]

/-- Values that are no arrays need not be counted. -/
theorem of_array?_none {v : Value} (h : counted.Balanced (v :: owners)) (hv : v.array? = none) :
    counted.Balanced owners where
  size := h.size
  count := fun id => by
    rw [h.count id, occurrences_cons, occurrences_of_array?_none id hv, Nat.zero_add]

/-- An array with a holder was created. -/
theorem lt_of_count (h : counted.Balanced owners) {id : ArrayId} (hpos : 0 < counted.count id) :
    id.index < counted.arrays.lists.size := by
  rw [← h.size]
  unfold CountedArrays.count at hpos
  by_cases hlt : id.index < counted.counts.size
  · exact hlt
  · simp [hlt] at hpos

/-- An array that is held outside has a holder. -/
theorem count_of_mem (h : counted.Balanced owners) {v : Value} {id : ArrayId} (hmem : v ∈ owners)
    (hv : v.array? = some id) : 0 < counted.count id := by
  have hpos := occurrences_pos id hmem hv
  rw [h.count id]
  omega

/-- An array in a slot has a holder. -/
theorem count_of_slot (h : counted.Balanced owners) {v : Value} {holder id : ArrayId}
    (hmem : v ∈ counted.arrays.elements holder) (hv : v.array? = some id) :
    0 < counted.count id := by
  have hpos := occurrences_pos id (Arrays.mem_slotValues hmem) hv
  rw [h.count id]
  omega

/-! ## Making values -/

/-- One more holder of a value is counted. -/
theorem retain (h : counted.Balanced owners) {v : Value}
    (hv : ∀ id, v.array? = some id → 0 < counted.count id) :
    (counted.retain v).Balanced (v :: owners) := by
  unfold CountedArrays.retain
  cases harray : v.array? with
  | none =>
    refine ⟨h.size, fun id => ?_⟩
    rw [h.count id, occurrences_cons, occurrences_of_array?_none id harray, Nat.zero_add]
  | some held =>
    have hlt : held.index < counted.counts.size := by
      rw [h.size]
      exact h.lt_of_count (hv held harray)
    refine ⟨by simpa using h.size, fun id => ?_⟩
    rw [count_setCount, occurrences_cons, occurrences_of_array? id harray, arrays_setCount]
    by_cases hsame : id = held
    · subst hsame
      rw [if_pos ⟨rfl, hlt⟩, if_pos rfl, h.count id]
      omega
    · rw [if_neg fun hboth => hsame hboth.1, if_neg fun heq => hsame heq.symm, h.count id]
      omega

/-- A new array takes over its elements and has one holder. -/
theorem create {elements : List Value} (h : counted.Balanced (elements ++ owners)) :
    (counted.create elements).2.Balanced (.array (counted.create elements).1 :: owners) := by
  have hnew : occurrences ⟨counted.arrays.lists.size⟩ (elements ++ owners) +
      occurrences ⟨counted.arrays.lists.size⟩ counted.arrays.slotValues = 0 := by
    rw [← h.count]
    simp [CountedArrays.count, h.size]
  refine ⟨by simp [CountedArrays.create, Arrays.create, h.size], fun id => ?_⟩
  show _ = _ + occurrences id (counted.arrays.create elements).2.slotValues
  have hself : occurrences id [.array (counted.create elements).1] =
      if ⟨counted.arrays.lists.size⟩ = id then 1 else 0 :=
    occurrences_of_array? id rfl
  rw [Arrays.slotValues_create, occurrences_cons, occurrences_append, hself]
  rw [occurrences_append] at hnew
  have hcount := h.count id
  rw [occurrences_append] at hcount
  rw [count_create, h.size]
  by_cases hsame : id.index = counted.arrays.lists.size
  · have hid : id = ⟨counted.arrays.lists.size⟩ := by cases id; simp_all
    subst hid
    rw [if_pos rfl, if_pos rfl]
    omega
  · have hid : (⟨counted.arrays.lists.size⟩ : ArrayId) ≠ id := fun heq => hsame (by rw [← heq])
    rw [if_neg hsame, if_neg hid, hcount]
    omega

/-! ## Letting go -/

/-- An array with one holder that lets go of it is freed; its elements are in hand. -/
theorem free {values : List Value} {v : Value} {id : ArrayId}
    (h : counted.Balanced (v :: values ++ owners)) (hv : v.array? = some id)
    (hcount : counted.count id ≤ 1) :
    (counted.free id).Balanced (counted.arrays.elements id ++ values ++ owners) := by
  have hpos : 0 < counted.count id := h.count_of_mem List.mem_cons_self hv
  have hlt : id.index < counted.counts.size := h.size ▸ h.lt_of_count hpos
  refine ⟨by simpa [CountedArrays.free] using h.size, fun other => ?_⟩
  have hslots := Arrays.occurrences_replace other (h.size ▸ hlt) []
  have hbefore := h.count other
  rw [List.cons_append, occurrences_cons, occurrences_of_array? other hv] at hbefore
  rw [count_free]
  show _ = _ + occurrences other (counted.arrays.replace id []).slotValues
  rw [occurrences_nil] at hslots
  simp only [occurrences_append] at hbefore ⊢
  by_cases hsame : other = id
  · subst hsame
    rw [if_pos rfl] at hbefore
    rw [if_pos ⟨rfl, hlt⟩]
    omega
  · rw [if_neg fun heq => hsame heq.symm] at hbefore
    rw [if_neg fun hboth => hsame hboth.1]
    omega

/-- An array with more holders loses the one that lets go of it. -/
theorem discount {values : List Value} {v : Value} {id : ArrayId}
    (h : counted.Balanced (v :: values ++ owners)) (hv : v.array? = some id) :
    (counted.setCount id (counted.count id - 1)).Balanced (values ++ owners) := by
  have hpos : 0 < counted.count id := h.count_of_mem List.mem_cons_self hv
  have hlt : id.index < counted.counts.size := h.size ▸ h.lt_of_count hpos
  refine ⟨by simpa using h.size, fun other => ?_⟩
  have hbefore := h.count other
  rw [List.cons_append, occurrences_cons, occurrences_of_array? other hv] at hbefore
  rw [count_setCount, arrays_setCount]
  by_cases hsame : other = id
  · subst hsame
    rw [if_pos rfl] at hbefore
    rw [if_pos ⟨rfl, hlt⟩]
    omega
  · rw [if_neg fun heq => hsame heq.symm] at hbefore
    rw [if_neg fun hboth => hsame hboth.1]
    omega

/-- Letting go of values keeps the counts right. -/
theorem release {values : List Value} (h : counted.Balanced (values ++ owners)) :
    (counted.release values).Balanced owners := by
  induction counted, values using CountedArrays.release.induct with
  | case1 counted =>
    rw [CountedArrays.release]
    exact h
  | case2 counted v rest hnone ih =>
    rw [CountedArrays.release, hnone]
    exact ih (h.of_array?_none hnone)
  | case3 counted v rest id harray hcount ih =>
    rw [CountedArrays.release, harray]
    simp only [if_pos hcount]
    exact ih (h.free harray hcount)
  | case4 counted v rest id harray hcount ih =>
    rw [CountedArrays.release, harray]
    simp only [if_neg hcount]
    exact ih (h.discount harray)

/-! ## Edits -/

/-- An array gets new elements.  Some of what was in hand is among them, and what is left out
comes into hand. -/
theorem replace {id : ArrayId} {handed left list : List Value}
    (h : counted.Balanced (handed ++ owners)) (hid : 0 < counted.count id)
    (hlist : ∀ other, occurrences other list + occurrences other left =
      occurrences other (counted.arrays.elements id) + occurrences other handed) :
    { counted with arrays := counted.arrays.replace id list }.Balanced (left ++ owners) := by
  refine ⟨by simpa using h.size, fun other => ?_⟩
  have hslots := Arrays.occurrences_replace other (h.lt_of_count hid) list
  have hbefore := h.count other
  have hnew := hlist other
  show counted.count other = _
  rw [occurrences_append] at hbefore ⊢
  simp only
  omega

end Balanced

/-! ## What is still held -/

/-- Counts fall when values are let go of. -/
theorem count_release_le (counted : CountedArrays) (values : List Value) (id : ArrayId) :
    (counted.release values).count id ≤ counted.count id := by
  induction counted, values using release.induct with
  | case1 counted => exact Nat.le_of_eq (by rw [release])
  | case2 counted v rest hnone ih =>
    rw [release, hnone]
    exact ih
  | case3 counted v rest freed harray hcount ih =>
    rw [release, harray]
    simp only [if_pos hcount]
    refine Nat.le_trans ih ?_
    rw [count_free]
    split <;> omega
  | case4 counted v rest held harray hcount ih =>
    rw [release, harray]
    simp only [if_neg hcount]
    refine Nat.le_trans ih ?_
    rw [count_setCount]
    split
    · next hboth =>
      rw [hboth.1]
      exact Nat.sub_le _ _
    · exact Nat.le_refl _

/-- What is still held keeps its elements when values are let go of. -/
theorem elements_release {counted : CountedArrays} {values owners : List Value}
    (h : counted.Balanced (values ++ owners)) {id : ArrayId}
    (hid : 0 < (counted.release values).count id) :
    (counted.release values).arrays.elements id = counted.arrays.elements id := by
  induction counted, values using release.induct with
  | case1 counted => rw [release]
  | case2 counted v rest hnone ih =>
    rw [release, hnone] at hid ⊢
    exact ih (h.of_array?_none hnone) hid
  | case3 counted v rest freed harray hcount ih =>
    rw [release, harray] at hid ⊢
    simp only [if_pos hcount] at hid ⊢
    rw [ih (h.free harray hcount) hid]
    refine Arrays.elements_replace_ne counted.arrays freed id [] ?_
    rintro rfl
    have hlt : id.index < counted.counts.size :=
      h.size ▸ h.lt_of_count (h.count_of_mem List.mem_cons_self harray)
    have hfreed : (counted.free id).count id = 0 := by
      rw [count_free, if_pos ⟨rfl, hlt⟩]
    have hfalls := (counted.free id).count_release_le (counted.arrays.elements id ++ rest) id
    omega
  | case4 counted v rest held harray hcount ih =>
    rw [release, harray] at hid ⊢
    simp only [if_neg hcount] at hid ⊢
    exact ih (h.discount harray) hid

/-- No array is forgotten when values are let go of. -/
theorem size_release (counted : CountedArrays) (values : List Value) :
    (counted.release values).arrays.lists.size = counted.arrays.lists.size := by
  induction counted, values using release.induct with
  | case1 counted => rw [release]
  | case2 counted v rest hnone ih =>
    rw [release, hnone]
    exact ih
  | case3 counted v rest freed harray hcount ih =>
    rw [release, harray]
    simp only [if_pos hcount]
    rw [ih]
    exact Arrays.size_lists_clear counted.arrays freed
  | case4 counted v rest held harray hcount ih =>
    rw [release, harray]
    simp only [if_neg hcount]
    exact ih

end CountedArrays
end ScriptMachine
