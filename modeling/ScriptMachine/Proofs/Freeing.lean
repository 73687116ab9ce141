import Mathlib.Algebra.BigOperators.Ring.Finset
import Mathlib.Data.Set.Card
import ScriptMachine.Proofs.Sharing

/-!
# Freed arrays

In the plain model of holders nothing is freed, and what counting does can be read off it.  An
array is freed when no name holds it and every array that has it in a slot is freed.  Counted
holders keep exactly this: the count of an array is the number of names that hold it and of the
slots of arrays that are not freed in which it stands, and it is zero for the freed arrays and for
no others.  Arrays that hold one another in a circle are not freed before a step takes a slot of the
circle away.

Main results:

- {lit}`Arrays.Freed`: the arrays that nothing holds any more.
- {lit}`Reclaims`: what counting frees is what nothing holds any more.
- {lit}`PlainHolders.perform_circular`: a circle is parted by taking one of its slots away.
- {lit}`Holders.run_counted`: the counts behind any sequence of steps.
-/

namespace ScriptMachine

/-! ## Freed arrays -/

namespace Arrays

/-- The arrays that are freed with some values held outside: none of these is the array, and
whatever array has it in a slot is freed. -/
inductive Freed (arrays : Arrays) (owners : List Value) : ArrayId → Prop where
  | intro {id : ArrayId} (howners : ∀ v ∈ owners, v.array? ≠ some id)
      (hslots : ∀ holder, ∀ v ∈ arrays.elements holder, v.array? = some id →
        Freed arrays owners holder) : Freed arrays owners id

/-- Arrays that hold one another: each stands in a slot of one of them.  The arrays on a cycle
do. -/
def Circular (arrays : Arrays) (ring : List ArrayId) : Prop :=
  ∀ id ∈ ring, ∃ holder ∈ ring, ∃ v ∈ arrays.elements holder, v.array? = some id

/-- Nothing in a circle is freed. -/
theorem Freed.not_mem {arrays : Arrays} {owners : List Value} {id : ArrayId} {ring : List ArrayId}
    (h : arrays.Freed owners id) (hring : arrays.Circular ring) : id ∉ ring := by
  induction h with
  | intro _ _ ih =>
    intro hmem
    rcases hring _ hmem with ⟨holder, hholder, v, hv, harray⟩
    exact ih holder v hv harray hholder

/-- An array with elements was created. -/
theorem lt_of_mem_elements {arrays : Arrays} {id : ArrayId} {v : Value}
    (h : v ∈ arrays.elements id) : id.index < arrays.lists.size := by
  unfold elements at h
  by_contra hlt
  rw [Array.getElem?_eq_none (Nat.le_of_not_lt hlt)] at h
  cases h

/-- A new array is the only one with other elements. -/
theorem elements_create_ne {arrays : Arrays} {id : ArrayId} (list : List Value)
    (h : id.index ≠ arrays.lists.size) :
    (arrays.create list).2.elements id = arrays.elements id := by
  simp [create, elements, Array.getElem?_push, h]

/-- What stands in a slot is an element of some array. -/
theorem exists_mem_elements {arrays : Arrays} {v : Value} (h : v ∈ arrays.slotValues) :
    ∃ holder, v ∈ arrays.elements holder := by
  rcases List.mem_flatten.1 h with ⟨list, hlist, hv⟩
  rcases List.getElem?_of_mem hlist with ⟨i, hi⟩
  refine ⟨⟨i⟩, ?_⟩
  unfold elements
  rw [← Array.getElem?_toList, hi]
  exact hv

end Arrays

/-! ## What counting frees -/

namespace Mirrors

variable {owners others : List Value} {counted : CountedArrays} {arrays before : Arrays}

/-- An array without a holder is freed if those are that have it in a slot and no holder
themselves: no other array has it in a slot. -/
theorem freed_intro (h : Mirrors owners counted arrays) {id : ArrayId}
    (hdead : counted.count id = 0)
    (hslots : ∀ holder, counted.count holder = 0 → ∀ v ∈ arrays.elements holder,
      v.array? = some id → arrays.Freed owners holder) : arrays.Freed owners id := by
  refine .intro (fun v hv harray => ?_) fun holder v hv harray => ?_
  · have hpos := h.balanced.count_of_mem hv harray
    omega
  · by_cases hholder : counted.count holder = 0
    · exact hslots holder hholder v hv harray
    · rw [← h.elements holder (Nat.pos_of_ne_zero hholder)] at hv
      have hpos := h.balanced.count_of_slot hv harray
      omega

/-- A freed array without a holder stays freed when the elements of arrays without a holder
stay. -/
theorem freed_carry (h : Mirrors owners counted arrays) {id : ArrayId}
    (hbefore : before.Freed others id) (hdead : counted.count id = 0)
    (hlists : ∀ holder, counted.count holder = 0 →
      arrays.elements holder = before.elements holder) : arrays.Freed owners id := by
  induction hbefore with
  | intro _ _ ih =>
    refine h.freed_intro hdead fun holder hholder v hv harray => ?_
    rw [hlists holder hholder] at hv
    exact ih holder v hv harray hholder

/-- Freeing an array that was created changes its count and no other one. -/
theorem count_free (h : Mirrors owners counted arrays) {id : ArrayId}
    (hid : 0 < counted.count id) (other : ArrayId) :
    (counted.free id).count other = if other = id then 0 else counted.count other := by
  have hlt : id.index < counted.counts.size := h.balanced.size ▸ h.balanced.lt_of_count hid
  simp [CountedArrays.count_free, hlt]

section Release

variable {values : List Value} {v : Value} {id : ArrayId}

/-- An array with one holder that lets go of it is freed; its elements are in hand. -/
theorem free (h : Mirrors (v :: values ++ owners) counted arrays) (hv : v.array? = some id)
    (hcount : counted.count id ≤ 1) :
    Mirrors (counted.arrays.elements id ++ values ++ owners) (counted.free id) arrays where
  balanced := h.balanced.free hv hcount
  size := (Arrays.size_lists_clear counted.arrays id).trans h.size
  elements := fun other hpos => by
    rw [h.count_free (h.balanced.count_of_mem List.mem_cons_self hv)] at hpos
    split at hpos
    · cases hpos
    · next hne =>
      exact (Arrays.elements_replace_ne counted.arrays id other [] hne).trans
        (h.elements other hpos)

/-- An array with more holders loses the one that lets go of it, and no array loses its last
one. -/
theorem discount (h : Mirrors (v :: values ++ owners) counted arrays) (hv : v.array? = some id)
    (hcount : ¬counted.count id ≤ 1) :
    Mirrors (values ++ owners) (counted.setCount id (counted.count id - 1)) arrays ∧
      ∀ other, (counted.setCount id (counted.count id - 1)).count other = 0 →
        counted.count other = 0 := by
  have hcounts : ∀ other, (counted.setCount id (counted.count id - 1)).count other = 0 ↔
      counted.count other = 0 := fun other => by
    rw [CountedArrays.count_setCount]
    split
    · next hboth =>
      rw [hboth.1]
      omega
    · exact Iff.rfl
  refine ⟨⟨h.balanced.discount hv, h.size, fun other hpos => ?_⟩, fun other => (hcounts other).1⟩
  exact h.elements other
    (Nat.pos_of_ne_zero fun hzero => Nat.ne_of_gt hpos ((hcounts other).2 hzero))

end Release

end Mirrors

/-- Counted arrays stand for plain ones, and the arrays without a holder are freed and empty. -/
structure Reclaims (owners : List Value) (counted : CountedArrays) (arrays : Arrays) : Prop where
  mirrors : Mirrors owners counted arrays
  freed : ∀ id, counted.count id = 0 → arrays.Freed owners id
  emptied : ∀ id, counted.count id = 0 → counted.arrays.elements id = []

namespace Reclaims

variable {owners others : List Value} {counted later : CountedArrays} {arrays : Arrays}

/-- A change that frees nothing and leaves what is freed alone. -/
theorem keep {after : Arrays} (h : Reclaims owners counted arrays)
    (hmirrors : Mirrors others later after)
    (hdead : ∀ id, later.count id = 0 → counted.count id = 0 ∧
      later.arrays.elements id = counted.arrays.elements id ∧
      after.elements id = arrays.elements id) : Reclaims others later after where
  mirrors := hmirrors
  freed := fun id hid =>
    hmirrors.freed_carry (h.freed id (hdead id hid).1) hid fun holder hholder =>
      (hdead holder hholder).2.2
  emptied := fun id hid => (hdead id hid).2.1.trans (h.emptied id (hdead id hid).1)

/-- The order of the owners does not matter. -/
theorem perm (h : Reclaims owners counted arrays) (hperm : owners.Perm others) :
    Reclaims others counted arrays :=
  h.keep (h.mirrors.perm hperm) fun _ hid => ⟨hid, rfl, rfl⟩

/-- One more holder of a value that is held. -/
theorem retain (h : Reclaims owners counted arrays) {v : Value}
    (hv : ∀ id, v.array? = some id → 0 < counted.count id) :
    Reclaims (v :: owners) (counted.retain v) arrays := by
  refine h.keep (h.mirrors.retain hv) fun id hid => ?_
  have hle := counted.count_le_retain v id
  rw [CountedArrays.arrays_retain]
  exact ⟨by omega, rfl, rfl⟩

/-- A new array is not freed. -/
theorem create {elements : List Value} (h : Reclaims (elements ++ owners) counted arrays) :
    Reclaims (.array (counted.create elements).1 :: owners) (counted.create elements).2
      (arrays.create elements).2 := by
  refine h.keep h.mirrors.create.2 fun id hid => ?_
  rw [CountedArrays.count_create] at hid
  split at hid
  · cases hid
  · next hne =>
    rw [h.mirrors.balanced.size] at hne
    exact ⟨hid, Arrays.elements_create_ne elements hne,
      Arrays.elements_create_ne elements (h.mirrors.size ▸ hne)⟩

/-- A value that is no array is let go of. -/
theorem of_array?_none {v : Value} (h : Reclaims (v :: owners) counted arrays)
    (hv : v.array? = none) : Reclaims owners counted arrays :=
  h.keep ⟨h.mirrors.balanced.of_array?_none hv, h.mirrors.size, h.mirrors.elements⟩
    fun _ hid => ⟨hid, rfl, rfl⟩

/-- An array with one holder that lets go of it is freed: nothing else holds it, and its elements
are in hand. -/
theorem free {values : List Value} {v : Value} {id : ArrayId}
    (h : Reclaims (v :: values ++ owners) counted arrays) (hv : v.array? = some id)
    (hcount : counted.count id ≤ 1) :
    Reclaims (counted.arrays.elements id ++ values ++ owners) (counted.free id) arrays := by
  have hmirrors := h.mirrors.free hv hcount
  have hheld : 0 < counted.count id := h.mirrors.balanced.count_of_mem List.mem_cons_self hv
  have hbefore : ∀ other, other ≠ id → (counted.free id).count other = 0 →
      counted.count other = 0 := fun other hne hdead => by
    rwa [h.mirrors.count_free hheld, if_neg hne] at hdead
  refine ⟨hmirrors, fun other hdead => ?_, fun other hdead => ?_⟩
  · by_cases hsame : other = id
    · subst hsame
      refine hmirrors.freed_intro hdead fun holder hholder w hw harray => ?_
      by_cases hself : holder = other
      · -- It does not hold itself: its elements are in hand, and among them it would count.
        rw [hself, ← h.mirrors.elements other hheld] at hw
        have hpos := hmirrors.balanced.count_of_mem
          (List.mem_append_left owners (List.mem_append_left values hw)) harray
        omega
      · exact hmirrors.freed_carry (h.freed holder (hbefore holder hself hholder)) hholder
          fun _ _ => rfl
    · exact hmirrors.freed_carry (h.freed other (hbefore other hsame hdead)) hdead fun _ _ => rfl
  · by_cases hsame : other = id
    · rw [hsame]
      exact Arrays.elements_replace counted.arrays id [] (h.mirrors.balanced.lt_of_count hheld)
    · exact (Arrays.elements_replace_ne counted.arrays id other [] hsame).trans
        (h.emptied other (hbefore other hsame hdead))

/-- Letting go of values frees exactly what nothing holds any more. -/
theorem release {values : List Value} (h : Reclaims (values ++ owners) counted arrays) :
    Reclaims owners (counted.release values) arrays := by
  induction counted, values using CountedArrays.release.induct with
  | case1 counted =>
    rw [CountedArrays.release]
    exact h
  | case2 counted v rest hnone ih =>
    rw [CountedArrays.release, hnone]
    exact ih (h.of_array?_none hnone)
  | case3 counted v rest id harray hcount ih =>
    rw [CountedArrays.release, harray]
    simp only [if_pos hcount]
    exact ih (h.free harray hcount)
  | case4 counted v rest id harray hcount ih =>
    rw [CountedArrays.release, harray]
    simp only [if_neg hcount]
    rcases h.mirrors.discount harray hcount with ⟨hmirrors, hdead⟩
    exact ih (h.keep hmirrors fun other hzero => ⟨hdead other hzero, rfl, rfl⟩)

/-- An array that is held gets new elements. -/
theorem replace {id : ArrayId} {handed left list : List Value}
    (h : Reclaims (handed ++ owners) counted arrays) (hid : 0 < counted.count id)
    (hlist : ∀ other, occurrences other list + occurrences other left =
      occurrences other (counted.arrays.elements id) + occurrences other handed) :
    Reclaims (left ++ owners) { counted with arrays := counted.arrays.replace id list }
      (arrays.replace id list) := by
  refine h.keep (h.mirrors.replace hid hlist) fun other hdead => ?_
  have hcount : counted.count other = 0 := hdead
  have hne : other ≠ id := by
    rintro rfl
    omega
  exact ⟨hcount, Arrays.elements_replace_ne _ _ _ _ hne, Arrays.elements_replace_ne _ _ _ _ hne⟩

/-- What is freed has no holder: it is not held outside, and what has it in a slot is freed and
empty. -/
theorem count_of_freed (h : Reclaims owners counted arrays) {id : ArrayId}
    (hfreed : arrays.Freed owners id) : counted.count id = 0 := by
  induction hfreed with
  | @intro id howners _ ih =>
    rw [h.mirrors.balanced.count id, Nat.add_eq_zero_iff]
    constructor
    · exact List.countP_eq_zero.2 fun v hv => by simpa using howners v hv
    · refine List.countP_eq_zero.2 fun v hv harray => ?_
      rcases Arrays.exists_mem_elements hv with ⟨holder, hholder⟩
      have hpos : 0 < counted.count holder := Nat.pos_of_ne_zero fun hzero => by
        rw [h.emptied holder hzero] at hholder
        cases hholder
      rw [h.mirrors.elements holder hpos] at hholder
      have hzero := ih holder v hholder (by simpa using harray)
      omega

/-- The freed arrays are those without a holder. -/
theorem count_eq_zero_iff (h : Reclaims owners counted arrays) (id : ArrayId) :
    counted.count id = 0 ↔ arrays.Freed owners id :=
  ⟨h.freed id, h.count_of_freed⟩

end Reclaims

/-- Freeing what nothing holds any more is an invariant. -/
theorem reclaims_invariant : MirrorInvariant Reclaims where
  mirrors := Reclaims.mirrors
  perm := fun h hperm => h.perm hperm
  retain := fun h hv => h.retain hv
  create := Reclaims.create
  release := Reclaims.release
  replace := Reclaims.replace

/-! ## Freed for good -/

/-- Counted arrays stand for plain ones, and an array that was created has no holder. -/
structure Buried (dead : ArrayId) (owners : List Value) (counted : CountedArrays)
    (arrays : Arrays) : Prop where
  mirrors : Mirrors owners counted arrays
  created : dead.index < counted.arrays.lists.size
  uncounted : counted.count dead = 0

namespace Buried

variable {dead : ArrayId} {owners : List Value} {counted : CountedArrays} {arrays : Arrays}

/-- A value that is held is not the array. -/
theorem retain (h : Buried dead owners counted arrays) {v : Value}
    (hv : ∀ id, v.array? = some id → 0 < counted.count id) :
    Buried dead (v :: owners) (counted.retain v) arrays := by
  refine ⟨h.mirrors.retain hv, by simpa using h.created, ?_⟩
  unfold CountedArrays.retain
  cases harray : v.array? with
  | none => exact h.uncounted
  | some held =>
    have hne : dead ≠ held := by
      rintro rfl
      exact Nat.ne_of_gt (hv dead harray) h.uncounted
    simp only
    rw [CountedArrays.count_setCount, if_neg fun hboth => hne hboth.1]
    exact h.uncounted

/-- A new array is another one. -/
theorem create {elements : List Value} (h : Buried dead (elements ++ owners) counted arrays) :
    Buried dead (.array (counted.create elements).1 :: owners) (counted.create elements).2
      (arrays.create elements).2 := by
  have hsize : (counted.create elements).2.arrays.lists.size = counted.arrays.lists.size + 1 := by
    simp [CountedArrays.create, Arrays.create]
  have hne : dead.index ≠ counted.counts.size := h.mirrors.balanced.size ▸ Nat.ne_of_lt h.created
  refine ⟨h.mirrors.create.2, hsize ▸ Nat.lt_succ_of_lt h.created, ?_⟩
  rw [CountedArrays.count_create, if_neg hne]
  exact h.uncounted

/-- Counts fall when values are let go of. -/
theorem release {values : List Value} (h : Buried dead (values ++ owners) counted arrays) :
    Buried dead owners (counted.release values) arrays where
  mirrors := h.mirrors.release
  created := counted.size_release values ▸ h.created
  uncounted := Nat.le_zero.1 (h.uncounted ▸ counted.count_release_le values dead)

end Buried

/-- No change gives an array without a holder one. -/
theorem buried_invariant (dead : ArrayId) : MirrorInvariant (Buried dead) where
  mirrors := Buried.mirrors
  perm := fun h hperm => ⟨h.mirrors.perm hperm, h.created, h.uncounted⟩
  retain := fun h hv => h.retain hv
  create := Buried.create
  release := Buried.release
  replace := fun h hid hlist =>
    ⟨h.mirrors.replace hid hlist, by simpa using h.created, h.uncounted⟩

/-! ## Numbers of names and slots -/

/-- The members of a list without repetitions are as many as it is long. -/
theorem encard_of_nodup {α : Type} [DecidableEq α] {list : List α} (h : list.Nodup) :
    {x | x ∈ list}.encard = list.length := by
  rw [← List.coe_toFinset, Set.encard_coe_eq_coe_finsetCard, List.toFinset_card_of_nodup h]

/-- A tidy name holds what is entered under it. -/
theorem Names.Tidy.get?_eq_some_iff {α : Type} {names : Names α} (h : names.Tidy) {name : String}
    {x : α} : names.get? name = some x ↔ (name, x) ∈ names.entries := by
  constructor
  · intro hget
    rcases Option.map_eq_some_iff.1 hget with ⟨entry, hfound, rfl⟩
    have hname : entry.1 = name := by simpa using List.find?_some hfound
    exact hname ▸ List.mem_of_find?_eq_some hfound
  · intro hmem
    have hsome : (names.entries.find? fun entry => entry.1 == name).isSome :=
      List.find?_isSome.2 ⟨_, hmem, by simp⟩
    rcases Option.isSome_iff_exists.1 hsome with ⟨entry, hfound⟩
    have hname : entry.1 = name := by simpa using List.find?_some hfound
    have hsame : entry = (name, x) :=
      List.inj_on_of_nodup_map h (List.mem_of_find?_eq_some hfound) hmem hname
    unfold Names.get?
    rw [hfound, hsame]
    rfl

/-- Among what tidy names hold an array occurs once for each name that holds it. -/
theorem Names.Tidy.encard_names {names : Names Value} (h : names.Tidy) (id : ArrayId) :
    {name | ((names.get? name).getD .invalid).array? = some id}.encard =
      occurrences id names.held := by
  have hnames : {name | ((names.get? name).getD .invalid).array? = some id} =
      {name | name ∈ (names.entries.filter fun entry =>
        entry.2.array? == some id).map Prod.fst} := by
    ext name
    simp only [Set.mem_ofPred_eq, List.mem_map, List.mem_filter, beq_iff_eq, Prod.exists,
      exists_and_right, exists_eq_right, ← h.get?_eq_some_iff]
    cases names.get? name with
    | none => simp [Value.array?]
    | some v => simp
  rw [hnames, encard_of_nodup (List.Nodup.sublist (List.filter_sublist.map Prod.fst) h),
    List.length_map, ← List.countP_eq_length_filter]
  unfold occurrences Names.held
  rw [List.countP_map]
  rfl

/-- Positions of a list, each with the members of a set that belongs to what stands there, are as
many as the members of all these sets. -/
theorem encard_positions {β γ : Type} (list : List β) (members : β → Set γ) :
    {p : Nat × γ | ∃ x, list[p.1]? = some x ∧ p.2 ∈ members x}.encard =
      (list.map fun x => (members x).encard).sum := by
  induction list with
  | nil => simp
  | cons x rest ih =>
    have hsplit : {p : Nat × γ | ∃ y, (x :: rest)[p.1]? = some y ∧ p.2 ∈ members y} =
        Prod.mk 0 '' members x ∪
          Prod.map Nat.succ id '' {p : Nat × γ | ∃ y, rest[p.1]? = some y ∧ p.2 ∈ members y} := by
      ext ⟨i, c⟩
      cases i with
      | zero => simp
      | succ i => simp
    have hdisjoint : Disjoint (Prod.mk 0 '' members x)
        (Prod.map Nat.succ id ''
          {p : Nat × γ | ∃ y, rest[p.1]? = some y ∧ p.2 ∈ members y}) := by
      refine Set.disjoint_left.2 ?_
      rintro _ ⟨c, -, rfl⟩ ⟨p, -, hp⟩
      exact Nat.succ_ne_zero _ (congrArg Prod.fst hp)
    rw [hsplit, Set.encard_union_eq hdisjoint,
      (Prod.mk_right_injective 0).encard_image,
      (Nat.succ_injective.prodMap Function.injective_id).encard_image, ih]
    rfl

/-- An array occurs among values once for each position that it stands at. -/
theorem encard_occurrences (id : ArrayId) (values : List Value) :
    {position : Nat | values[position]?.bind Value.array? = some id}.encard =
      occurrences id values := by
  have hpositions : {position : Nat | values[position]?.bind Value.array? = some id} =
      {position | position ∈ (values.zipIdx.filter fun p =>
        p.1.array? == some id).map Prod.snd} := by
    ext position
    simp [List.mem_zipIdx_iff_getElem?, Option.bind_eq_some_iff, and_comm]
  have hnodup : (values.zipIdx.map Prod.snd).Nodup := by
    rw [List.zipIdx_map_snd]
    exact List.nodup_range'
  rw [hpositions, encard_of_nodup (List.Nodup.sublist (List.filter_sublist.map Prod.snd) hnodup),
    List.length_map, ← List.countP_eq_length_filter]
  unfold occurrences
  conv_rhs => rw [← List.zipIdx_map_fst 0 values, List.countP_map]
  rfl

/-- An array occurs in slots once for each slot that it stands in. -/
theorem Arrays.encard_slots (arrays : Arrays) (id : ArrayId) :
    {slot : ArrayId × Nat | (arrays.at? slot.1 slot.2).bind Value.array? = some id}.encard =
      occurrences id arrays.slotValues := by
  have hslots : {slot : ArrayId × Nat | (arrays.at? slot.1 slot.2).bind Value.array? = some id} =
      Prod.map ArrayId.mk (fun position => position) ''
        {p : Nat × Nat | ∃ list, arrays.lists.toList[p.1]? = some list ∧
          p.2 ∈ {position : Nat | list[position]?.bind Value.array? = some id}} := by
    ext ⟨⟨i⟩, position⟩
    cases hlist : arrays.lists[i]? with
    | none => simp [at?, elements, hlist]
    | some list => simp [at?, elements, hlist]
  have hinjective : Function.Injective (Prod.map ArrayId.mk fun position : Nat => position) :=
    Function.Injective.prodMap (fun _ _ h => congrArg ArrayId.index h) fun _ _ h => h
  rw [hslots, hinjective.encard_image, encard_positions]
  simp only [encard_occurrences]
  unfold occurrences slotValues
  rw [List.countP_flatten, Nat.cast_list_sum, List.map_map]
  rfl

/-! ## What a step takes away -/

/-- The elements that a step takes out of the array that it edits. -/
def HolderStep.taken (elements : List Value) : HolderStep → List Value
  | .erase _ position | .replace _ position _ => elements[position]?.toList
  | .clear _ => elements
  | .insert .. | .push .. | .store .. | .drop _ | .compare .. => []

/-- An edit keeps every element but those that the step takes away. -/
theorem HolderStep.mem_of_edit? {step : HolderStep} {v w : Value} {elements list : List Value}
    (hedit : step.edit? w elements = some list) (hmem : v ∈ elements) :
    v ∈ list ∨ v ∈ step.taken elements := by
  cases step with
  | insert name position draft =>
    simp only [edit?] at hedit
    split at hedit
    · next hrange =>
      cases hedit
      exact .inl ((List.mem_insertIdx hrange).2 (.inr hmem))
    · cases hedit
  | push name draft =>
    cases hedit
    exact .inl (List.mem_append_left _ hmem)
  | erase name position =>
    simp only [edit?] at hedit
    split at hedit
    · next hrange =>
      cases hedit
      rw [← (List.getElem_cons_eraseIdx_perm hrange).mem_iff, List.mem_cons] at hmem
      exact hmem.symm.imp_right fun heq => by simp [taken, hrange, heq]
    · cases hedit
  | replace name position draft =>
    simp only [edit?] at hedit
    split at hedit
    · next hrange =>
      cases hedit
      rw [← (List.getElem_cons_eraseIdx_perm hrange).mem_iff, List.mem_cons] at hmem
      rw [(List.set_perm_cons_eraseIdx hrange w).mem_iff, List.mem_cons]
      rcases hmem with heq | hrest
      · exact .inr (by simp [taken, hrange, heq])
      · exact .inl (.inr hrest)
    · cases hedit
  | clear name => exact .inr hmem
  | store name draft =>
    cases hedit
    exact .inl hmem
  | drop name =>
    cases hedit
    exact .inl hmem
  | compare name draft =>
    cases hedit
    exact .inl hmem

namespace PlainHolders

variable {plain : PlainHolders} {id : ArrayId} {v : Value}

/-- The array that a step edits under a name, if the name holds one. -/
def edited? (plain : PlainHolders) (step : HolderStep) : Option ArrayId :=
  step.edits?.bind fun name => (plain.value name).array?

/-- Looking for the array under a name leaves the arrays that are there alone, and a new one is
none of them. -/
theorem arrayOf_keeps (plain : PlainHolders) (name : String)
    (hlt : id.index < plain.arrays.lists.size) :
    (plain.arrayOf name).2.arrays.elements id = plain.arrays.elements id ∧
      ((plain.arrayOf name).1 = id → (plain.value name).array? = some id) := by
  unfold arrayOf
  cases harray : (plain.value name).array? with
  | some held => exact ⟨rfl, congrArg some⟩
  | none =>
    refine ⟨Arrays.elements_create_of_lt [] hlt, ?_⟩
    rintro rfl
    exact absurd hlt (Nat.lt_irrefl _)

/-- An edit keeps every element but those that its step takes out of the array that is edited. -/
theorem edit_keeps {target : ArrayId} {step : HolderStep} (w : Value)
    (hmem : v ∈ plain.arrays.elements id) :
    v ∈ (plain.edit target fun elements => step.edit? w elements).2.arrays.elements id ∨
      target = id ∧ v ∈ step.taken (plain.arrays.elements id) := by
  unfold edit
  cases hedit : step.edit? w (plain.arrays.elements target) with
  | none =>
    simp only [hedit]
    exact .inl hmem
  | some list =>
    simp only [hedit]
    by_cases hsame : target = id
    · subst hsame
      rw [Arrays.elements_replace _ _ _ (Arrays.lt_of_mem_elements hmem)]
      exact (step.mem_of_edit? hedit hmem).imp_right fun htaken => ⟨rfl, htaken⟩
    · rw [Arrays.elements_replace_ne _ _ _ _ fun heq => hsame heq.symm]
      exact .inl hmem

/-- Making a value and editing through a name keep every element but those that the step takes
out of the array under the name. -/
theorem make_edit_keeps {step : HolderStep} {name : String} {arrays : Arrays} (w : Value)
    (hkept : arrays.elements id = plain.arrays.elements id)
    (hmem : v ∈ plain.arrays.elements id) :
    let target := ({ plain with arrays := arrays } : PlainHolders).arrayOf name
    v ∈ (target.2.edit target.1 fun elements => step.edit? w elements).2.arrays.elements id ∨
      (plain.value name).array? = some id ∧ v ∈ step.taken (plain.arrays.elements id) := by
  intro target
  rw [← hkept] at hmem
  have hfound := ({ plain with arrays := arrays } : PlainHolders).arrayOf_keeps name
    (Arrays.lt_of_mem_elements hmem)
  have hinside : v ∈ target.2.arrays.elements id := hfound.1 ▸ hmem
  refine (edit_keeps w hinside).imp_right fun ⟨htarget, htaken⟩ => ⟨hfound.2 htarget, ?_⟩
  rwa [hfound.1, show arrays.elements id = _ from hkept] at htaken

/-- A step keeps every element of every array but those that it takes out of the one that it
edits. -/
theorem perform_keeps (step : HolderStep) (hmem : v ∈ plain.arrays.elements id) :
    v ∈ (plain.perform step).2.arrays.elements id ∨
      plain.edited? step = some id ∧ v ∈ step.taken (plain.arrays.elements id) := by
  have hkept :
      (step.draft.make plain.value plain.arrays).2.elements id = plain.arrays.elements id :=
    (step.draft.make_keeps plain.arrays).2 id (Arrays.lt_of_mem_elements hmem)
  cases step with
  | store name draft => exact .inl (hkept ▸ hmem)
  | drop name => exact .inl hmem
  | compare name draft => exact .inl (hkept ▸ hmem)
  | insert name position draft => exact make_edit_keeps _ hkept hmem
  | push name draft => exact make_edit_keeps _ hkept hmem
  | erase name position => exact make_edit_keeps _ hkept hmem
  | replace name position draft => exact make_edit_keeps _ hkept hmem
  | clear name => exact make_edit_keeps _ hkept hmem

/-! ## Circles -/

/-- A step takes an array of a circle out of a slot of an array of the circle. -/
def Cuts (plain : PlainHolders) (step : HolderStep) (ring : List ArrayId) : Prop :=
  ∃ holder ∈ ring, plain.edited? step = some holder ∧
    ∃ v ∈ step.taken (plain.arrays.elements holder), ∃ id ∈ ring, v.array? = some id

/-- A circle is parted by taking one of its slots away. -/
theorem perform_circular {ring : List ArrayId} (step : HolderStep)
    (h : plain.arrays.Circular ring) (hcuts : ¬plain.Cuts step ring) :
    (plain.perform step).2.arrays.Circular ring := by
  intro id hid
  rcases h id hid with ⟨holder, hholder, v, hmem, harray⟩
  rcases perform_keeps step hmem with hkept | ⟨hedited, htaken⟩
  · exact ⟨holder, hholder, v, hkept, harray⟩
  · exact absurd ⟨holder, hholder, hedited, v, htaken, id, hid, harray⟩ hcuts

/-- One of some steps parts a circle: the circle is whole before the step and not behind it, and
the step takes one of its slots away. -/
def Parts (plain : PlainHolders) (steps : List HolderStep) (ring : List ArrayId) : Prop :=
  ∃ before step after, steps = before ++ step :: after ∧
    (plain.run before).2.arrays.Circular ring ∧ (plain.run before).2.Cuts step ring ∧
      ¬((plain.run before).2.perform step).2.arrays.Circular ring

/-- A circle stays whole until a step parts it. -/
theorem run_circular {ring : List ArrayId} (steps : List HolderStep)
    (h : plain.arrays.Circular ring) :
    (plain.run steps).2.arrays.Circular ring ∨ plain.Parts steps ring := by
  induction steps generalizing plain with
  | nil => exact .inl h
  | cons step rest ih =>
    by_cases hafter : (plain.perform step).2.arrays.Circular ring
    · refine (ih hafter).imp_right fun ⟨before, parting, after, hsteps, hparts⟩ => ?_
      exact ⟨step :: before, parting, after, congrArg (List.cons step) hsteps, hparts⟩
    · have hcuts : plain.Cuts step ring := by
        by_contra hspared
        exact hafter (perform_circular step h hspared)
      exact .inr ⟨[], step, rest, rfl, h, hcuts, hafter⟩

/-! ## Holders in the plain model -/

/-- The array is freed: nothing holds it any more. -/
def Freed (plain : PlainHolders) (id : ArrayId) : Prop :=
  plain.arrays.Freed plain.names.held id

/-- The names under which an array is. -/
def namesOf (plain : PlainHolders) (id : ArrayId) : Set String :=
  {name | (plain.value name).array? = some id}

/-- The slots of arrays that are not freed in which an array stands. -/
def slotsOf (plain : PlainHolders) (id : ArrayId) : Set (ArrayId × Nat) :=
  {slot | ¬plain.Freed slot.1 ∧ (plain.arrays.at? slot.1 slot.2).bind Value.array? = some id}

/-- The number of holders of an array: names, and slots of arrays that are not freed. -/
noncomputable def holderCount (plain : PlainHolders) (id : ArrayId) : ℕ∞ :=
  (plain.namesOf id).encard + (plain.slotsOf id).encard

end PlainHolders

/-! ## Counts behind steps -/

namespace Holders

/-- What the counts of holders say about the plain model: which arrays are freed, and how many
holders the others have. -/
structure Accounts (holders : Holders) (plain : PlainHolders) : Prop where
  /-- The same values are under the names. -/
  value : ∀ name, holders.value name = plain.value name
  /-- The number that is told for a name is that of the holders of the array under it. -/
  told : ∀ name id, (holders.value name).array? = some id →
    (holders.holderCount name : ℕ∞) = plain.holderCount id
  /-- The count of an array is the number of its holders. -/
  count : ∀ id, (holders.counted.count id : ℕ∞) = plain.holderCount id
  /-- The count of an array is zero exactly when it is freed. -/
  freed : ∀ id, holders.counted.count id = 0 ↔ plain.Freed id
  /-- A freed array has let go of its elements. -/
  emptied : ∀ id, plain.Freed id → holders.counted.arrays.elements id = []
  /-- Every other array has its elements. -/
  kept : ∀ id, ¬plain.Freed id → holders.counted.arrays.elements id = plain.arrays.elements id

section Accounts

variable {holders : Holders} {plain : PlainHolders} (h : MirroredWith Reclaims holders plain)
include h

/-- The arrays without a holder are those that are freed in the plain model. -/
theorem count_eq_zero_iff (id : ArrayId) : holders.counted.count id = 0 ↔ plain.Freed id := by
  unfold PlainHolders.Freed
  rw [← h.names]
  exact h.arrays.count_eq_zero_iff id

/-- The elements of an array are those of the plain model unless it is freed. -/
theorem elements_of_not_freed {id : ArrayId} (hheld : ¬plain.Freed id) :
    holders.counted.arrays.elements id = plain.arrays.elements id :=
  h.arrays.mirrors.elements id
    (Nat.pos_of_ne_zero fun hzero => hheld ((count_eq_zero_iff h id).1 hzero))

/-- The slots of arrays that are not freed are the slots of counted arrays. -/
theorem slotsOf_eq (id : ArrayId) :
    plain.slotsOf id = {slot : ArrayId × Nat |
      (holders.counted.arrays.at? slot.1 slot.2).bind Value.array? = some id} := by
  ext ⟨holder, position⟩
  simp only [PlainHolders.slotsOf, Set.mem_ofPred_eq, Arrays.at?]
  by_cases hfreed : plain.Freed holder
  · rw [h.arrays.emptied holder ((count_eq_zero_iff h holder).2 hfreed)]
    simp [hfreed]
  · rw [elements_of_not_freed h hfreed]
    simp [hfreed]

/-- The count of an array is the number of its holders. -/
theorem count_eq_holderCount (id : ArrayId) :
    (holders.counted.count id : ℕ∞) = plain.holderCount id := by
  have hnames : (plain.namesOf id).encard = occurrences id holders.names.held := by
    rw [← h.tidy.encard_names id, h.names]
    rfl
  unfold PlainHolders.holderCount
  rw [hnames, slotsOf_eq h, Arrays.encard_slots, h.arrays.mirrors.balanced.count id, Nat.cast_add]

/-- Holders that free what nothing holds any more account for the plain ones. -/
theorem MirroredWith.accounted : holders.Accounts plain where
  value := value_mirrored h
  told := fun name id harray => by
    unfold holderCount
    rw [harray]
    exact count_eq_holderCount h id
  count := count_eq_holderCount h
  freed := count_eq_zero_iff h
  emptied := fun id hfreed => h.arrays.emptied id ((count_eq_zero_iff h id).2 hfreed)
  kept := fun _ hheld => elements_of_not_freed h hheld

/-- A freed array has no holder behind further steps. -/
theorem count_run_of_freed {id : ArrayId} (hcreated : id.index < holders.counted.arrays.lists.size)
    (hzero : holders.counted.count id = 0) (more : List HolderStep) :
    (holders.run more).2.counted.count id = 0 := by
  have hburied : MirroredWith (Buried id) holders plain :=
    ⟨h.names, h.tidy, h.arrays.mirrors, hcreated, hzero⟩
  exact (run_preserves (buried_invariant id) hburied more).2.arrays.uncounted

/-- The arrays of a circle have holders behind further steps, unless one of these parts it. -/
theorem count_run_of_circular {ring : List ArrayId} (hring : plain.arrays.Circular ring)
    (more : List HolderStep) :
    (∀ id ∈ ring, 0 < (holders.run more).2.counted.count id) ∨ plain.Parts more ring := by
  refine (plain.run_circular more hring).imp_left fun hwhole id hid => ?_
  refine Nat.pos_of_ne_zero fun hzero => ?_
  have hafter := (run_preserves reclaims_invariant h more).2
  have hfreed : (plain.run more).2.Freed id := (count_eq_zero_iff hafter id).1 hzero
  exact Arrays.Freed.not_mem hfreed hwhole hid

end Accounts

/-- No holders free nothing. -/
theorem reclaims_empty : MirroredWith Reclaims empty .empty where
  names := rfl
  tidy := List.nodup_nil
  arrays := by
    have helements : ∀ id, Arrays.empty.elements id = [] := fun _ => rfl
    refine ⟨mirrored_empty.arrays, fun id _ => .intro (fun v hv => ?_) fun holder v hv => ?_,
      fun _ _ => rfl⟩
    · cases hv
    · rw [show PlainHolders.empty.arrays.elements holder = [] from helements holder] at hv
      cases hv

/-- Behind any sequence of steps the count of an array is the number of names that hold it and of
slots of arrays that are not freed in which it stands, and it is zero exactly for the freed arrays,
which have let go of their elements.  A freed array stays freed whatever follows.  Arrays that hold
one another in a circle keep holders until a step takes a slot of the circle away. -/
theorem run_counted (steps : List HolderStep) :
    (empty.run steps).2.Accounts (PlainHolders.empty.run steps).2 ∧
      (∀ id : ArrayId, id.index < (empty.run steps).2.counted.arrays.lists.size →
        (empty.run steps).2.counted.count id = 0 →
        ∀ more, ((empty.run steps).2.run more).2.counted.count id = 0) ∧
      ∀ ring, (PlainHolders.empty.run steps).2.arrays.Circular ring → ∀ more,
        (∀ id ∈ ring, 0 < ((empty.run steps).2.run more).2.counted.count id) ∨
          (PlainHolders.empty.run steps).2.Parts more ring := by
  have hreclaims := (run_preserves reclaims_invariant reclaims_empty steps).2
  exact ⟨hreclaims.accounted, fun _ => count_run_of_freed hreclaims,
    fun _ => count_run_of_circular hreclaims⟩

-- An array that was pushed to itself holds itself when its name is forgotten.
example : (empty.run [.store "a" (.array []), .push "a" (.held "a"), .drop "a"]).2.counted.count
    ⟨0⟩ = 1 := by decide +kernel

-- Clearing it first parts the circle.
example : (empty.run [.store "a" (.array []), .push "a" (.held "a"), .clear "a",
    .drop "a"]).2.counted.count ⟨0⟩ = 0 := by decide +kernel

end Holders

end ScriptMachine
