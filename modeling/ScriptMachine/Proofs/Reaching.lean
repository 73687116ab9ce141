import ScriptMachine.Value.Snapshot

/-!
# Reached arrays

Values reach the arrays among them and, through the elements of these, further ones.  What a value
looks like depends on the elements of the arrays that it reaches and on nothing else.

Main results:

- {lit}`Arrays.Reaches`: the arrays that values reach.
- {lit}`Arrays.snapshotWithin_congr`: values look the same where the arrays that they reach have
  the same elements.
-/

namespace ScriptMachine
namespace Arrays

/-- The arrays that values reach. -/
inductive Reaches (arrays : Arrays) (values : List Value) : ArrayId → Prop where
  /-- An array among the values. -/
  | held {v : Value} {id : ArrayId} (hmem : v ∈ values) (harray : v.array? = some id) :
      Reaches arrays values id
  /-- An element of an array that is reached. -/
  | slot {holder : ArrayId} {v : Value} {id : ArrayId} (hholder : Reaches arrays values holder)
      (hmem : v ∈ arrays.elements holder) (harray : v.array? = some id) : Reaches arrays values id

section Reaches

variable {arrays others : Arrays} {values : List Value} {id : ArrayId}

/-- What is reached through values that lead to reached arrays only is reached. -/
theorem Reaches.trans {further : List Value} (h : arrays.Reaches further id)
    (hfurther : ∀ v ∈ further, ∀ other, v.array? = some other → arrays.Reaches values other) :
    arrays.Reaches values id := by
  induction h with
  | held hmem harray => exact hfurther _ hmem _ harray
  | slot _ hmem harray ih => exact ih.slot hmem harray

/-- More values reach more arrays. -/
theorem Reaches.mono {further : List Value} (h : arrays.Reaches values id)
    (hsub : ∀ v ∈ values, v ∈ further) : arrays.Reaches further id :=
  h.trans fun v hv _ harray => .held (hsub v hv) harray

/-- A value looks the same where the arrays that it reaches have the same elements. -/
theorem snapshotWithin_congr {v : Value}
    (hsame : ∀ other, arrays.Reaches [v] other → arrays.elements other = others.elements other)
    (depth : Nat) : arrays.snapshotWithin depth v = others.snapshotWithin depth v := by
  induction depth generalizing v with
  | zero => cases v <;> rfl
  | succ depth ih =>
    cases v with
    | array id =>
      have hreached : arrays.Reaches [.array id] id := .held List.mem_cons_self rfl
      unfold snapshotWithin
      rw [← hsame id hreached]
      refine congrArg Snapshot.array (List.map_congr_left fun element hmem => ih ?_)
      intro other hother
      refine hsame other (hother.trans fun w hw inner harray => ?_)
      rw [List.mem_singleton.1 hw] at harray
      exact hreached.slot hmem harray
    | _ => rfl

end Reaches
end Arrays
end ScriptMachine
