import ScriptMachine.Value.Arrays

/-!
# Arrays with counted holders

A host that keeps values under names can ask how many holders an array has: names and
elements of arrays that hold it.  The count is kept with every step, and an array whose
count falls to zero is freed and lets go of its own elements.  Arrays on a cycle hold each
other and are never freed.

Main results:

- {lit}`CountedArrays.release`: lets go of values, freeing what nothing holds any more.
- {lit}`Arrays.slots_clear`: clearing an array takes exactly its elements away.
-/

namespace ScriptMachine

/-! ## Slots -/

namespace Arrays

/-- The number of elements of all lists together. -/
def totalLength : List (List Value) → Nat
  | [] => 0
  | list :: rest => list.length + totalLength rest

/-- The number of elements of all arrays together. -/
def slots (arrays : Arrays) : Nat :=
  totalLength arrays.lists.toList

/-- Emptying a list inside a list of lists takes its length off the total. -/
theorem totalLength_set (lists : List (List Value)) (i : Nat) :
    totalLength (lists.set i []) + (lists[i]?.getD []).length = totalLength lists := by
  induction lists generalizing i with
  | nil => simp
  | cons first rest ih =>
    cases i with
    | zero => simp [totalLength, Nat.add_comm]
    | succ i =>
      have h := ih i
      simp only [List.set_cons_succ, totalLength, List.getElem?_cons_succ]
      omega

/-- Clearing an array takes exactly its elements away. -/
theorem slots_clear (arrays : Arrays) (id : ArrayId) :
    (arrays.clear id).slots + (arrays.elements id).length = arrays.slots := by
  have h := totalLength_set arrays.lists.toList id.index
  simpa [slots, clear, replace, elements] using h

end Arrays

/-! ## Counts -/

/-- Arrays with the number of holders of each. -/
structure CountedArrays where
  arrays : Arrays
  counts : Array Nat

namespace CountedArrays

/-- No array exists yet. -/
def empty : CountedArrays := ⟨.empty, #[]⟩

/-- The number of holders of an array. -/
def count (counted : CountedArrays) (id : ArrayId) : Nat :=
  counted.counts[id.index]?.getD 0

/-- Sets the number of holders of an array. -/
def setCount (counted : CountedArrays) (id : ArrayId) (n : Nat) : CountedArrays :=
  { counted with counts := counted.counts.setIfInBounds id.index n }

/-- Notes one more holder of a value. -/
def retain (counted : CountedArrays) (v : Value) : CountedArrays :=
  match v.array? with
  | none => counted
  | some id => counted.setCount id (counted.count id + 1)

/-- Empties an array that nothing holds any more. -/
def free (counted : CountedArrays) (id : ArrayId) : CountedArrays :=
  { counted.setCount id 0 with arrays := counted.arrays.clear id }

/-- Lets go of values.  Every one has a holder less; an array without a holder is freed, and
its elements are let go of in turn. -/
def release (counted : CountedArrays) (values : List Value) : CountedArrays :=
  match values with
  | [] => counted
  | v :: rest =>
    match v.array? with
    | none => counted.release rest
    | some id =>
      if counted.count id ≤ 1 then
        (counted.free id).release (counted.arrays.elements id ++ rest)
      else (counted.setCount id (counted.count id - 1)).release rest
termination_by counted.arrays.slots + values.length
decreasing_by
  · simp only [List.length_cons]
    omega
  · have h := counted.arrays.slots_clear id
    simp only [free, List.length_append, List.length_cons]
    omega
  · simp only [setCount, List.length_cons]
    omega

/-! ## Changes -/

/-- Creates an array with one holder; it takes over the given elements. -/
def create (counted : CountedArrays) (elements : List Value) : ArrayId × CountedArrays :=
  let (id, arrays) := counted.arrays.create elements
  (id, ⟨arrays, counted.counts.push 1⟩)

/-- Inserts a value that is handed over, or lets go of it when the position is out of range. -/
def insert (counted : CountedArrays) (id : ArrayId) (v : Value) (position : Nat) :
    Bool × CountedArrays :=
  match counted.arrays.insert? id v position with
  | some arrays => (true, { counted with arrays := arrays })
  | none => (false, counted.release [v])

/-- Appends a value that is handed over. -/
def push (counted : CountedArrays) (id : ArrayId) (v : Value) : CountedArrays :=
  { counted with arrays := counted.arrays.push id v }

/-- Removes an element and lets go of it. -/
def erase (counted : CountedArrays) (id : ArrayId) (position : Nat) : Bool × CountedArrays :=
  match counted.arrays.erase? id position with
  | some arrays =>
    (true, { counted with arrays := arrays }.release (counted.arrays.at? id position).toList)
  | none => (false, counted)

/-- Replaces an element by a value that is handed over, and lets go of whichever is not kept. -/
def set (counted : CountedArrays) (id : ArrayId) (position : Nat) (v : Value) :
    Bool × CountedArrays :=
  match counted.arrays.set? id position v with
  | some arrays =>
    (true, { counted with arrays := arrays }.release (counted.arrays.at? id position).toList)
  | none => (false, counted.release [v])

/-- Removes every element and lets go of it. -/
def clear (counted : CountedArrays) (id : ArrayId) : CountedArrays :=
  { counted with arrays := counted.arrays.clear id }.release (counted.arrays.elements id)

end CountedArrays
end ScriptMachine
