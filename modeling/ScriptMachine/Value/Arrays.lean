import ScriptMachine.Value.Basic

/-!
# The shared arrays of a machine

An array is an identity with one list of values.  Creating an array hands out a fresh
identity; every other operation changes the list of one identity, or reports that a
position is out of range and changes nothing.

Main results:

- {lit}`Arrays.elements_create`: a new array has the given elements.
- {lit}`Arrays.elements_replace` and {lit}`Arrays.elements_replace_ne`: an update changes
  the list of its identity and no other.
-/

namespace ScriptMachine

/-- The lists of all arrays created so far, in order of creation. -/
structure Arrays where
  lists : Array (List Value)

namespace Arrays

/-- No array exists yet. -/
def empty : Arrays := ⟨#[]⟩

instance : Inhabited Arrays := ⟨empty⟩

/-! ## Creation and reading -/

/-- Creates an array with the given elements. -/
def create (arrays : Arrays) (elements : List Value) : ArrayId × Arrays :=
  (⟨arrays.lists.size⟩, ⟨arrays.lists.push elements⟩)

/-- The elements of an array; an identity that was never handed out has none. -/
def elements (arrays : Arrays) (id : ArrayId) : List Value :=
  arrays.lists[id.index]?.getD []

/-- The number of elements of an array. -/
def size (arrays : Arrays) (id : ArrayId) : Nat :=
  (arrays.elements id).length

/-- The element at a position. -/
def at? (arrays : Arrays) (id : ArrayId) (position : Nat) : Option Value :=
  (arrays.elements id)[position]?

/-! ## Updates -/

/-- Gives an array a new list of elements. -/
def replace (arrays : Arrays) (id : ArrayId) (elements : List Value) : Arrays :=
  ⟨arrays.lists.setIfInBounds id.index elements⟩

/-- Appends an element. -/
def push (arrays : Arrays) (id : ArrayId) (v : Value) : Arrays :=
  arrays.replace id (arrays.elements id ++ [v])

/-- Inserts an element before a position; the position behind the last element appends. -/
def insert? (arrays : Arrays) (id : ArrayId) (v : Value) (position : Nat) : Option Arrays :=
  if position ≤ arrays.size id then
    some (arrays.replace id ((arrays.elements id).insertIdx position v))
  else none

/-- Removes the element at a position. -/
def erase? (arrays : Arrays) (id : ArrayId) (position : Nat) : Option Arrays :=
  if position < arrays.size id then
    some (arrays.replace id ((arrays.elements id).eraseIdx position))
  else none

/-- Replaces the element at a position. -/
def set? (arrays : Arrays) (id : ArrayId) (position : Nat) (v : Value) : Option Arrays :=
  if position < arrays.size id then
    some (arrays.replace id ((arrays.elements id).set position v))
  else none

/-- Removes every element. -/
def clear (arrays : Arrays) (id : ArrayId) : Arrays :=
  arrays.replace id []

/-! ## The view by identity -/

/-- A new array has the given elements. -/
theorem elements_create (arrays : Arrays) (elements : List Value) :
    (arrays.create elements).2.elements (arrays.create elements).1 = elements := by
  simp [create, Arrays.elements]

/-- Creation leaves the arrays that are there alone. -/
theorem elements_create_of_lt {arrays : Arrays} {id : ArrayId} (elements : List Value)
    (h : id.index < arrays.lists.size) :
    (arrays.create elements).2.elements id = arrays.elements id := by
  have hne : id.index ≠ arrays.lists.size := Nat.ne_of_lt h
  simp [create, Arrays.elements, Array.getElem?_push, hne]

/-- An update gives its array the new list. -/
theorem elements_replace (arrays : Arrays) (id : ArrayId) (elements : List Value)
    (h : id.index < arrays.lists.size) : (arrays.replace id elements).elements id = elements := by
  simp [replace, Arrays.elements, h]

/-- An update leaves every other array alone. -/
theorem elements_replace_ne (arrays : Arrays) (id other : ArrayId) (elements : List Value)
    (h : other ≠ id) : (arrays.replace id elements).elements other = arrays.elements other := by
  have hindex : id.index ≠ other.index := fun heq => h (by cases id; cases other; simp_all)
  simp [replace, Arrays.elements, hindex]

@[simp]
theorem size_lists_replace (arrays : Arrays) (id : ArrayId) (list : List Value) :
    (arrays.replace id list).lists.size = arrays.lists.size :=
  Array.size_setIfInBounds

@[simp]
theorem size_lists_clear (arrays : Arrays) (id : ArrayId) :
    (arrays.clear id).lists.size = arrays.lists.size :=
  arrays.size_lists_replace id []

end Arrays
end ScriptMachine
