import ScriptMachine.Value.Counted

/-!
# Drafts of values

A host writes values down before they exist: a draft of an array stands for a new array
each time it is made, a name stands for the value held under it, and a name with a position for
an element that is read back from the array held under it.

Main results:

- {lit}`Draft.make`: the value of a draft.
- {lit}`Draft.makeCounted`: the same with counted holders.
-/

namespace ScriptMachine

/-- A value as a host writes it down. -/
inductive Draft where
  | invalid
  | number (x : Float)
  | reference (handle : UInt32)
  | text (s : String)
  /-- A new array. -/
  | array (elements : List Draft)
  /-- The value held under a name. -/
  | held (name : String)
  /-- The element at a position of the array held under a name. -/
  | element (name : String) (position : Nat)

instance : Inhabited Draft := ⟨.invalid⟩

/-- The element that is read back from a value at a position; the invalid value without one. -/
def Arrays.readBack (arrays : Arrays) (v : Value) (position : Nat) : Value :=
  (v.array?.bind fun id => arrays.at? id position).getD .invalid

namespace Draft

mutual

/-- Makes the value of a draft. -/
def make (held : String → Value) : Draft → Arrays → Value × Arrays
  | .invalid, arrays => (.invalid, arrays)
  | .number x, arrays => (.number x, arrays)
  | .reference handle, arrays => (.reference handle, arrays)
  | .text s, arrays => (.text s, arrays)
  | .held name, arrays => (held name, arrays)
  | .element name position, arrays => (arrays.readBack (held name) position, arrays)
  | .array elements, arrays =>
    let (values, arrays) := makeAll held elements arrays
    let (id, arrays) := arrays.create values
    (.array id, arrays)

/-- Makes the values of a list of drafts, from left to right. -/
def makeAll (held : String → Value) : List Draft → Arrays → List Value × Arrays
  | [], arrays => ([], arrays)
  | draft :: rest, arrays =>
    let (v, arrays) := make held draft arrays
    let (values, arrays) := makeAll held rest arrays
    (v :: values, arrays)

end

mutual

/-- Makes the value of a draft; whoever receives it is one more holder. -/
def makeCounted (held : String → Value) : Draft → CountedArrays → Value × CountedArrays
  | .invalid, counted => (.invalid, counted)
  | .number x, counted => (.number x, counted)
  | .reference handle, counted => (.reference handle, counted)
  | .text s, counted => (.text s, counted)
  | .held name, counted => (held name, counted.retain (held name))
  | .element name position, counted =>
    let v := counted.arrays.readBack (held name) position
    (v, counted.retain v)
  | .array elements, counted =>
    let (values, counted) := makeAllCounted held elements counted
    let (id, counted) := counted.create values
    (.array id, counted)

/-- Makes the values of a list of drafts, from left to right. -/
def makeAllCounted (held : String → Value) : List Draft → CountedArrays → List Value × CountedArrays
  | [], counted => ([], counted)
  | draft :: rest, counted =>
    let (v, counted) := makeCounted held draft counted
    let (values, counted) := makeAllCounted held rest counted
    (v :: values, counted)

end

end Draft
end ScriptMachine
