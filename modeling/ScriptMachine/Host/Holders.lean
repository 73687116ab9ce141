import ScriptMachine.Host.Draft
import ScriptMachine.Host.Names

/-!
# Holders of values

A host holds values under names and works on their arrays.  Copying a value shares its
array; every holder is counted.

Main results:

- {lit}`Holders.perform`: the answer to a step.
- {lit}`Holders.holderCount`: how many holders the array under a name has.
-/

namespace ScriptMachine

/-! ## Steps and answers -/

/-- What a host does with its holders. -/
inductive HolderStep where
  /-- Stores a value under a name. -/
  | store (name : String) (value : Draft)
  /-- Forgets a name. -/
  | drop (name : String)
  /-- Inserts before a position of the array under a name. -/
  | insert (name : String) (position : Nat) (value : Draft)
  /-- Appends to the array under a name. -/
  | push (name : String) (value : Draft)
  /-- Removes an element of the array under a name. -/
  | erase (name : String) (position : Nat)
  /-- Replaces an element of the array under a name. -/
  | replace (name : String) (position : Nat) (value : Draft)
  /-- Removes every element of the array under a name. -/
  | clear (name : String)
  /-- Compares the value under a name with another one. -/
  | compare (name : String) (value : Draft)

/-- What a host is told about a step. -/
inductive HolderAnswer where
  | stored
  | dropped (existed : Bool)
  | equal (b : Bool)
  /-- Whether the array was changed, and its size afterwards. -/
  | edited (ok : Bool) (size : Nat)

/-- Values by name, with counted arrays. -/
structure Holders where
  names : Names Value
  counted : CountedArrays

namespace Holders

/-- Nothing is held. -/
def empty : Holders := ⟨.empty, .empty⟩

/-! ## Reading -/

/-- The value under a name; an unknown name holds the invalid value. -/
def value (holders : Holders) (name : String) : Value :=
  (holders.names.get? name).getD .invalid

/-- The elements of the array under a name; none without an array. -/
def elements (holders : Holders) (name : String) : List Value :=
  match (holders.value name).array? with
  | some id => holders.counted.arrays.elements id
  | none => []

/-- The number of holders of the array under a name; zero without an array. -/
def holderCount (holders : Holders) (name : String) : Nat :=
  match (holders.value name).array? with
  | some id => holders.counted.count id
  | none => 0

/-! ## Steps -/

/-- Makes a value that is handed over to whoever uses it next. -/
def make (holders : Holders) (draft : Draft) : Value × Holders :=
  let (v, counted) := draft.makeCounted holders.value holders.counted
  (v, { holders with counted := counted })

/-- Lets go of values. -/
def release (holders : Holders) (values : List Value) : Holders :=
  { holders with counted := holders.counted.release values }

/-- Stores a value that is handed over and lets go of the one before it. -/
def store (holders : Holders) (name : String) (v : Value) : Holders :=
  let old := holders.value name
  { holders with names := holders.names.set name v }.release [old]

/-- Forgets a name and lets go of its value. -/
def drop (holders : Holders) (name : String) : Holders :=
  let old := holders.value name
  { holders with names := holders.names.drop name }.release [old]

/-- Edits the array under a name.  Without one a new array is edited and thrown away. -/
def edit (holders : Holders) (name : String)
    (change : CountedArrays → ArrayId → Bool × CountedArrays) : HolderAnswer × Holders :=
  match (holders.value name).array? with
  | some id =>
    let (ok, counted) := change holders.counted id
    (.edited ok (counted.arrays.size id), { holders with counted := counted })
  | none =>
    let (id, counted) := holders.counted.create []
    let (ok, counted) := change counted id
    (.edited ok (counted.arrays.size id), { holders with counted := counted.release [.array id] })

/-- The answer to a step. -/
def perform (holders : Holders) : HolderStep → HolderAnswer × Holders
  | .store name draft =>
    let (v, holders) := holders.make draft
    (.stored, holders.store name v)
  | .drop name => (.dropped (holders.names.get? name).isSome, holders.drop name)
  | .insert name position draft =>
    let (v, holders) := holders.make draft
    holders.edit name fun counted id => counted.insert id v position
  | .push name draft =>
    let (v, holders) := holders.make draft
    holders.edit name fun counted id => (true, counted.push id v)
  | .erase name position => holders.edit name fun counted id => counted.erase id position
  | .replace name position draft =>
    let (v, holders) := holders.make draft
    holders.edit name fun counted id => counted.set id position v
  | .clear name => holders.edit name fun counted id => (true, counted.clear id)
  | .compare name draft =>
    let (v, holders) := holders.make draft
    (.equal ((holders.value name).equal v), holders.release [v])

end Holders
end ScriptMachine
