import ScriptMachine.Text.Name
import ScriptMachine.Value.Basic

/-!
# Global variables

Globals are shared by all scripts of a machine.  A name is looked up without regard to
ASCII letter case, and the table keeps the spelling of the first declaration.  Entries are
listed by folded name.

Main results:

- {lit}`Globals.get?_assign`: an assignment is read back under any spelling.
- {lit}`Globals.contains_assign`: an assignment declares nothing.
- {lit}`Globals.get?_remove`: a removed global is gone.
-/

namespace ScriptMachine

/-- One global variable. -/
structure Global where
  /-- The folded name, by which the table is ordered. -/
  key : String
  /-- The name as first declared. -/
  name : String
  value : Value

/-- The globals of a machine, ascending by key. -/
structure Globals where
  entries : List Global

namespace Globals

open Text

/-- No globals. -/
def empty : Globals := ⟨[]⟩

/-! ## Reading -/

/-- The global with the given name. -/
def find? (globals : Globals) (name : String) : Option Global :=
  globals.entries.find? fun entry => entry.key == fold name

/-- The value of a global. -/
def get? (globals : Globals) (name : String) : Option Value :=
  (globals.find? name).map Global.value

/-- Whether a global is declared. -/
def contains (globals : Globals) (name : String) : Bool :=
  (globals.find? name).isSome

/-- The number of globals. -/
def size (globals : Globals) : Nat :=
  globals.entries.length

/-! ## Updates -/

/-- Replaces the value of the entry with the given key, if there is one. -/
def replace (key : String) (value : Value) (entries : List Global) : List Global :=
  entries.map fun entry => if entry.key == key then { entry with value } else entry

/-- Puts a new entry in front of the first one with a greater key. -/
def insertSorted (new : Global) : List Global → List Global
  | [] => [new]
  | entry :: rest => if new.key < entry.key then new :: entry :: rest else entry :: insertSorted new rest

/-- Assigns to a declared global; nothing happens when there is none. -/
def assign (globals : Globals) (name : String) (value : Value) : Globals :=
  ⟨replace (fold name) value globals.entries⟩

/-- Declares a global or replaces its value. -/
def set (globals : Globals) (name : String) (value : Value) : Globals :=
  if globals.contains name then globals.assign name value
  else ⟨insertSorted ⟨fold name, name, value⟩ globals.entries⟩

/-- Removes a global. -/
def remove (globals : Globals) (name : String) : Globals :=
  ⟨globals.entries.filter fun entry => !(entry.key == fold name)⟩

/-- The globals declared by a list of names and values, later ones replacing earlier ones. -/
def ofList (declarations : List (String × Value)) : Globals :=
  declarations.foldl (fun globals (name, value) => globals.set name value) empty

/-! ## Reading back -/

/-- A global is declared if it has a value. -/
theorem isSome_get? (globals : Globals) (name : String) :
    (globals.get? name).isSome = globals.contains name := by
  simp [get?, contains]

/-- Replacing values moves no key. -/
theorem find?_replace (key : String) (value : Value) (entries : List Global) (other : String) :
    (replace key value entries).find? (fun entry => entry.key == other) =
      (entries.find? fun entry => entry.key == other).map fun entry =>
        if other == key then { entry with value } else entry := by
  induction entries with
  | nil => simp [replace]
  | cons entry rest ih =>
    simp only [replace, List.map_cons, List.find?_cons] at ih ⊢
    by_cases hother : entry.key = other
    · by_cases hkey : entry.key = key <;> simp_all
    · have hbeq : (entry.key == other) = false := by simpa using hother
      by_cases hkey : entry.key = key
      · have hmoved : (key == other) = false := by rw [← hkey]; exact hbeq
        simp only [hkey, BEq.rfl, if_true, hmoved]
        simpa using ih
      · have hkeep : (entry.key == key) = false := by simpa using hkey
        simp only [hkeep, hbeq, Bool.false_eq_true, if_false]
        simpa using ih

/-- An assignment is read back under any spelling of the name. -/
theorem get?_assign (globals : Globals) (name other : String) (value : Value)
    (h : sameName name other = true) :
    (globals.assign name value).get? other = (globals.get? other).map fun _ => value := by
  have hfold := (sameName_iff name other).1 h
  simp [get?, find?, assign, hfold, find?_replace, Function.comp_def]

/-- An assignment declares nothing. -/
theorem contains_assign (globals : Globals) (name other : String) (value : Value) :
    (globals.assign name value).contains other = globals.contains other := by
  simp [contains, find?, assign, find?_replace]

/-- A new entry hides no other one. -/
theorem any_insertSorted (new : Global) (entries : List Global) (p : Global → Bool) :
    (insertSorted new entries).any p = (p new || entries.any p) := by
  induction entries with
  | nil => simp [insertSorted]
  | cons entry rest ih =>
    unfold insertSorted
    split
    · simp
    · simp [ih, Bool.or_left_comm]

/-- What is declared stays declared when another global is set. -/
theorem contains_set (globals : Globals) {other : String} (h : globals.contains other = true)
    (name : String) (value : Value) : (globals.set name value).contains other = true := by
  unfold set
  split
  · rw [contains_assign]
    exact h
  · simp only [contains, find?, List.isSome_find?] at h ⊢
    rw [any_insertSorted, h, Bool.or_true]

/-- A removed global is gone under any spelling. -/
theorem get?_remove (globals : Globals) (name other : String) (h : sameName name other = true) :
    (globals.remove name).get? other = none := by
  have hfold := (sameName_iff name other).1 h
  simp [get?, find?, remove, hfold, List.find?_filter]

/-- Nothing is removed where nothing is declared. -/
theorem remove_of_not_contains (globals : Globals) {name : String}
    (h : globals.contains name = false) : globals.remove name = globals := by
  have hkept : ∀ entry ∈ globals.entries, (!(entry.key == fold name)) = true := by
    simpa [contains, find?] using h
  unfold remove
  rw [List.filter_eq_self.2 hkept]

/-- Other globals are still declared. -/
theorem contains_remove_ne (globals : Globals) {name other : String} (h : fold name ≠ fold other) :
    (globals.remove name).contains other = globals.contains other := by
  rw [Bool.eq_iff_iff]
  simp only [contains, find?, remove, List.find?_isSome, List.mem_filter]
  constructor
  · rintro ⟨entry, ⟨hmem, -⟩, hkey⟩
    exact ⟨entry, hmem, hkey⟩
  · rintro ⟨entry, hmem, hkey⟩
    have hother : entry.key = fold other := by simpa using hkey
    exact ⟨entry, ⟨hmem, by simpa [hother] using h.symm⟩, hkey⟩

end Globals
end ScriptMachine
