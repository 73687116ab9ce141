/-!
# TOML values and tables

A document is a table.  A key is set once; a table may be opened by one header, be implied
by the headers of its subtables, or grow from dotted keys.  No header opens a table that grew
from dotted keys, and dotted keys set nothing directly in a table that headers made.

Main results:

- {lit}`Toml.insert`: sets a dotted key.
- {lit}`Toml.openTable` and {lit}`Toml.appendTable`: what headers do.
- {lit}`Toml.lookup_replace`: a replaced entry is found.
-/

namespace ScriptMachine

/-- How a table came about. -/
inductive TableOrigin where
  /-- Written in one line between braces. -/
  | inline
  /-- Implied by the header of a table inside it. -/
  | implied
  | header
  | dotted
deriving Repr, DecidableEq

/-- A TOML value. -/
inductive Toml where
  | text (s : String)
  | integer (i : Int)
  | real (x : Float)
  | boolean (b : Bool)
  /-- A date or time in its usual form. -/
  | moment (s : String)
  | array (items : List Toml)
  | table (origin : TableOrigin) (entries : List (String × Toml))
  /-- The tables of repeated headers, the last one first. -/
  | tables (items : List (List (String × Toml)))

instance : Inhabited Toml := ⟨.boolean false⟩

/-- The entries of a table. -/
abbrev TomlEntries : Type := List (String × Toml)

namespace Toml

/-! ## Entries -/

/-- The value of a key. -/
def lookup (key : String) (entries : TomlEntries) : Option Toml :=
  (entries.find? fun entry => entry.1 == key).map Prod.snd

/-- Sets a key in place of its old value, or behind the other keys. -/
def replace (key : String) (v : Toml) : TomlEntries → TomlEntries
  | [] => [(key, v)]
  | entry :: rest => if entry.1 == key then (key, v) :: rest else entry :: replace key v rest

/-- A replaced entry is found. -/
theorem lookup_replace (key : String) (v : Toml) (entries : TomlEntries) :
    lookup key (replace key v entries) = some v := by
  induction entries with
  | nil => simp [lookup, replace]
  | cons entry rest ih =>
    simp only [lookup, replace] at ih ⊢
    split
    · simp
    · next h => simpa [List.find?_cons, h] using ih

/-! ## Dotted keys -/

/-- Sets a dotted key; fails when it is set already or leads through something closed.  It may
lead through a table that headers made, but what it sets lies in a table of dotted keys. -/
def insert (v : Toml) : List String → TomlEntries → Option TomlEntries
  | [], _ => none
  | [key], entries => if (lookup key entries).isSome then none else some (entries ++ [(key, v)])
  | key :: next :: path, entries =>
    match lookup key entries with
    | none => do
      let inner ← insert v (next :: path) []
      some (entries ++ [(key, .table .dotted inner)])
    | some (.table .dotted inner) => do
      some (replace key (.table .dotted (← insert v (next :: path) inner)) entries)
    | some (.table .implied inner) =>
      if path.isEmpty then none
      else do some (replace key (.table .implied (← insert v (next :: path) inner)) entries)
    | some (.tables (last :: earlier)) =>
      if path.isEmpty then none
      else do some (replace key (.tables ((← insert v (next :: path) last) :: earlier)) entries)
    | some _ => none

/-! ## Headers -/

/-- Walks to the table that holds the last part of a header, and changes its entries. -/
def descend (change : String → TomlEntries → Option TomlEntries) :
    List String → TomlEntries → Option TomlEntries
  | [], _ => none
  | [key], entries => change key entries
  | key :: path, entries =>
    match lookup key entries with
    | none => do
      let inner ← descend change path []
      some (entries ++ [(key, .table .implied inner)])
    | some (.table .inline _) => none
    | some (.table origin inner) => do
      some (replace key (.table origin (← descend change path inner)) entries)
    | some (.tables (last :: earlier)) => do
      some (replace key (.tables ((← descend change path last) :: earlier)) entries)
    | some _ => none

/-- Opens a table and fills it; fails when it was opened before. -/
def openTable (fill : TomlEntries → Option TomlEntries) (path : List String)
    (entries : TomlEntries) : Option TomlEntries :=
  descend
    (fun key entries =>
      match lookup key entries with
      | none => do some (entries ++ [(key, .table .header (← fill []))])
      | some (.table .implied inner) => do
        some (replace key (.table .header (← fill inner)) entries)
      | some _ => none)
    path entries

/-- Appends a table to those of a repeated header and fills it. -/
def appendTable (fill : TomlEntries → Option TomlEntries) (path : List String)
    (entries : TomlEntries) : Option TomlEntries :=
  descend
    (fun key entries =>
      match lookup key entries with
      | none => do some (entries ++ [(key, .tables [← fill []])])
      | some (.tables items) => do some (replace key (.tables ((← fill []) :: items)) entries)
      | some _ => none)
    path entries

end Toml
end ScriptMachine
