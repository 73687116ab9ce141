import ScriptMachine.Text.Bytes

/-!
# Script paths

Paths are slash-separated texts and are printed as written.  A script name is joined to the
root directory, and gets the default extension when its file name has none.  Two paths are
the same file in the cache when their components agree.

Main results:

- {lit}`Path.resolve`: the path of a named script.
- {lit}`Path.components`: what counts when paths are compared.
- {lit}`Path.same_iff`: sameness of paths is an equality.
- {lit}`Path.segments_append`: segments of a path extended behind a slash.
-/

namespace ScriptMachine
namespace Path

/-! ## Segments and components -/

/-- The texts between slashes, empty ones included. -/
def segments : List Char → List (List Char)
  | [] => [[]]
  | c :: rest =>
    if c = '/' then [] :: segments rest
    else
      match segments rest with
      | [] => [[c]]
      | first :: others => (c :: first) :: others

/-- There is always a segment. -/
theorem segments_ne_nil (path : List Char) : segments path ≠ [] := by
  cases path with
  | nil => simp [segments]
  | cons c rest =>
    unfold segments
    split
    · simp
    · split <;> simp

/-- A path extended behind a slash has the segments of both parts. -/
theorem segments_append (a b : List Char) : segments (a ++ '/' :: b) = segments a ++ segments b := by
  induction a with
  | nil => simp [segments]
  | cons c rest ih =>
    by_cases h : c = '/'
    · simp [segments, h, ih]
    · simp only [List.cons_append, segments, if_neg h, ih]
      cases hrest : segments rest with
      | nil => exact absurd hrest (segments_ne_nil rest)
      | cons first others => simp

/-- Whether a path starts at the root. -/
def isAbsolute (path : List Char) : Bool :=
  path.head? == some '/'

/-- The components of a path: empty segments and inner single points do not count, but a
relative path keeps a leading point. -/
def components (path : List Char) : List (List Char) :=
  let parts := segments path
  let counted := parts.filter fun part => !part.isEmpty && part != ['.']
  if parts.head? == some ['.'] then ['.'] :: counted else counted

/-- Whether two paths have the same components. -/
def same (a b : List Char) : Bool :=
  isAbsolute a == isAbsolute b && components a == components b

/-- Sameness of paths is an equality. -/
theorem same_iff (a b : List Char) :
    same a b = true ↔ isAbsolute a = isAbsolute b ∧ components a = components b := by
  simp [same]

/-! ## File names and extensions -/

/-- The last component, if it names a file or directory. -/
def fileName? (path : List Char) : Option (List Char) :=
  match (components path).getLast? with
  | none => none
  | some name => if name = ['.'] ∨ name = ['.', '.'] then none else some name

/-- What follows the last point of a file name, unless that point comes first. -/
def extension? (name : List Char) : Option (List Char) :=
  let stem := (name.reverse.dropWhile (· != '.')).drop 1
  if stem.isEmpty then none else some (name.reverse.takeWhile (· != '.')).reverse

/-- The reversed path without slashes and single points behind the file name. -/
def dropTail : List Char → List Char
  | '/' :: rest => dropTail rest
  | '.' :: '/' :: rest => dropTail rest
  | path => path

/-- The path up to the end of its file name. -/
def throughFileName (path : List Char) : List Char :=
  (dropTail path.reverse).reverse

/-- The path with an extension behind its file name; an empty extension adds nothing. -/
def withExtension (path extension : List Char) : List Char :=
  if extension.isEmpty then throughFileName path else throughFileName path ++ '.' :: extension

/-! ## Named scripts -/

/-- A name below a directory; an absolute name stands for itself. -/
def join (root name : List Char) : List Char :=
  if isAbsolute name then name
  else if root.isEmpty || root.getLast? == some '/' then root ++ name
  else root ++ '/' :: name

/-- The path of a named script. -/
def resolve (root extension name : List Char) : List Char :=
  let path := join root name
  match fileName? path with
  | none => path
  | some file => if (extension? file).isSome then path else withExtension path extension

end Path
end ScriptMachine
