import ScriptMachine.Number.Layout
import ScriptMachine.Number.Reading
import ScriptMachine.Text.Name
import ScriptMachine.Toml.Table

/-!
# Layers of settings

A source of settings gives values to keys: the standard settings, a settings file, the
environment and the command line each make a layer, and a later layer wins over an earlier
one.  A value keeps the form in which its source gave it; what a setting makes of it follows
from its own kind.

Main results:

- {lit}`RawValue.text?` and {lit}`RawValue.count?`: a value as a text or as a number.
- {lit}`Layer.get?_append`: the later of two layers wins.
- {lit}`Layer.frontOf?_part`: a key of one part leads into nothing.
-/

namespace ScriptMachine

/-! ## Values -/

/-- A value as its source gives it. -/
inductive RawValue where
  | text (s : String)
  | integer (i : Int)
  | real (x : Float)
  | boolean (b : Bool)
  /-- A list or a table, which no setting takes. -/
  | compound

namespace RawValue

/-- The greatest number that a setting can hold. -/
def maxCount : Nat := Number.maxIndex

/-- A natural number in decimal digits, with an optional plus sign. -/
def natural? (s : List Char) : Option Nat :=
  let digits := if s.head? == some '+' then s.drop 1 else s
  if digits.isEmpty || !digits.all Char.isDigit then none
  else
    let n := Number.digitsValue 0 digits
    if n ≤ maxCount then some n else none

/-- A signed number of 64 bits in decimal digits. -/
def integer? (s : List Char) : Option Int :=
  let (negative, digits) := Number.spanSign s
  if digits.isEmpty || !digits.all Char.isDigit then none
  else
    let n : Int := Number.digitsValue 0 digits
    let i := if negative then -n else n
    if Number.minSigned64 ≤ i ∧ i ≤ Number.maxSigned64 then some i else none

/-- The value that a text without any quoting stands for. -/
def ofText (s : String) : RawValue :=
  let word := Text.fold s
  if word = "true" then .boolean true
  else if word = "false" then .boolean false
  else
    match integer? s.toList with
    | some i => .integer i
    | none =>
      match Number.parse? s.toList with
      | some x => .real x
      | none => .text s

/-- The value of a TOML value; an empty table gives none. -/
def ofToml? : Toml → Option RawValue
  | .text s | .moment s => some (.text s)
  | .integer i => some (.integer i)
  | .real x => some (.real x)
  | .boolean b => some (.boolean b)
  | .table _ [] => none
  | .table _ (_ :: _) | .array _ | .tables _ => some .compound

/-- A value as a text. -/
def text? : RawValue → Option String
  | .text s => some s
  | .integer i => some (toString i)
  | .real x => some (Number.Layout.plain.render x)
  | .boolean b => some (toString b)
  | .compound => none

/-- The number that a text stands for; a few words mean one or zero. -/
def countOfText? (s : String) : Option Nat :=
  let word := Text.fold s
  if word = "true" ∨ word = "on" ∨ word = "yes" then some 1
  else if word = "false" ∨ word = "off" ∨ word = "no" then some 0
  else natural? s.toList

/-- A value as a number.  A fraction is rounded, halves away from zero, and what is out of
range is replaced by the nearest number in it. -/
def count? : RawValue → Option Nat
  | .text s => countOfText? s
  | .integer i => if 0 ≤ i then some i.toNat else none
  | .real x => some x.round.toUInt64.toNat
  | .boolean b => some b.toNat
  | .compound => none

end RawValue

/-! ## Layers -/

/-- Keys with their values; the last value of a key counts. -/
abbrev Layer : Type := List (String × RawValue)

namespace Layer

/-- The value of a key. -/
def get? (key : String) (layer : Layer) : Option RawValue :=
  (layer.findRev? fun entry => entry.1 == key).map Prod.snd

/-- The later of two layers wins. -/
theorem get?_append (key : String) (a b : Layer) :
    get? key (a ++ b) = (get? key b <|> get? key a) := by
  simp only [get?, List.findRev?_eq_find?_reverse, List.reverse_append, List.find?_append]
  cases List.find? (fun entry => entry.1 == key) b.reverse <;> simp

/-! ## Keys -/

/-- A character of a part of a key. -/
def isKeyChar (c : Char) : Bool :=
  c.isAlphanum || c == '_' || c == '-' || c == ' '

/-- What follows a part of a key. -/
def afterPart? (s : List Char) : Option (List Char) :=
  if (s.takeWhile isKeyChar).isEmpty then none else some (s.dropWhile isKeyChar)

/-- What follows a place in a list, which stands between square brackets. -/
def afterPlace? (s : List Char) : Option (List Char) :=
  let isSpace (c : Char) : Bool := c == ' ' || c == '\t'
  let rest := s.dropWhile isSpace
  let sign := if rest.head? == some '-' then 1 else 0
  let digits := (rest.drop sign).takeWhile Char.isDigit
  match (RawValue.integer? (rest.take (sign + digits.length))),
      (rest.drop (sign + digits.length)).dropWhile isSpace with
  | some _, ']' :: rest => some rest
  | _, _ => none

/-- Whether a text is a sequence of so many steps at most, each of them into a table by a part
or into a list by a place. -/
def isSteps : Nat → List Char → Bool
  | _, [] => true
  | fuel + 1, '.' :: rest => (afterPart? rest).any (isSteps fuel)
  | fuel + 1, '[' :: rest => (afterPlace? rest).any (isSteps fuel)
  | _, _ => false

/-- The first part of a key that leads into a table or a list. -/
def frontOf? (key : List Char) : Option (List Char) :=
  match afterPart? key with
  | none | some [] => none
  | some rest => if isSteps rest.length rest then some (key.takeWhile isKeyChar) else none

/-- A key of one part leads into nothing. -/
theorem frontOf?_part (key : List Char) (h : ∀ c ∈ key, isKeyChar c = true) :
    frontOf? key = none := by
  have hrest : key.dropWhile isKeyChar = [] := by
    induction key with
    | nil => rfl
    | cons c rest ih =>
      rw [List.dropWhile_cons_of_pos (h c List.mem_cons_self)]
      exact ih fun d hd => h d (List.mem_cons_of_mem c hd)
  cases hfront : (key.takeWhile isKeyChar).isEmpty <;> simp [frontOf?, afterPart?, hfront, hrest]

/-- The entry of a key with a value, in small letters.  A key with more than one part sets
something inside its first part, as it is spelled, and makes that a table or a list.  An empty
table changes nothing. -/
def entry? (key : String) (v : Option RawValue) : Option (String × RawValue) :=
  match frontOf? key.toList with
  | some front => some (String.ofList front, .compound)
  | none => v.map fun v => (Text.fold key, v)

/-- The layer of a TOML document. -/
def ofToml (entries : TomlEntries) : Layer :=
  entries.filterMap fun (key, v) => entry? key (RawValue.ofToml? v)

/-- What the names of environment variables with settings begin with, in small letters. -/
def variableStart : String := "lute_"

/-- The layer of the environment: variables without a value do not count. -/
def ofEnvironment (environment : List (String × String)) : Layer :=
  environment.filterMap fun (name, v) =>
    let word := (Text.fold name).toList
    if v != "" && variableStart.toList.isPrefixOf word then
      entry? (String.ofList (word.drop variableStart.length)) (some (.ofText v))
    else none

end Layer
end ScriptMachine
