import ScriptMachine.Value.Arrays

/-!
# What a value looks like

A snapshot is a value with the elements of its arrays written out, down to a set depth:
arrays may contain themselves, so deeper ones are elided.  Console text and JSON text are
both printed from snapshots.

Main results:

- {lit}`Arrays.snapshot`: the snapshot of a value.
- {lit}`Snapshot.toText` and {lit}`Snapshot.toJson`: the two printed forms.
-/

namespace ScriptMachine

/-- A value with its elements written out. -/
inductive Snapshot where
  | invalid
  | number (x : Float)
  | reference (handle : UInt32)
  | text (s : String)
  | elided
  | array (elements : List Snapshot)

/-- The nesting depth from which on arrays are elided. -/
def maxDepth : Nat := 8

namespace Arrays

/-- The snapshot of a value in which arrays may still nest to the given depth. -/
def snapshotWithin (arrays : Arrays) : Nat → Value → Snapshot
  | _, .invalid => .invalid
  | _, .number x => .number x
  | _, .reference handle => .reference handle
  | _, .text s => .text s
  | 0, .array _ => .elided
  | depth + 1, .array id => .array ((arrays.elements id).map (arrays.snapshotWithin depth))

/-- The snapshot of a value. -/
def snapshot (arrays : Arrays) (v : Value) : Snapshot :=
  arrays.snapshotWithin maxDepth v

end Arrays

/-! ## References -/

/-- The eight hexadecimal digits of a handle behind a number sign. -/
def handleText (handle : UInt32) : String :=
  let digits := (Nat.toDigits 16 handle.toNat).map Char.toUpper
  String.ofList ('#' :: List.replicate (8 - digits.length) '0' ++ digits)

/-! ## Console text -/

namespace Snapshot

/-- The text of a value in strings and on the console. -/
def toText : Snapshot → String
  | .invalid => "<invalid>"
  | .number x => Number.toText x
  | .reference handle => handleText handle
  | .text s => s
  | .elided => "[...]"
  | .array elements => "[" ++ ", ".intercalate (elements.map toText) ++ "]"

/-! ## JSON text -/

/-- The escaped form of a character in a JSON string. -/
def jsonEscape (c : Char) : List Char :=
  if c = '"' then ['\\', '"']
  else if c = '\\' then ['\\', '\\']
  else if c = '\x08' then ['\\', 'b']
  else if c = '\x0c' then ['\\', 'f']
  else if c = '\n' then ['\\', 'n']
  else if c = '\r' then ['\\', 'r']
  else if c = '\t' then ['\\', 't']
  else if c.toNat < 0x20 then
    ['\\', 'u', '0', '0', Nat.digitChar (c.toNat / 16), Nat.digitChar (c.toNat % 16)]
  else [c]

/-- A JSON string. -/
def jsonString (s : String) : String :=
  String.ofList ('"' :: s.toList.flatMap jsonEscape ++ ['"'])

/-- Compact JSON text of a value. -/
def toJson : Snapshot → String
  | .invalid => "null"
  | .number x => Number.Layout.json.render x
  | .reference handle => jsonString (handleText handle)
  | .text s => jsonString s
  | .elided => jsonString "[...]"
  | .array elements => "[" ++ ",".intercalate (elements.map toJson) ++ "]"

end Snapshot
end ScriptMachine
