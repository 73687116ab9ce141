/-!
# Byte offsets

Token positions count bytes of the UTF-8 form.  Cutting a text at a byte offset succeeds
only on a character boundary within the text.

Main results:

- {lit}`dropBytes?_append`: cutting at the byte size of a beginning leaves what follows it.
-/

namespace ScriptMachine
namespace Text

/-- The number of bytes of the UTF-8 form of a text. -/
def byteSize : List Char → Nat
  | [] => 0
  | c :: rest => c.utf8Size + byteSize rest

/-- What follows the first {lit}`n` bytes; nothing when the offset lies inside a character or
beyond the end. -/
def dropBytes? (n : Nat) : List Char → Option (List Char)
  | [] => if n = 0 then some [] else none
  | c :: rest =>
    if n = 0 then some (c :: rest)
    else if c.utf8Size ≤ n then dropBytes? (n - c.utf8Size) rest
    else none

/-- Sizes add up over concatenation. -/
@[simp] theorem byteSize_append (a b : List Char) : byteSize (a ++ b) = byteSize a + byteSize b := by
  induction a with
  | nil => simp [byteSize]
  | cons c rest ih => simp [byteSize, ih, Nat.add_assoc]

/-- Cutting at offset zero keeps the whole text. -/
@[simp] theorem dropBytes?_zero (s : List Char) : dropBytes? 0 s = some s := by
  cases s <;> simp [dropBytes?]

/-- Cutting at the byte size of a beginning leaves what follows it. -/
@[simp] theorem dropBytes?_append (a b : List Char) : dropBytes? (byteSize a) (a ++ b) = some b := by
  induction a with
  | nil => simp [byteSize]
  | cons c rest ih =>
    have hpos : 0 < c.utf8Size := c.utf8Size_pos
    have hne : ¬ (c.utf8Size + byteSize rest = 0) := by omega
    simp only [byteSize, List.cons_append, dropBytes?, if_neg hne]
    simpa using ih

end Text
end ScriptMachine
