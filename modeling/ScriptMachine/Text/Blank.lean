/-!
# Blank characters, trimming and physical lines

A character is blank when it has the Unicode property White_Space.  Source text,
command line words and numbers inside strings are all trimmed by this one rule.

Main results:

- {lit}`trimEnd_nil_iff` and {lit}`trimStart_nil_iff`: trimming leaves nothing
  exactly when every character is blank.
- {lit}`isBlank_of_isWhitespace`: the table extends the four characters that
  core calls whitespace.
-/

namespace ScriptMachine
namespace Text

/-! ## The White_Space property -/

/-- Closed ranges of the code points with the property White_Space, ascending and apart. -/
def blankRanges : List (Nat × Nat) :=
  [(0x09, 0x0D), (0x20, 0x20), (0x85, 0x85), (0xA0, 0xA0), (0x1680, 0x1680),
   (0x2000, 0x200A), (0x2028, 0x2029), (0x202F, 0x202F), (0x205F, 0x205F), (0x3000, 0x3000)]

/-- A blank character: one whose code point lies in a White_Space range. -/
def isBlank (c : Char) : Bool :=
  blankRanges.any fun range => range.1 ≤ c.toNat && c.toNat ≤ range.2

/-- Every character that core calls whitespace is blank. -/
theorem isBlank_of_isWhitespace (c : Char) (h : c.isWhitespace = true) : isBlank c = true := by
  simp only [Char.isWhitespace, Bool.or_eq_true, decide_eq_true_eq] at h
  rcases h with ((h | h) | h) | h <;> subst h <;> decide

/-! ## Trimming -/

/-- The text without its leading blanks. -/
def trimStart (s : List Char) : List Char :=
  s.dropWhile isBlank

/-- The text without its trailing blanks. -/
def trimEnd : List Char → List Char
  | [] => []
  | c :: rest =>
    match trimEnd rest with
    | [] => if isBlank c then [] else [c]
    | kept => c :: kept

/-- The text without leading and trailing blanks. -/
def trim (s : List Char) : List Char :=
  trimEnd (trimStart s)

/-- Trimming the start leaves nothing exactly when every character is blank. -/
theorem trimStart_nil_iff (s : List Char) : trimStart s = [] ↔ ∀ c ∈ s, isBlank c = true := by
  induction s with
  | nil => simp [trimStart]
  | cons c rest ih =>
    simp only [trimStart, List.dropWhile_cons] at ih ⊢
    by_cases h : isBlank c = true
    · simp [h, ih]
    · simp [h]

/-- Trimming the end leaves nothing exactly when every character is blank. -/
theorem trimEnd_nil_iff (s : List Char) : trimEnd s = [] ↔ ∀ c ∈ s, isBlank c = true := by
  induction s with
  | nil => simp [trimEnd]
  | cons c rest ih =>
    unfold trimEnd
    split
    · next h =>
      by_cases hc : isBlank c = true
      · simpa [hc] using ih.1 h
      · simp [hc]
    · next h => simpa using fun _ => fun hall => h (ih.2 hall)

/-! ## Physical lines -/

/-- The physical lines of a text.  A line feed ends a line and takes one carriage return
before it along; an unfinished last line counts when it is not empty. -/
def lines : List Char → List (List Char)
  | [] => []
  | '\n' :: rest => [] :: lines rest
  | '\r' :: '\n' :: rest => [] :: lines rest
  | c :: rest =>
    match lines rest with
    | [] => [[c]]
    | line :: others => (c :: line) :: others

end Text
end ScriptMachine
