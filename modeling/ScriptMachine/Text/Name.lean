/-!
# Names and ASCII case

Script names of variables, globals, commands and keywords are compared without regard
to ASCII letter case; no other letter has a case here.

Main results:

- {lit}`fold_fold`: folding a folded name changes nothing.
- {lit}`sameName_iff`: two names are the same exactly when their folded forms are equal.
-/

namespace ScriptMachine
namespace Text

/-! ## Folding -/

/-- The name with every ASCII capital replaced by its small letter. -/
def fold (name : String) : String :=
  String.ofList (name.toList.map Char.toLower)

/-- Whether two names differ at most in ASCII letter case. -/
def sameName (a b : String) : Bool :=
  fold a == fold b

/-- Two names are the same exactly when their folded forms are equal. -/
theorem sameName_iff (a b : String) : sameName a b = true ↔ fold a = fold b := by
  simp [sameName]

/-- The characters of a folded name. -/
@[simp] theorem toList_fold (name : String) : (fold name).toList = name.toList.map Char.toLower := by
  simp [fold]

/-- A small letter has no smaller one. -/
theorem toLower_toLower (c : Char) : c.toLower.toLower = c.toLower := by
  unfold Char.toLower
  by_cases h : c.val ≥ 'A'.val ∧ c.val ≤ 'Z'.val
  · rw [dif_pos h, dif_neg]
    have hlow : 65 ≤ c.val.toNat := h.1
    have hhigh : c.val.toNat ≤ 90 := h.2
    rintro ⟨-, hle⟩
    have hle : (c.val + 32).toNat ≤ 90 := hle
    rw [UInt32.toNat_add] at hle
    change (c.val.toNat + 32) % 2 ^ 32 ≤ 90 at hle
    omega
  · rw [dif_neg h, dif_neg h]

/-- Folding a folded name changes nothing. -/
@[simp] theorem fold_fold (name : String) : fold (fold name) = fold name := by
  have htwice : Char.toLower ∘ Char.toLower = Char.toLower := funext toLower_toLower
  unfold fold
  rw [String.toList_ofList, List.map_map, htwice]

/-! ## Identifiers -/

/-- A character that may begin an identifier: an ASCII letter or an underscore. -/
def isNameStart (c : Char) : Bool :=
  c.isAlpha || c == '_'

/-- A character that may continue an identifier: an ASCII letter, a digit or an underscore. -/
def isNameChar (c : Char) : Bool :=
  c.isAlphanum || c == '_'

/-- Whether the text is an identifier: a letter or underscore, then letters, digits and
underscores, all of them ASCII. -/
def isIdentifier : List Char → Bool
  | [] => false
  | c :: rest => isNameStart c && rest.all isNameChar

end Text
end ScriptMachine
