import ScriptMachine.Text.Blank
import ScriptMachine.Text.Bytes

/-!
# Tokens of a line

The tokens of a line are its maximal runs of characters that are not blank, each with the
byte offset at which it starts.

Main results:

- {lit}`tokensFrom_text`: tokens are not empty and hold no blank.
-/

namespace ScriptMachine
namespace Source

open Text

/-- A run of characters that are not blank, and the byte offset of the first of them. -/
structure Token where
  text : List Char
  offset : Nat
deriving Repr, DecidableEq

/-- The tokens of a text that starts at the given byte offset: a character that is not blank
extends the token starting right behind it or makes a token of its own. -/
def tokensFrom (offset : Nat) : List Char → List Token
  | [] => []
  | c :: rest =>
    let following := tokensFrom (offset + c.utf8Size) rest
    if isBlank c then following
    else
      match following with
      | [] => [⟨[c], offset⟩]
      | token :: others =>
        if token.offset = offset + c.utf8Size then ⟨c :: token.text, offset⟩ :: others
        else ⟨[c], offset⟩ :: token :: others

/-- The tokens of a line. -/
def tokenize (line : List Char) : List Token :=
  tokensFrom 0 line

/-- Tokens are not empty and hold no blank. -/
theorem tokensFrom_text (offset : Nat) (s : List Char) (token : Token)
    (h : token ∈ tokensFrom offset s) : token.text ≠ [] ∧ ∀ c ∈ token.text, isBlank c = false := by
  induction s generalizing offset token with
  | nil => simp [tokensFrom] at h
  | cons c rest ih =>
    simp only [tokensFrom] at h
    split at h
    · exact ih _ _ h
    · next hblank =>
      have hc : isBlank c = false := by simpa using hblank
      split at h
      · simp only [List.mem_singleton] at h
        subst h
        simp [hc]
      · next first others hfollowing =>
        have hfirst := ih (offset + c.utf8Size) first (by simp [hfollowing])
        have hothers := fun t ht => ih (offset + c.utf8Size) t (by
          rw [hfollowing]
          exact List.mem_cons_of_mem _ ht)
        split at h
        · rcases List.mem_cons.1 h with rfl | hmem
          · exact ⟨by simp, fun d hd => by
              rcases List.mem_cons.1 hd with rfl | hd
              · exact hc
              · exact hfirst.2 d hd⟩
          · exact hothers token hmem
        · rcases List.mem_cons.1 h with rfl | hmem
          · simp [hc]
          · rcases List.mem_cons.1 hmem with rfl | hmem
            · exact hfirst
            · exact hothers token hmem

end Source
end ScriptMachine
