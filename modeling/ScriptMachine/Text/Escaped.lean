import ScriptMachine.Text.Printable

/-!
# Escaped texts

In reports a text stands between double quotes, and what cannot be printed in one line, as
well as quotes and backslashes, is written as an escape.

Main results:

- {lit}`escaped`: the text between quotes.
- {lit}`escapeChar_plain`: what needs no escape stands for itself.
-/

namespace ScriptMachine
namespace Text

/-- A character as it stands in an escaped text. -/
def escapeChar (c : Char) : List Char :=
  if c = '\x00' then ['\\', '0']
  else if c = '\t' then ['\\', 't']
  else if c = '\r' then ['\\', 'r']
  else if c = '\n' then ['\\', 'n']
  else if c = '"' then ['\\', '"']
  else if c = '\\' then ['\\', '\\']
  else if isPrintable c then [c]
  else ['\\', 'u', '{'] ++ Nat.toDigits 16 c.toNat ++ ['}']

/-- A text between quotes. -/
def escaped (s : String) : String :=
  String.ofList ('"' :: s.toList.flatMap escapeChar ++ ['"'])

/-- What is printable and neither a quote nor a backslash stands for itself. -/
theorem escapeChar_plain (c : Char) (hprint : isPrintable c = true) (hquote : c ≠ '"')
    (hslash : c ≠ '\\') (hcontrol : 0x20 ≤ c.toNat) : escapeChar c = [c] := by
  have hne : ∀ d : Char, d.toNat < 0x20 → c ≠ d := by
    intro d hd hcd
    subst hcd
    omega
  simp [escapeChar, hprint, hquote, hslash, hne '\x00' (by decide), hne '\t' (by decide),
    hne '\r' (by decide), hne '\n' (by decide)]

end Text
end ScriptMachine
