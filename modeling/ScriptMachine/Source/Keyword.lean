import ScriptMachine.Source.Token
import ScriptMachine.Text.Name

/-!
# Keywords

Only the first token of a line is classified.  It is a keyword when its leading word is
one, in any letter case, and nothing or an opening parenthesis follows the word.

Main results:

- {lit}`Keyword.ofWord?_text`: every keyword is recognised by its text.
- {lit}`Keyword.remainder?`: what a line says behind its keyword.
-/

namespace ScriptMachine
namespace Source

open Text

/-- The keywords of the script language. -/
inductive Keyword where
  | header
  | declaration
  | beginBlock
  | endBlock
  | whileLoop
  | endLoop
  | forEachLoop
  | ifBlock
  | elseIfBranch
  | elseBranch
  | endIf
  | returnStatement
  | breakStatement
  | continueStatement
deriving Repr, DecidableEq

namespace Keyword

/-- Every keyword. -/
def all : List Keyword :=
  [.header, .declaration, .beginBlock, .endBlock, .whileLoop, .endLoop, .forEachLoop, .ifBlock,
   .elseIfBranch, .elseBranch, .endIf, .returnStatement, .breakStatement, .continueStatement]

/-- The lower-case text of a keyword. -/
def text : Keyword → String
  | .header => "scriptname"
  | .declaration => "variable"
  | .beginBlock => "begin"
  | .endBlock => "end"
  | .whileLoop => "while"
  | .endLoop => "loop"
  | .forEachLoop => "foreach"
  | .ifBlock => "if"
  | .elseIfBranch => "elseif"
  | .elseBranch => "else"
  | .endIf => "endif"
  | .returnStatement => "return"
  | .breakStatement => "break"
  | .continueStatement => "continue"

/-- The keyword that a word spells, in any letter case. -/
def ofWord? (word : List Char) : Option Keyword :=
  all.find? fun keyword => keyword.text.toList == word.map Char.toLower

/-- Every keyword is recognised by its text. -/
theorem ofWord?_text (keyword : Keyword) : ofWord? keyword.text.toList = some keyword := by
  cases keyword <;> decide +kernel

/-- The keyword that a first token spells. -/
def ofToken? (token : List Char) : Option Keyword :=
  match token.dropWhile isNameChar with
  | [] => ofWord? token
  | '(' :: _ => ofWord? (token.takeWhile isNameChar)
  | _ => none

/-- The keyword of a tokenized line. -/
def ofTokens? : List Token → Option Keyword
  | [] => none
  | first :: _ => ofToken? first.text

/-- The trimmed text of a line behind its keyword, which takes as many bytes as the keyword;
nothing when that cuts a character. -/
def remainder? (keyword : Keyword) (line : List Char) : Option (List Char) :=
  let start := trimStart line
  (dropBytes? (min (byteSize keyword.text.toList) (byteSize start)) start).map trim

end Keyword
end Source
end ScriptMachine
