import ScriptMachine.Toml.Scalar

/-!
# Reading TOML

A document is a sequence of lines: settings of keys, headers of tables, comments and blank
lines.  A document with any mistake is refused as a whole.

Main results:

- {lit}`Toml.parse?`: the table of a document.
- {lit}`Toml.parse?_nil`: an empty document is an empty table.
-/

namespace ScriptMachine
namespace Toml

/-- A reader takes something off the front of a text. -/
abbrev Reader (α : Type) : Type := StateT (List Char) Option α

namespace Reader

/-! ## Characters and blanks -/

/-- Looks at the next character. -/
def peek? : Reader (Option Char) := do return (← get).head?

/-- Takes a given character. -/
def expect (c : Char) : Reader Unit := do
  match ← get with
  | [] => failure
  | d :: rest => if d == c then set rest else failure

/-- Takes a given text if it comes next. -/
def accept (word : List Char) : Reader Bool := do
  let s ← get
  if word.isPrefixOf s then
    set (s.drop word.length)
    return true
  else return false

/-- Takes the characters of a class. -/
def takeWhile (isIn : Char → Bool) : Reader (List Char) := do
  let s ← get
  set (s.dropWhile isIn)
  return s.takeWhile isIn

/-- Skips spaces and tabs. -/
def blanks : Reader Unit := do
  let _ ← takeWhile fun c => c == ' ' || c == '\t'

/-- A character that may stand in a comment or a literal string. -/
def isVisible (c : Char) : Bool :=
  c == '\t' || (0x20 ≤ c.toNat && c.toNat != 0x7F)

/-- Skips a comment, if there is one. -/
def comment : Reader Unit := do
  if ← accept ['#'] then
    let _ ← takeWhile isVisible

/-- Takes a line end, if there is one. -/
def newline : Reader Bool := do
  if ← accept ['\n'] then return true else accept ['\r', '\n']

/-- Skips blanks and a comment up to the end of the line or of the text. -/
def endOfLine : Reader Unit := do
  blanks
  comment
  if ← newline then return ()
  else if (← get).isEmpty then return ()
  else failure

/-- Skips blanks, comments and line ends inside an array. -/
def space : Nat → Reader Unit
  | 0 => return ()
  | fuel + 1 => do
    blanks
    comment
    if ← newline then space fuel

/-! ## Strings -/

/-- The character that a number names. -/
def ofCode? (code : Nat) : Reader Char :=
  if code.isValidChar then return Char.ofNat code else failure

/-- The character that so many hexadecimal digits name. -/
def codePoint (digits : Nat) : Reader Char := do
  let s ← get
  let code := s.take digits
  if code.length = digits && code.all (fun c => c.isDigit || ('a' ≤ c.toLower && c.toLower ≤ 'f')) then
    set (s.drop digits)
    ofCode? (digitsIn 16 code)
  else failure

/-- The character that an escape names, after its backslash. -/
def escape : Reader Char := do
  match ← get with
  | [] => failure
  | c :: rest =>
    set rest
    match c with
    | 'b' => return '\x08'
    | 't' => return '\t'
    | 'n' => return '\n'
    | 'f' => return '\x0c'
    | 'r' => return '\r'
    | '"' => return '"'
    | '\\' => return '\\'
    | 'u' => codePoint 4
    | 'U' => codePoint 8
    | _ => failure

/-- A string in one line, after its opening quote. -/
def lineString : Nat → Reader (List Char)
  | 0 => failure
  | fuel + 1 => do
    match ← get with
    | [] => failure
    | '"' :: rest =>
      set rest
      return []
    | '\\' :: rest => do
      set rest
      let c ← escape
      return c :: (← lineString fuel)
    | c :: rest =>
      if isVisible c then
        set rest
        return c :: (← lineString fuel)
      else failure

/-- A literal string in one line, after its opening quote. -/
def lineLiteral : Reader (List Char) := do
  let s ← takeWhile fun c => isVisible c && c != '\''
  expect '\''
  return s

/-- Skips the line end and the blanks after a backslash at the end of a line. -/
def continuation (fuel : Nat) : Reader Unit := do
  blanks
  if ← newline then
    for _ in List.range fuel do
      blanks
      if !(← newline) then break
  else failure

/-- The closing quotes of a string of several lines: up to two of them belong to the string. -/
def closing (quote : Char) : Reader (Option (List Char)) := do
  let s ← get
  let run := (s.takeWhile (· == quote)).length
  if run < 3 then return none
  else
    let kept := min (run - 3) 2
    set (s.drop (kept + 3))
    return some (List.replicate kept quote)

/-- A string of several lines, after its opening quotes. -/
def blockString (quote : Char) : Nat → Reader (List Char)
  | 0 => failure
  | fuel + 1 => do
    match ← closing quote with
    | some last => return last
    | none =>
      if ← newline then return '\n' :: (← blockString quote fuel)
      else
        match ← get with
        | [] => failure
        | c :: rest =>
          set rest
          if c == '\\' && quote == '"' then
            let isFold := ((rest.dropWhile fun c => c == ' ' || c == '\t').head?).any fun c =>
              c == '\n' || c == '\r'
            if isFold then
              continuation fuel
              blockString quote fuel
            else
              let c ← escape
              return c :: (← blockString quote fuel)
          else if isVisible c then return c :: (← blockString quote fuel)
          else failure

/-- A string of any form. -/
def string (fuel : Nat) : Reader String := do
  if ← accept ['"', '"', '"'] then
    let _ ← newline
    return String.ofList (← blockString '"' fuel)
  else if ← accept ['\'', '\'', '\''] then
    let _ ← newline
    return String.ofList (← blockString '\'' fuel)
  else if ← accept ['"'] then return String.ofList (← lineString fuel)
  else
    expect '\''
    return String.ofList (← lineLiteral)

/-! ## Keys -/

/-- One part of a key. -/
def keyPart (fuel : Nat) : Reader String := do
  match ← peek? with
  | some '"' =>
    expect '"'
    return String.ofList (← lineString fuel)
  | some '\'' =>
    expect '\''
    return String.ofList (← lineLiteral)
  | _ =>
    let s ← takeWhile fun c => c.isAlphanum || c == '_' || c == '-'
    if s.isEmpty then failure else return String.ofList s

/-- The dotted parts of a key. -/
def keyParts : Nat → Reader (List String)
  | 0 => failure
  | fuel + 1 => do
    blanks
    let part ← keyPart fuel
    blanks
    if ← accept ['.'] then return part :: (← keyParts fuel) else return [part]

/-- The greatest depth of values inside values, and the greatest number of parts of a key. -/
def maxNesting : Nat := 79

/-- A key with its dotted parts. -/
def key (fuel : Nat) : Reader (List String) := do
  let parts ← keyParts fuel
  if parts.length ≤ maxNesting then return parts else failure

/-! ## Values -/

/-- A scalar; a date may go on behind one space with a time. -/
def scalar : Reader Toml := do
  let s ← takeWhile isScalarChar
  let rest ← get
  let goesOn := (date? s).any (·.2.isEmpty) && rest.head? == some ' ' &&
    ((rest.drop 1).head?).any Char.isDigit
  if goesOn then
    set (rest.drop 1)
    let time ← takeWhile isScalarChar
    match scalar? (s ++ ' ' :: time) with
    | some v => return v
    | none => failure
  else
    match scalar? s with
    | some v => return v
    | none => failure

mutual

/-- A value, which arrays and tables may surround to the given depth at most. -/
def value : Nat → Nat → Reader Toml
  | 0, _ => failure
  | fuel + 1, depth => do
    match ← peek? with
    | some '"' => return .text (← string fuel)
    | some '\'' => return .text (← string fuel)
    | some '[' =>
      expect '['
      match depth with
      | 0 => failure
      | depth + 1 => return .array (← items fuel depth)
    | some '{' =>
      expect '{'
      match depth with
      | 0 => failure
      | depth + 1 =>
        blanks
        if ← accept ['}'] then return .table .inline []
        else return .table .inline (← pairs fuel depth [])
    | _ => scalar

/-- The items of an array up to its closing bracket. -/
def items : Nat → Nat → Reader (List Toml)
  | 0, _ => failure
  | fuel + 1, depth => do
    space fuel
    if ← accept [']'] then return []
    else
      let v ← value fuel depth
      space fuel
      if ← accept [','] then return v :: (← items fuel depth)
      else
        expect ']'
        return [v]

/-- The settings of a table in one line up to its closing brace. -/
def pairs : Nat → Nat → TomlEntries → Reader TomlEntries
  | 0, _, _ => failure
  | fuel + 1, depth, entries => do
    let path ← key fuel
    expect '='
    blanks
    let v ← value fuel depth
    blanks
    match insert v path entries with
    | none => failure
    | some entries =>
      if ← accept [','] then pairs fuel depth entries
      else
        expect '}'
        return entries

end

/-! ## Lines -/

/-- The settings of keys up to the next header, put into a table. -/
def settings : Nat → TomlEntries → Reader TomlEntries
  | 0, entries => return entries
  | fuel + 1, entries => do
    blanks
    match ← peek? with
    | none => return entries
    | some '[' => return entries
    | some c =>
      if c == '#' || c == '\n' || c == '\r' then
        endOfLine
        settings fuel entries
      else
        let path ← key fuel
        expect '='
        blanks
        let v ← value fuel maxNesting
        endOfLine
        match insert v path entries with
        | none => failure
        | some entries => settings fuel entries

/-- The tables of all headers, put into a document. -/
def sections : Nat → TomlEntries → Reader TomlEntries
  | 0, entries => return entries
  | fuel + 1, entries => do
    match ← peek? with
    | none => return entries
    | some _ => do
      expect '['
      let repeated ← accept ['[']
      let path ← key fuel
      expect ']'
      if repeated then expect ']'
      endOfLine
      let rest ← get
      let fill (inner : TomlEntries) : Option TomlEntries := (settings fuel inner rest).map Prod.fst
      match (settings fuel [] rest).map Prod.snd with
      | none => failure
      | some after =>
        set after
        match if repeated then appendTable fill path entries else openTable fill path entries with
        | none => failure
        | some entries => sections fuel entries

end Reader

/-- The table of a document, in front of which a byte order mark does not count. -/
def parse? (s : List Char) : Option TomlEntries := do
  let s := if s.head? == some '\uFEFF' then s.drop 1 else s
  let fuel := s.length + 1
  let (top, rest) ← Reader.settings fuel [] s
  let (entries, _) ← Reader.sections fuel top rest
  some entries

/-- An empty document is an empty table. -/
theorem parse?_nil : parse? [] = some [] := rfl

end Toml
end ScriptMachine
