import ScriptMachine.Number.Fixed
import ScriptMachine.Number.Reading

/-!
# Printf-style number templates

A template is text around at most one conversion.  A conversion starts with a percent sign
and holds flags, a width, a precision, length letters without effect and a letter that
says how the number is written; two percent signs stand for one.

Main results:

- {lit}`Printf.parse`: the pieces of a template, or the first fault in it.
- {lit}`Conversion.field`: the padded field of a conversion.
- {lit}`Printf.format`: the rendered template, cut to its greatest length.
-/

namespace ScriptMachine
namespace Printf

open Number

/-! ## Templates -/

/-- The greatest length of a rendered template; widths and precisions beyond it are cut to it. -/
def maxLength : Nat := 79

/-- How an integer conversion writes its number. -/
inductive Radix where
  | octal
  | decimal
  | hexadecimal (capital : Bool)
deriving Repr, DecidableEq

/-- How a floating conversion writes its number. -/
inductive Style where
  | fixed
  | exponent
  | general
deriving Repr, DecidableEq

/-- What a conversion letter asks for. -/
inductive Kind where
  | signed
  | unsigned (radix : Radix)
  | character
  | floating (style : Style) (capital : Bool)
deriving Repr, DecidableEq

/-- One conversion of a template. -/
structure Conversion where
  left : Bool
  plus : Bool
  space : Bool
  zero : Bool
  alternate : Bool
  width : Nat
  precision : Option Nat
  kind : Kind
deriving Repr, DecidableEq

/-- A piece of a template. -/
inductive Piece where
  | literal (c : Char)
  | conversion (c : Conversion)
deriving Repr, DecidableEq

/-- What is wrong with a template. -/
inductive Fault where
  | empty
  | incomplete
  | unsupported (letter : Char)
  | tooManyConversions
deriving Repr, DecidableEq

/-- The text that reports a fault. -/
def Fault.message : Fault → String
  | .empty => "format string is empty"
  | .incomplete => "format string ends inside a conversion"
  | .unsupported letter => "unsupported conversion '%" ++ String.singleton letter ++ "'"
  | .tooManyConversions => "format string has more than one conversion"

/-! ## Reading a template -/

/-- What a conversion letter asks for, if it is supported. -/
def kindOf? : Char → Option Kind
  | 'd' | 'i' => some .signed
  | 'u' => some (.unsigned .decimal)
  | 'o' => some (.unsigned .octal)
  | 'x' => some (.unsigned (.hexadecimal false))
  | 'X' => some (.unsigned (.hexadecimal true))
  | 'c' => some .character
  | 'f' => some (.floating .fixed false)
  | 'F' => some (.floating .fixed true)
  | 'e' => some (.floating .exponent false)
  | 'E' => some (.floating .exponent true)
  | 'g' => some (.floating .general false)
  | 'G' => some (.floating .general true)
  | _ => none

/-- A flag character. -/
def isFlag (c : Char) : Bool :=
  c == '-' || c == '+' || c == ' ' || c == '0' || c == '#'

/-- A length letter. -/
def isLength (c : Char) : Bool :=
  c == 'l' || c == 'h' || c == 'L'

/-- A width or precision, cut to the greatest length; no digits read as zero. -/
def readCount (s : List Char) : Nat × List Char :=
  let (digits, rest) := spanDigits s
  (min maxLength (digitsValue 0 digits), rest)

/-- The optional precision: a point and a count. -/
def readPrecision : List Char → Option Nat × List Char
  | '.' :: rest =>
    let (count, after) := readCount rest
    (some count, after)
  | s => (none, s)

/-- The flags, width and precision behind a percent sign, the conversion letter and the
rest of the template; nothing when the template ends before the letter. -/
def readConversion (s : List Char) : Option ((Kind → Conversion) × Char × List Char) :=
  let flags := s.takeWhile isFlag
  let (width, afterWidth) := readCount (s.dropWhile isFlag)
  let (precision, afterPrecision) := readPrecision afterWidth
  match afterPrecision.dropWhile isLength with
  | [] => none
  | letter :: rest =>
    let conversion := fun kind => {
      left := flags.contains '-'
      plus := flags.contains '+'
      space := flags.contains ' '
      zero := flags.contains '0'
      alternate := flags.contains '#'
      width, precision, kind }
    some (conversion, letter, rest)

/-- What stands behind the digits of a count is no longer than the text. -/
theorem length_readCount_le (s : List Char) : (readCount s).2.length ≤ s.length := by
  simp only [readCount, spanDigits]
  exact (List.dropWhile_suffix _).length_le

/-- What stands behind a precision is no longer than the text. -/
theorem length_readPrecision_le (s : List Char) : (readPrecision s).2.length ≤ s.length := by
  unfold readPrecision
  split
  · next rest => exact Nat.le_succ_of_le (length_readCount_le rest)
  · exact Nat.le_refl _

/-- A conversion takes at least its letter. -/
theorem length_readConversion_lt {s rest : List Char} {conversion : Kind → Conversion} {letter : Char}
    (h : readConversion s = some (conversion, letter, rest)) : rest.length < s.length := by
  simp only [readConversion] at h
  split at h
  · exact absurd h (by simp)
  · next found tail hdrop =>
    simp only [Option.some.injEq, Prod.mk.injEq] at h
    obtain ⟨_, _, rfl⟩ := h
    have hlength := congrArg List.length hdrop
    have hletters := (List.dropWhile_suffix (l := (readPrecision (readCount (s.dropWhile isFlag)).2).2)
      isLength).length_le
    have hprecision := length_readPrecision_le (readCount (s.dropWhile isFlag)).2
    have hcount := length_readCount_le (s.dropWhile isFlag)
    have hflags := (List.dropWhile_suffix (l := s) isFlag).length_le
    simp only [List.length_cons] at hlength
    omega

/-- The pieces of a template, or the first fault met from the left. -/
def pieces (converted : Bool) (s : List Char) : Except Fault (List Piece) :=
  match s with
  | [] => .ok []
  | '%' :: '%' :: rest => do
    let others ← pieces converted rest
    return .literal '%' :: others
  | '%' :: body =>
    match _h : readConversion body with
    | none => .error .incomplete
    | some (conversion, letter, rest) =>
      if converted then .error .tooManyConversions
      else
        match kindOf? letter with
        | none => .error (.unsupported letter)
        | some kind => do
          let others ← pieces true rest
          return .conversion (conversion kind) :: others
  | c :: rest => do
    let others ← pieces converted rest
    return .literal c :: others
termination_by s.length
decreasing_by
  all_goals simp only [List.length_cons]
  · omega
  · have := length_readConversion_lt _h
    omega
  · omega

/-- The pieces of a template; an empty template is a fault. -/
def parse (template : List Char) : Except Fault (List Piece) :=
  if template.isEmpty then .error .empty else pieces false template

/-! ## Digits in a radix -/

/-- The base of a radix. -/
def Radix.base : Radix → Nat
  | .octal => 8
  | .decimal => 10
  | .hexadecimal _ => 16

/-- The digits of a number in a radix. -/
def Radix.digits (radix : Radix) (n : Nat) : List Char :=
  match radix with
  | .hexadecimal true => (Nat.toDigits 16 n).map Char.toUpper
  | _ => Nat.toDigits radix.base n

/-- What the alternate form puts in front of a number that is not zero. -/
def Radix.alternateText : Radix → List Char
  | .octal => ['0']
  | .decimal => []
  | .hexadecimal false => ['0', 'x']
  | .hexadecimal true => ['0', 'X']

/-! ## Fields -/

/-- The sign in front of a signed field. -/
def Conversion.signText (c : Conversion) (negative : Bool) : List Char :=
  if negative then ['-'] else if c.plus then ['+'] else if c.space then [' '] else []

/-- The digits with leading zeros up to the precision. -/
def Conversion.withPrecision (c : Conversion) (digits : List Char) : List Char :=
  padDigits (c.precision.getD 0) digits

/-- The field made of a sign or base mark and a body, filled up to the width: with blanks on
the right, with zeros behind the mark, or with blanks on the left. -/
def Conversion.pad (c : Conversion) (mark body : List Char) (zeroFill : Bool) : List Char :=
  let fill := c.width - (mark.length + body.length)
  if c.left then mark ++ body ++ List.replicate fill ' '
  else if c.zero && zeroFill then mark ++ List.replicate fill '0' ++ body
  else List.replicate fill ' ' ++ mark ++ body

/-- Drops trailing zeros behind a point, and the point itself when nothing is left there. -/
def stripFraction (s : List Char) : List Char :=
  if s.contains '.' then
    let kept := (s.reverse.dropWhile (· == '0')).reverse
    if kept.getLast? = some '.' then kept.dropLast else kept
  else s

/-- The significant digits with a point behind the first; the alternate form keeps a point
without digits behind it. -/
def mantissaText (digits : List Char) (alternate : Bool) : List Char :=
  match digits with
  | [] => []
  | [d] => if alternate then [d, '.'] else [d]
  | d :: rest => d :: '.' :: rest

/-- The exponent with its sign and at least two digits. -/
def exponentSuffix (e : Int) : List Char :=
  'e' :: (if e < 0 then '-' else '+') :: padDigits 2 (decimalDigits e.natAbs)

/-- A finite magnitude in a floating style. -/
def floatingText (x : Magnitude) (style : Style) (precision : Nat) (alternate : Bool) : List Char :=
  match style with
  | .fixed =>
    let text := x.fixed precision
    if alternate && precision == 0 then text ++ ['.'] else text
  | .exponent =>
    let (digits, e) := x.significant precision
    mantissaText digits alternate ++ exponentSuffix e
  | .general =>
    let count := max precision 1
    let (digits, e) := x.significant (count - 1)
    if -4 ≤ e && e < (count : Int) then
      let text := x.fixed ((count : Int) - 1 - e).toNat
      if alternate then text else stripFraction text
    else
      let mantissa := mantissaText digits alternate
      (if alternate then mantissa else stripFraction mantissa) ++ exponentSuffix e

/-- The body of a floating field: the magnitude, or the word for what is not finite. -/
def floatingBody (x : Float) (style : Style) (capital : Bool) (c : Conversion) : List Char :=
  let text :=
    match decode x with
    | .nan => ['n', 'a', 'n']
    | .infinity _ => ['i', 'n', 'f']
    | .finite _ magnitude => floatingText magnitude style (c.precision.getD 6) c.alternate
  if capital then text.map Char.toUpper else text

/-- The character with the given code point, or a question mark when there is none. -/
def characterOf (code : Nat) : Char :=
  if h : code.isValidChar then Char.ofNatAux code h else '?'

/-- The field that a conversion makes of a number. -/
def Conversion.field (c : Conversion) (x : Float) : List Char :=
  match c.kind with
  | .signed =>
    let i := truncate64 x
    c.pad (c.signText (i < 0)) (c.withPrecision (decimalDigits i.natAbs)) c.precision.isNone
  | .unsigned radix =>
    let n := low64 (truncate64 x)
    let mark := if c.alternate && n != 0 then radix.alternateText else []
    c.pad mark (c.withPrecision (radix.digits n)) c.precision.isNone
  | .character => c.pad [] [characterOf (low32 (truncate64 x))] false
  | .floating style capital =>
    c.pad (c.signText (isNegative x && !x.isNaN)) (floatingBody x style capital c) (isFinite x)

/-! ## Rendering -/

/-- The text of one piece. -/
def Piece.render (x : Float) : Piece → List Char
  | .literal c => [c]
  | .conversion c => c.field x

/-- The number that is rendered: as given, or its integer part read as 32 unsigned bits. -/
def operand (x : Float) (unsigned : Bool) : Float :=
  if unsigned then Float.ofNat (low32 (truncate64 x)) else x

/-- The template with its conversion replaced by the number, cut to the greatest length. -/
def format (template : String) (x : Float) (unsigned : Bool) : Except Fault String := do
  let parsed ← parse template.toList
  let text := parsed.flatMap (Piece.render (operand x unsigned))
  return String.ofList (text.take maxLength)

end Printf
end ScriptMachine
