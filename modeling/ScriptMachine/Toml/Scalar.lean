import ScriptMachine.Number.Integral
import ScriptMachine.Number.Reading
import ScriptMachine.Toml.Table

/-!
# TOML numbers, booleans and dates

A scalar that is no string is a run of letters, digits and a few signs.  What it is follows
from its form alone.

Main results:

- {lit}`Toml.scalar?`: the value of such a run.
- {lit}`Toml.scalar?_true`: the booleans are words.
- {lit}`Toml.fraction_append_zero`: a zero at the end of a fraction does not matter.
-/

namespace ScriptMachine
namespace Toml

/-! ## Digits -/

/-- The digits of a number without underscores; each underscore stands between two digits. -/
def plainDigits? (isDigit : Char → Bool) : List Char → Option (List Char)
  | [] => none
  | [c] => if isDigit c then some [c] else none
  | c :: '_' :: rest =>
    if isDigit c then (plainDigits? isDigit rest).map (c :: ·) else none
  | c :: rest => if isDigit c then (plainDigits? isDigit rest).map (c :: ·) else none

/-- The value of a digit of any base. -/
def digitOf (c : Char) : Nat :=
  if c.isDigit then c.toNat - '0'.toNat else c.toLower.toNat - 'a'.toNat + 10

/-- The number that digits write in a base. -/
def digitsIn (base : Nat) (digits : List Char) : Nat :=
  digits.foldl (fun n c => base * n + digitOf c) 0

/-! ## Integers -/

/-- An integer that fits 64 bits. -/
def fitting? (i : Int) : Option Toml :=
  if Number.minSigned64 ≤ i ∧ i ≤ Number.maxSigned64 then some (.integer i) else none

/-- An unsigned decimal integer, which starts with zero only when it is zero. -/
def decimal? (s : List Char) : Option (List Char) := do
  let digits ← plainDigits? Char.isDigit s
  if 1 < digits.length && digits.head? == some '0' then none else some digits

/-- An integer in one of the bases. -/
def integer? (s : List Char) : Option Toml :=
  match s with
  | '0' :: 'x' :: digits =>
    (plainDigits? (fun c => c.isDigit || ('a' ≤ c.toLower && c.toLower ≤ 'f')) digits).bind fun digits =>
      fitting? (digitsIn 16 digits)
  | '0' :: 'o' :: digits =>
    (plainDigits? (fun c => '0' ≤ c && c ≤ '7') digits).bind fun digits => fitting? (digitsIn 8 digits)
  | '0' :: 'b' :: digits =>
    (plainDigits? (fun c => c == '0' || c == '1') digits).bind fun digits =>
      fitting? (digitsIn 2 digits)
  | _ =>
    let (negative, body) := Number.spanSign s
    (decimal? body).bind fun digits =>
      let n : Int := digitsIn 10 digits
      fitting? (if negative then -n else n)

/-! ## Floats -/

/-- The exponent of a float, with its mark. -/
def exponent? (s : List Char) : Option (List Char) :=
  match s with
  | [] => some []
  | mark :: rest =>
    if mark == 'e' || mark == 'E' then
      let sign := rest.take (if rest.head?.any (fun c => c == '+' || c == '-') then 1 else 0)
      (plainDigits? Char.isDigit (rest.drop sign.length)).map fun digits => 'e' :: sign ++ digits
    else none

/-- An unsigned decimal float without underscores; it has a fraction or an exponent. -/
def decimalFloat? (s : List Char) : Option (List Char) := do
  let isBody (c : Char) : Bool := c.isDigit || c == '_'
  let whole ← decimal? (s.takeWhile isBody)
  match s.dropWhile isBody with
  | [] => none
  | '.' :: rest =>
    let fraction ← plainDigits? Char.isDigit (rest.takeWhile isBody)
    some (whole ++ '.' :: fraction ++ (← exponent? (rest.dropWhile isBody)))
  | rest => some (whole ++ (← exponent? rest))

/-- A float: a decimal, or one of the words for values that are not finite.  Digits must not
exceed every finite value, unless they stand behind a minus sign. -/
def real? (s : List Char) : Option Toml :=
  let infinity : Float := 1.0 / 0.0
  let (negative, body) := Number.spanSign s
  let signed (x : Float) : Float := if negative then -x else x
  if body = "inf".toList then some (.real (signed infinity))
  else if body = "nan".toList then some (.real (signed (0.0 / 0.0)))
  else
    match (decimalFloat? body).bind Number.parse? with
    | some x => if signed x == infinity then none else some (.real (signed x))
    | none => none

/-! ## Dates and times -/

/-- A number of exactly so many digits in front of a text. -/
def takeDigits? (count : Nat) (s : List Char) : Option (Nat × List Char) :=
  let digits := s.take count
  if digits.length = count && digits.all Char.isDigit then some (digitsIn 10 digits, s.drop count)
  else none

/-- What follows a character. -/
def expect? (c : Char) : List Char → Option (List Char)
  | [] => none
  | d :: rest => if d == c then some rest else none

/-- The number of days of a month. -/
def daysIn (year month : Nat) : Nat :=
  if month = 2 then
    if year % 4 = 0 && (year % 100 != 0 || year % 400 = 0) then 29 else 28
  else if month = 4 || month = 6 || month = 9 || month = 11 then 30
  else 31

/-- A date in front of a text, and what follows it. -/
def date? (s : List Char) : Option (List Char × List Char) := do
  let (year, rest) ← takeDigits? 4 s
  let (month, rest) ← takeDigits? 2 (← expect? '-' rest)
  let (day, rest) ← takeDigits? 2 (← expect? '-' rest)
  if 1 ≤ month && month ≤ 12 && 1 ≤ day && day ≤ daysIn year month then some (s.take 10, rest)
  else none

/-- How many digits of a fraction of a second count. -/
def maxFraction : Nat := 9

/-- The fraction of a second in its usual form: without zeros at the end, and without a point
when nothing is left. -/
def fraction (digits : List Char) : List Char :=
  let kept := ((digits.take maxFraction).reverse.dropWhile (· == '0')).reverse
  if kept.isEmpty then [] else '.' :: kept

/-- A zero at the end of a fraction does not matter. -/
theorem fraction_append_zero (digits : List Char) : fraction (digits ++ ['0']) = fraction digits := by
  by_cases h : digits.length < maxFraction
  · have hlong : (digits ++ ['0']).take maxFraction = digits ++ ['0'] :=
      List.take_of_length_le (by rw [List.length_append]; exact h)
    have hshort : digits.take maxFraction = digits := List.take_of_length_le (Nat.le_of_lt h)
    simp [fraction, hlong, hshort]
  · have hcut : (digits ++ ['0']).take maxFraction = digits.take maxFraction :=
      List.take_append_of_le_length (Nat.le_of_not_lt h)
    simp [fraction, hcut]

/-- A time of the day in front of a text, in its usual form, and what follows it. -/
def time? (s : List Char) : Option (List Char × List Char) := do
  let (hour, rest) ← takeDigits? 2 s
  let (minute, rest) ← takeDigits? 2 (← expect? ':' rest)
  let (second, rest) ← takeDigits? 2 (← expect? ':' rest)
  if hour ≤ 23 && minute ≤ 59 && second ≤ 60 then
    match rest with
    | '.' :: rest =>
      let digits := rest.takeWhile Char.isDigit
      if digits.isEmpty then none
      else some (s.take 8 ++ fraction digits, rest.dropWhile Char.isDigit)
    | _ => some (s.take 8, rest)
  else none

/-- The offset of a time in its usual form, in which no offset is ahead; it may be missing. -/
def offset? (s : List Char) : Option (List Char) :=
  match s with
  | [] => some []
  | sign :: rest =>
    if sign == 'Z' || sign == 'z' then if rest.isEmpty then some ['Z'] else none
    else if sign == '+' || sign == '-' then do
      let (hour, behind) ← takeDigits? 2 rest
      let (minute, behind) ← takeDigits? 2 (← expect? ':' behind)
      if hour ≤ 23 && minute ≤ 59 && behind.isEmpty then
        some ((if hour = 0 && minute = 0 then '+' else sign) :: rest)
      else none
    else none

/-- A date, a time or both in its usual form. -/
def moment? (s : List Char) : Option (List Char) :=
  match date? s with
  | some (date, []) => some date
  | some (date, separator :: rest) =>
    if separator == 'T' || separator == 't' || separator == ' ' then do
      let (time, rest) ← time? rest
      some (date ++ 'T' :: time ++ (← offset? rest))
    else none
  | none => do
    let (time, rest) ← time? s
    if rest.isEmpty then some time else none

/-! ## Scalars -/

/-- Whether a character may occur in such a run. -/
def isScalarChar (c : Char) : Bool :=
  c.isAlphanum || c == '_' || c == '+' || c == '-' || c == '.' || c == ':'

/-- The value of a run of letters, digits and signs. -/
def scalar? (s : List Char) : Option Toml :=
  if s = "true".toList then some (.boolean true)
  else if s = "false".toList then some (.boolean false)
  else (moment? s).map (fun text => .moment (String.ofList text)) <|> integer? s <|> real? s

/-- The booleans are words. -/
theorem scalar?_true : scalar? "true".toList = some (.boolean true) := by
  simp [scalar?]

end Toml
end ScriptMachine
