import Docsmith.Json.Value
import Docsmith.Text.Basic
import Docsmith.Decimal.Shortest
/-!
# TOML — numbers, dates and times

A date, a time, or both with or without an offset. They are read and
written, not computed with: the text that is kept has a `T` between date
and time, a capital `Z`, and no zeros at the end of its fraction, of which
nine digits count.
-/

/-! ## Numbers

A whole number of sixty-four bits with a sign, in base ten or, without a
sign, in base sixteen, eight or two; or a floating-point number, which has
a fraction, an exponent or both, or is `inf` or `nan`. Single underscores
may stand between digits, and no zero before other digits. The greatest
finite value may be exceeded downwards only.
-/

namespace Docsmith.Toml.Number

open Decimal

/-- The digits without the underscores between them. -/
def digits? (base : Nat) (text : List Char) : Option (List Char) :=
  let pieces := Text.splitChar '_' text
  if pieces.all fun piece => !piece.isEmpty && piece.all fun c =>
      (Text.digitValue? base c).isSome then some pieces.flatten
  else none

/-- Decimal digits without a zero before others. -/
def wholeDigits? (text : List Char) : Option (List Char) :=
  (digits? 10 text).filter fun
    | '0' :: _ :: _ => false
    | _ => true

/-- A number is negative, and the text after its sign. -/
def splitSign : List Char → Bool × List Char
  | '+' :: rest => (false, rest)
  | '-' :: rest => (true, rest)
  | text => (false, text)

/-- A whole number within sixty-four bits. -/
def bounded? (n : Int) : Option Json.Number :=
  if -Int.pow 2 63 ≤ n && n < Int.pow 2 63 then some (.whole n) else none

/-- A whole number. -/
def whole? (text : List Char) : Option Json.Number :=
  let inBase (base : Nat) (rest : List Char) : Option Json.Number :=
    ((digits? base rest).bind (Text.numeral? base)).bind fun n => bounded? n
  match text with
  | '0' :: 'x' :: rest => inBase 16 rest
  | '0' :: 'o' :: rest => inBase 8 rest
  | '0' :: 'b' :: rest => inBase 2 rest
  | _ =>
    let (negative, rest) := splitSign text
    ((wholeDigits? rest).bind (Text.numeral? 10)).bind fun n =>
      bounded? (if negative then -n else n)

/-- An exponent: a sign and digits. -/
def exponent? (text : List Char) : Option Int :=
  let (negative, rest) := splitSign text
  ((digits? 10 rest).bind (Text.numeral? 10)).map fun n => if negative then -n else n

/-- The value of a sign, digits before and after the point, and an
exponent. -/
def value? (negative : Bool) (whole fraction : List Char) (exponent : Int) : Option Json.Number :=
  (Text.numeral? 10 (whole ++ fraction)).bind fun n =>
    match Format.double.ofDecimal negative n (exponent - fraction.length) with
    | .infinite false => none
    | x => some (.float x)

/-- A floating-point number in digits. -/
def float? (text : List Char) : Option Json.Number := do
  let (negative, rest) := splitSign text
  let isMark (c : Char) : Bool := c == 'e' || c == 'E'
  let mantissa := rest.takeWhile (!isMark ·)
  let tail := (rest.dropWhile (!isMark ·)).drop 1
  let exponent ← if mantissa.length = rest.length then some 0 else exponent? tail
  match Text.splitOnce? ['.'] mantissa with
  | some (whole, fraction) =>
    value? negative (← wholeDigits? whole) (← digits? 10 fraction) exponent
  | none =>
    if mantissa.length = rest.length then none
    else value? negative (← wholeDigits? mantissa) [] exponent

/-- A floating-point number in words. -/
def special? (text : List Char) : Option Json.Number :=
  let (negative, rest) := splitSign text
  if rest = "inf".toList then some (.float (.infinite negative))
  else if rest = "nan".toList then some (.float .nan)
  else none

/-- The number a word stands for. -/
def read? (text : List Char) : Option Json.Number :=
  (whole? text).or ((float? text).or (special? text))

end Docsmith.Toml.Number

/-! ## Dates and times -/

namespace Docsmith.Toml.Moment

/-- A number of exactly `count` digits at the start of a text. -/
def field? (count : Nat) (text : List Char) : Option (Nat × List Char) :=
  if text.length < count then none
  else (Text.numeral? 10 (text.take count)).map (·, text.drop count)

/-- Drops a character that has to stand first. -/
def skip? (c : Char) : List Char → Option (List Char)
  | d :: rest => if c = d then some rest else none
  | [] => none

/-- The number of days in a month. -/
def daysIn (year month : Nat) : Nat :=
  if month = 2 then
    if year % 4 = 0 ∧ (year % 100 ≠ 0 ∨ year % 400 = 0) then 29 else 28
  else if month = 4 ∨ month = 6 ∨ month = 9 ∨ month = 11 then 30
  else 31

/-- A number with leading zeros up to a width. -/
def padded (width n : Nat) : List Char :=
  let digits := Decimal.digits n
  List.replicate (width - digits.length) '0' ++ digits

/-- A date in its written form. -/
def date? (text : List Char) : Option (List Char × List Char) := do
  let (year, rest) ← field? 4 text
  let (month, rest) ← field? 2 (← skip? '-' rest)
  let (day, rest) ← field? 2 (← skip? '-' rest)
  if 1 ≤ month ∧ month ≤ 12 ∧ 1 ≤ day ∧ day ≤ daysIn year month then
    some (padded 4 year ++ '-' :: padded 2 month ++ '-' :: padded 2 day, rest)
  else none

/-- A fraction of a second in its written form, if there is one. -/
def fraction? : List Char → Option (List Char × List Char)
  | '.' :: text =>
    let digits := text.takeWhile Char.isDigit
    let kept := Text.dropAllEnd '0' (digits.take 9)
    if digits.isEmpty then none
    else some (if kept.isEmpty then [] else '.' :: kept, text.dropWhile Char.isDigit)
  | text => some ([], text)

/-- A time in its written form. -/
def time? (text : List Char) : Option (List Char × List Char) := do
  let (hour, rest) ← field? 2 text
  let (minute, rest) ← field? 2 (← skip? ':' rest)
  let (second, rest) ← field? 2 (← skip? ':' rest)
  let (fraction, rest) ← fraction? rest
  if hour ≤ 23 ∧ minute ≤ 59 ∧ second ≤ 60 then
    some (padded 2 hour ++ ':' :: padded 2 minute ++ ':' :: padded 2 second ++ fraction, rest)
  else none

/-- An offset in its written form, if there is one. -/
def offset? : List Char → Option (List Char × List Char)
  | 'Z' :: rest => some (['Z'], rest)
  | 'z' :: rest => some (['Z'], rest)
  | c :: rest =>
    if c = '+' ∨ c = '-' then do
      let (hour, rest) ← field? 2 rest
      let (minute, rest) ← field? 2 (← skip? ':' rest)
      if hour ≤ 23 ∧ minute ≤ 59 then
        let sign := if c = '-' ∧ 0 < hour + minute then '-' else '+'
        some (sign :: padded 2 hour ++ ':' :: padded 2 minute, rest)
      else none
    else some ([], c :: rest)
  | [] => some ([], [])

/-- A date with a time and perhaps an offset. -/
def dateTime? (text : List Char) : Option (List Char × List Char) := do
  let (date, rest) ← date? text
  let c :: rest := rest | none
  if c = 'T' ∨ c = 't' ∨ c = ' ' then
    let (time, rest) ← time? rest
    let (offset, rest) ← offset? rest
    return (date ++ 'T' :: time ++ offset, rest)
  else none

/-- The longest of the forms at the start of a text. -/
def read? (text : List Char) : Option (List Char × List Char) :=
  (dateTime? text).or ((date? text).or (time? text))

end Docsmith.Toml.Moment
