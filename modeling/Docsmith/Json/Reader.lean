import Docsmith.Json.Value
/-!
# JSON — reading

A text is read as one value with nothing but white space around it.
Arrays and objects nest at most 127 deep. Strings hold no raw control
character and no half of a surrogate pair; of two fields with one name the
later counts. A number with a fraction or an exponent, and a whole number
of more than sixty-four bits, is floating-point; one beyond the greatest
finite value is refused.
-/

namespace Docsmith.Json

open Decimal

/-- White space between tokens. -/
def isSpace (c : Char) : Bool :=
  c == ' ' || c == '\n' || c == '\t' || c == '\r'

/-- Drops white space at the start. -/
def skipSpace (text : List Char) : List Char :=
  text.dropWhile isSpace

/-- The value of a hexadecimal digit. -/
def hexDigit? (c : Char) : Option Nat :=
  if c.isDigit then some (c.toNat - '0'.toNat)
  else if 'a' ≤ c && c ≤ 'f' then some (c.toNat - 'a'.toNat + 10)
  else if 'A' ≤ c && c ≤ 'F' then some (c.toNat - 'A'.toNat + 10)
  else none

/-- The value of four hexadecimal digits. -/
def hexUnit? (a b c d : Char) : Option Nat := do
  return ((← hexDigit? a) * 16 + (← hexDigit? b)) * 256 + (← hexDigit? c) * 16 + (← hexDigit? d)

/-- The character a letter stands for after a backslash. -/
def shortEscape? : Char → Option Char
  | '"' => some '"'
  | '\\' => some '\\'
  | '/' => some '/'
  | 'b' => some '\x08'
  | 'f' => some '\x0c'
  | 'n' => some '\n'
  | 'r' => some '\r'
  | 't' => some '\t'
  | _ => none

/-- A string up to its closing quote, and the text after it. -/
def stringBody? (text : List Char) : Option (List Char × List Char) :=
  match text with
  | [] => none
  | '"' :: rest => some ([], rest)
  | '\\' :: 'u' :: a :: b :: c :: d :: rest => do
    let unit ← hexUnit? a b c d
    if 0xd800 ≤ unit && unit < 0xdc00 then
      match rest with
      | '\\' :: 'u' :: a :: b :: c :: d :: rest =>
        let low ← hexUnit? a b c d
        if 0xdc00 ≤ low && low < 0xe000 then
          let (s, rest) ← stringBody? rest
          return (Char.ofNat (0x10000 + (unit - 0xd800) * 0x400 + (low - 0xdc00)) :: s, rest)
        else none
      | _ => none
    else if 0xdc00 ≤ unit && unit < 0xe000 then none
    else
      let (s, rest) ← stringBody? rest
      return (Char.ofNat unit :: s, rest)
  | '\\' :: c :: rest => do
    let e ← shortEscape? c
    let (s, rest) ← stringBody? rest
    return (e :: s, rest)
  | c :: rest =>
    if c.toNat < 0x20 || c == '\\' then none
    else do
      let (s, rest) ← stringBody? rest
      return (c :: s, rest)
termination_by text.length

/-- The greatest whole number of sixty-four bits. -/
def maxWord : Nat := Nat.pow 2 64 - 1

/-- Takes digits into a significand as long as it stays within sixty-four
bits: the significand, how many digits it took, and the rest. -/
def takeDigits : Nat → Nat → List Char → Nat × Nat × List Char
  | significand, count, c :: rest =>
    if c.isDigit then
      let next := significand * 10 + (c.toNat - '0'.toNat)
      if next ≤ maxWord then takeDigits next (count + 1) rest
      else (significand, count, c :: rest)
    else (significand, count, c :: rest)
  | significand, count, [] => (significand, count, [])

/-- The digits at the start of a text that no significand holds. -/
def dropDigits (text : List Char) : Nat × List Char :=
  ((text.takeWhile Char.isDigit).length, text.dropWhile Char.isDigit)

/-- A power of ten as a floating-point number. -/
def powerOfTen (k : Nat) : Binary :=
  Format.double.round false (Nat.pow 10 k) 1

/-- `x` over a power of ten beyond the formats' range, taken in steps. -/
def divideByTen (x : Binary) : Nat → Nat → Binary
  | 0, _ => x
  | fuel + 1, k =>
    if k ≤ 308 then x.over .double (powerOfTen k)
    else
      match x.over .double (powerOfTen 308) with
      | .finite negative 0 e => .finite negative 0 e
      | y => divideByTen y fuel (k - 308)

/-- The floating-point number with a significand and a power of ten. Both
are rounded before they are multiplied or divided; an infinite result is
refused. -/
def float? (negative : Bool) (significand : Nat) (exponent : Int) : Option Binary :=
  let x := Format.double.round negative significand 1
  if significand = 0 then some x
  else
    match exponent with
    | .ofNat k =>
      if 308 < k then none
      else
        match x.times .double (powerOfTen k) with
        | .finite s m e => some (.finite s m e)
        | _ => none
    | .negSucc k => some (divideByTen x 16 (min (k + 1) 4000))

/-- An exponent is negative, and the text after its sign. -/
def exponentSign : List Char → Bool × List Char
  | '+' :: rest => (false, rest)
  | '-' :: rest => (true, rest)
  | text => (false, text)

/-- The part of a number after `e`: sign, digits, and the number itself. -/
def exponentPart? (negative : Bool) (significand : Nat) (exponent : Int) (text : List Char) :
    Option (Number × List Char) :=
  let (down, text) := exponentSign text
  let ds := text.takeWhile Char.isDigit
  let rest := text.dropWhile Char.isDigit
  if ds.isEmpty then none
  else
    let e : Int := ds.foldl (fun n c => n * 10 + (c.toNat - '0'.toNat)) 0
    let exponent := if down then exponent - e else exponent + e
    (float? negative significand exponent).map fun x => (.float x, rest)

/-- The part of a number after all its digits. -/
def scale? (negative : Bool) (significand : Nat) (exponent : Int) (text : List Char) :
    Option (Number × List Char) :=
  match text with
  | 'e' :: rest => exponentPart? negative significand exponent rest
  | 'E' :: rest => exponentPart? negative significand exponent rest
  | _ => (float? negative significand exponent).map fun x => (.float x, text)

/-- The part of a number after its whole digits. -/
def fraction? (negative : Bool) (significand : Nat) (exponent : Int) (text : List Char) :
    Option (Number × List Char) :=
  match text with
  | '.' :: rest =>
    let (significand, count, more) := takeDigits significand 0 rest
    let (dropped, more) := dropDigits more
    if count + dropped = 0 then none else scale? negative significand (exponent - count) more
  | _ => scale? negative significand exponent text

/-- A fraction or an exponent follows. -/
def goesOn : List Char → Bool
  | c :: _ => c == '.' || c == 'e' || c == 'E'
  | [] => false

/-- A number without its sign. Whole numbers keep sixty-four bits; minus
zero and whole numbers beyond that are floating-point. -/
def magnitude? (negative : Bool) (text : List Char) : Option (Number × List Char) :=
  match text with
  | '0' :: rest =>
    if rest.head?.any Char.isDigit then none
    else if goesOn rest then fraction? negative 0 0 rest
    else some (if negative then .float (.finite true 0 0) else .whole 0, rest)
  | c :: rest =>
    if !c.isDigit then none
    else
      let (significand, _, more) := takeDigits 0 0 (c :: rest)
      let (dropped, more) := dropDigits more
      if dropped != 0 || goesOn more then fraction? negative significand dropped more
      else whole negative significand more
  | [] => none
where
  /-- A whole number, or the float nearest to it where it is too low. -/
  whole (negative : Bool) (n : Nat) (rest : List Char) : Option (Number × List Char) :=
    if !negative then some (.whole n, rest)
    else if n ≤ Nat.pow 2 63 then some (.whole (-n), rest)
    else some (.float (Format.double.round true n 1), rest)

/-- A word with a fixed meaning. -/
def word? (word : String) (value : Json) (text : List Char) : Option (Json × List Char) :=
  let letters := word.toList
  if letters.isPrefixOf text then some (value, text.drop letters.length) else none

/-- The members of an array or an object, after its opening bracket or a
comma and up to its closing one. -/
def members? {α : Type} (closing : Char) (member : List Char → Option (α × List Char)) :
    Nat → List Char → Option (List α × List Char)
  | 0, _ => none
  | fuel + 1, text => do
    let (first, rest) ← member text
    match skipSpace rest with
    | ',' :: rest =>
      let (others, rest) ← members? closing member fuel rest
      return (first :: others, rest)
    | c :: rest => if c = closing then some ([first], rest) else none
    | [] => none

/-- A field of an object. -/
def field? (value : List Char → Option (Json × List Char)) (text : List Char) :
    Option ((String × Json) × List Char) := do
  let '"' :: rest := skipSpace text | none
  let (name, rest) ← stringBody? rest
  let ':' :: rest := skipSpace rest | none
  let (item, rest) ← value rest
  return ((String.ofList name, item), rest)

/-- An array after its opening bracket. -/
def array? (value : List Char → Option (Json × List Char)) (text : List Char) :
    Option (Json × List Char) :=
  match skipSpace text with
  | ']' :: rest => some (.array [], rest)
  | _ => (members? ']' value (text.length + 1) text).map fun (items, rest) => (.array items, rest)

/-- An object after its opening brace; its fields stand in the order of the
text until they are put in order. -/
def object? (value : List Char → Option (Json × List Char)) (text : List Char) :
    Option (Json × List Char) :=
  match skipSpace text with
  | '\x7d' :: rest => some (.object [], rest)
  | _ => (members? '\x7d' (field? value) (text.length + 1) text).map fun (fields, rest) =>
      (ofFields fields, rest)

/-- A value without parts. -/
def scalar? : List Char → Option (Json × List Char)
  | '"' :: rest => (stringBody? rest).map fun (s, rest) => (.string (String.ofList s), rest)
  | '-' :: rest => (magnitude? true rest).map fun (n, rest) => (.number n, rest)
  | 't' :: rest => word? "true" (.bool true) ('t' :: rest)
  | 'f' :: rest => word? "false" (.bool false) ('f' :: rest)
  | 'n' :: rest => word? "null" .null ('n' :: rest)
  | text => (magnitude? false text).map fun (n, rest) => (.number n, rest)

/-- One value with at most `depth` levels of arrays and objects. -/
def value? : Nat → List Char → Option (Json × List Char)
  | 0, text => scalar? (skipSpace text)
  | depth + 1, text =>
    match skipSpace text with
    | '[' :: rest => array? (value? depth) rest
    | '\x7b' :: rest => object? (value? depth) rest
    | text => scalar? text

/-- The deepest nesting that is read. -/
def maxDepth : Nat := 127

/-- The value a text holds, if it is JSON. -/
def parse? (text : String) : Option Json :=
  match value? maxDepth text.toList with
  | some (v, rest) => if (skipSpace rest).isEmpty then some v else none
  | none => none

end Docsmith.Json
