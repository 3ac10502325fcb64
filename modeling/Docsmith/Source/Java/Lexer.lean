import Docsmith.Source.Syntax.Token
import Docsmith.Unicode.Word
/-!
# Java — tokens

Words, numbers, literals and symbols. Closing angle brackets are tokens of
one character each, so that they can end nested type arguments; an
operator of several is several tokens. A text with an unclosed comment or
literal has no tokens.
-/

namespace Docsmith.Source.Java

open Syntax Unicode

/-- A piece of a source: blanks, a comment, or a token of a kind. -/
inductive Piece where
  | blank
  | comment
  | token (kind : Token.Kind)
  deriving DecidableEq, Repr

/-- May start a word. -/
def startsWord (c : Char) : Bool :=
  isAlphabetic c || c == '_' || c == '$'

/-- May stand in a word. -/
def isWordPart (c : Char) : Bool :=
  Unicode.isWordChar c || c == '$'

/-- Symbols of more than one character, the longer ones first. -/
def longSymbols : List (List Char) :=
  ["...", "<<=", "->", "::", "++", "--", "&&", "||", "==", "!=", "<=", ">=", "+=", "-=", "*=",
    "/=", "%=", "&=", "|=", "^=", "<<"].map (·.toList)

/-- The length of a literal's rest up to and with its closing quote. -/
def literalLength? (quote : List Char) : List Char → Option Nat
  | [] => none
  | c :: text =>
    if quote.isPrefixOf (c :: text) then some quote.length
    else if c = '\\' then
      match text with
      | [] => none
      | _ :: rest => (literalLength? quote rest).map (· + 2)
    else (literalLength? quote text).map (· + 1)

/-- The length of a comment's rest up to and with its end. -/
def commentLength? (text : List Char) : Option Nat :=
  (Text.splitOnce? ['*', '/'] text).map fun (inner, _) => inner.length + 2

/-- The length of the digits behind a digit; underscores may stand between
them. -/
def moreDigits (isDigit : Char → Bool) : List Char → Nat
  | [] => 0
  | c :: text =>
    let more := moreDigits isDigit text
    if isDigit c || (c == '_' && 0 < more) then more + 1 else 0

/-- The length of the digits a text starts with. -/
def digitsLength (isDigit : Char → Bool) : List Char → Nat
  | c :: text => if isDigit c then 1 + moreDigits isDigit text else 0
  | [] => 0

/-- The length of an exponent: a letter, a sign perhaps, and digits. -/
def exponentLength (letters : List Char) : List Char → Nat
  | c :: text =>
    let signs := match text with
      | '+' :: _ | '-' :: _ => 1
      | _ => 0
    let digits := digitsLength Char.isDigit (text.drop signs)
    if letters.contains c && 0 < digits then 1 + signs + digits else 0
  | [] => 0

/-- The length of a point and the digits behind it. -/
def fractionLength (isDigit : Char → Bool) : List Char → Nat
  | '.' :: rest => 1 + digitsLength isDigit rest
  | _ => 0

/-- The length of the letter that may stand behind a number. -/
def suffixLength (letters : List Char) : List Char → Nat
  | c :: _ => if letters.contains c then 1 else 0
  | [] => 0

/-- A letter that marks a number with a fraction. -/
def floatSuffixes : List Char := ['f', 'F', 'd', 'D']

/-- The length of a decimal number. One that starts with a zero and has no
mark of a fraction is written in base eight. -/
def decimalLength (text : List Char) : Nat :=
  let whole := digitsLength Char.isDigit text
  let fraction := fractionLength Char.isDigit (text.drop whole)
  let mantissa := whole + fraction
  let length := mantissa + exponentLength ['e', 'E'] (text.drop mantissa)
  let behind := text.drop length
  let suffix := suffixLength floatSuffixes behind
  if whole < length + suffix then length + suffix
  else
    let digits :=
      if text.head? == some '0' then digitsLength (fun c => '0' ≤ c && c ≤ '7') text else whole
    digits + suffixLength ['l', 'L'] (text.drop digits)

/-- The length of a number in base two behind its mark. -/
def binaryLength (text : List Char) : Nat :=
  let digits := digitsLength (fun c => c == '0' || c == '1') text
  digits + suffixLength ['l', 'L'] (text.drop digits)

/-- The length of a number in base sixteen behind its mark. -/
def hexLength (text : List Char) : Nat :=
  let isHex (c : Char) : Bool := c.isDigit || ('a' ≤ c && c ≤ 'f') || ('A' ≤ c && c ≤ 'F')
  let whole := digitsLength isHex text
  let mantissa := whole + fractionLength isHex (text.drop whole)
  let exponent := exponentLength ['p', 'P'] (text.drop mantissa)
  let length := mantissa + exponent
  let suffixes := if exponent = 0 then ['l', 'L'] else floatSuffixes
  length + suffixLength suffixes (text.drop length)

/-- The length of the number a text starts with. Letters and digits right
behind it are no part of it. -/
def numberLength : List Char → Nat
  | '0' :: 'x' :: text | '0' :: 'X' :: text => 2 + hexLength text
  | '0' :: 'b' :: text | '0' :: 'B' :: text => 2 + binaryLength text
  | text => decimalLength text

/-- A digit stands next. -/
def digitNext : List Char → Bool
  | c :: _ => c.isDigit
  | [] => false

/-- The piece a text starts with and its length, which is never zero. -/
def piece? (text : List Char) : Option (Piece × Nat) :=
  match text with
  | [] => none
  | '/' :: '/' :: rest => some (.comment, 2 + (rest.takeWhile (· != '\n')).length)
  | '/' :: '*' :: rest => (commentLength? rest).map fun n => (.comment, n + 2)
  | '"' :: '"' :: '"' :: rest =>
    (literalLength? ['"', '"', '"'] rest).map fun n => (.token .string, n + 3)
  | '"' :: rest => (literalLength? ['"'] rest).map fun n => (.token .string, n + 1)
  | '\'' :: rest =>
    match literalLength? ['\''] rest with
    | some n => if 1 < n then some (.token .string, n + 1) else none
    | none => none
  | c :: rest =>
    if Text.isBlank c then some (.blank, 1)
    else if startsWord c then some (.token .word, 1 + (rest.takeWhile isWordPart).length)
    else if c.isDigit || (c == '.' && digitNext rest) then
      some (.token .number, numberLength text)
    else
      match longSymbols.find? (·.isPrefixOf text) with
      | some symbol => some (.token .symbol, symbol.length)
      | none => some (.token .symbol, 1)

/-- Reads tokens from a place on; `comment` is the last one since the token
before. -/
def tokensFrom : (fuel : Nat) → (place line : Nat) → (comment : List Char) → List Char →
    List Token → Option (List Token)
  | _, _, _, _, [], found => some found.reverse
  | 0, _, _, _, _ :: _, _ => none
  | fuel + 1, place, line, comment, text, found =>
    match piece? text with
    | none => none
    | some (piece, length) =>
      let chars := text.take length
      let place' := place + byteCount chars
      let line' := line + lineCount chars
      let rest := text.drop length
      match piece with
      | .blank => tokensFrom fuel place' line' comment rest found
      | .comment => tokensFrom fuel place' line' chars rest found
      | .token kind =>
        let token : Token := ⟨kind, chars, ⟨place, place'⟩, line, comment⟩
        tokensFrom fuel place' line' [] rest (token :: found)

/-- The tokens of a source. -/
def tokens? (content : List Char) : Option (List Token) :=
  tokensFrom content.length 0 1 [] content []

end Docsmith.Source.Java
