import Docsmith.Source.Syntax.Token
import Docsmith.Unicode.Word
/-!
# Python — tokens

Words, numbers, literals and symbols, and the shape of the lines: a token
ends each logical line, and further ones open and close blocks. A block
opens where a deeper line follows a line that ends in a colon; a line
closes every block that is deeper than itself. Inside brackets lines do
not count.
-/

namespace Docsmith.Source.Python

open Syntax Unicode

/-- May start a word. -/
def startsWord (c : Char) : Bool :=
  isAlphabetic c || c == '_'

/-- Symbols of more than one character, the longer ones first. -/
def longSymbols : List (List Char) :=
  ["**=", "//=", ">>=", "<<=", "...", "->", ":=", "==", "!=", "<>", "<=", ">=", "+=", "-=", "*=",
    "/=", "%=", "&=", "|=", "^=", "@=", "**", "//", "<<", ">>"].map (·.toList)

/-- A letter that may stand before a literal's quote. -/
def isLiteralPrefix (c : Char) : Bool :=
  ['r', 'R', 'u', 'U', 'b', 'B', 'f', 'F', 't', 'T'].contains c

/-- The literal behind these letters holds fields. -/
def holdsFields (letters : List Char) : Bool :=
  letters.any fun c => ['f', 'F', 't', 'T'].contains c

/-- What a place inside a literal belongs to: its text, a field of it with
open brackets, or the form that a field asks for. -/
inductive Inside where
  | text (quote : List Char) (hasFields : Bool)
  | field (open_ : Nat)
  | form
  deriving DecidableEq, Repr

/-- The quote a text starts with: three characters or one. -/
def quote? : List Char → Option (List Char)
  | '"' :: '"' :: '"' :: _ => some ['"', '"', '"']
  | '\'' :: '\'' :: '\'' :: _ => some ['\'', '\'', '\'']
  | '"' :: _ => some ['"']
  | '\'' :: _ => some ['\'']
  | _ => none

/-- The length of a literal's rest up to and with its closing quote. -/
def literalLength? : (fuel : Nat) → List Inside → (count : Nat) → List Char → Option Nat
  | _, [], count, _ => some count
  | 0, _, _, _ => none
  | _, _ :: _, _, [] => none
  | fuel + 1, .text quote hasFields :: outer, count, c :: text =>
    let inside := Inside.text quote hasFields
    if quote.isPrefixOf (c :: text) then
      literalLength? fuel outer (count + quote.length) ((c :: text).drop quote.length)
    else if c = '\\' then
      let escaped := if hasFields && text.head? == some '\x7b' then 0 else min 1 text.length
      literalLength? fuel (inside :: outer) (count + 1 + escaped) (text.drop escaped)
    else if c = '\n' && quote.length == 1 then none
    else if hasFields && c = '\x7b' then
      if text.head? = some '\x7b' then
        literalLength? fuel (inside :: outer) (count + 2) (text.drop 1)
      else literalLength? fuel (.field 0 :: inside :: outer) (count + 1) text
    else if hasFields && c = '\x7d' then
      if text.head? = some '\x7d' then
        literalLength? fuel (inside :: outer) (count + 2) (text.drop 1)
      else none
    else literalLength? fuel (inside :: outer) (count + 1) text
  | fuel + 1, .field depth :: outer, count, c :: text =>
    let letters := (c :: text).takeWhile isLiteralPrefix
    let behind := (c :: text).drop letters.length
    match quote? behind with
    | some quote =>
      literalLength? fuel (.text quote (holdsFields letters) :: .field depth :: outer)
        (count + letters.length + quote.length) (behind.drop quote.length)
    | none =>
      if c = '\x7d' && depth == 0 then literalLength? fuel outer (count + 1) text
      else if c = ':' && depth == 0 then literalLength? fuel (.form :: outer) (count + 1) text
      else
        let depth :=
          if ['(', '[', '\x7b'].contains c then depth + 1
          else if [')', ']', '\x7d'].contains c then depth - 1
          else depth
        literalLength? fuel (.field depth :: outer) (count + 1) text
  | fuel + 1, .form :: outer, count, c :: text =>
    let closes := match outer with
      | .text quote _ :: _ => quote.isPrefixOf (c :: text)
      | _ => false
    if closes then none
    else if c = '\x7d' then literalLength? fuel outer (count + 1) text
    else if c = '\x7b' then literalLength? fuel (.field 0 :: .form :: outer) (count + 1) text
    else literalLength? fuel (.form :: outer) (count + 1) text

/-- The length of the digits a text starts with; single underscores may
stand between them, and `scored` tells that one may stand next. -/
def digitsLength (isDigit : Char → Bool) : (scored : Bool) → List Char → Nat
  | _, [] => 0
  | scored, c :: text =>
    if isDigit c then digitsLength isDigit true text + 1
    else if scored && c = '_' then digitsLength isDigit false text + 1
    else 0

/-- The length of an exponent: a letter, a sign perhaps, and digits. -/
def exponentLength : List Char → Nat
  | c :: text =>
    let signs := match text with
      | '+' :: _ | '-' :: _ => 1
      | _ => 0
    let digits := digitsLength Char.isDigit false (text.drop signs)
    if (c = 'e' || c = 'E') && 0 < digits then 1 + signs + digits else 0
  | [] => 0

/-- The length of a decimal number, without a letter behind it. -/
def decimalLength (text : List Char) : Nat :=
  let whole := digitsLength Char.isDigit false text
  let fraction := match text.drop whole with
    | '.' :: rest => 1 + digitsLength Char.isDigit false rest
    | _ => 0
  whole + fraction + exponentLength (text.drop (whole + fraction))

/-- The greatest digit of the base that a mark stands for. -/
def topDigit? (mark : Char) : Option Char :=
  if mark = 'x' || mark = 'X' then some 'f'
  else if mark = 'o' || mark = 'O' then some '7'
  else if mark = 'b' || mark = 'B' then some '1'
  else none

/-- The length of a number in base sixteen, eight or two, without a letter
behind it. -/
def basedLength : List Char → Nat
  | '0' :: mark :: text =>
    match topDigit? mark with
    | some top =>
      let digits := digitsLength (fun c => c.isAlphanum && c.toLower ≤ top) true text
      if 0 < digits then 2 + digits else 0
    | none => 0
  | _ => 0

/-- The length of the letter that may stand behind a number. -/
def letterLength (letters : List Char) : List Char → Nat
  | c :: _ => if letters.contains c then 1 else 0
  | [] => 0

/-- The length of a number. -/
def numberLength (text : List Char) : Nat :=
  match basedLength text with
  | 0 =>
    let decimal := decimalLength text
    decimal + letterLength ['j', 'J', 'l', 'L'] (text.drop decimal)
  | based => based + letterLength ['l', 'L'] (text.drop based)

/-- A digit stands next. -/
def digitNext : List Char → Bool
  | c :: _ => c.isDigit
  | [] => false

/-- The kind and length of the token a text starts with. -/
def token? (text : List Char) : Option (Token.Kind × Nat) :=
  let letters := text.takeWhile isLiteralPrefix
  let behind := text.drop letters.length
  match quote? behind with
  | some quote =>
    let inside := [Inside.text quote (holdsFields letters)]
    (literalLength? (behind.length + 1) inside 0 (behind.drop quote.length)).map fun n =>
      (.string, letters.length + quote.length + n)
  | none =>
    match text with
    | [] => none
    | c :: rest =>
      if startsWord c then some (.word, 1 + (rest.takeWhile isWordChar).length)
      else if c.isDigit || (c == '.' && digitNext rest) then
        some (.number, numberLength text)
      else
        match longSymbols.find? (·.isPrefixOf text) with
        | some symbol => some (.symbol, symbol.length)
        | none => some (.symbol, 1)

/-- What is known at a place: where it is, the open blocks by their
indentation, the innermost first, and the open brackets. -/
structure Place where
  offset : Nat := 0
  line : Nat := 1
  blocks : List Nat := []
  brackets : Nat := 0

/-- The place behind some characters. -/
def Place.after (p : Place) (chars : List Char) : Place :=
  { p with offset := p.offset + byteCount chars, line := p.line + lineCount chars }

/-- A token without text that stands at a place. -/
def Place.mark (p : Place) (kind : Token.Kind) : Token :=
  ⟨kind, [], ⟨p.offset, p.offset⟩, p.line, []⟩

/-- The blanks, comments and empty lines a line starts with: their length,
and the indentation of what follows. -/
def margin : (fuel : Nat) → (count width : Nat) → List Char → Nat × Nat
  | 0, count, width, _ => (count, width)
  | _, count, _, [] => (count, 0)
  | fuel + 1, count, width, c :: text =>
    if c = ' ' then margin fuel (count + 1) (width + 1) text
    else if c = '\t' then margin fuel (count + 1) (width + 8) text
    else if c = '\n' || c = '\r' || c = '\x0c' || c = '\ufeff' then margin fuel (count + 1) 0 text
    else if c = '#' then
      let skipped := (text.takeWhile (· != '\n')).length
      margin fuel (count + 1 + skipped) 0 (text.drop skipped)
    else if c = '\\' then
      match text with
      | '\n' :: rest => margin fuel (count + 2) width rest
      | '\r' :: '\n' :: rest => margin fuel (count + 3) width rest
      | _ => (count, width)
    else (count, width)

/-- The marks where a line of some indentation starts: it opens a block
behind a colon, and closes deeper ones. -/
def blockMarks (p : Place) (width : Nat) (found : List Token) : Place × List Token :=
  let colon : Bool := match found with
    | t :: u :: _ => t.kind == .newline && u.kind == .symbol && u.text == [':']
    | _ => false
  let current := p.blocks.head?.getD 0
  if current < width then
    if colon then ({ p with blocks := width :: p.blocks }, p.mark .indent :: found) else (p, found)
  else
    let closed := p.blocks.takeWhile (width < ·)
    ({ p with blocks := p.blocks.drop closed.length },
      List.replicate closed.length (p.mark .dedent) ++ found)

/-- Reads tokens from a place on; `fresh` tells that a logical line starts
there, and `found` holds the tokens so far, the last one first. -/
def tokensFrom : (fuel : Nat) → (fresh : Bool) → Place → List Char → List Token →
    Option (List Token)
  | 0, _, _, _, _ => none
  | fuel + 1, true, p, text, found =>
    let (count, width) := margin (text.length + 1) 0 0 text
    let p := p.after (text.take count)
    let (p, found) := blockMarks p width found
    match text.drop count with
    | [] => some found.reverse
    | rest => tokensFrom fuel false p rest found
  | _ + 1, false, p, [], found =>
    some ((List.replicate p.blocks.length (p.mark .dedent)) ++ p.mark .newline :: found).reverse
  | fuel + 1, false, p, c :: text, found =>
    if c = '\n' then
      let next := p.after [c]
      if p.brackets = 0 then tokensFrom fuel true next text (p.mark .newline :: found)
      else tokensFrom fuel false next text found
    else if Text.isBlank c || c = '\ufeff' || c = '\u200b' || c = '\u2060' then
      tokensFrom fuel false (p.after [c]) text found
    else if c = '#' then
      let comment := c :: text.takeWhile (· != '\n')
      tokensFrom fuel false (p.after comment) (text.drop (comment.length - 1)) found
    else if c = '\\' then
      match text with
      | '\n' :: rest => tokensFrom fuel false (p.after ['\\', '\n']) rest found
      | '\r' :: '\n' :: rest => tokensFrom fuel false (p.after ['\\', '\r', '\n']) rest found
      | _ => none
    else
      match token? (c :: text) with
      | none => none
      | some (kind, length) =>
        let chars := (c :: text).take length
        let next := p.after chars
        let brackets :=
          if kind != .symbol then p.brackets
          else if ['(', '[', '\x7b'].contains c then p.brackets + 1
          else if [')', ']', '\x7d'].contains c then p.brackets - 1
          else p.brackets
        tokensFrom fuel false { next with brackets } ((c :: text).drop length)
          (⟨kind, chars, ⟨p.offset, next.offset⟩, p.line, []⟩ :: found)

/-- The tokens of a source. -/
def tokens? (content : List Char) : Option (List Token) :=
  tokensFrom (2 * content.length + 2) true {} content []

end Docsmith.Source.Python
