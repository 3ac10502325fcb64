import Docsmith.Decimal.Binary
import Docsmith.Json.Printer
import Docsmith.Text.Basic
/-!
# YAML — writing

Blocks throughout, two spaces a level; an array in a field stands at the
field's own level. Empty arrays and objects are written in brackets. A key
that has several lines or more than 128 bytes takes a question mark.
-/

namespace Docsmith.Yaml

/-! ## How a string is written

A string that would read back as something else stands between single
quotes, one of several lines is a literal block, and any other is plain.
Where the text does not allow its form, the next stronger quotes take its
place; between double quotes every text can be written. Characters beyond
U+FFFF and the byte order mark are escaped there.
-/

/-- A character that ends a line. -/
def isBreak (c : Char) : Bool :=
  c == '\n' || c == '\r' || c == '\u0085' || c == '\u2028' || c == '\u2029'

/-- White space, a line's end, or the end of the text. -/
def isGap : Option Char → Bool
  | none => true
  | some c => c == ' ' || c == '\t' || c == '\x00' || isBreak c

/-- May stand outside double quotes. -/
def isPlainChar (c : Char) : Bool :=
  let n := c.toNat
  n = 0x0a || (0x20 ≤ n && n ≤ 0x7e) || (0xa0 ≤ n && n ≤ 0xd7ff) ||
    (0xe000 ≤ n && n ≤ 0xfffd && n ≠ 0xfeff)

/-! ## What reads back as something else -/

/-- Digits with a zero before them, which are no number. -/
def isPaddedDigits (text : List Char) : Bool :=
  let digits := match text with
    | '+' :: rest => rest
    | '-' :: rest => rest
    | _ => text
  match digits with
  | '0' :: d :: rest => (d :: rest).all Char.isDigit
  | _ => false

/-- A text without a sign at its start. -/
def dropPlus : List Char → List Char
  | '+' :: rest => rest
  | text => text

/-- The number after a mark of its base, if it has one. -/
def based? : List Char → Option Nat
  | '0' :: 'x' :: rest => Text.numeral? 16 rest
  | '0' :: 'o' :: rest => Text.numeral? 8 rest
  | '0' :: 'b' :: rest => Text.numeral? 2 rest
  | _ => none

/-- A whole number of at most a hundred and twenty-eight bits. -/
def isWhole (text : List Char) : Bool :=
  let fits (bound : Nat) (n? : Option Nat) : Bool := n?.any (· < bound)
  let positive := dropPlus text
  let decimal (digits : List Char) : Option Nat :=
    if isPaddedDigits text then none else Text.numeral? 10 digits
  match text with
  | '-' :: rest => fits (Nat.pow 2 127 + 1) (based? rest) || fits (Nat.pow 2 127 + 1) (decimal rest)
  | _ => fits (Nat.pow 2 128) (based? positive) || fits (Nat.pow 2 128) (decimal positive)

/-- An exponent's sign and digits. -/
def isExponent (text : List Char) : Bool :=
  let digits := match text with
    | '-' :: rest => rest
    | _ => dropPlus text
  !digits.isEmpty && digits.all Char.isDigit

/-- Digits with at most one point and perhaps an exponent, whose value is
finite. -/
def isDecimal (text : List Char) : Bool :=
  let isMark (c : Char) : Bool := c == 'e' || c == 'E'
  let mantissa := text.takeWhile (!isMark ·)
  let tail := text.dropWhile (!isMark ·)
  let (whole, fraction) := match Text.splitOnce? ['.'] mantissa with
    | some parts => parts
    | none => (mantissa, [])
  let exponentFits := tail.isEmpty || isExponent (tail.drop 1)
  let exponent : Int := match tail.drop 1 with
    | '-' :: digits => -((Text.numeral? 10 digits).getD 0 : Int)
    | digits => ((Text.numeral? 10 (dropPlus digits)).getD 0 : Int)
  (whole ++ fraction).all Char.isDigit && exponentFits &&
    match Text.numeral? 10 (whole ++ fraction) with
    | none => false
    | some n => (Decimal.Format.double.ofDecimal false n (exponent - fraction.length)).isFinite

/-- A floating-point number. -/
def isFloat (text : List Char) : Bool :=
  let words (ws : List String) (text : List Char) : Bool := ws.any (·.toList == text)
  let unsigned : Option (List Char) := match text with
    | '+' :: '+' :: _ => none
    | '+' :: '-' :: _ => none
    | '+' :: rest => some rest
    | _ => some text
  match unsigned with
  | none => false
  | some rest =>
    words [".inf", ".Inf", ".INF"] rest || words ["-.inf", "-.Inf", "-.INF"] text ||
      words [".nan", ".NaN", ".NAN"] text ||
      isDecimal (match rest with
        | '-' :: digits => digits
        | _ => rest)

/-- The words for nothing, true and false. -/
def reserved : List String :=
  ["null", "Null", "NULL", "~", "true", "True", "TRUE", "false", "False", "FALSE"]

/-- Written plain, the text would read back as a string. -/
def isString (text : List Char) : Bool :=
  !text.isEmpty && !reserved.any (·.toList == text) && !isWhole text && !isPaddedDigits text &&
    !isFloat text

/-! ## What a text allows -/

/-- The forms of a string. -/
inductive Style where
  | plain
  | singleQuoted
  | doubleQuoted
  | literal
  deriving DecidableEq, Repr

/-- The characters that speak of structure wherever a scalar starts with
one. -/
def structureMarks : List Char :=
  ['#', ',', '[', ']', '\x7b', '\x7d', '&', '*', '!', '|', '>', '\'', '"', '%', '@',
    Char.ofNat 0x60]

/-- The first character speaks of structure; `next` follows it. -/
def opensStructure (c : Char) (next : Option Char) : Bool :=
  structureMarks.contains c ||
    (['?', ':', '-'].contains c && isGap next)

/-- A later character speaks of structure; `previous` and `next` stand
beside it. -/
def marksStructure (previous : Char) (c : Char) (next : Option Char) : Bool :=
  (c == ':' && isGap next) || (c == '#' && isGap (some previous))

/-- Some character after the first speaks of structure. -/
def marksLater : (previous : Char) → List Char → Bool
  | _, [] => false
  | previous, c :: rest => marksStructure previous c rest.head? || marksLater c rest

/-- The text speaks of structure where it stands plain in a block. -/
def hasStructure : List Char → Bool
  | [] => false
  | c :: rest =>
    ['-', '-', '-'].isPrefixOf (c :: rest) || ['.', '.', '.'].isPrefixOf (c :: rest) ||
      opensStructure c rest.head? || marksLater c rest

/-- Two neighbours of which the first satisfies `p` and the second `q`. -/
def hasPair (p q : Char → Bool) : List Char → Bool
  | [] => false
  | c :: rest => (p c && rest.head?.any q) || hasPair p q rest

/-- A space. -/
def isBlankChar (c : Char) : Bool :=
  c == ' '

/-- All characters may stand outside double quotes, and no space ends a
line inside the text. -/
def allowsBlock (text : List Char) : Bool :=
  text.all isPlainChar && !hasPair isBlankChar isBreak text

/-- The text may be plain in a block. -/
def allowsPlain (text : List Char) : Bool :=
  allowsBlock text && !text.any isBreak && !text.head?.any isBlankChar &&
    !text.getLast?.any isBlankChar && !hasStructure text

/-- The text may stand between single quotes. -/
def allowsSingle (text : List Char) : Bool :=
  allowsBlock text && !hasPair isBreak isBlankChar text

/-- The text may be a literal block. -/
def allowsLiteral (text : List Char) : Bool :=
  allowsBlock text && !text.getLast?.any isBlankChar

/-- The form of a text; `simpleKey` says that it is a key on one line. -/
def Style.ofText (simpleKey : Bool) (text : List Char) : Style :=
  let quotes : Style := if allowsSingle text then .singleQuoted else .doubleQuoted
  if simpleKey && text.any isBreak then .doubleQuoted
  else if text.contains '\n' then if allowsLiteral text then .literal else .doubleQuoted
  else if isString text && allowsPlain text then .plain
  else quotes

/-! ## Writing -/

/-- A digit in base sixteen, in capitals. -/
def hexDigit (n : Nat) : Char :=
  if n < 10 then Char.ofNat ('0'.toNat + n) else Char.ofNat ('A'.toNat + n - 10)

/-- The last `width` digits of a number in base sixteen. -/
def hexDigits : (width n : Nat) → List Char
  | 0, _ => []
  | width + 1, n => hexDigits width (n / 16) ++ [hexDigit (n % 16)]

/-- The letter after a backslash for some characters. -/
def shortEscape? (c : Char) : Option Char :=
  [('\x00', '0'), ('\x07', 'a'), ('\x08', 'b'), ('\t', 't'), ('\n', 'n'), ('\x0b', 'v'),
    ('\x0c', 'f'), ('\r', 'r'), ('\x1b', 'e'), ('"', '"'), ('\\', '\\'), ('\u0085', 'N'),
    ('\u00a0', '_'), ('\u2028', 'L'), ('\u2029', 'P')].lookup c

/-- A character between double quotes. -/
def escapeChar (c : Char) : List Char :=
  if isPlainChar c && !isBreak c && c != '"' && c != '\\' then [c]
  else
    match shortEscape? c with
    | some letter => ['\\', letter]
    | none =>
      if c.toNat ≤ 0xff then '\\' :: 'x' :: hexDigits 2 c.toNat
      else if c.toNat ≤ 0xffff then '\\' :: 'u' :: hexDigits 4 c.toNat
      else '\\' :: 'U' :: hexDigits 8 c.toNat

/-- Text whose lines stand at an indentation: `atStart` says that the next
character is the first of its line. -/
def indented (indent : Nat) (write : Char → List Char) : (atStart : Bool) → List Char → List Char
  | _, [] => []
  | atStart, c :: rest =>
    if isBreak c then c :: indented indent write true rest
    else
      (if atStart then List.replicate indent ' ' else []) ++ write c ++
        indented indent write false rest

/-- A text between single quotes. -/
def singleQuote (indent : Nat) (text : List Char) : List Char :=
  let close := if text.getLast?.any isBreak then List.replicate indent ' ' else []
  '\'' :: indented indent (fun c => if c = '\'' then [c, c] else [c]) false text ++ close ++ ['\'']

/-- What tells how a block starts and ends: its indentation where the text
starts with a space or a break, and how many breaks at its end count. -/
def blockHint (text : List Char) : List Char :=
  let start : List Char :=
    if text.head?.any fun c => c == ' ' || isBreak c then ['2'] else []
  let finish : List Char := match text.reverse with
    | [] => ['-']
    | c :: rest =>
      if !isBreak c then ['-'] else if rest.head?.all isBreak then ['+'] else []
  start ++ finish

/-- A literal block. -/
def literalBlock (indent : Nat) (text : List Char) : List Char :=
  '|' :: blockHint text ++ '\n' :: indented indent (fun c => [c]) true text

/-- A string whose further lines stand at an indentation. -/
def scalar (simpleKey : Bool) (indent : Nat) (text : List Char) : List Char :=
  match Style.ofText simpleKey text with
  | .plain => text
  | .singleQuoted => singleQuote indent text
  | .doubleQuoted => '"' :: text.flatMap escapeChar ++ ['"']
  | .literal => literalBlock indent text

/-! ## Values -/

open Decimal

/-- A floating-point number. -/
def floatText (format : Format) (layout : Layout) : Binary → List Char
  | .finite negative m e => layout.write negative (shortest format m e)
  | .infinite negative => (if negative then "-.inf" else ".inf").toList
  | .nan => ".nan".toList

/-- A number. -/
def numberText : Json.Number → List Char
  | .whole n => signed n
  | .float x => floatText .double .data x
  | .single x => floatText .single .dataSingle x

/-- Some spaces. -/
def spaces (n : Nat) : List Char :=
  List.replicate n ' '

/-- Ends a line, unless it has ended. -/
def endLine (text : List Char) : List Char :=
  if text.getLast?.any isBreak then text else text ++ ['\n']

/-- Most bytes of a key without a question mark. -/
def maxSimpleKey : Nat := 128

/-- The key fits before its colon. -/
def isSimpleKey (name : String) : Bool :=
  !name.toList.any isBreak && name.utf8ByteSize ≤ maxSimpleKey

/-- Where a value stands: first on what is left of a line, with its further
lines at the level; or after the colon of a simple key at the level. -/
inductive Place where
  | inLine
  | afterKey
  deriving DecidableEq

/-- Where the value of a key stands. -/
def Place.ofKey (name : String) : Place :=
  if isSimpleKey name then .afterKey else .inLine

/-- What stands between a colon and a value that goes on in its line. -/
def Place.gap : Place → List Char
  | .inLine => []
  | .afterKey => [' ']

/-- The level of a string's further lines. -/
def Place.textLevel (level : Nat) : Place → Nat
  | .inLine => level
  | .afterKey => level + 2

/-- How the first item of an array or the first field of an object starts,
at a level of its own. -/
def Place.opening (level : Nat) : Place → List Char
  | .inLine => []
  | .afterKey => '\n' :: spaces level

/-- A key with its colon; a value follows in the line. -/
def keyText (level : Nat) (name : String) : List Char :=
  if isSimpleKey name then scalar true (level + 2) name.toList ++ [':']
  else
    endLine ('?' :: ' ' :: scalar false (level + 2) name.toList) ++ spaces level ++ [':', ' ']

/-- The level of a key's value, given that of the key. -/
def valueLevel (level : Nat) (name : String) : Nat :=
  if isSimpleKey name then level else level + 2

mutual

/-- A value at a place. -/
def write (place : Place) (level : Nat) : Json → List Char
  | .null => place.gap ++ "null".toList
  | .bool b => place.gap ++ (if b then "true" else "false").toList
  | .number n => place.gap ++ numberText n
  | .string s => place.gap ++ scalar false (place.textLevel level) s.toList
  | .array [] => place.gap ++ ['[', ']']
  | .array (item :: items) =>
    place.opening level ++ endLine ('-' :: ' ' :: write .inLine (level + 2) item) ++
      writeItems level items
  | .object [] => place.gap ++ ['\x7b', '\x7d']
  | .object ((name, value) :: fields) =>
    let level := place.textLevel level
    place.opening level ++ keyText level name ++
      endLine (write (.ofKey name) (valueLevel level name) value) ++ writeFields level fields

/-- The items of an array after the first. -/
def writeItems (level : Nat) : List Json → List Char
  | [] => []
  | item :: items =>
    spaces level ++ endLine ('-' :: ' ' :: write .inLine (level + 2) item) ++
      writeItems level items

/-- The fields of an object after the first. -/
def writeFields (level : Nat) : List (String × Json) → List Char
  | [] => []
  | (name, value) :: fields =>
    spaces level ++ keyText level name ++
      endLine (write (.ofKey name) (valueLevel level name) value) ++ writeFields level fields

end

/-- The text of a value. -/
def render (v : Json) : String :=
  String.ofList (endLine (write .inLine 0 v))

end Docsmith.Yaml
