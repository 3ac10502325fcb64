import Docsmith.Text.Basic
import Docsmith.Decimal.Shortest
import Docsmith.Json.Value
/-!
# TOML — writing

The fields of a table that are no tables come first, one a line; then each
table under a header of its own, and each array of tables as one block an
item, with an empty line between blocks. An array of two or more items
takes a line for each of them. A table that holds tables only has no
header. There is no way to write `null`.
-/

namespace Docsmith.Toml

open Decimal

/-! ## Strings

The plainest of the four forms that fits: between `"` where nothing has to
be escaped, between `'` where that spares escapes, then the forms between
three quotes, and escapes at last. A key without quotes is written so
where it can be.
-/

/-- The longest run of a character in a text, given the run before it and
the longest so far. -/
def longestRun (c : Char) : (run longest : Nat) → List Char → Nat
  | _, longest, [] => longest
  | run, longest, d :: rest =>
    if d = c then longestRun c (run + 1) (max longest (run + 1)) rest
    else longestRun c 0 longest rest

/-- A control character that every form has to escape. -/
def needsCode (c : Char) : Bool :=
  (c.toNat < 0x20 && c != '\t' && c != '\n') || c.toNat = 0x7f

/-- The forms of a string. -/
inductive Form where
  | basic
  | literal
  | basicLines
  | literalLines
  deriving DecidableEq, Repr

/-- The form a text is written in. -/
def Form.ofText (text : List Char) : Form :=
  let codes := text.any needsCode
  let backslash := text.contains '\\'
  let breaks := text.contains '\n'
  let double := longestRun '"' 0 0 text
  let single := longestRun '\'' 0 0 text
  if !codes && !backslash && double = 0 && !breaks then .basic
  else if !codes && single = 0 && !breaks then .literal
  else if !codes && !backslash && double ≤ 2 then .basicLines
  else if !codes && single ≤ 2 then .literalLines
  else if breaks then .basicLines
  else .basic

/-- A digit in base sixteen, in capitals. -/
def hexDigit (n : Nat) : Char :=
  if n < 10 then Char.ofNat ('0'.toNat + n) else Char.ofNat ('A'.toNat + n - 10)

/-- A character between `"`, where line breaks may be kept. -/
def escapeChar (breaks : Bool) (c : Char) : List Char :=
  if c = '\\' then ['\\', '\\']
  else if c = '\x08' then ['\\', 'b']
  else if c = '\t' then ['\\', 't']
  else if c = '\n' then if breaks then ['\n'] else ['\\', 'n']
  else if c = '\x0c' then ['\\', 'f']
  else if c = '\r' then ['\\', 'r']
  else if needsCode c then
    ['\\', 'u', '0', '0', hexDigit (c.toNat / 16), hexDigit (c.toNat % 16)]
  else [c]

/-- A text between `"`: quotes are escaped that follow `allowed` others,
`run` of which stand before. -/
def escape (breaks : Bool) (allowed : Nat) : (run : Nat) → List Char → List Char
  | _, [] => []
  | run, c :: rest =>
    if c = '"' then
      if run < allowed then c :: escape breaks allowed (run + 1) rest
      else '\\' :: '"' :: escape breaks allowed 0 rest
    else escapeChar breaks c ++ escape breaks allowed 0 rest

/-- A string with its quotes. -/
def quote (text : List Char) : List Char :=
  let firstBreak : List Char := if text.contains '\n' then ['\n'] else []
  match Form.ofText text with
  | .basic => '"' :: escape false 0 0 text ++ ['"']
  | .literal => '\'' :: text ++ ['\'']
  | .basicLines =>
    ['"', '"', '"'] ++ firstBreak ++ escape true 2 0 text ++ ['"', '"', '"']
  | .literalLines => ['\'', '\'', '\''] ++ firstBreak ++ text ++ ['\'', '\'', '\'']

/-- One part of a key. -/
def quoteKey (text : List Char) : List Char :=
  if !text.isEmpty && text.all (fun c => c.isAlphanum || c == '_' || c == '-') then text
  else
    match Form.ofText text with
    | .literal => '\'' :: text ++ ['\'']
    | _ => '"' :: escape false 0 0 text ++ ['"']

/-! ## Documents -/

/-- A floating-point number: positional, with a point. -/
def floatText (format : Format) (x : Binary) : List Char :=
  match x with
  | .finite negative m e =>
    { Layout.plain with pointZero := true }.write negative (shortest format m e)
  | .infinite negative => (if negative then "-inf" else "inf").toList
  | .nan => "nan".toList

/-- A number. -/
def numberText : Json.Number → List Char
  | .whole n => signed n
  | .float x => floatText .double x
  | .single x => floatText .single x

/-- Items, each on a line of its own. -/
def itemLines (items : List (List Char)) : List Char :=
  items.flatMap (fun item => "\n    ".toList ++ item ++ [',']) ++ ['\n']

/-- The items of an array; one item alone stays on its line. -/
def bracketed : List (List Char) → List Char
  | [] => ['[', ']']
  | [item] => '[' :: item ++ [']']
  | items => '[' :: itemLines items ++ [']']

/-- The fields of a table in braces. -/
def braced : List (List Char) → List Char
  | [] => ['\x7b', '\x7d']
  | fields => '\x7b' :: ' ' :: Text.join [',', ' '] fields ++ [' ', '\x7d']

mutual

/-- A value on the line of its key. -/
def valueText : Json → List Char
  | .null => []
  | .bool b => (if b then "true" else "false").toList
  | .number n => numberText n
  | .string s => quote s.toList
  | .array items => bracketed (itemTexts items)
  | .object fields => braced (fieldTexts fields)

/-- The items of an array. -/
def itemTexts : List Json → List (List Char)
  | [] => []
  | item :: items => valueText item :: itemTexts items

/-- The fields of a table in braces. -/
def fieldTexts : List (String × Json) → List (List Char)
  | [] => []
  | (name, value) :: fields =>
    (quoteKey name.toList ++ " = ".toList ++ valueText value) :: fieldTexts fields

end

/-- The value is a table. -/
def isTable : Json → Bool
  | .object _ => true
  | _ => false

/-- The value gets blocks of its own: a table, or an array of nothing but
tables. -/
def hasBlocks : Json → Bool
  | .object _ => true
  | .array items => !items.isEmpty && items.all isTable
  | _ => false

/-- The lines of the fields that have no blocks of their own. -/
def ownLines (fields : List (String × Json)) : List Char :=
  (fields.filter fun (_, value) => !hasBlocks value).flatMap fun (name, value) =>
    quoteKey name.toList ++ " = ".toList ++ valueText value ++ ['\n']

/-- A block of a document. -/
structure Block where
  path : List (List Char)
  array : Bool
  lines : List Char
  isParent : Bool

/-- The block of a table. -/
def Block.ofFields (path : List (List Char)) (array : Bool) (fields : List (String × Json)) :
    Block :=
  ⟨path, array, ownLines fields, fields.any fun (_, value) => hasBlocks value⟩

/-- The block is written. -/
def Block.isShown (b : Block) : Bool :=
  if b.path.isEmpty then !b.lines.isEmpty else b.array || !b.lines.isEmpty || !b.isParent

/-- A block with its header. -/
def Block.text (b : Block) : List Char :=
  let name := Text.join ['.'] b.path
  let header :=
    if b.path.isEmpty then []
    else if b.array then ['[', '['] ++ name ++ [']', ']', '\n']
    else '[' :: name ++ [']', '\n']
  header ++ b.lines

mutual

/-- The blocks of a value under a path. -/
def blocks (path : List (List Char)) : Json → List Block
  | .object fields => .ofFields path false fields :: fieldBlocks path fields
  | .array items => if items.all isTable then itemBlocks path items else []
  | _ => []

/-- The blocks of the items of an array. -/
def itemBlocks (path : List (List Char)) : List Json → List Block
  | [] => []
  | .object fields :: items =>
    .ofFields path true fields :: fieldBlocks path fields ++ itemBlocks path items
  | _ :: items => itemBlocks path items

/-- The blocks of the fields of a table. -/
def fieldBlocks (path : List (List Char)) : List (String × Json) → List Block
  | [] => []
  | (name, value) :: fields =>
    blocks (path ++ [quoteKey name.toList]) value ++ fieldBlocks path fields

end

mutual

/-- There is a `null` somewhere. -/
def hasNull : Json → Bool
  | .null => true
  | .array items => itemsHaveNull items
  | .object fields => fieldsHaveNull fields
  | _ => false

/-- There is a `null` in an array. -/
def itemsHaveNull : List Json → Bool
  | [] => false
  | item :: items => hasNull item || itemsHaveNull items

/-- There is a `null` in a table. -/
def fieldsHaveNull : List (String × Json) → Bool
  | [] => false
  | (_, value) :: fields => hasNull value || fieldsHaveNull fields

end

/-- The text of a table, if it has no `null`. -/
def render? (table : Json) : Option String :=
  if hasNull table then none
  else some (String.ofList
    (Text.join ['\n'] (((blocks [] table).filter (·.isShown)).map (·.text))))

end Docsmith.Toml
