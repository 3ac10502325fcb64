import Docsmith.Json.Value
import Docsmith.Decimal.Shortest
/-!
# JSON — writing

Two layouts: without any space, and with two spaces of indentation a
level. Strings escape the quote, the backslash and the control characters
below U+0020 and nothing else. A floating-point number is the shortest
decimal that reads back, whole ones with `.0`; one that is not finite is
`null`.
-/

namespace Docsmith.Json

open Decimal

/-- A digit of a character's number in base sixteen. -/
def hexLetter (n : Nat) : Char :=
  if n < 10 then Char.ofNat ('0'.toNat + n) else Char.ofNat ('a'.toNat + n - 10)

/-- How a character stands in a string. -/
def escapeChar (c : Char) : List Char :=
  if c = '"' then ['\\', '"']
  else if c = '\\' then ['\\', '\\']
  else if c = '\n' then ['\\', 'n']
  else if c = '\r' then ['\\', 'r']
  else if c = '\t' then ['\\', 't']
  else if c = '\x08' then ['\\', 'b']
  else if c = '\x0c' then ['\\', 'f']
  else if c.toNat < 0x20 then
    ['\\', 'u', '0', '0', hexLetter (c.toNat / 16), hexLetter (c.toNat % 16)]
  else [c]

/-- A string with its quotes. -/
def quote (s : String) : List Char :=
  '"' :: s.toList.flatMap escapeChar ++ ['"']

/-- A floating-point number of a format. -/
def floatText (format : Format) (layout : Layout) : Binary → List Char
  | .finite negative m e => layout.write negative (shortest format m e)
  | _ => "null".toList

/-- A number. -/
def Number.write : Number → List Char
  | .whole n => signed n
  | .float x => floatText .double .data x
  | .single x => floatText .single .dataSingle x

mutual

/-- A value without spaces. -/
def write : Json → List Char
  | .null => "null".toList
  | .bool b => (if b then "true" else "false").toList
  | .number n => n.write
  | .string s => quote s
  | .array [] => ['[', ']']
  | .array (item :: items) => '[' :: write item ++ writeItems items ++ [']']
  | .object [] => ['\x7b', '\x7d']
  | .object ((name, value) :: fields) =>
    '\x7b' :: quote name ++ ':' :: write value ++ writeFields fields ++ ['\x7d']

/-- The items after the first. -/
def writeItems : List Json → List Char
  | [] => []
  | item :: items => ',' :: write item ++ writeItems items

/-- The fields after the first. -/
def writeFields : List (String × Json) → List Char
  | [] => []
  | (name, value) :: fields => ',' :: quote name ++ ':' :: write value ++ writeFields fields

end

/-- A new line at a level of indentation. -/
def newLine (level : Nat) : List Char :=
  '\n' :: List.replicate (2 * level) ' '

mutual

/-- A value laid out over lines, inside `level` others. -/
def writeAt (level : Nat) : Json → List Char
  | .array (item :: items) =>
    '[' :: newLine (level + 1) ++ writeAt (level + 1) item ++ writeItemsAt (level + 1) items ++
      newLine level ++ [']']
  | .object ((name, value) :: fields) =>
    '\x7b' :: newLine (level + 1) ++ quote name ++ ':' :: ' ' :: writeAt (level + 1) value ++
      writeFieldsAt (level + 1) fields ++ newLine level ++ ['\x7d']
  | .array [] => ['[', ']']
  | .object [] => ['\x7b', '\x7d']
  | .null => "null".toList
  | .bool b => (if b then "true" else "false").toList
  | .number n => n.write
  | .string s => quote s

/-- The items after the first, over lines. -/
def writeItemsAt (level : Nat) : List Json → List Char
  | [] => []
  | item :: items => ',' :: newLine level ++ writeAt level item ++ writeItemsAt level items

/-- The fields after the first, over lines. -/
def writeFieldsAt (level : Nat) : List (String × Json) → List Char
  | [] => []
  | (name, value) :: fields =>
    ',' :: newLine level ++ quote name ++ ':' :: ' ' :: writeAt level value ++
      writeFieldsAt level fields

end

/-- The text of a value without spaces. -/
def compact (v : Json) : String :=
  String.ofList (write v)

/-- The text of a value over lines. -/
def pretty (v : Json) : String :=
  String.ofList (writeAt 0 v)

end Docsmith.Json
