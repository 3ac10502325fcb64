import Docsmith.Json.Value
import Docsmith.Text.Basic
import Docsmith.Toml.Text
import Docsmith.Config.Check
import Docsmith.Config.Read
import Docsmith.Config.Write
import Docsmith.Json.Reader
import Docsmith.Toml.Reader
/-!
# Configurations — layers

A configuration is put together from layers, each of which overrides those
before it field by field: the defaults, files, and environment variables
that start with `DOCUMENTOR_`. Two underscores in a variable's name
separate the levels, and case does not count. Arrays are not merged but
replaced.
-/

/-! ## Values of environment variables

A variable's text is a truth value, a number, a string in quotes, a list
in brackets or a table in braces, and otherwise itself. A number with a
point is floating-point. Words lose the blanks around them; a text that
starts as one of the other forms but does not keep to it is taken as it
stands.
-/

namespace Docsmith.Config.Setting

open Decimal

/-- White space around values. -/
def isSpace (c : Char) : Bool :=
  c == ' ' || c == '\t' || c == '\n' || c == '\r' || c == '\x0c'

/-- Drops white space. -/
def skipSpace (text : List Char) : List Char :=
  text.dropWhile isSpace

/-- May stand in a word. -/
def isWordPart (c : Char) : Bool :=
  !(c == ',' || c == '\x7b' || c == '\x7d' || c == '[' || c == ']')

/-- A number with a sign. -/
def signed? (text : List Char) : Option Int :=
  let natural? (digits : List Char) : Option Int := (Text.numeral? 10 digits).map Int.ofNat
  match text with
  | '-' :: digits => (natural? digits).map (- ·)
  | '+' :: digits => natural? digits
  | digits => natural? digits

/-- A whole number of sixty-four bits, with or without a sign. -/
def whole? (text : List Char) : Option Json.Number :=
  (signed? text).bind fun n =>
    if -Int.pow 2 63 ≤ n ∧ n < Int.pow 2 64 then some (.whole n) else none

/-- A number with a point, and perhaps an exponent. -/
def float? (text : List Char) : Option Json.Number := do
  let isMark (c : Char) : Bool := c == 'e' || c == 'E'
  let (negative, rest) := match text with
    | '-' :: rest => (true, rest)
    | '+' :: rest => (false, rest)
    | _ => (false, text)
  let (whole, fraction) ← Text.splitOnce? ['.'] (rest.takeWhile (!isMark ·))
  let exponent ← match rest.dropWhile (!isMark ·) with
    | [] => some 0
    | _ :: tail => signed? tail
  let n ← Text.numeral? 10 (whole ++ fraction)
  return .float (Format.double.ofDecimal negative n (exponent - fraction.length))

/-- The value of a word. -/
def word (text : List Char) : Json :=
  match (float? text).or (whole? text) with
  | some n => .number n
  | none => .string (String.ofList text)

/-- The items of a list after its opening bracket or a comma. -/
def items? (value : List Char → Option (Json × List Char)) :
    Nat → List Char → Option (List Json × List Char)
  | _, ']' :: rest => some ([], rest)
  | 0, _ => none
  | fuel + 1, text => do
    let (item, rest) ← value text
    match rest with
    | ',' :: rest =>
      let (items, rest) ← items? value fuel rest
      return (item :: items, rest)
    | ']' :: rest => return ([item], rest)
    | _ => none

/-- A key: a string in quotes or letters, digits, hyphens and underscores. -/
def key? : List Char → Option (String × List Char)
  | '"' :: rest => (Toml.basic? rest).map fun (s, rest) => (String.ofList s, rest)
  | text =>
    let isKeyChar (c : Char) : Bool := c.isAlphanum || c == '_' || c == '-'
    let name := text.takeWhile isKeyChar
    if name.isEmpty then none else some (String.ofList name, text.dropWhile isKeyChar)

/-- The fields of a table after its opening brace or a comma. -/
def fields? (value : List Char → Option (Json × List Char)) :
    Nat → List Char → Option (List (String × Json) × List Char)
  | _, '\x7d' :: rest => some ([], rest)
  | 0, _ => none
  | fuel + 1, text => do
    let (name, rest) ← key? (skipSpace text)
    let '=' :: rest := skipSpace rest | none
    let (item, rest) ← value rest
    match rest with
    | ',' :: rest =>
      let (fields, rest) ← fields? value fuel rest
      return ((name, item) :: fields, rest)
    | '\x7d' :: rest => return ([(name, item)], rest)
    | _ => none

/-- A value and the white space around it; `depth` bounds the nesting. -/
def value? : Nat → List Char → Option (Json × List Char)
  | depth, text => do
    let (v, rest) ← match skipSpace text with
      | 't' :: 'r' :: 'u' :: 'e' :: rest => some (Json.bool true, rest)
      | 'f' :: 'a' :: 'l' :: 's' :: 'e' :: rest => some (.bool false, rest)
      | '[' :: rest =>
        match depth with
        | 0 => none
        | depth + 1 => (items? (value? depth) rest.length rest).map fun (items, rest) =>
            (.array items, rest)
      | '\x7b' :: rest =>
        match depth with
        | 0 => none
        | depth + 1 => (fields? (value? depth) rest.length rest).map fun (fields, rest) =>
            (.ofFields fields, rest)
      | '"' :: rest => (Toml.basic? rest).map fun (s, rest) => (.string (String.ofList s), rest)
      | '\'' :: c :: '\'' :: rest => some (.string (String.ofList [c]), rest)
      | '\'' :: _ => none
      | rest => some (word (Text.trim (rest.takeWhile isWordPart)), rest.dropWhile isWordPart)
    return (v, skipSpace rest)

/-- The value of a variable's text. -/
def read (text : String) : Json :=
  match value? text.length text.toList with
  | some (v, []) => v
  | _ => .string text

end Docsmith.Config.Setting

/-! ## Layers -/

namespace Docsmith.Config

mutual

/-- A value with another one laid over it. -/
def overlay (below : Json) : Json → Json
  | .object fields =>
    match below with
    | .object base => .object (overlayFields base fields)
    | _ => .object fields
  | above => above

/-- The fields of an object with others laid over them. -/
def overlayFields (base : List (String × Json)) : List (String × Json) → List (String × Json)
  | [] => base
  | (name, value) :: fields =>
    let value := match Ordered.find? name base with
      | some old => overlay old value
      | none => value
    overlayFields (Ordered.insert name value base) fields

end

/-! ## Environment variables -/

/-- What the names of the variables start with. -/
def variableStart : List Char := "documentor_".toList

/-- Cuts a name at each pair of underscores and at each point. -/
def splitLevels : List Char → List (List Char)
  | [] => [[]]
  | '_' :: '_' :: rest => [] :: splitLevels rest
  | '.' :: rest => [] :: splitLevels rest
  | c :: rest =>
    match splitLevels rest with
    | [] => [[c]]
    | level :: levels => (c :: level) :: levels

/-- The levels that a variable's name stands for; a name with an empty
level stands for none. -/
def levels? (name : String) : Option (List String) :=
  match Text.dropStart? variableStart ((Text.trim name.toList).map Char.toLower) with
  | none => none
  | some name =>
    let levels := splitLevels (Text.trim name)
    if levels.any (·.isEmpty) then none else some (levels.map String.ofList)

/-- A value below some levels. -/
def nest (value : Json) : List String → Json
  | [] => value
  | level :: levels => .object [(level, nest value levels)]

/-- Lays a variable over those before it. -/
def overlayVariable (settings : Json) (entry : String × String) : Json :=
  match levels? entry.1 with
  | some levels => overlay settings (nest (Setting.read entry.2) levels)
  | none => settings

/-- The settings in an environment. -/
def ofEnvironment (environment : List (String × String)) : Json :=
  environment.foldl overlayVariable (.object [])

/-! ## Files -/

/-- A file of settings. Its content is missing where it is no text. -/
structure Layer where
  isJson : Bool
  content : Option String

/-- The settings of a file. -/
def Layer.settings? (l : Layer) : Option Json :=
  match l.content.bind (if l.isJson then Json.parse? else Toml.parse?) with
  | some (.object fields) => some (.object fields)
  | _ => none

/-- A file is JSON by its extension, in any case. -/
def isJsonPath (path : String) : Bool :=
  (Path.extension? path).any fun extension => extension.map Char.toLower == "json"

/-- Settings that cannot be read. -/
def unreadable (reason : String) : Failure :=
  .config ("Configuration error: " ++ reason)

/-- The settings of all layers, the defaults below them. -/
def stack (layers : List Layer) (environment : List (String × String)) : Except Failure Json := do
  let files ← layers.mapM fun layer =>
    match layer.settings? with
    | some settings => .ok settings
    | none => .error (unreadable "a configuration file cannot be parsed")
  return overlay (files.foldl overlay (({} : Config).value true)) (ofEnvironment environment)

/-- The configuration that layers and variables make, if it is acceptable. -/
def ofLayers (layers : List Layer) (environment : List (String × String)) :
    Except Failure Config := do
  let settings ← stack layers environment
  match read? .layered settings with
  | none => .error (unreadable "a setting has the wrong type")
  | some c => c.check.map fun _ => c

end Docsmith.Config
