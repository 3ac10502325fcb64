import Docsmith.Json.Value
import Docsmith.Toml.Moment
import Docsmith.Toml.Text
/-!
# TOML — reading

A document is a table, whose lines are headers and keys with their values.
Values other than TOML's dates and times are those of JSON; a date or time
is an object with the one field `$__toml_private_datetime`. Arrays and
inline tables nest at most 79 deep, and a key has at most 79 parts.
-/

namespace Docsmith.Toml

/-! ## Tables under construction

A document states its tables piece by piece. A table that a header only
passes through may still be stated once; one that is written with dots
belongs to where it was written and takes no header; one that a header has
stated takes no dots. Headers in double brackets add an item to an array
of tables, and later headers speak of its last item. Whatever would state
a thing twice is refused.
-/

/-- How a table came to be. -/
inductive Origin where
  | implied
  | dotted
  | stated
  deriving DecidableEq, Repr

/-- What stands under a key: a finished value, a table that may still
grow, or an array of tables of which the last may. -/
inductive Node where
  | value (v : Json)
  | table (origin : Origin) (fields : List (String × Node))
  | tables (closed : List Json) (last : List (String × Node))

/-- The fields of a table under construction. -/
abbrev Fields := List (String × Node)

mutual

/-- A node as a value. -/
def Node.finish : Node → Json
  | .value v => v
  | .table _ fields => .ofFields (finishFields fields)
  | .tables closed last => .array (closed ++ [.ofFields (finishFields last)])

/-- The fields with their values. -/
def finishFields : List (String × Node) → List (String × Json)
  | [] => []
  | (name, node) :: fields => (name, node.finish) :: finishFields fields

end

/-- A table as a value. -/
def Fields.finish (fields : Fields) : Json :=
  .ofFields (finishFields fields)

/-- Changes what stands under a key. -/
def Fields.change (name : String) (f : Option Node → Option Node) : Fields → Option Fields
  | [] => (f none).map fun node => [(name, node)]
  | (other, node) :: rest =>
    if other = name then (f (some node)).map fun node => (other, node) :: rest
    else (change name f rest).map ((other, node) :: ·)

/-- Changes the table that a header's path leads to; tables on the way
come to be where they are missing. -/
def Fields.inside (f : Fields → Option Fields) : List String → Fields → Option Fields
  | [], fields => f fields
  | name :: path, fields => fields.change name fun
    | none => (inside f path []).map (.table .implied)
    | some (.table origin inner) => (inside f path inner).map (.table origin)
    | some (.tables closed last) => (inside f path last).map (.tables closed)
    | some (.value _) => none

/-- Puts a value under a dotted key. The table that gets it must have been
made by dots exactly if dots lead to it: `below` says that they do, and
`dotted` that it was. -/
def Fields.put (value : Json) : (below dotted : Bool) → List String → Fields → Option Fields
  | _, _, [], _ => none
  | below, dotted, [name], fields =>
    if below == dotted then
      fields.change name fun
        | none => some (.value value)
        | some _ => none
    else none
  | _, _, name :: path, fields => fields.change name fun
    | none => (put value true true path []).map (.table .dotted)
    | some (.table .stated _) => none
    | some (.table origin inner) =>
      (put value true (origin == .dotted) path inner).map (.table origin)
    | some (.tables closed last) => (put value true false path last).map (.tables closed)
    | some (.value _) => none

/-- States a table. -/
def Fields.state (name : String) (fields : Fields) : Option Fields :=
  fields.change name fun
    | none => some (.table .stated [])
    | some (.table .implied inner) => some (.table .stated inner)
    | some _ => none

/-- Adds an item to an array of tables. -/
def Fields.append (name : String) (fields : Fields) : Option Fields :=
  fields.change name fun
    | none => some (.tables [] [])
    | some (.tables closed last) => some (.tables (closed ++ [Fields.finish last]) [])
    | some _ => none

/-! ## Documents -/

/-- Drops white space within the line. -/
def skipSpace (text : List Char) : List Char :=
  text.dropWhile isSpace

/-- Drops a comment that stands first. -/
def skipComment : List Char → List Char
  | '#' :: rest => rest.dropWhile isTextChar
  | text => text

/-- Drops white space, comments and line breaks; `fuel` bounds the number
of lines. -/
def skipGap : Nat → List Char → List Char
  | 0, text => text
  | fuel + 1, text =>
    match skipComment (skipSpace text) with
    | '\n' :: rest => skipGap fuel rest
    | rest => rest

/-- Drops a gap of any length. -/
def skipLines (text : List Char) : List Char :=
  skipGap (text.length + 1) text

/-- May stand in a key without quotes. -/
def isBareChar (c : Char) : Bool :=
  c.isAlphanum || c == '_' || c == '-'

/-- One part of a key. -/
def keyPart? : List Char → Option (String × List Char)
  | '"' :: rest => (basic? rest).map fun (s, rest) => (String.ofList s, rest)
  | '\'' :: rest => (literal? rest).map fun (s, rest) => (String.ofList s, rest)
  | text =>
    let name := text.takeWhile isBareChar
    if name.isEmpty then none else some (String.ofList name, text.dropWhile isBareChar)

/-- Parts of a key with dots between them, and the white space after them. -/
def keyParts? : Nat → List Char → Option (List String × List Char)
  | 0, _ => none
  | fuel + 1, text => do
    let (part, rest) ← keyPart? (skipSpace text)
    match skipSpace rest with
    | '.' :: rest =>
      let (parts, rest) ← keyParts? fuel rest
      return (part :: parts, rest)
    | rest => return ([part], rest)

/-- The deepest nesting that is read, and the most parts of a key. -/
def maxDepth : Nat := 79

/-- A key and the white space after it. -/
def key? (text : List Char) : Option (List String × List Char) :=
  (keyParts? (text.length + 1) text).filter fun (parts, _) => parts.length ≤ maxDepth

/-- May stand in a word: a number, a date or a truth value. -/
def isWordPart (c : Char) : Bool :=
  c.isAlphanum || c == '+' || c == '-' || c == '.' || c == ':' || c == '_'

/-- A date or time as a value. -/
def momentValue (written : List Char) : Json :=
  .object [("$__toml_private_datetime", .string (String.ofList written))]

/-- A value that is one word. -/
def word? (text : List Char) : Option (Json × List Char) :=
  match Moment.read? text with
  | some (written, rest) => some (momentValue written, rest)
  | none =>
    let word := text.takeWhile isWordPart
    let rest := text.dropWhile isWordPart
    if word = "true".toList then some (.bool true, rest)
    else if word = "false".toList then some (.bool false, rest)
    else (Number.read? word).map fun n => (.number n, rest)

/-- The items of an array after its opening bracket or a comma. -/
def items? (value : List Char → Option (Json × List Char)) :
    Nat → List Char → Option (List Json × List Char)
  | 0, _ => none
  | fuel + 1, text =>
    match skipLines text with
    | ']' :: rest => some ([], rest)
    | text => do
      let (item, rest) ← value text
      match skipLines rest with
      | ',' :: rest =>
        let (items, rest) ← items? value fuel rest
        return (item :: items, rest)
      | ']' :: rest => return ([item], rest)
      | _ => none

/-- A key and its value. -/
def pair? (value : List Char → Option (Json × List Char)) (text : List Char) :
    Option (List String × Json × List Char) := do
  let (key, rest) ← key? text
  let '=' :: rest := rest | none
  let (v, rest) ← value (skipSpace rest)
  return (key, v, rest)

/-- The fields of an inline table after its opening brace or a comma, put
into those before. -/
def inlineFields? (value : List Char → Option (Json × List Char)) :
    Nat → Fields → List Char → Option (Fields × List Char)
  | 0, _, _ => none
  | fuel + 1, fields, text => do
    let (key, v, rest) ← pair? value text
    let fields ← fields.put v false false key
    match skipSpace rest with
    | ',' :: rest => inlineFields? value fuel fields rest
    | '}' :: rest => return (fields, rest)
    | _ => none

/-- An array after its opening bracket. -/
def array? (value : List Char → Option (Json × List Char)) (text : List Char) :
    Option (Json × List Char) :=
  (items? value (text.length + 1) text).map fun (items, rest) => (.array items, rest)

/-- An inline table after its opening brace. -/
def inlineTable? (value : List Char → Option (Json × List Char)) (text : List Char) :
    Option (Json × List Char) :=
  match skipSpace text with
  | '\x7d' :: rest => some (.object [], rest)
  | _ => (inlineFields? value (text.length + 1) [] text).map fun (fields, rest) =>
      (Fields.finish fields, rest)

/-- A value without parts. -/
def scalar? : List Char → Option (Json × List Char)
  | '"' :: rest => (string? ('"' :: rest)).map fun (s, rest) => (.string (String.ofList s), rest)
  | '\'' :: rest =>
    (string? ('\'' :: rest)).map fun (s, rest) => (.string (String.ofList s), rest)
  | text => word? text

/-- One value with at most `depth` levels of arrays and inline tables. -/
def value? : Nat → List Char → Option (Json × List Char)
  | 0, '[' :: _ => none
  | 0, '\x7b' :: _ => none
  | depth + 1, '[' :: rest => array? (value? depth) rest
  | depth + 1, '\x7b' :: rest => inlineTable? (value? depth) rest
  | _, text => scalar? text

/-- A document so far: its tables and the path of the last header. -/
structure Draft where
  root : Fields := []
  path : List String := []

/-- Takes up a header; `array` says that it stood in double brackets. -/
def Draft.header (d : Draft) (array : Bool) (path : List String) : Option Draft :=
  match path.getLast? with
  | none => none
  | some name => do
    let add (fields : Fields) : Option Fields :=
      if array then fields.append name else fields.state name
    return ⟨← d.root.inside add path.dropLast, path⟩

/-- Takes up a key and its value below the last header. -/
def Draft.put (d : Draft) (key : List String) (v : Json) : Option Draft := do
  return { d with root := ← d.root.inside (fun fields => fields.put v false false key) d.path }

/-- Takes up the statement at the start of a text. -/
def statement? (d : Draft) (text : List Char) : Option (Draft × List Char) :=
  match text with
  | '[' :: '[' :: rest => do
    let (path, rest) ← key? rest
    let ']' :: ']' :: rest := rest | none
    return (← d.header true path, rest)
  | '[' :: rest => do
    let (path, rest) ← key? rest
    let ']' :: rest := rest | none
    return (← d.header false path, rest)
  | _ => do
    let (key, v, rest) ← pair? (value? maxDepth) text
    return (← d.put key v, rest)

/-- Reads the statements of a text, each on lines of its own. -/
def statements? : Nat → Draft → List Char → Option Draft
  | 0, _, _ => none
  | fuel + 1, d, text =>
    match skipLines text with
    | [] => some d
    | text => do
      let (d, rest) ← statement? d text
      match skipComment (skipSpace rest) with
      | [] => return d
      | '\n' :: rest => statements? fuel d rest
      | _ => none

/-- Line breaks as line feeds. -/
def unifyBreaks : List Char → List Char
  | '\r' :: '\n' :: rest => '\n' :: unifyBreaks rest
  | c :: rest => c :: unifyBreaks rest
  | [] => []

/-- A text without a byte order mark. -/
def dropMark : List Char → List Char
  | '\ufeff' :: rest => rest
  | text => text

/-- The table a text holds, if it is TOML. -/
def parse? (text : String) : Option Json :=
  let text := unifyBreaks (dropMark text.toList)
  (statements? (text.length + 1) {} text).map fun d => d.root.finish

end Docsmith.Toml
