import Docsmith.Text.Basic
import Docsmith.Unicode.Word
/-!
# Reading Python by lines — the forms of a line

A line is a decorator, a class header, a function header or an assignment
if it starts so; each form is tried on its own. Names start with an ASCII
letter or an underscore.
-/

namespace Docsmith.Source.Lines

open Unicode

/-- May start a name. -/
def startsName (c : Char) : Bool :=
  c.isAlpha || c == '_'

/-- A name at the start of a text, and the rest. -/
def name? (text : List Char) : Option (List Char × List Char) :=
  match text with
  | [] => none
  | c :: rest =>
    if startsName c then some (c :: rest.takeWhile isWordChar, rest.dropWhile isWordChar) else none

/-- The text after a keyword and at least one blank. -/
def afterKeyword? (keyword text : List Char) : Option (List Char) := do
  let rest ← Text.dropStart? keyword text
  match rest with
  | c :: _ => if Text.isBlank c then some (Text.trimStart rest) else none
  | [] => none

/-- What stands in parentheses, up to the first closing one, and the rest. -/
def parenthesized? : List Char → Option (List Char × List Char)
  | '(' :: rest =>
    match rest.dropWhile (· != ')') with
    | _ :: after => some (rest.takeWhile (· != ')'), after)
    | [] => none
  | _ => none

/-- The name of a decorator line. -/
def decorator? (line : List Char) : Option (List Char) :=
  match Text.trimStart line with
  | '@' :: c :: rest =>
    if startsName c then some (c :: rest.takeWhile fun d => isWordChar d || d == '.') else none
  | _ => none

/-- A header that a line starts with: its name, its parameters, and its
text up to the colon. -/
structure Header where
  name : List Char
  parameters : List Char
  text : List Char
  deriving DecidableEq, Repr

/-- The text of a line up to where `rest` starts. -/
def upTo (line rest : List Char) : List Char :=
  line.take (line.length - rest.length)

/-- A class header: name, bases in parentheses if any, colon. -/
def classHeader? (line : List Char) : Option Header := do
  let rest ← afterKeyword? ['c', 'l', 'a', 's', 's'] (Text.trimStart line)
  let (name, rest) ← name? rest
  let rest := Text.trimStart rest
  let rest := match parenthesized? rest with
    | some (_, after) => Text.trimStart after
    | none => rest
  match rest with
  | ':' :: after => some ⟨name, [], upTo line after⟩
  | _ => none

/-- The text after the colon of a function header; a result may stand
before it, which is everything from an arrow to the first colon. -/
def afterResult? (text : List Char) : Option (List Char) :=
  match Text.trimStart text with
  | ':' :: after => some after
  | '-' :: '>' :: result =>
    match result.takeWhile (· != ':'), result.dropWhile (· != ':') with
    | _ :: _, ':' :: after => some after
    | _, _ => none
  | _ => none

/-- A function header: name, parameters, result if any, colon. -/
def functionHeader? (line : List Char) : Option Header := do
  let rest ← afterKeyword? ['d', 'e', 'f'] (Text.trimStart line)
  let (name, rest) ← name? rest
  let (parameters, rest) ← parenthesized? (Text.trimStart rest)
  let after ← afterResult? rest
  some ⟨name, parameters, upTo line after⟩

/-- The text after the equals sign of an assignment; a type may stand
before it, which is everything from a colon to the first equals sign. -/
def afterEquals? (text : List Char) : Option (List Char) :=
  match Text.trimStart text with
  | '=' :: after => some after
  | ':' :: type =>
    match type.takeWhile (· != '='), type.dropWhile (· != '=') with
    | _ :: _, '=' :: after => some after
    | _, _ => none
  | _ => none

/-- An assignment to a name: the name and the value. Where nothing but
blanks follows the equals sign, the last of them is the value. -/
def assignment? (line : List Char) : Option (List Char × List Char) := do
  let (name, rest) ← name? (Text.trimStart line)
  let after ← afterEquals? rest
  match Text.trimStart after, after.getLast? with
  | value@(_ :: _), _ => some (name, value)
  | [], some c => some (name, [c])
  | [], none => none

/-- The width of a line's indentation; a tab counts four. -/
def indentation (line : List Char) : Nat :=
  (line.takeWhile Text.isBlank).foldl (fun n c => n + if c = '\t' then 4 else 1) 0

end Docsmith.Source.Lines
