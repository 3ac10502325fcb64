import Docsmith.Text.Basic
import Docsmith.Unicode.Word
import Docsmith.Source.Lines.PythonLine
/-!
# Reading Java by lines — the forms of a declaration

A line declares a type, a constructor, a method or a field if its code
starts so. Where modifiers stand in front of nothing but a name, the last
of them is taken for the type, and no type is called so.
-/

/-! ## A line's code

A line of code loses the contents of its literals and the comment at its
end, then the annotations in front of it. What remains decides about
braces and declarations. Parameter lists are split at the commas outside
type arguments.
-/

namespace Docsmith.Source.Lines

open Unicode

/-- Empties literals and drops a trailing comment; `quote` is the quote of
the literal the text stands in. A backslash in a literal takes the next
character along. -/
def stripNoise (quote : Option Char) : List Char → List Char
  | [] => []
  | c :: text =>
    match quote with
    | some q =>
      if c = '\\' then
        match text with
        | [] => []
        | _ :: rest => stripNoise (some q) rest
      else if c = q then c :: stripNoise none text
      else stripNoise (some q) text
    | none =>
      if c = '/' && text.head? == some '/' then []
      else if c = '"' || c = '\'' then c :: stripNoise (some c) text
      else c :: stripNoise none text

/-- May stand in an annotation's name. -/
def isAnnotationChar (c : Char) : Bool :=
  isAlphanumeric c || c == '_' || c == '.' || c == '$'

/-- The text after the parenthesis that closes the first one; `level` are
open, however many: a counter of thirty-two bits does the same as long as
less than two to the thirty-first are. Without such a parenthesis nothing
remains. -/
def afterClosing (level : Nat) : List Char → List Char
  | [] => []
  | '(' :: text => afterClosing (level + 1) text
  | ')' :: text => if level = 1 then text else afterClosing (level - 1) text
  | _ :: text => afterClosing level text

/-- The text after the arguments of an annotation, if it has any. -/
def afterArguments (text : List Char) : List Char :=
  match Text.trimStart text with
  | '(' :: rest => afterClosing 0 ('(' :: rest)
  | rest => rest

/-- One annotation at the start of a text, and the rest; the word
`interface` behind the sign makes it no annotation. -/
def annotation? : List Char → Option (List Char × List Char)
  | '@' :: text =>
    if ("interface".toList).isPrefixOf text then none
    else
      match text.takeWhile isAnnotationChar with
      | [] => none
      | name =>
        some ('@' :: name, Text.trimStart (afterArguments (text.dropWhile isAnnotationChar)))
  | _ => none

/-- The annotations in front of a text, and the rest; `fuel` bounds their
number. -/
def annotationsFrom : Nat → List Char → List (List Char) × List Char
  | 0, text => ([], text)
  | fuel + 1, text =>
    match annotation? text with
    | some (name, rest) =>
      let (names, rest) := annotationsFrom fuel rest
      (name :: names, rest)
    | none => ([], text)

/-- The annotations in front of a text, and the rest without blanks in
front. -/
def splitAnnotations (text : List Char) : List (List Char) × List Char :=
  annotationsFrom text.length (Text.trimStart text)

/-- Cuts a parameter list at the commas where as many angle brackets were
closed as opened; `current` holds the piece so far, backwards. A counter of
thirty-two bits does the same for lists of less than two to the
thirty-first characters. -/
def cutParameters (angle : Int) (current : List Char) : List Char → List (List Char)
  | [] => [current.reverse]
  | c :: text =>
    if c = ',' && angle = 0 then current.reverse :: cutParameters angle [] text
    else
      let angle := if c = '<' then angle + 1 else if c = '>' then angle - 1 else angle
      cutParameters angle (c :: current) text

/-- One parameter without annotations and a leading `final`. -/
def cleanParameter (text : List Char) : List Char :=
  let rest := Text.trim (splitAnnotations text).2
  Text.collapse ((Text.dropStart? ['f', 'i', 'n', 'a', 'l', ' '] rest).getD rest)

/-- The parameters of a list in parentheses. -/
def javaParameters (text : List Char) : List (List Char) :=
  ((cutParameters 0 [] text).map cleanParameter).filter (!·.isEmpty)

end Docsmith.Source.Lines

/-! ## Declarations -/

namespace Docsmith.Source.Lines.Java

open Unicode

/-- Modifiers of a type. -/
def typeModifiers : List String :=
  ["public", "protected", "private", "abstract", "static", "final", "sealed", "non-sealed",
    "strictfp"]

/-- Modifiers of a constructor. -/
def constructorModifiers : List String :=
  ["public", "protected", "private"]

/-- Modifiers of a method. -/
def methodModifiers : List String :=
  ["public", "protected", "private", "abstract", "static", "final", "synchronized", "native",
    "default", "strictfp"]

/-- Modifiers of a field. -/
def fieldModifiers : List String :=
  ["public", "protected", "private", "static", "final", "transient", "volatile"]

/-- Words that are no type. -/
def notTypes : List String :=
  ["public", "protected", "private", "abstract", "static", "final", "synchronized", "native",
    "default", "transient", "volatile", "strictfp", "return", "new", "throw", "else", "case",
    "package", "import"]

/-- Drops the modifiers in front of a text; `fuel` bounds their number. -/
def dropModifiersFrom (words : List String) : Nat → List Char → List Char
  | 0, text => text
  | fuel + 1, text =>
    match words.findSome? fun w => afterKeyword? w.toList text with
    | some rest => dropModifiersFrom words fuel rest
    | none => text

/-- Drops the modifiers in front of a text. -/
def dropModifiers (words : List String) (text : List Char) : List Char :=
  dropModifiersFrom words text.length text

/-- May start a name. -/
def startsName (c : Char) : Bool :=
  c.isAlpha || c == '_' || c == '$'

/-- May stand in a name. -/
def isNameChar (c : Char) : Bool :=
  isWordChar c || c == '$'

/-- The text is a name. -/
def isName : List Char → Bool
  | [] => false
  | c :: rest => startsName c && rest.all isNameChar

/-- A name at the start of a text, and the rest. -/
def name? : List Char → Option (List Char × List Char)
  | [] => none
  | c :: rest =>
    if startsName c then some (c :: rest.takeWhile isNameChar, rest.dropWhile isNameChar)
    else none

/-- May stand in a type. -/
def isTypeChar (c : Char) : Bool :=
  isWordChar c || ['$', '.', '<', '>', '[', ']', ',', '?', ' '].contains c

/-- May stand in the list after `throws`. -/
def isThrowsChar (c : Char) : Bool :=
  isWordChar c || c == '$' || c == '.' || c == ',' || Text.isBlank c

/-- A header that a line starts with. -/
structure Form where
  modifiers : List Char := []
  type : List Char := []
  name : List Char
  parameters : List Char := []
  text : List Char
  deriving DecidableEq, Repr

/-- The package that a line declares. -/
def package? (line : List Char) : Option (List Char) := do
  let rest ← afterKeyword? "package".toList (Text.trimStart line)
  let isPart (c : Char) : Bool := isWordChar c || c == '.'
  match rest.takeWhile isPart, Text.trimStart (rest.dropWhile isPart) with
  | name@(_ :: _), ';' :: _ => some name
  | _, _ => none

/-- A type declaration up to its body. -/
def typeForm? (code : List Char) : Option Form := do
  let rest := dropModifiers typeModifiers code
  let rest ← ["class", "interface", "enum", "record"].findSome? fun w =>
    afterKeyword? w.toList rest
  let (name, rest) ← name? rest
  some {
    name
    text := upTo code (rest.dropWhile fun c => c != '\x7b' && c != ';') }

/-- The last word of a text and what stands before it; blanks at the end do
not count. -/
def lastWord (text : List Char) : List Char × List Char :=
  let reversed := (Text.trimEnd text).reverse
  ((reversed.takeWhile (!Text.isBlank ·)).reverse, (reversed.dropWhile (!Text.isBlank ·)).reverse)

/-- A type and a name, with a blank between them and blanks after them at
most. The type is as short as can be, and is a space only where more
blanks follow it and no other type is there. -/
def typeAndName? (text : List Char) : Option (List Char × List Char) :=
  let (name, before) := lastWord text
  if !isName name then none
  else
    match Text.trimEnd before with
    | [] =>
      match before with
      | ' ' :: _ :: _ => some ([' '], name)
      | _ => none
    | type => if type.all isTypeChar && type.length < before.length then some (type, name) else none

/-- The text after a list of thrown types and the character that ends the
header. -/
def afterThrows? (text : List Char) : Option (List Char) := do
  let rest ← Text.dropStart? "throws".toList text
  match rest.takeWhile isThrowsChar, rest.dropWhile isThrowsChar with
  | c :: _ :: _, d :: after =>
    if Text.isBlank c && (d == '\x7b' || d == ';') then some after else none
  | _, _ => none

/-- The text after the brace or semicolon that ends a method's header. -/
def afterMethodEnd? (text : List Char) : Option (List Char) :=
  let rest := Text.trimStart text
  match afterThrows? rest with
  | some after => some after
  | none =>
    match rest with
    | c :: after => if c == '\x7b' || c == ';' then some after else none
    | [] => none

/-- A method after its modifiers: type, name, parameters, end. -/
def methodBody? (code text : List Char) : Option Form := do
  let (parameters, rest) ← parenthesized? (text.dropWhile (· != '('))
  let after ← afterMethodEnd? rest
  let (type, name) ← typeAndName? (text.takeWhile (· != '('))
  some { type, name, parameters, text := upTo code after }

/-- The text after type parameters, blanks included. -/
def afterTypeParameters? : List Char → Option (List Char)
  | '<' :: text =>
    match text.takeWhile (· != '>'), text.dropWhile (· != '>') with
    | _ :: _, _ :: c :: rest => if Text.isBlank c then some (c :: rest) else none
    | _, _ => none
  | _ => none

/-- A method behind type parameters. Blanks behind these may stand for the
type where there is no other, as long as one remains before them. -/
def genericMethod? (code text : List Char) : Option Form := do
  let spaced ← afterTypeParameters? text
  match methodBody? code (Text.trimStart spaced) with
  | some form => some form
  | none =>
    let blanks := (spaced.takeWhile Text.isBlank).length
    (List.range (blanks - 1)).findSome? fun back =>
      methodBody? code (spaced.drop (blanks - 1 - back))

/-- A method declaration up to its body. -/
def methodForm? (code : List Char) : Option Form :=
  let rest := dropModifiers methodModifiers code
  match genericMethod? code rest with
  | some form => some form
  | none => methodBody? code rest

/-- What a constructor's header ends with: blanks and a brace at most, and
of thrown types the first character. -/
def afterConstructorEnd (text : List Char) : List Char :=
  let close (text : List Char) : List Char :=
    match Text.trimStart text with
    | '\x7b' :: after => after
    | rest => rest
  let rest := Text.trimStart text
  match Text.dropStart? "throws".toList rest with
  | none => close rest
  | some thrown =>
    let blanks := thrown.takeWhile Text.isBlank
    let types := thrown.dropWhile Text.isBlank
    match blanks, types with
    | [], _ => rest
    | _ :: _, c :: more =>
      if isThrowsChar c then close more
      else if 2 ≤ blanks.length then close types
      else rest
    | _ :: more, [] => if more.isEmpty then rest else []

/-- A constructor of a class. A modifier right before the parenthesis is
the name. -/
def constructorForm? (className code : List Char) : Option Form := do
  let rest := dropModifiers constructorModifiers code
  let (name, rest) ←
    if rest.head? = some '(' then
      match lastWord (upTo code rest) with
      | ([], _) => none
      | (name, _) => some (name, rest)
    else name? rest
  if name != className then none
  else
    let (parameters, rest) ← parenthesized? (Text.trimStart rest)
    some { name, parameters, text := upTo code (afterConstructorEnd rest) }

/-- A field declaration: modifiers, type, name, and a value perhaps. -/
def fieldForm? (code : List Char) : Option Form := do
  let rest := dropModifiers fieldModifiers code
  let isEnd (c : Char) : Bool := c == '=' || c == ';'
  let ended := rest.dropWhile (!isEnd ·)
  if !ended.contains ';' then none
  else
    let (type, name) ← typeAndName? (rest.takeWhile (!isEnd ·))
    some { modifiers := upTo code rest, type, name, text := code }

/-- The text may be a type. -/
def isType (text : List Char) : Bool :=
  let t := Text.trim text
  !t.isEmpty && t.getLast? != some ',' && !notTypes.contains (String.ofList t)

/-- A header without the brace or semicolon behind it, in single spaces. -/
def signature (text : List Char) : String :=
  String.ofList (Text.collapse (Text.dropEndWhile (fun c => c == '\x7b' || c == ';') text))

end Docsmith.Source.Lines.Java
