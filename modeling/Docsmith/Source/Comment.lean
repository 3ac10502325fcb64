import Docsmith.Source.Syntax.Token
import Docsmith.Text.Basic
/-!
# Sources — documentation comments and strings

The text of a comment between `/**` and its end: the markers are dropped,
each line loses its leading asterisks and the blanks around it, and the
lines that are not empty are joined by spaces. So it is with a string that
opens a body.
-/

namespace Docsmith.Source

/-! ## Comments -/

/-- Drops copies of `marker` from the start; `fuel` bounds their number. -/
def dropCopies (marker : List Char) : Nat → List Char → List Char
  | 0, text => text
  | fuel + 1, text =>
    match Text.dropStart? marker text with
    | some rest => dropCopies marker fuel rest
    | none => text

/-- Drops all copies of `marker` from the start. -/
def trimCopiesStart (marker text : List Char) : List Char :=
  dropCopies marker text.length text

/-- Drops all copies of `marker` from the end. -/
def trimCopiesEnd (marker text : List Char) : List Char :=
  (dropCopies marker.reverse text.length text.reverse).reverse

/-- The lines that are not empty after `clean`, joined by spaces. -/
def joinLines (clean : List Char → List Char) (lines : List (List Char)) : List Char :=
  Text.join [' '] ((lines.map clean).filter (!·.isEmpty))

/-- What a documentation comment says. -/
def commentText (comment : List Char) : List Char :=
  let inner := trimCopiesEnd ['*', '/'] (trimCopiesStart ['/', '*', '*'] comment)
  joinLines (fun line => Text.trim (Text.dropAllStart '*' (Text.trim line))) (Text.lines inner)

/-! ## Documentation strings

A documentation string is a string literal that opens a body. Its text is
the literal without letters and quotes, its lines trimmed and joined by
spaces. It is read in two ways: from a whole literal, and from the lines
of a source, where it has triple quotes and may end on a later line.
-/

/-- The quotes of a literal, the longer ones first. -/
def quotes : List (List Char) :=
  [['"', '"', '"'], ['\'', '\'', '\''], ['"'], ['\'']]

/-- The triple quotes. -/
def tripleQuotes : List (List Char) :=
  [['"', '"', '"'], ['\'', '\'', '\'']]

/-- Lines trimmed and joined. -/
def joinTrimmed (lines : List (List Char)) : List Char :=
  joinLines Text.trim lines

/-- An ASCII letter, as may stand before a literal's quote. -/
def isLiteralLetter (c : Char) : Bool :=
  c.isAlpha

/-- What a whole string literal says. -/
def literalText (literal : List Char) : List Char :=
  let body := literal.dropWhile isLiteralLetter
  let inner :=
    match quotes.find? fun q => q.isPrefixOf body && q.length * 2 ≤ Syntax.byteCount body with
    | some q => ((Text.dropStart? q body).bind (Text.dropEnd? q)).getD body
    | none => body
  joinTrimmed (Text.lines inner)

/-- A letter that may stand before the quote of a documentation string. -/
def isStringPrefix (c : Char) : Bool :=
  ['r', 'R', 'u', 'U', 'b', 'B', 'f', 'F'].contains c

/-- The quote that opens a documentation string at the start of a line, and
the text behind it. -/
def openingQuote? (line : List Char) : Option (List Char × List Char) :=
  let isQuote (c : Char) : Bool := c == '"' || c == '\''
  let trimmed := Text.trim line
  let letters := trimmed.takeWhile (!isQuote ·)
  let rest := trimmed.dropWhile (!isQuote ·)
  if rest.isEmpty || 2 < letters.length || !letters.all isStringPrefix then none
  else
    match tripleQuotes.find? (·.isPrefixOf rest) with
    | some q => some (q, rest.drop q.length)
    | none => none

/-- The lines up to the one that holds the closing quote, cut there, and
how many lines that were. -/
def closing? (quote : List Char) : List (List Char) → Option (List (List Char) × Nat)
  | [] => none
  | line :: rest =>
    match Text.splitOnce? quote line with
    | some (before, _) => some ([before], 1)
    | none => (closing? quote rest).map fun (parts, count) => (line :: parts, count + 1)

/-- The documentation string that the lines start with, and how many lines
it takes. A string that is never closed counts as code. -/
def docstring (lines : List (List Char)) : List Char × Nat :=
  match lines with
  | [] => ([], 0)
  | first :: rest =>
    match openingQuote? first with
    | none => ([], 0)
    | some (quote, opening) =>
      match Text.splitOnce? quote opening with
      | some (inner, _) => (joinTrimmed [inner], 1)
      | none =>
        match closing? quote rest with
        | some (parts, count) => (joinTrimmed (opening :: parts), count + 1)
        | none => ([], 0)

end Docsmith.Source
