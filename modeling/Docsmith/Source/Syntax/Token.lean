import Docsmith.Text.Basic
/-!
# Syntax — tokens

What a source is made of once blanks and comments are set aside. A token
keeps its place, its line and the comment that stands last before it.
-/

/-! ## Ranges of a text

Places in a source are counted in bytes of its encoding. A range of a text
is the characters between two places; where a place is outside the text or
inside a character there are none. A header is the text of a range without
some parts of it, in single spaces.
-/

namespace Docsmith.Source

/-- A range of bytes: where it starts and where it ends. -/
structure Range where
  start : Nat
  stop : Nat
  deriving DecidableEq, Repr

/-- The text from a place on. -/
def dropBytes? : Nat → List Char → Option (List Char)
  | 0, text => some text
  | _ + 1, [] => none
  | n + 1, c :: text => if c.utf8Size ≤ n + 1 then dropBytes? (n + 1 - c.utf8Size) text else none

/-- The text up to a place. -/
def takeBytes? : Nat → List Char → Option (List Char)
  | 0, _ => some []
  | _ + 1, [] => none
  | n + 1, c :: text =>
    if c.utf8Size ≤ n + 1 then (takeBytes? (n + 1 - c.utf8Size) text).map (c :: ·) else none

/-- The characters between two places. -/
def slice (content : List Char) (start stop : Nat) : List Char :=
  if stop < start then []
  else ((dropBytes? start content).bind (takeBytes? (stop - start))).getD []

/-- The texts between the cuts, from a place on; a space stands for each
cut that has text before it. -/
def betweenCuts (content : List Char) (stop : Nat) : Nat → List Range → List Char
  | cursor, [] => if cursor < stop then slice content cursor stop else []
  | cursor, cut :: cuts =>
    (if cursor < cut.start then slice content cursor cut.start ++ [' '] else []) ++
      betweenCuts content stop (max cursor cut.stop) cuts

/-- The text of a range in single spaces, without the cuts that lie inside
it. -/
def textWithout (content : List Char) (range : Range) (cuts : List Range) : List Char :=
  let inside := cuts.filter fun c => range.start ≤ c.start && c.stop ≤ range.stop
  let sorted := inside.mergeSort fun a b => a.start ≤ b.start
  Text.collapse (betweenCuts content range.stop range.start sorted)

end Docsmith.Source

/-! ## Tokens -/

namespace Docsmith.Source.Syntax

/-- The sort of a token. -/
inductive Token.Kind where
  | word
  | number
  | string
  | symbol
  | newline
  | indent
  | dedent
  deriving DecidableEq, Repr

/-- A token. -/
structure Token where
  kind : Token.Kind
  text : List Char
  range : Range
  line : Nat
  comment : List Char := []
  deriving DecidableEq, Repr

/-- The bytes of a text. -/
def byteCount (text : List Char) : Nat :=
  text.foldl (fun n c => n + c.utf8Size) 0

/-- The line feeds of a text. -/
def lineCount (text : List Char) : Nat :=
  text.countP (· == '\n')

end Docsmith.Source.Syntax
