/-!
# Text — trimming, cutting and joining

Operations on a text as a list of characters. A **blank** is a character
with the property White_Space. Cutting a text at a class of characters
gives one piece more than there are such characters, so nothing but the
separators is lost; words are the pieces between blanks that are not empty.
-/

namespace Docsmith.Text

/-! ## Characters -/

/-- A blank: a character with the property White_Space. -/
def isBlank (c : Char) : Bool :=
  c == ' ' || ('\t' ≤ c && c ≤ '\r') || c == '\u0085' || c == '\u00a0' || c == '\u1680' ||
    ('\u2000' ≤ c && c ≤ '\u200a') || c == '\u2028' || c == '\u2029' || c == '\u202f' ||
    c == '\u205f' || c == '\u3000'

/-- Drops the last characters that satisfy `p`. -/
def dropEndWhile (p : Char → Bool) (text : List Char) : List Char :=
  (text.reverse.dropWhile p).reverse

/-- Drops blanks at the start. -/
def trimStart (text : List Char) : List Char :=
  text.dropWhile isBlank

/-- Drops blanks at the end. -/
def trimEnd (text : List Char) : List Char :=
  dropEndWhile isBlank text

/-- Drops blanks at both ends. -/
def trim (text : List Char) : List Char :=
  trimEnd (trimStart text)

/-- Every character is a blank. -/
def isBlankText (text : List Char) : Bool :=
  text.all isBlank

/-- Cuts a text at each character that satisfies `p`; these are dropped. -/
def splitBy (p : Char → Bool) (text : List Char) : List (List Char) :=
  text.foldr
    (fun c pieces =>
      if p c then [] :: pieces
      else
        match pieces with
        | [] => [[c]]
        | piece :: rest => (c :: piece) :: rest)
    [[]]

/-- Cuts a text at each `c`. -/
def splitChar (c : Char) (text : List Char) : List (List Char) :=
  splitBy (· == c) text

/-- The words of a text: its longest runs without a blank. -/
def words (text : List Char) : List (List Char) :=
  (splitBy isBlank text).filter (!·.isEmpty)

/-- Joins pieces with a separator between neighbours. -/
def join (separator : List Char) (pieces : List (List Char)) : List Char :=
  separator.intercalate pieces

/-- One space between words and none around them. -/
def collapse (text : List Char) : List Char :=
  join [' '] (words text)

/-- The text after `start`, if the text starts so. -/
def dropStart? : List Char → List Char → Option (List Char)
  | [], text => some text
  | _ :: _, [] => none
  | c :: start, d :: text => if c = d then dropStart? start text else none

/-- The text before `tail`, if the text ends so. -/
def dropEnd? (tail text : List Char) : Option (List Char) :=
  (dropStart? tail.reverse text.reverse).map List.reverse

/-- The text ends with `tail`. -/
def endsWith (tail text : List Char) : Bool :=
  (dropEnd? tail text).isSome

/-- The text before and after the first place where `needle` stands. -/
def splitOnce? (needle : List Char) : List Char → Option (List Char × List Char)
  | [] => if needle.isEmpty then some ([], []) else none
  | c :: text =>
    match dropStart? needle (c :: text) with
    | some rest => some ([], rest)
    | none => (splitOnce? needle text).map fun (before, after) => (c :: before, after)

/-- The text before and after the last place where `needle` stands. -/
def splitLast? (needle text : List Char) : Option (List Char × List Char) :=
  (splitOnce? needle.reverse text.reverse).map fun (before, after) =>
    (after.reverse, before.reverse)

/-- The needle stands somewhere in the text. -/
def occurs (needle text : List Char) : Bool :=
  (splitOnce? needle text).isSome

/-- Drops every leading copy of `c`. -/
def dropAllStart (c : Char) (text : List Char) : List Char :=
  text.dropWhile (· == c)

/-- Drops every trailing copy of `c`. -/
def dropAllEnd (c : Char) (text : List Char) : List Char :=
  dropEndWhile (· == c) text

/-- A line without the carriage return at its end. -/
def dropReturn (line : List Char) : List Char :=
  (dropEnd? ['\r'] line).getD line

/-- The lines of a text. A line feed ends a line and takes a carriage
return before it along; what follows the last line feed is a line only
where it is not empty, and keeps its carriage return. -/
def lines (text : List Char) : List (List Char) :=
  match (splitChar '\n' text).reverse with
  | [] => []
  | last :: ended =>
    (ended.map dropReturn).reverse ++ (if last.isEmpty then [] else [last])

/-! ## Digits as numbers

Reading whole numbers from digits of a base. A digit beyond nine is a
letter in either case.
-/

/-- The value of a digit in bases up to thirty-six. -/
def digitValue? (base : Nat) (c : Char) : Option Nat :=
  let value? : Option Nat :=
    if c.isDigit then some (c.toNat - '0'.toNat)
    else if 'a' ≤ c && c ≤ 'z' then some (c.toNat - 'a'.toNat + 10)
    else if 'A' ≤ c && c ≤ 'Z' then some (c.toNat - 'A'.toNat + 10)
    else none
  value?.filter (· < base)

/-- The number some digits stand for; there is at least one. -/
def numeral? (base : Nat) (digits : List Char) : Option Nat :=
  if digits.isEmpty then none
  else (digits.mapM (digitValue? base)).map (·.foldl (fun n d => n * base + d) 0)

end Docsmith.Text
