import Docsmith.Text.Basic
import Docsmith.Unicode.Word
/-!
# Text — whole-word search

A text contains a word where the word stands with no identifier character
directly before or after it. The search goes through the occurrences from
the left, each one starting where the one before it has ended.
-/

namespace Docsmith.Text

open Unicode

/-- The text does not start with an identifier character. -/
def startsClear : List Char → Bool
  | [] => true
  | c :: _ => !isIdentChar c

/-- Searches on from a place inside a text. `skip` characters still belong
to the occurrence found last; `clear` tells that no identifier character
stands directly before. -/
def wordFrom (word : List Char) (skip : Nat) (clear : Bool) : List Char → Bool
  | [] => false
  | c :: text =>
    match skip with
    | k + 1 => wordFrom word k (!isIdentChar c) text
    | 0 =>
      match dropStart? word (c :: text) with
      | some rest =>
        (clear && startsClear rest) || wordFrom word (word.length - 1) (!isIdentChar c) text
      | none => wordFrom word 0 (!isIdentChar c) text

/-- The word stands whole in the text. No text contains the empty word. -/
def containsWord (text word : String) : Bool :=
  !word.isEmpty && wordFrom word.toList 0 true text.toList

end Docsmith.Text
