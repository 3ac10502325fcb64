import Docsmith.Text.Basic
/-!
# Glob patterns

A pattern matches a whole path. `?` stands for any character, `*` for any
run of characters, slashes included, `[…]` for one of some characters and
`[!…]` for one of the others; `**` is a whole component and stands for any
run of components. Reading a pattern tells the first place where it is no
pattern.
-/

namespace Docsmith.Glob

/-- A member of a bracket. -/
inductive Specifier where
  | one (c : Char)
  | range (low high : Char)
  deriving DecidableEq, Repr

/-- A part of a pattern. -/
inductive Token where
  | char (c : Char)
  | anyChar
  | anyRun
  | anyComponents
  | within (specifiers : List Specifier)
  | except (specifiers : List Specifier)
  deriving DecidableEq, Repr

/-- Why a text is no pattern. -/
inductive Fault where
  | wildcards
  | recursiveWildcards
  | bracket
  deriving DecidableEq, Repr

/-- The fault in words. -/
def Fault.text : Fault → String
  | .wildcards => "wildcards are either regular `*` or recursive `**`"
  | .recursiveWildcards => "recursive wildcards must form a single path component"
  | .bracket => "invalid range pattern"

/-- A fault and the place of the character it was noticed at. -/
structure Error where
  position : Nat
  fault : Fault
  deriving DecidableEq, Repr

/-- The error in words. -/
def Error.message (e : Error) : String :=
  "Pattern syntax error near position " ++ toString e.position ++ ": " ++ e.fault.text

/-- The members of a bracket: ranges where a hyphen stands between two
characters. -/
def specifiers : List Char → List Specifier
  | [] => []
  | low :: '-' :: high :: rest => .range low high :: specifiers rest
  | c :: rest => .one c :: specifiers rest

/-- A bracket's token and the text after it; `text` follows the opening
bracket, and the first character inside may be a closing bracket. -/
def bracket? (text : List Char) : Option (Token × List Char) :=
  let close (tail : List Char) : Option (List Char × List Char) :=
    if tail.contains ']' then
      some (tail.takeWhile (· != ']'), (tail.dropWhile (· != ']')).drop 1)
    else none
  match text with
  | '!' :: c :: tail =>
    (close tail).map fun (inner, rest) => (.except (specifiers (c :: inner)), rest)
  | '!' :: [] => none
  | c :: tail => (close tail).map fun (inner, rest) => (.within (specifiers (c :: inner)), rest)
  | [] => none

/-- A run of components next to another one adds nothing. -/
def pushComponents (tokens : List Token) : List Token :=
  match tokens with
  | .anyComponents :: _ :: _ => tokens
  | _ => .anyComponents :: tokens

/-- Reads on at a place; `previous` is the character before it and
`tokens` the tokens so far, the last one first. -/
def readFrom : (fuel : Nat) → (place : Nat) → (previous : Option Char) → List Token → List Char →
    Except Error (List Token)
  | 0, _, _, tokens, _ => .ok tokens.reverse
  | _ + 1, _, _, tokens, [] => .ok tokens.reverse
  | fuel + 1, place, previous, tokens, c :: rest =>
    if c = '?' then readFrom fuel (place + 1) (some c) (.anyChar :: tokens) rest
    else if c = '*' then
      let stars := ((c :: rest).takeWhile (· == '*')).length
      let after := (c :: rest).dropWhile (· == '*')
      if 2 < stars then .error ⟨place + 2, .wildcards⟩
      else if stars = 1 then readFrom fuel (place + 1) (some c) (.anyRun :: tokens) after
      else if previous.isNone || previous == some '/' then
        match after with
        | [] => readFrom fuel (place + 2) (some c) (pushComponents tokens) []
        | '/' :: after => readFrom fuel (place + 3) (some '/') (pushComponents tokens) after
        | _ => .error ⟨place + 2, .recursiveWildcards⟩
      else .error ⟨place - 1, .recursiveWildcards⟩
    else if c = '[' then
      match bracket? rest with
      | some (token, after) =>
        readFrom fuel (place + 1 + (rest.length - after.length)) (some ']') (token :: tokens) after
      | none => .error ⟨place, .bracket⟩
    else readFrom fuel (place + 1) (some c) (.char c :: tokens) rest

/-- Reads a pattern. -/
def parse (pattern : String) : Except Error (List Token) :=
  readFrom (pattern.length + 1) 0 none [] pattern.toList

/-- The character is a member. -/
def Specifier.holds (c : Char) : Specifier → Bool
  | .one d => c == d
  | .range low high => low ≤ c && c ≤ high

/-- A text and everything that remains of it after some characters. -/
def remainders : List Char → List (List Char)
  | [] => [[]]
  | c :: text => (c :: text) :: remainders text

/-- What remains of a text after each slash. -/
def afterSlashes : List Char → List (List Char)
  | [] => []
  | c :: text => if c == '/' then text :: afterSlashes text else afterSlashes text

/-- The tokens match the whole text. A run of components ends after a
slash or takes all that is left. -/
def isMatch : List Token → List Char → Bool
  | [], text => text.isEmpty
  | .anyRun :: tokens, text => (remainders text).any (isMatch tokens)
  | .anyComponents :: tokens, text => (text :: afterSlashes text ++ [[]]).any (isMatch tokens)
  | .anyChar :: _, [] => false
  | .anyChar :: tokens, _ :: text => isMatch tokens text
  | .char _ :: _, [] => false
  | .char d :: tokens, c :: text => c == d && isMatch tokens text
  | .within _ :: _, [] => false
  | .within set :: tokens, c :: text => set.any (·.holds c) && isMatch tokens text
  | .except _ :: _, [] => false
  | .except set :: tokens, c :: text => !set.any (·.holds c) && isMatch tokens text

end Docsmith.Glob
