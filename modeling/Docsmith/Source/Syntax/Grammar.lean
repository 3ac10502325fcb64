import Docsmith.Source.Syntax.Token
/-!
# Syntax — grammars and trees

A grammar describes how tokens form a text: one token of a sort, one part
after the other, the first choice that fits, a part again and again, a
glance ahead, and rules by name. Reading gives trees, in which the marked
parts are nodes. Choices are ordered: once a choice fits, those behind it
are not looked at again.
-/

namespace Docsmith.Source.Syntax

variable {Label Rule : Type}

/-- A piece of a grammar. -/
inductive Grammar (Label Rule : Type) where
  | empty
  | token (fits : Token → Bool)
  | both (first second : Grammar Label Rule)
  | either (first second : Grammar Label Rule)
  | many (part : Grammar Label Rule)
  | node (label : Label) (part : Grammar Label Rule)
  | ahead (part : Grammar Label Rule)
  | absent (part : Grammar Label Rule)
  | rule (name : Rule)

/-- What was read: tokens, and marked parts. -/
inductive SyntaxTree (Label : Type) where
  | leaf (token : Token)
  | node (label : Label) (children : List (SyntaxTree Label))

namespace SyntaxTree

mutual

/-- The first token of a tree. -/
def first? : SyntaxTree Label → Option Token
  | .leaf token => some token
  | .node _ children => firstOf? children

/-- The first token of some trees. -/
def firstOf? : List (SyntaxTree Label) → Option Token
  | [] => none
  | tree :: rest => (first? tree).or (firstOf? rest)

end

mutual

/-- The last token of a tree. -/
def last? : SyntaxTree Label → Option Token
  | .leaf token => some token
  | .node _ children => lastOf? children

/-- The last token of some trees. -/
def lastOf? : List (SyntaxTree Label) → Option Token
  | [] => none
  | tree :: rest => (lastOf? rest).or (last? tree)

end

/-- The range from the first token of some trees to the last. -/
def rangeOf (trees : List (SyntaxTree Label)) : Range :=
  ⟨((firstOf? trees).map (·.range.start)).getD 0, ((lastOf? trees).map (·.range.stop)).getD 0⟩

/-- The children of the first node with a label. -/
def find? [DecidableEq Label] (label : Label) (trees : List (SyntaxTree Label)) :
    Option (List (SyntaxTree Label)) :=
  trees.findSome? fun
    | .node l children => if l = label then some children else none
    | .leaf _ => none

/-- The children of each node with a label. -/
def findAll [DecidableEq Label] (label : Label) (trees : List (SyntaxTree Label)) :
    List (List (SyntaxTree Label)) :=
  trees.filterMap fun
    | .node l children => if l = label then some children else none
    | .leaf _ => none

end SyntaxTree

namespace Grammar

/-- What a grammar read, and the tokens after it. -/
abbrev Reading (Label : Type) := Option (List (SyntaxTree Label) × List Token)

/-- Reads a part as often as it fits; `found` holds the trees so far, the
last ones first. -/
def repeated (part : List Token → Reading Label) :
    Nat → List (List (SyntaxTree Label)) → List Token → List (SyntaxTree Label) × List Token
  | 0, found, tokens => (found.reverse.flatten, tokens)
  | fuel + 1, found, tokens =>
    match part tokens with
    | some (trees, rest) => repeated part fuel (trees :: found) rest
    | none => (found.reverse.flatten, tokens)

/-- Reads tokens by a grammar; `fuel` bounds the depth of rules. -/
def read (rules : Rule → Grammar Label Rule) :
    Nat → Grammar Label Rule → List Token → Reading Label
  | 0, _, _ => none
  | fuel + 1, grammar, tokens =>
    match grammar with
    | .empty => some ([], tokens)
    | .token fits =>
      match tokens with
      | t :: rest => if fits t then some ([.leaf t], rest) else none
      | [] => none
    | .both first second =>
      match read rules fuel first tokens with
      | some (before, rest) =>
        match read rules fuel second rest with
        | some (after, rest) => some (before ++ after, rest)
        | none => none
      | none => none
    | .either first second =>
      match read rules fuel first tokens with
      | some found => some found
      | none => read rules fuel second tokens
    | .many part => some (repeated (read rules fuel part) fuel [] tokens)
    | .node label part =>
      match read rules fuel part tokens with
      | some (children, rest) => some ([.node label children], rest)
      | none => none
    | .ahead part =>
      match read rules fuel part tokens with
      | some _ => some ([], tokens)
      | none => none
    | .absent part =>
      match read rules fuel part tokens with
      | some _ => none
      | none => some ([], tokens)
    | .rule name => read rules fuel (rules name) tokens

/-- Reads all tokens. No chain of rules without a token is longer than the
grammar has pieces, so a thousand times the number of tokens is enough. -/
def readAll (rules : Rule → Grammar Label Rule) (start : Rule) (tokens : List Token) :
    Option (List (SyntaxTree Label)) :=
  match read rules (1000 * (tokens.length + 1)) (.rule start) tokens with
  | some (trees, []) => some trees
  | _ => none

/-- Parts one after the other. -/
def seq : List (Grammar Label Rule) → Grammar Label Rule
  | [] => .empty
  | [part] => part
  | part :: rest => .both part (seq rest)

/-- The first part that fits. -/
def oneOf : List (Grammar Label Rule) → Grammar Label Rule
  | [] => .absent .empty
  | [part] => part
  | part :: rest => .either part (oneOf rest)

/-- A part that may be missing. -/
def opt (part : Grammar Label Rule) : Grammar Label Rule :=
  .either part .empty

/-- A symbol. -/
def symbol (text : String) : Grammar Label Rule :=
  let chars := text.toList
  .token fun t => t.kind == .symbol && t.text == chars

/-- One of some symbols. -/
def symbols (texts : List String) : Grammar Label Rule :=
  let chars := texts.map (·.toList)
  .token fun t => t.kind == .symbol && chars.contains t.text

/-- A word. -/
def word (text : String) : Grammar Label Rule :=
  let chars := text.toList
  .token fun t => t.kind == .word && t.text == chars

/-- One of some words. -/
def words (texts : List String) : Grammar Label Rule :=
  let chars := texts.map (·.toList)
  .token fun t => t.kind == .word && chars.contains t.text

/-- A token of a kind. -/
def ofKind (kind : Token.Kind) : Grammar Label Rule :=
  .token fun t => t.kind == kind

/-- A part and more of it behind commas. -/
def commaList (part : Grammar Label Rule) : Grammar Label Rule :=
  .both part (.many (.both (symbol ",") part))

end Grammar

end Docsmith.Source.Syntax
