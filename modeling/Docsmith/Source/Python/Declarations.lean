import Docsmith.Element.Basic
import Docsmith.Failure
import Docsmith.Source.Comment
import Docsmith.Source.Python.Grammar
import Docsmith.Source.Python.Lexer
/-!
# Python — declarations

The elements of a source are the classes, functions and assignments of the
module and of class bodies; other blocks and the bodies of functions give
none. A decorated definition counts from its first decorator.
-/

namespace Docsmith.Source.Python

open Syntax

/-- What the elements of one source share. -/
structure Context where
  path : String
  content : List Char

/-- The text of some trees in single spaces. -/
def Context.collapsed (c : Context) (trees : List (SyntaxTree Label)) : List Char :=
  let range := SyntaxTree.rangeOf trees
  Text.collapse (slice c.content range.start range.stop)

/-- The text of some trees. -/
def Context.textOf (c : Context) (trees : List (SyntaxTree Label)) : List Char :=
  let range := SyntaxTree.rangeOf trees
  slice c.content range.start range.stop

/-- The name among the parts of a declaration. -/
def nameOf? (parts : List (SyntaxTree Label)) : Option Token :=
  (SyntaxTree.find? .name parts).bind SyntaxTree.firstOf?

/-- A name under its owner. -/
def qualify (owner : Option String) (name : String) : String :=
  match owner with
  | some owner => owner ++ "." ++ name
  | none => name

/-- The line some parts start in. -/
def lineOf (parts : List (SyntaxTree Label)) : Nat :=
  ((SyntaxTree.firstOf? parts).map (·.line)).getD 1

/-- Most characters of a value in a signature. -/
def maxValue : Nat := 60

/-- A value cut to `maxValue` characters, the last three of them dots. -/
def elide (value : List Char) : List Char :=
  if value.length ≤ maxValue then value else value.take (maxValue - 3) ++ ['.', '.', '.']

/-- The text behind a label, or nothing where a part is missing. -/
def Context.labelled (c : Context) (label : String) (part : Option (List (SyntaxTree Label)))
    (shorten : List Char → List Char) : String :=
  match part with
  | some trees => label ++ String.ofList (shorten (c.collapsed trees))
  | none => ""

/-- The token marks a line or a block. -/
def isMark (t : Token) : Bool :=
  t.kind == .newline || t.kind == .indent || t.kind == .dedent

/-- The documentation string of a body: a statement that starts with one
literal which stands alone, first in the body. -/
def documentation (parts : List (SyntaxTree Label)) : String :=
  let body := ((SyntaxTree.find? .body parts).getD []).dropWhile fun
    | .leaf t => isMark t
    | .node _ _ => false
  match body with
  | .node .expression (.leaf t :: rest) :: _ =>
    let alone : Bool := match rest with
      | [] => true
      | .leaf u :: _ => u.text == [',']
      | _ => false
    if t.kind == .string && alone then String.ofList (literalText t.text) else ""
  | _ => ""

/-- The decorators of a decorated definition; of a call only what is
called. -/
def Context.decorators (c : Context) (outer : Option (List (SyntaxTree Label))) : List String :=
  (SyntaxTree.findAll .decorator (outer.getD [])).filterMap fun d =>
    (SyntaxTree.find? .target d).map fun target =>
      let callee := match target.getLast? with
        | some (.node .call _) => target.dropLast
        | _ => target
      String.ofList ('@' :: c.textOf callee)

/-- The element of a class; `outer` is what decorates it. -/
def Context.typeElement (c : Context) (qualified : String) (name : Token)
    (outer : Option (List (SyntaxTree Label))) (parts : List (SyntaxTree Label)) : Element :=
  let bases := ((SyntaxTree.find? .bases parts).map c.collapsed).getD []
  {
    kind := .type, name := String.ofList name.text, qualifiedName := qualified, file := c.path
    line := lineOf (outer.getD parts)
    signature := "class " ++ String.ofList name.text ++
      (if bases = ['(', ')'] then "" else String.ofList bases) ++ ":"
    documentation := documentation parts, annotations := c.decorators outer }

/-- The parameters of a function without the receiver. -/
def Context.parameters (c : Context) (parts : List (SyntaxTree Label)) : List String :=
  ((SyntaxTree.findAll .parameter ((SyntaxTree.find? .parameters parts).getD [])).map fun p =>
    String.ofList (c.collapsed p)).filter fun p => p != "self" && p != "cls"

/-- The element of a function; `outer` is what decorates it. -/
def Context.functionElement (c : Context) (owner : Option String) (name : Token)
    (outer : Option (List (SyntaxTree Label))) (parts : List (SyntaxTree Label)) : Element :=
  let isAsync := ((SyntaxTree.firstOf? parts).map (·.text)) == some "async".toList
  {
    kind := .method, name := String.ofList name.text
    qualifiedName := qualify owner (String.ofList name.text), file := c.path
    line := lineOf (outer.getD parts)
    signature := (if isAsync then "async def " else "def ") ++ String.ofList name.text ++
      c.labelled "" (SyntaxTree.find? .parameters parts) id ++
      c.labelled " -> " (SyntaxTree.find? .result parts) id ++ ":"
    documentation := documentation parts, parameters := c.parameters parts
    annotations := c.decorators outer }

/-- The element of an assignment to a name. -/
def Context.fieldElement (c : Context) (owner : Option String) (name : Token)
    (parts : List (SyntaxTree Label)) : Element := {
  kind := .field, name := String.ofList name.text
  qualifiedName := qualify owner (String.ofList name.text), file := c.path, line := lineOf parts
  signature := String.ofList name.text ++ c.labelled ": " (SyntaxTree.find? .typeHint parts) id ++
    c.labelled " = " (SyntaxTree.find? .value parts) elide }

mutual

/-- The elements of a tree inside an owner; `outer` is what decorates it. -/
def Context.elements (c : Context) (owner : Option String)
    (outer : Option (List (SyntaxTree Label))) :
    SyntaxTree Label → List Element
  | .node .type parts =>
    match nameOf? parts with
    | some name =>
      let qualified := qualify owner (String.ofList name.text)
      c.typeElement qualified name outer parts :: c.elementsOf (some qualified) none parts
    | none => []
  | .node .function parts =>
    ((nameOf? parts).map fun name => c.functionElement owner name outer parts).toList
  | .node .decorated parts => c.elementsOf owner (some parts) parts
  | .node .body parts => c.elementsOf owner none parts
  | .node .expression parts =>
    (((SyntaxTree.find? .assignment parts).bind fun a => (nameOf? a).map fun name =>
      c.fieldElement owner name a)).toList
  | _ => []

/-- The elements of some trees inside an owner. -/
def Context.elementsOf (c : Context) (owner : Option String)
    (outer : Option (List (SyntaxTree Label))) :
    List (SyntaxTree Label) → List Element
  | [] => []
  | tree :: rest => c.elements owner outer tree ++ c.elementsOf owner outer rest

end

/-- The elements of a source, if it is Python. -/
def read (path content : String) : Except Failure (List Element) :=
  let chars := content.toList
  match (tokens? chars).bind fun tokens => Grammar.readAll rules .unit tokens with
  | some trees => .ok ((⟨path, chars⟩ : Context).elementsOf none none trees)
  | none => .error (.parse path "Python syntax error")

end Docsmith.Source.Python
