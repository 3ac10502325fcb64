import Docsmith.Element.Basic
import Docsmith.Failure
import Docsmith.Source.Comment
import Docsmith.Source.Java.Grammar
import Docsmith.Source.Java.Lexer
/-!
# Java — declarations

The elements of a source are its types at top level and, inside types,
their methods, constructors, fields and types. Headers are the source up
to the body without annotations; the comment directly before a
declaration documents it if it opens with `/**`.
-/

namespace Docsmith.Source.Java

open Syntax

/-- What the elements of one source share. -/
structure Context where
  path : String
  content : List Char
  package : Option String

/-- The text of a range. -/
def Context.text (c : Context) (range : Range) : List Char :=
  slice c.content range.start range.stop

/-- The text of some trees. -/
def Context.textOf (c : Context) (trees : List (SyntaxTree Label)) : List Char :=
  c.text (SyntaxTree.rangeOf trees)

/-- The name among the parts of a declaration. -/
def nameOf? (parts : List (SyntaxTree Label)) : Option Token :=
  (SyntaxTree.find? .name parts).bind SyntaxTree.firstOf?

/-- The parts of the annotations among the modifiers of a declaration. -/
def annotationsOf (parts : List (SyntaxTree Label)) : List (List (SyntaxTree Label)) :=
  ((SyntaxTree.find? .modifiers parts).map (SyntaxTree.findAll .annotationMark)).getD []

/-- The names of a declaration's annotations. -/
def Context.annotationNames (c : Context) (parts : List (SyntaxTree Label)) : List String :=
  (annotationsOf parts).filterMap fun a =>
    (SyntaxTree.find? .name a).map fun n => String.ofList ('@' :: c.textOf n)

/-- The text of a range of a declaration without its annotations. -/
def Context.without (c : Context) (parts : List (SyntaxTree Label)) (range : Range) : List Char :=
  textWithout c.content range ((annotationsOf parts).map SyntaxTree.rangeOf)

/-- The header of a declaration: up to the body, or all of it. -/
def Context.header (c : Context) (parts : List (SyntaxTree Label)) : List Char :=
  let range := SyntaxTree.rangeOf parts
  let body? := (SyntaxTree.find? .body parts).map SyntaxTree.rangeOf
  let stop := (body?.map (·.start)).getD range.stop
  c.without parts ⟨range.start, stop⟩

/-- What the comment before a declaration says. -/
def documentation (parts : List (SyntaxTree Label)) : String :=
  match SyntaxTree.firstOf? parts with
  | some t =>
    if ['/', '*', '*'].isPrefixOf t.comment then String.ofList (commentText t.comment) else ""
  | none => ""

/-- One parameter: type and name, or the whole text where any number of
arguments may come. -/
def Context.parameter? (c : Context) : SyntaxTree Label → Option String
  | .node .parameter parts => do
    let type ← SyntaxTree.find? .valueType parts
    let name ← nameOf? parts
    some (String.ofList (Text.collapse (c.textOf type) ++ ' ' :: name.text))
  | .node .spread parts => some (String.ofList (c.without parts (SyntaxTree.rangeOf parts)))
  | _ => none

/-- The parameters of a declaration. -/
def Context.parameters (c : Context) (parts : List (SyntaxTree Label)) : List String :=
  ((SyntaxTree.find? .parameters parts).map fun ps => ps.filterMap c.parameter?).getD []

/-- A name under its owner, or in the package. -/
def Context.qualify (c : Context) (owner : Option String) (name : String) : String :=
  match owner, c.package with
  | some owner, _ => owner ++ "." ++ name
  | none, some package => package ++ "." ++ name
  | none, none => name

/-- The line of a declaration. -/
def lineOf (parts : List (SyntaxTree Label)) : Nat :=
  ((SyntaxTree.firstOf? parts).map (·.line)).getD 1

/-- The element of a type declaration; components of a record are its
parameters. -/
def Context.typeElement (c : Context) (qualified : String) (name : Token)
    (parts : List (SyntaxTree Label)) : Element := {
  kind := .type, name := String.ofList name.text, qualifiedName := qualified, file := c.path
  line := lineOf parts, signature := String.ofList (c.header parts)
  documentation := documentation parts
  parameters := if (SyntaxTree.find? .record parts).isSome then c.parameters parts else []
  annotations := c.annotationNames parts }

/-- The element of a method or constructor of a type. -/
def Context.methodElement (c : Context) (owner : String) (name : Token)
    (parts : List (SyntaxTree Label)) : Element := {
  kind := .method, name := String.ofList name.text
  qualifiedName := owner ++ "." ++ String.ofList name.text, file := c.path, line := lineOf parts
  signature := String.ofList (Text.trimEnd (Text.dropAllEnd ';' (c.header parts)))
  documentation := documentation parts, parameters := c.parameters parts
  annotations := c.annotationNames parts }

/-- The elements of a field declaration, one for each name it declares. -/
def Context.fieldElements (c : Context) (owner : String) (parts : List (SyntaxTree Label)) :
    List Element :=
  let modifiers := ((SyntaxTree.find? .modifiers parts).map fun m =>
    c.without parts (SyntaxTree.rangeOf m)).getD []
  let type := ((SyntaxTree.find? .valueType parts).map fun t => Text.collapse (c.textOf t)).getD []
  (SyntaxTree.findAll .declarator parts).filterMap fun d =>
    (nameOf? d).map fun name => {
      kind := .field, name := String.ofList name.text
      qualifiedName := owner ++ "." ++ String.ofList name.text, file := c.path, line := lineOf d
      signature := String.ofList
        (Text.join [' '] ([modifiers, type, name.text].filter (!·.isEmpty)))
      documentation := documentation parts, annotations := c.annotationNames parts }

mutual

/-- The elements of a tree inside an owner. -/
def Context.elements (c : Context) (owner : Option String) : SyntaxTree Label → List Element
  | .node .type parts =>
    match nameOf? parts with
    | some name =>
      let qualified := c.qualify owner (String.ofList name.text)
      c.typeElement qualified name parts :: c.elementsOf (some qualified) parts
    | none => []
  | .node .body parts => c.elementsOf owner parts
  | .node .method parts =>
    match owner, nameOf? parts with
    | some owner, some name => [c.methodElement owner name parts]
    | _, _ => []
  | .node .field parts => (owner.map fun owner => c.fieldElements owner parts).getD []
  | _ => []

/-- The elements of some trees inside an owner. -/
def Context.elementsOf (c : Context) (owner : Option String) :
    List (SyntaxTree Label) → List Element
  | [] => []
  | tree :: rest => c.elements owner tree ++ c.elementsOf owner rest

end

/-- The package that a source declares. -/
def packageOf (content : List Char) (trees : List (SyntaxTree Label)) : Option String := do
  let declaration ← SyntaxTree.find? .package trees
  let name ← SyntaxTree.find? .name declaration
  let range := SyntaxTree.rangeOf name
  some (String.ofList (slice content range.start range.stop))

/-- The elements of a source, if it is Java. -/
def read (path content : String) : Except Failure (List Element) :=
  let chars := content.toList
  match (tokens? chars).bind fun tokens => Grammar.readAll rules .unit tokens with
  | some trees =>
    let context : Context := ⟨path, chars, packageOf chars trees⟩
    .ok (context.elementsOf none trees)
  | none => .error (.parse path "Java syntax error")

end Docsmith.Source.Java
