import Docsmith.Element.Basic
import Docsmith.Source.Comment
import Docsmith.Source.Lines.JavaHeader
/-!
# Reading Java by lines

The lines are read from the top with the depth of braces and a stack of
the types they stand in. Declarations count only directly in the body of
the innermost type, or outside all braces where there is none. A comment
that starts a line takes its lines whole.
-/

namespace Docsmith.Source.Lines.Java

/-- A type whose body is open or about to open: names, the depth inside
its body, and whether the body's brace was seen. -/
structure Scope where
  qualified : String
  name : String
  bodyDepth : Nat
  opened : Bool
  deriving DecidableEq, Repr

/-- What a line stands in. -/
inductive Mode where
  | code
  /-- A documentation comment, with its lines so far, the last one first. -/
  | documentation (lines : List (List Char))
  | comment
  deriving DecidableEq, Repr

/-- What is known before a line: the open types, the innermost first, the
depth of braces, and what waits for a declaration. -/
structure State where
  mode : Mode := .code
  scopes : List Scope := []
  depth : Nat := 0
  annotations : List String := []
  documentation : String := ""
  deriving DecidableEq, Repr

/-- The end of a comment. -/
def commentEnd : List Char :=
  ['*', '/']

/-- The qualified name of a type in the innermost scope or the package. -/
def qualify (package : Option String) (scopes : List Scope) (name : String) : String :=
  match scopes.head?, package with
  | some s, _ => s.qualified ++ "." ++ name
  | none, some p => p ++ "." ++ name
  | none, none => name

/-- Marks the innermost scope as opened at a depth. -/
def openAt (depth : Nat) : List Scope → List Scope
  | s :: rest =>
    (if !s.opened && depth == s.bodyDepth then { s with opened := true } else s) :: rest
  | [] => []

/-- Follows the braces of a line. -/
def braces : List Char → Nat × List Scope → Nat × List Scope
  | [], st => st
  | c :: text, (depth, scopes) =>
    if c = '\x7b' then braces text (depth + 1, openAt (depth + 1) scopes)
    else if c = '\x7d' then braces text (depth - 1, scopes)
    else braces text (depth, scopes)

/-- Leaves the scopes whose body was closed. -/
def leave (depth : Nat) (scopes : List Scope) : List Scope :=
  scopes.dropWhile fun s => s.opened && depth < s.bodyDepth

/-- A member of a type that a line declares. -/
def member? (path : String) (number : Nat) (scope : Scope) (code : List Char) :
    Option Element :=
  let under (name : String) : String := scope.qualified ++ "." ++ name
  let method (name : String) (f : Form) : Element := {
    kind := .method, name, qualifiedName := under name, file := path, line := number
    signature := signature f.text
    parameters := (javaParameters f.parameters).map String.ofList }
  match constructorForm? scope.name.toList code with
  | some f => some (method scope.name f)
  | none =>
    match (methodForm? code).filter fun f => isType f.type with
    | some f => some (method (String.ofList f.name) f)
    | none =>
      match (fieldForm? code).filter fun f => isType f.type with
      | some f =>
        let name := String.ofList f.name
        some {
          kind := .field, name, qualifiedName := under name, file := path, line := number
          signature := String.ofList
            (Text.collapse (f.modifiers ++ ' ' :: f.type ++ ' ' :: f.name)) }
      | none => none

/-- Declarations count at this depth. -/
def atMemberLevel (scopes : List Scope) (depth : Nat) : Bool :=
  match scopes with
  | s :: _ => s.bodyDepth == depth
  | [] => depth == 0

/-- What a line of code declares: an element, and the scope it opens. -/
def declare (package : Option String) (path : String) (number : Nat) (st : State)
    (code : List Char) : Option Element × List Scope :=
  if !atMemberLevel st.scopes st.depth then (none, st.scopes)
  else
    match typeForm? code with
    | some f =>
      let name := String.ofList f.name
      let qualified := qualify package st.scopes name
      (some {
        kind := .type, name, qualifiedName := qualified, file := path, line := number
        signature := String.ofList (Text.collapse f.text) },
       ⟨qualified, name, st.depth + 1, false⟩ :: st.scopes)
    | none =>
      match st.scopes with
      | scope :: _ => (member? path number scope code, st.scopes)
      | [] => (none, st.scopes)

/-- Reads a line of code, trimmed and not empty. -/
def stepCode (package : Option String) (path : String) (number : Nat) (st : State)
    (line : List Char) : State × Option Element :=
  let (found, rest) := splitAnnotations (stripNoise none line)
  let annotations := st.annotations ++ found.map String.ofList
  let code := Text.trim rest
  if code.isEmpty then ({ st with annotations }, none)
  else
    let (element, scopes) := declare package path number st code
    let (depth, scopes) := braces code (st.depth, scopes)
    (⟨.code, leave depth scopes, depth, [], ""⟩,
      element.map fun e => { e with annotations, documentation := st.documentation })

/-- Reads one line. -/
def step (package : Option String) (path : String) (number : Nat) (st : State)
    (line : List Char) : State × Option Element :=
  match st.mode with
  | .documentation lines =>
    let lines := line :: lines
    if Text.occurs commentEnd line then
      ({ st with
          mode := .code
          documentation := String.ofList (commentText (Text.join ['\n'] lines.reverse)) }, none)
    else ({ st with mode := .documentation lines }, none)
  | .comment =>
    ({ st with mode := if Text.occurs commentEnd line then .code else .comment }, none)
  | .code =>
    let text := Text.trim line
    if ['/', '*', '*'].isPrefixOf text then
      if Text.occurs commentEnd text then
        ({ st with documentation := String.ofList (commentText text) }, none)
      else ({ st with mode := .documentation [line] }, none)
    else if ['/', '*'].isPrefixOf text then
      ({ st with mode := if Text.occurs commentEnd text then .code else .comment }, none)
    else if text.isEmpty || ['/', '/'].isPrefixOf text then (st, none)
    else stepCode package path number st text

/-- Reads lines from a number on. -/
def readFrom (package : Option String) (path : String) : State → (number : Nat) →
    List (List Char) → List Element
  | _, _, [] => []
  | st, number, line :: rest =>
    let (st, element) := step package path number st line
    element.toList ++ readFrom package path st (number + 1) rest

/-- The elements of a source. -/
def read (path : String) (content : List Char) : List Element :=
  let lines := Text.lines content
  readFrom ((lines.findSome? package?).map String.ofList) path {} 1 lines

end Docsmith.Source.Lines.Java
