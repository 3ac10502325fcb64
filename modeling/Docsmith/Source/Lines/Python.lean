import Docsmith.Element.Basic
import Docsmith.Source.Comment
import Docsmith.Source.Lines.PythonLine
/-!
# Reading Python by lines

The lines are read from the top with a stack of the headers they stand
under. A line closes every scope that is indented as far as itself; inside
a function nothing is an element. The documentation string behind a header
belongs to the header and is passed over.
-/

namespace Docsmith.Source.Lines.Python

/-- A scope that is open: its indentation, and the qualified name of its
class; a function's scope has none. -/
structure Scope where
  indent : Nat
  type : Option String
  deriving DecidableEq, Repr

/-- What is known before a line: the open scopes, the innermost first, and
the decorators that wait for a header. -/
structure State where
  scopes : List Scope := []
  decorators : List String := []
  deriving DecidableEq, Repr

/-- A name under its owner. -/
def qualify (owner : Option String) (name : String) : String :=
  match owner with
  | some owner => owner ++ "." ++ name
  | none => name

/-- The scopes that stay open at a line of some indentation. -/
def enclosing (indent : Nat) (scopes : List Scope) : List Scope :=
  scopes.dropWhile fun s => indent ≤ s.indent

/-- The line stands in the body of a function. -/
def inFunction (scopes : List Scope) : Bool :=
  scopes.any (·.type.isNone)

/-- The class whose body the line stands in. -/
def owner? (scopes : List Scope) : Option String :=
  scopes.head?.bind (·.type)

/-- The parameters of a function header without the receiver. -/
def parameters (text : List Char) : List String :=
  ((Text.splitChar ',' text).map fun p => String.ofList (Text.trim p)).filter fun p =>
    !p.isEmpty && p != "self" && p != "cls"

/-- A trimmed text. -/
def trimmed (text : List Char) : String :=
  String.ofList (Text.trim text)

/-- What one line of code gives: the state after it, an element if there
is one, and the number of lines behind it that belong to it. -/
structure Step where
  state : State
  element : Option Element := none
  consumed : Nat := 0

/-- The step at a class header. -/
def stepClass (path : String) (number indent : Nat) (scopes : List Scope)
    (decorators : List String) (h : Header) (after : List (List Char)) : Step :=
  let (doc, consumed) := docstring after
  if inFunction scopes then ⟨⟨⟨indent, none⟩ :: scopes, []⟩, none, consumed⟩
  else
    let name := String.ofList h.name
    let qualified := qualify (owner? scopes) name
    ⟨⟨⟨indent, some qualified⟩ :: scopes, []⟩,
      some {
        kind := .type, name, qualifiedName := qualified, file := path, line := number
        signature := trimmed h.text, documentation := String.ofList doc
        annotations := decorators },
      consumed⟩

/-- The step at a function header. -/
def stepFunction (path : String) (number indent : Nat) (scopes : List Scope)
    (decorators : List String) (h : Header) (after : List (List Char)) : Step :=
  let (doc, consumed) := docstring after
  let name := String.ofList h.name
  ⟨⟨⟨indent, none⟩ :: scopes, []⟩,
    if inFunction scopes then none
    else some {
      kind := .method, name, qualifiedName := qualify (owner? scopes) name, file := path
      line := number, signature := trimmed h.text, documentation := String.ofList doc
      parameters := parameters h.parameters, annotations := decorators },
    consumed⟩

/-- The element of an assignment outside functions; a second equals sign
makes it a comparison. -/
def fieldOf? (path : String) (number : Nat) (scopes : List Scope) (line : List Char) :
    Option Element := do
  if inFunction scopes then none
  else
    let (name, value) ← assignment? line
    if value.head? = some '=' then none
    else
      let name := String.ofList name
      some {
        kind := .field, name, qualifiedName := qualify (owner? scopes) name, file := path
        line := number, signature := trimmed line }

/-- The line is blank or a comment. -/
def isSilent (line : List Char) : Bool :=
  let text := Text.trim line
  text.isEmpty || text.head? == some '#'

/-- Reads one line with the lines after it. -/
def step (path : String) (state : State) (number : Nat) (line : List Char)
    (after : List (List Char)) : Step :=
  if isSilent line then ⟨state, none, 0⟩
  else
    let indent := indentation line
    let scopes := enclosing indent state.scopes
    match decorator? line with
    | some name =>
      let decorators :=
        if inFunction scopes then state.decorators
        else state.decorators ++ ["@" ++ String.ofList name]
      ⟨⟨scopes, decorators⟩, none, 0⟩
    | none =>
      match classHeader? line with
      | some h => stepClass path number indent scopes state.decorators h after
      | none =>
        match functionHeader? line with
        | some h => stepFunction path number indent scopes state.decorators h after
        | none => ⟨⟨scopes, []⟩, fieldOf? path number scopes line, 0⟩

/-- Reads lines from a number on; the first `skip` of them were consumed
with an earlier one. -/
def readFrom (path : String) : (skip : Nat) → State → (number : Nat) → List (List Char) →
    List Element
  | _, _, _, [] => []
  | skip + 1, state, number, _ :: rest => readFrom path skip state (number + 1) rest
  | 0, state, number, line :: rest =>
    let s := step path state number line rest
    s.element.toList ++ readFrom path s.consumed s.state (number + 1) rest

/-- The elements of a source. -/
def read (path : String) (content : List Char) : List Element :=
  readFrom path 0 {} 1 (Text.lines content)

end Docsmith.Source.Lines.Python
