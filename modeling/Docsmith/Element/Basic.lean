import Docsmith.Text.Word
import Docsmith.Unicode.Lowercase
/-!
# Elements — declarations of a source file

An element is one class, method or field. Its qualified name tells where
it is declared: the part before the last dot is the qualified name of its
owner, and an element is a **member** of a class of the same file that has
its owner's qualified name.
-/

namespace Docsmith

/-! ## Visibility

A declaration's visibility is read off its signature: the keyword
`private` counts first, then `protected`, then `public`, each as a whole
word in any case. Without a keyword a name that starts with an underscore
is private, and every other one is visible in its package.
-/

/-- Who may see a declaration. -/
inductive Visibility where
  | isPublic
  | isProtected
  | packagePrivate
  | isPrivate
  deriving DecidableEq, Repr

namespace Visibility

/-- The visibility of a declaration with a signature and a name. -/
def ofDeclaration (signature name : String) : Visibility :=
  let lowered := String.ofList (Unicode.lower signature.toList)
  if Text.containsWord lowered "private" then .isPrivate
  else if Text.containsWord lowered "protected" then .isProtected
  else if Text.containsWord lowered "public" then .isPublic
  else if name.toList.head? = some '_' then .isPrivate
  else .packagePrivate

/-- Passes the filter that hides private declarations unless they are
asked for. -/
def isKept (includePrivate : Bool) (v : Visibility) : Bool :=
  includePrivate || v != .isPrivate

/-- The mark of a class diagram. -/
def symbol : Visibility → String
  | .isPublic => "+"
  | .isProtected => "#"
  | .packagePrivate => "~"
  | .isPrivate => "-"

/-- The visibility's name. -/
def name : Visibility → String
  | .isPublic => "public"
  | .isProtected => "protected"
  | .packagePrivate => "package_private"
  | .isPrivate => "private"

end Visibility

/-! ## Declarations -/

/-- What is declared. -/
inductive Element.Kind where
  | type
  | method
  | field
  deriving DecidableEq, Repr

namespace Element.Kind

/-- The kind's name. -/
def name : Kind → String
  | .type => "class"
  | .method => "method"
  | .field => "field"

/-- The kind in prompts and documents. -/
def description : Kind → String
  | .type => "Class/Interface"
  | .method => "Method/Function"
  | .field => "Field/Variable"

/-- The kind's icon. -/
def icon : Kind → String
  | .type => "🏛️"
  | .method => "⚙️"
  | .field => "📊"

/-- All kinds, in their order. -/
def all : List Kind :=
  [.type, .method, .field]

end Element.Kind

/-- One declaration. Lines count from one. -/
structure Element where
  kind : Element.Kind
  name : String
  qualifiedName : String
  file : String
  line : Nat
  signature : String
  documentation : String := ""
  parameters : List String := []
  annotations : List String := []
  deriving DecidableEq, Repr

namespace Element

/-- Line numbers start at one. -/
def clampLine (line : Nat) : Nat :=
  max line 1

/-- File, qualified name and line. -/
def id (e : Element) : String :=
  e.file ++ ":" ++ e.qualifiedName ++ ":" ++ toString e.line

/-- The name with its kind. -/
def displayName (e : Element) : String :=
  e.name ++ " (" ++ e.kind.description ++ ")"

/-- Who may see the declaration. -/
def visibility (e : Element) : Visibility :=
  .ofDeclaration e.signature e.name

/-- The declaration is public by keyword. -/
def isPublic (e : Element) : Bool :=
  e.visibility == .isPublic

/-- The qualified name of the owner: what stands before the last dot, if
that is not empty. -/
def owner? (e : Element) : Option String :=
  match Text.splitLast? ['.'] e.qualifiedName.toList with
  | some (owner, _) => if owner.isEmpty then none else some (String.ofList owner)
  | none => none

/-- The element is a direct member of the class. -/
def isMemberOf (e c : Element) : Bool :=
  e.kind != .type && e.file == c.file && e.owner? == some c.qualifiedName

/-- What a language model is told about the element. -/
def context (e : Element) : String :=
  let line (label value : String) (shown : Bool) : String :=
    if shown then label ++ ": " ++ value ++ "\n" else ""
  line "Type" e.kind.description true ++
    line "Name" e.name true ++
    line "Signature" e.signature true ++
    line "Parameters" (", ".intercalate e.parameters) (!e.parameters.isEmpty) ++
    line "Documentation" e.documentation (!e.documentation.isEmpty) ++
    line "Annotations" (", ".intercalate e.annotations) (!e.annotations.isEmpty)

end Element

end Docsmith
