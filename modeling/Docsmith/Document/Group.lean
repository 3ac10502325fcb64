import Docsmith.Analysis
import Docsmith.Diagram.Naming
/-!
# Documents — groups of elements

Each class has one document, for itself and its members. Methods and
fields that belong to no class share one document a kind. An element
counts as belonging to a class if its id is that of a member.
-/

namespace Docsmith.Document

/-- The file name of a class's document. -/
def classFileName (name : String) : String :=
  "class-" ++ Diagram.identifier name ++ ".md"

/-- The elements of one document. -/
structure Group where
  type : Option Element
  fields : List Element
  methods : List Element
  fileName : String
  deriving DecidableEq, Repr

namespace Group

/-- The elements in the order of the document: class, fields, methods. -/
def elements (g : Group) : List Element :=
  g.type.toList ++ g.fields ++ g.methods

/-- A class with its members. -/
def ofClass (a : Analysis) (c : Element) : Group :=
  let members := a.elements.filter (·.isMemberOf c)
  ⟨some c, members.filter (·.kind == .field), members.filter (·.kind != .field),
    classFileName c.name⟩

/-- The ids of all members of classes. -/
def attached (a : Analysis) : List String :=
  a.classes.flatMap fun c => (a.elements.filter (·.isMemberOf c)).map (·.id)

/-- The elements of a kind that belong to no class. -/
def standalone (a : Analysis) (kind : Element.Kind) : List Element :=
  let ids := attached a
  (a.ofKind kind).filter fun e => !ids.contains e.id

/-- The groups of an analysis: its classes in order, then the methods and
the fields without a class where there are any. -/
def ofAnalysis (a : Analysis) : List Group :=
  let methods := standalone a .method
  let fields := standalone a .field
  a.classes.map (ofClass a) ++
    (if methods.isEmpty then [] else [⟨none, [], methods, "standalone-methods.md"⟩]) ++
    (if fields.isEmpty then [] else [⟨none, fields, [], "standalone-fields.md"⟩])

end Group

end Docsmith.Document
