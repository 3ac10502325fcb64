import Docsmith.Analysis
import Docsmith.Failure
/-!
# Diagrams — views and uses

A view is what a diagram shows of a class. A class uses another one where the
signature or a parameter of one of its members mentions the other's name as a
whole word. Classes are told apart by qualified name; two of the same simple name
do not use one another.
-/

namespace Docsmith.Diagram

/-! ## What a class shows

A diagram shows one class that is not private with the fields and methods
declared directly in it that are not private.
-/

/-- A class with the members its diagram shows. -/
structure View where
  type : Element
  fields : List Element
  methods : List Element
  deriving DecidableEq, Repr

/-- Fields first, then methods. -/
def View.members (v : View) : List Element :=
  v.fields ++ v.methods

/-- Not private. -/
def isVisible (e : Element) : Bool :=
  e.visibility != .isPrivate

/-- The view of a class in an analysis. -/
def View.ofClass (a : Analysis) (c : Element) : View :=
  let members := a.elements.filter fun e => e.isMemberOf c && isVisible e
  ⟨c, members.filter (·.kind == .field), members.filter (·.kind != .field)⟩

/-- The classes that get a diagram, in the analysis's order. One without a
qualified name makes all of them unusable. -/
def views (a : Analysis) : Except Failure (List View) :=
  let classes := a.classes.filter isVisible
  match classes.find? fun c => Text.isBlankText c.qualifiedName.toList with
  | some bad => .error (.diagram ("Class " ++ bad.name ++ " in " ++ bad.file ++
      " has no qualified name"))
  | none => .ok (classes.map (View.ofClass a))

/-! ## Uses -/

/-- The uses among the classes of a run: each class's simple name, and the
classes each one uses, both under qualified names in ascending order. -/
structure Uses where
  names : List (String × String) := []
  edges : List (String × List String) := []
  deriving DecidableEq, Repr

namespace Uses

/-- Some member of the view mentions the name. -/
def mentions (v : View) (name : String) : Bool :=
  v.members.any fun m =>
    Text.containsWord (m.signature ++ " " ++ " ".intercalate m.parameters) name

/-- The class of one view uses that of another. -/
def isUse (source target : View) : Bool :=
  target.type.qualifiedName != source.type.qualifiedName &&
    target.type.name != source.type.name && mentions source target.type.name

/-- Adds a use; both classes are known by then. -/
def addEdge (u : Uses) (source target : String) : Uses :=
  let targets := (Ordered.find? source u.edges).getD []
  { u with edges := Ordered.insert source (Ordered.insertKey target targets) u.edges }

/-- The uses among the classes of the views. -/
def ofViews (views : List View) : Uses :=
  let named : Uses :=
    { names := Ordered.ofList (views.map fun v => (v.type.qualifiedName, v.type.name)) }
  views.foldl
    (fun u source =>
      (views.filter (isUse source)).foldl
        (fun u target => u.addEdge source.type.qualifiedName target.type.qualifiedName) u)
    named

/-- The qualified names a class uses, ascending. -/
def targets (u : Uses) (source : String) : List String :=
  (Ordered.find? source u.edges).getD []

/-- One class uses another. -/
def hasEdge (u : Uses) (source target : String) : Bool :=
  (u.targets source).contains target

/-- The simple names a class uses, ascending by qualified name. -/
def namesUsed (u : Uses) (source : String) : List String :=
  (u.targets source).filterMap fun target => Ordered.find? target u.names

/-- The number of classes. -/
def nodeCount (u : Uses) : Nat :=
  u.names.length

/-- The number of uses. -/
def edgeCount (u : Uses) : Nat :=
  u.edges.foldl (fun n (_, targets) => n + targets.length) 0

end Uses

end Docsmith.Diagram
