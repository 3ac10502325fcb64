import Docsmith.Element.Basic
import Docsmith.Ordered
import Docsmith.Path
/-!
# Analyses

An analysis is a project's path and the elements found there, in the order
in which they were found. Everything else is derived: the project's name,
the elements of each kind and of each file, and their numbers. Files are
listed in ascending order and keep the elements' order.
-/

namespace Docsmith

/-- The elements of a project. None has a blank name. -/
structure Analysis where
  project : String
  elements : List Element
  deriving DecidableEq, Repr

/-- How many elements there are of each sort, and in how many files. -/
structure Analysis.Counts where
  total : Nat
  classes : Nat
  methods : Nat
  fields : Nat
  files : Nat
  deriving DecidableEq, Repr

namespace Analysis

/-- The element has a name that is not blank. -/
def isNamed (e : Element) : Bool :=
  !Text.isBlankText e.name.toList

/-- The analysis of a project; elements without a name are left out. -/
def ofElements (project : String) (elements : List Element) : Analysis :=
  ⟨project, elements.filter isNamed⟩

/-- The project's title: the last component of its path. -/
def projectName (a : Analysis) : String :=
  (Path.fileName? a.project).getD a.project

/-- The elements of one kind. -/
def ofKind (a : Analysis) (kind : Element.Kind) : List Element :=
  a.elements.filter (·.kind == kind)

/-- The classes. -/
def classes (a : Analysis) : List Element :=
  a.ofKind .type

/-- The methods. -/
def methods (a : Analysis) : List Element :=
  a.ofKind .method

/-- The fields. -/
def fields (a : Analysis) : List Element :=
  a.ofKind .field

/-- The files that hold elements, in ascending order. -/
def files (a : Analysis) : List String :=
  a.elements.foldl (fun keys e => Ordered.insertKey e.file keys) []

/-- The elements of each file. -/
def byFile (a : Analysis) : List (String × List Element) :=
  a.files.map fun file => (file, a.elements.filter (·.file == file))

/-- The elements of each kind that occurs. -/
def byKind (a : Analysis) : List (Element.Kind × List Element) :=
  (Element.Kind.all.map fun kind => (kind, a.ofKind kind)).filter (!·.2.isEmpty)

/-- The numbers of elements and files. -/
def counts (a : Analysis) : Counts :=
  ⟨a.elements.length, a.classes.length, a.methods.length, a.fields.length, a.files.length⟩

/-- The numbers in one line. -/
def Counts.summary (c : Counts) : String :=
  "Analysis Summary: " ++ toString c.total ++ " total elements (" ++ toString c.classes ++
    " classes, " ++ toString c.methods ++ " methods, " ++ toString c.fields ++
    " fields) across " ++ toString c.files ++ " files"

end Analysis

end Docsmith
