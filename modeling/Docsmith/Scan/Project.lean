import Docsmith.Config.Basic
import Docsmith.Glob
import Docsmith.Language
import Docsmith.Path
import Docsmith.Analysis
import Docsmith.Failure
import Docsmith.Source
import Docsmith.FileTree.Walk
/-!
# Scans — a project

A scan takes the sources of a project from a file tree and reads them. A
source that cannot be read gives no elements; only a project that is not
there fails. The elements are ordered by their files, those of a file as
they stand in it.
-/

namespace Docsmith.Scan

/-! ## What is looked for

A filter says which files of a tree are sources: those in one of its
languages that are not too big, match no pattern of exclusion and, where
there are patterns of inclusion, match one of them. A pattern may match
either the whole path of a file or its path below the root.
-/

/-- Which files count as sources. -/
structure Filter where
  included : List (List Glob.Token) := []
  excluded : List (List Glob.Token) := []
  languages : List Language := Language.known
  maxSize : Nat := 1048576

/-- The patterns among some texts; the others are passed over. -/
def patterns (texts : List String) : List (List Glob.Token) :=
  texts.filterMap fun text => (Glob.parse text).toOption

namespace Filter

/-- The filter of some settings; names of unknown languages are passed
over. -/
def ofSources (s : Config.Sources) : Filter :=
  { included := patterns s.includePatterns
    excluded := patterns s.excludePatterns
    languages := s.languages.filterMap fun name => (Language.ofName name).toOption
    maxSize := s.maxFileSize }

/-- One of the patterns matches the path or its part below the root. -/
def matchesAny (globs : List (List Glob.Token)) (below path : String) : Bool :=
  globs.any fun glob => Glob.isMatch glob below.toList || Glob.isMatch glob path.toList

/-- The file below a root counts as a source. -/
def admits (f : Filter) (root path : String) (size : Nat) : Bool :=
  let below := (Path.below? root path).getD path
  let language := Language.ofPath path
  !matchesAny f.excluded below path &&
    (f.included.isEmpty || matchesAny f.included below path) &&
    language.isKnown && f.languages.contains language && size ≤ f.maxSize

end Filter

/-! ## Projects -/

/-- A source of a project. -/
structure SourceFile where
  path : String
  language : Language
  size : Nat
  deriving DecidableEq, Repr

/-- The sources below a root that a filter admits, in the order of the
walk. -/
def sourceFiles (t : FileTree) (here : Place) (root : String) (filter : Filter) : List SourceFile :=
  (t.walk here root).filterMap fun path =>
    (t.read? here path).bind fun content =>
      if filter.admits root path content.size then
        some ⟨path, .ofPath path, content.size⟩
      else none

/-- The elements of a source. -/
def elementsOf (t : FileTree) (here : Place) (file : SourceFile) : List Element :=
  match t.readText? here file.path with
  | some content => Source.elements file.path content
  | none => []

/-- The analysis of a project. -/
def project (t : FileTree) (here : Place) (root : String) (settings : Config.Sources) :
    Except Failure Analysis :=
  if !t.isPresent here root then .error (.notFound root)
  else
    let files := sourceFiles t here root (.ofSources settings)
    let elements := files.flatMap (elementsOf t here)
    let kept := elements.filter fun e => e.visibility.isKept settings.includePrivate
    .ok (.ofElements root (kept.mergeSort fun a b => a.file ≤ b.file))

end Docsmith.Scan
