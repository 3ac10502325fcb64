import Docsmith.Config.Basic
import Docsmith.Diagram.Mermaid
import Docsmith.Diagram.PlantUml
import Docsmith.Sink.Basic
/-!
# Diagrams — formats and files

Each format that is switched on has a directory, and in it a file for
each class with a view. One file that cannot be written does not keep the
others from being written. An analysis without usable views touches
nothing.
-/

namespace Docsmith.Diagram

/-- The formats. -/
inductive Format where
  | mermaid
  | plantUml
  deriving DecidableEq, Repr

namespace Format

/-- All formats. -/
def all : List Format :=
  [.mermaid, .plantUml]

/-- The format's name. -/
def name : Format → String
  | .mermaid => "mermaid"
  | .plantUml => "plantuml"

/-- The extension of files, unless another one is set. -/
def extension : Format → String
  | .mermaid => "md"
  | .plantUml => "plantuml"

/-- The format is switched on. -/
def isEnabled (o : Config.Output) : Format → Bool
  | .mermaid => o.mermaid
  | .plantUml => o.plantUml

/-- The formats that are switched on. -/
def enabled (o : Config.Output) : List Format :=
  all.filter (isEnabled o)

/-- The directory that is set for the format, if one is. -/
def ownDirectory (o : Config.Output) : Format → Option String
  | .mermaid => o.mermaidPath
  | .plantUml => o.plantUmlPath

/-- The directory of the format's files. -/
def directory (f : Format) (o : Config.Output) : String :=
  (f.ownDirectory o).getD (Path.join o.directory "diagrams")

/-- How the format's files are named. -/
def naming (o : Config.Output) : Format → Naming
  | .mermaid => o.mermaidNaming
  | .plantUml => o.plantUmlNaming

/-- A diagram's text. -/
def render (f : Format) (v : View) (u : Uses) (generatedOn : String) : String :=
  match f with
  | .mermaid => Mermaid.render v u generatedOn
  | .plantUml => PlantUml.render v u

/-- The diagrams of some views, one each. -/
def drafts (f : Format) (n : Naming) (directory generatedOn : String) (views : List View) :
    List Draft :=
  let uses := Uses.ofViews views
  views.map fun v =>
    ⟨Path.join directory (n.fileName v.type.name f.extension), f.render v uses generatedOn⟩

end Format

variable {σ : Type}

/-- Writes a format's diagrams of an analysis; the paths of those that
were written. -/
def build (sink : Sink σ) (f : Format) (n : Naming) (directory generatedOn : String)
    (a : Analysis) (s : σ) : Except Failure (List String) × σ :=
  match views a with
  | .error failure => (.error failure, s)
  | .ok [] => (.ok [], s)
  | .ok views =>
    match sink.ensureDirectory directory s with
    | (.error failure, s) => (.error failure, s)
    | (.ok (), s) =>
      let (results, s) := sink.writeAll (f.drafts n directory generatedOn views) s
      (.ok (results.filterMap succeeded?), s)

end Docsmith.Diagram
