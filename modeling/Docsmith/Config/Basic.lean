import Docsmith.Diagram.Naming
import Docsmith.Json.Value
/-!
# Configurations

What a run is told: the model backends, where and how documents are
written, and which sources are analysed. Every part has a default but for
the name of a backend.
-/

namespace Docsmith

open Decimal

/-- A model backend. The key is a secret: nothing writes it out. -/
structure Config.Backend where
  name : String
  provider : String := ""
  baseUrl : String := "http://localhost:11434"
  apiKey : Option String := none
  maxTokens : Nat := 4096
  temperature : Binary := Format.single.ofDecimal false 7 (-1)
  timeoutSeconds : Nat := 30
  maxRetries : Nat := 2
  /-- Further fields of a request, in ascending order of their names. -/
  extra : List (String × Json) := []

/-- What happens where a document's file exists already. -/
inductive Config.Collision where
  | overwrite
  | skip
  | suffix
  deriving DecidableEq, Repr

/-- The policy's name. -/
def Config.Collision.name : Config.Collision → String
  | .overwrite => "overwrite"
  | .skip => "skip"
  | .suffix => "suffix"

/-- All policies. -/
def Config.Collision.all : List Config.Collision :=
  [.overwrite, .skip, .suffix]

/-- Where and how documents are written. Paths are texts, as in a file that
configures them; one that is no UTF-8 cannot be told. -/
structure Config.Output where
  directory : String := "docs"
  unitTests : Bool := true
  mermaid : Bool := false
  plantUml : Bool := false
  mermaidNaming : Diagram.Naming := {}
  plantUmlNaming : Diagram.Naming := {}
  mermaidPath : Option String := none
  plantUmlPath : Option String := none
  targetCoverage : Binary := Format.double.ofDecimal false 8 (-1)
  stageTimeoutSecs : Nat := 180
  concurrency : Nat := 4
  collision : Config.Collision := .overwrite

/-- Which sources are analysed, and what is kept of them. -/
structure Config.Sources where
  includePrivate : Bool := false
  maxThreads : Option Nat := none
  languages : List String := ["java", "python"]
  maxFileSize : Nat := 1048576
  includePatterns : List String := ["**/*.java", "**/*.py"]
  excludePatterns : List String := ["**/test/**", "**/target/**"]
  deriving DecidableEq, Repr

/-- A configuration. -/
structure Config where
  backends : List Config.Backend := []
  output : Config.Output := {}
  sources : Config.Sources := {}

/-! ## Overrides for one run

What a user asks for in a single run. Naming a directory for diagrams asks
for the diagrams too; nothing that is switched on is switched off, but for
the unit tests.
-/

namespace Config

/-- What is asked for in a run. -/
structure Overrides where
  output : Option String := none
  mermaid : Bool := false
  plantUml : Bool := false
  mermaidPath : Option String := none
  plantUmlPath : Option String := none
  includePrivate : Bool := false
  noTests : Bool := false
  deriving DecidableEq, Repr

/-- The configuration of the run. -/
def Overrides.apply (o : Overrides) (c : Config) : Config :=
  { c with
    output :=
      { c.output with
        directory := o.output.getD c.output.directory
        unitTests := c.output.unitTests && !o.noTests
        mermaid := c.output.mermaid || o.mermaid || o.mermaidPath.isSome
        plantUml := c.output.plantUml || o.plantUml || o.plantUmlPath.isSome
        mermaidPath := o.mermaidPath.or c.output.mermaidPath
        plantUmlPath := o.plantUmlPath.or c.output.plantUmlPath }
    sources := { c.sources with includePrivate := c.sources.includePrivate || o.includePrivate } }

end Config

end Docsmith
