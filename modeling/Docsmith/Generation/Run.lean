import Docsmith.Analysis
import Docsmith.Document.TestPage
import Docsmith.Generation.Stage
import Docsmith.Sink.Basic
import Docsmith.Document.ElementPage
import Docsmith.Diagram.Format
import Docsmith.Document.Overview
/-!
# Generation — a run

A run makes the overview and lets three stages work at the same time: the
pages of the elements, the page of unit tests, and the diagrams. A stage
that fails is told of in the overview. Only a failure to make the output
directory or to write the overview is a failure of the run.
-/

/-! ## The page of unit tests

The models are asked for tests of every class and every method, and the
answers make one page.
-/

namespace Docsmith.Generation.UnitTests

open Document Model

/-- The elements that get tests. -/
def targets (a : Analysis) : List Element :=
  a.elements.filter (·.kind != .field)

/-- One request for each target. -/
def requests (backends : List Config.Backend) (a : Analysis) : List Request :=
  (targets a).map fun e => ⟨some backends, e, .unitTests⟩

/-- The page with the answers. -/
def draft (o : Config.Output) (a : Analysis) (answers : List String) : Draft :=
  ⟨Path.join (Path.join o.directory "tests") "unit-tests.md",
    TestPage.render o.targetCoverage ((targets a).zip answers)⟩

/-- Writes the page. -/
def write {σ : Type} (sink : Sink σ) (o : Config.Output) (a : Analysis) (answers : List String)
    (s : σ) : Except Failure String × σ :=
  let d := draft o a answers
  match sink.write d.path d.content s with
  | (.ok _, s) =>
    (.ok ("Unit tests generated for " ++ toString (targets a).length ++ " elements"), s)
  | (.error failure, s) => (.error failure, s)

end Docsmith.Generation.UnitTests

/-! ## The pages of the elements

For each element of each group the models are asked for documentation and
for usage examples. The answers come back in pairs, in the order of the
elements, so each group's page takes its own part of them. A page that
cannot be written does not keep the others from being written.
-/

namespace Docsmith.Generation.ElementPages

open Document Model

/-- The elements of all pages; one that stands on two pages comes twice. -/
def elements (groups : List Group) : List Element :=
  groups.flatMap (·.elements)

/-- Two requests for each element. -/
def requests (backends : List Config.Backend) (groups : List Group) : List Request :=
  (elements groups).flatMap fun e =>
    [⟨some backends, e, .documentation⟩, ⟨some backends, e, .usageExamples⟩]

/-- The answers in pairs. -/
def pairs : List String → List Texts
  | documentation :: examples :: rest => ⟨documentation, examples⟩ :: pairs rest
  | _ => []

/-- The page of each group, with its part of the texts. -/
def drafts (directory : String) : List Group → List Texts → List Draft
  | [], _ => []
  | g :: groups, texts =>
    let count := g.elements.length
    ⟨Path.join directory g.fileName, ElementPage.render g (texts.take count)⟩ ::
      drafts directory groups (texts.drop count)

/-- What is told about the pages, given the result of writing each. -/
def conclude (groups : List Group) (results : List (Except Failure String)) :
    Except Failure String :=
  let failures := (groups.zip results).filterMap fun (g, result) =>
    (failed? result).map fun f => g.fileName ++ ": " ++ f.message
  if failures.isEmpty then .ok (toString groups.length ++ " element documents written")
  else .error (.output (toString failures.length ++ " of " ++ toString groups.length ++
      " element documents failed (" ++ "; ".intercalate failures ++ ")"))

/-- Writes the pages. -/
def write {σ : Type} (sink : Sink σ) (directory : String) (groups : List Group)
    (answers : List String) (s : σ) : Except Failure String × σ :=
  let (results, s) := sink.writeAll (drafts directory groups (pairs answers)) s
  (conclude groups results, s)

end Docsmith.Generation.ElementPages

/-! ## Runs -/

namespace Docsmith.Generation

open Document Model

variable {σ : Type}

/-- What a run depends on. -/
structure Job where
  config : Config
  analysis : Analysis
  limits : Limits
  backends : Backends
  generatedOn : String

namespace Job

/-- The output settings. -/
def output (j : Job) : Config.Output :=
  j.config.output

/-- The timeline of a stage's requests. -/
def timeline (j : Job) (requests : List Request) : Timeline :=
  .ofRequests j.backends j.output.concurrency requests

/-- The pace of a stage with a limit. -/
def pace (j : Job) (stage : String) (limit : Span) : Pace :=
  ⟨limit, j.limits.lags stage⟩

/-- The overview, which takes no time. -/
def overview (j : Job) : Outcome :=
  let stage := "main documentation"
  .ofResult stage (within j.limits.main stage ⟨0⟩
    (.ok (Overview.render j.analysis j.generatedOn)))

/-- The stage of the elements' pages. -/
def elementStage (j : Job) (sink : Sink σ) : Stage σ :=
  let stage := "element documentation"
  if j.analysis.elements.isEmpty then .skipped stage "no code elements"
  else
    let groups := Group.ofAnalysis j.analysis
    let timeline := j.timeline (ElementPages.requests j.config.backends groups)
    .timed stage (j.pace stage j.limits.elements) timeline sink fun sink =>
      ElementPages.write sink (Path.join j.output.directory elementsDirectory) groups
        (timeline.answers j.backends)

/-- The stage of the unit tests. -/
def testStage (j : Job) (sink : Sink σ) : Stage σ :=
  let stage := "unit tests"
  if !j.output.unitTests then .skipped stage "disabled by configuration"
  else
    let timeline := j.timeline (UnitTests.requests j.config.backends j.analysis)
    .timed stage (j.pace stage j.limits.tests) timeline sink fun sink =>
      UnitTests.write sink j.output j.analysis (timeline.answers j.backends)

/-- Writes the diagrams of some formats: how many there are, and the
failures in words. -/
def buildDiagrams (j : Job) (sink : Sink σ) : List Diagram.Format → σ → (Nat × List String) × σ
  | [], s => ((0, []), s)
  | f :: formats, s =>
    let (result, s) := Diagram.build sink f (f.naming j.output) (f.directory j.output)
      j.generatedOn j.analysis s
    let ((count, failures), s) := buildDiagrams j sink formats s
    match result with
    | .ok paths => ((paths.length + count, failures), s)
    | .error failure => ((count, (f.name ++ ": " ++ failure.message) :: failures), s)

/-- Writes the diagrams of all formats that are switched on. -/
def writeDiagrams (j : Job) (sink : Sink σ) (s : σ) : Except Failure String × σ :=
  let ((count, failures), s) := j.buildDiagrams sink (Diagram.Format.enabled j.output) s
  if failures.isEmpty then (.ok (toString count ++ " diagrams written"), s)
  else (.error (.diagram ("; ".intercalate failures)), s)

/-- The stage of the diagrams, which asks no model. -/
def diagramStage (j : Job) (sink : Sink σ) : Stage σ :=
  let stage := "diagrams"
  if (Diagram.Format.enabled j.output).isEmpty then .skipped stage "no diagram format enabled"
  else .timed stage (j.pace stage j.limits.diagrams) ⟨[]⟩ sink j.writeDiagrams

/-- The three stages beside the overview. -/
def stages (j : Job) (sink : Sink σ) : List (Stage σ) :=
  [j.elementStage sink, j.testStage sink, j.diagramStage sink]

/-- The calls of a run whose output directory can be made. -/
def flights (j : Job) (sink : Sink σ) : List Timeline.Flight :=
  (j.stages sink).flatMap (·.flights j.backends)

/-- The path of the overview. -/
def overviewPath (j : Job) : String :=
  Path.join j.output.directory "README.md"

/-- Lets the stages work and writes the overview. -/
def writeAll (j : Job) (sink : Sink σ) (s : σ) : Except Failure Unit × σ :=
  let (outcomes, s) := Stage.run (j.stages sink) s
  let (result, s) := sink.write j.overviewPath (Overview.compose j.overview outcomes) s
  (result.map fun _ => (), s)

end Job

/-- What a run leaves behind: the output directory or why it failed, its
calls, and the sink. -/
structure Run (σ : Type) where
  result : Except Failure String
  flights : List Timeline.Flight
  state : σ

/-- Does a job. -/
def Job.run (j : Job) (sink : Sink σ) (s : σ) : Run σ :=
  match sink.ensureDirectory j.output.directory s with
  | (.error failure, s) => ⟨.error failure, [], s⟩
  | (.ok (), s) =>
    let (result, s) := j.writeAll sink s
    ⟨result.map fun _ => j.output.directory, j.flights sink, s⟩

end Docsmith.Generation
