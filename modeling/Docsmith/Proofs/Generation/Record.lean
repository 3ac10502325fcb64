import Docsmith.Generation.Run
import Docsmith.Proofs.Sink.Log
/-!
# Generation — the documents of a run

The paths that a run has documents for: the pages of the elements, the page
of unit tests, the diagrams and the overview (`Job.paths`). Programs that
write some of them are told in one step each, so that what is known of the
sink can be put together along them.
-/


namespace Docsmith

open Sink

variable {σ : Type}

/-! ## Parts of a run -/

namespace Diagram

/-- The classes that get a diagram: none if one of them makes all of them
unusable. -/
def drawn (a : Analysis) : List Element :=
  match views a with
  | .ok views => views.map (·.type)
  | .error _ => []

/-- The paths of a format's diagrams. -/
def Format.paths (f : Format) (n : Naming) (directory : String) (a : Analysis) : List String :=
  (drawn a).map fun c => Path.join directory (n.fileName c.name f.extension)

/-- The diagrams of some views have the paths of the classes. -/
theorem Format.paths_drafts (f : Format) (n : Naming) (directory generatedOn : String)
    (views : List View) : (f.drafts n directory generatedOn views).map (·.path) =
      (views.map (·.type)).map fun c => Path.join directory (n.fileName c.name f.extension) := by
  rw [Format.drafts, List.map_map, List.map_map]
  rfl

/-- What becomes of an analysis with usable views. -/
theorem build_eq {a : Analysis} {v : View} {more : List View} (hv : views a = .ok (v :: more))
    (sink : Sink σ) (f : Format) (n : Naming) (directory generatedOn : String) :
    build sink f n directory generatedOn a = sink.afterDirectory directory .error fun s =>
      (.ok ((sink.writeAll (f.drafts n directory generatedOn (v :: more)) s).1.filterMap succeeded?),
        (sink.writeAll (f.drafts n directory generatedOn (v :: more)) s).2) := by
  funext s
  obtain ⟨result, t, h⟩ : ∃ result t, sink.ensureDirectory directory s = (result, t) := ⟨_, _, rfl⟩
  cases result with
  | error f => simp only [build, afterDirectory, hv, h]
  | ok _ => simp only [build, afterDirectory, hv, h]

end Diagram

namespace Generation

open Document Model

variable {j : Job}

/-- The pages of some groups have the groups' file names. -/
theorem ElementPages.paths_drafts (directory : String) (groups : List Group) (texts : List Texts) :
    (ElementPages.drafts directory groups texts).map (·.path) =
      groups.map fun g => Path.join directory g.fileName := by
  induction groups generalizing texts with
  | nil => rfl
  | cons g groups ih =>
    rw [ElementPages.drafts, List.map_cons, List.map_cons, ih]

theorem ElementPages.length_drafts (directory : String) (groups : List Group)
    (texts : List Texts) : (ElementPages.drafts directory groups texts).length = groups.length := by
  have hpaths := congrArg List.length (paths_drafts directory groups texts)
  rwa [List.length_map, List.length_map] at hpaths

/-- The path of the page of unit tests. -/
def UnitTests.path (o : Config.Output) : String :=
  Path.join (Path.join o.directory "tests") "unit-tests.md"

/-- What is told of the diagrams once one more format is done. -/
def told (f : Diagram.Format) (result : Except Failure (List String)) (rest : Nat × List String) :
    Nat × List String :=
  match result with
  | .ok paths => (paths.length + rest.1, rest.2)
  | .error failure => (rest.1, (f.name ++ ": " ++ failure.message) :: rest.2)

/-- The diagrams of one format more. -/
theorem Job.buildDiagrams_cons (j : Job) (sink : Sink σ) (f : Diagram.Format)
    (formats : List Diagram.Format) : j.buildDiagrams sink (f :: formats) = fun s =>
      let first := Diagram.build sink f (f.naming j.output) (f.directory j.output)
        j.generatedOn j.analysis s
      (told f first.1 (j.buildDiagrams sink formats first.2).1,
        (j.buildDiagrams sink formats first.2).2) := by
  funext s
  rw [Job.buildDiagrams]
  dsimp only
  split
  · next h => rw [h]; rfl
  · next h => rw [h]; rfl

/-! ## The run -/

namespace Job

/-- The paths of the elements' pages. -/
def pagePaths (j : Job) : List String :=
  (Group.ofAnalysis j.analysis).map fun g =>
    Path.join (Path.join j.output.directory elementsDirectory) g.fileName

/-- The path of the page of unit tests, if there is to be one. -/
def testPaths (j : Job) : List String :=
  if j.output.unitTests then [UnitTests.path j.output] else []

/-- The paths of the diagrams of all formats that are switched on. -/
def diagramPaths (j : Job) : List String :=
  (Diagram.Format.enabled j.output).flatMap fun f =>
    f.paths (f.naming j.output) (f.directory j.output) j.analysis

/-- The paths of everything that a run writes. -/
def paths (j : Job) : List String :=
  j.pagePaths ++ j.testPaths ++ j.diagramPaths ++ [j.overviewPath]

/-- No stage waits for its answers longer than its limit. -/
def InTime (j : Job) (sink : Sink σ) : Prop :=
  ∀ stage ∈ j.stages sink, stage.timeline.finish ≤ stage.limit.nanos

/-- Without elements there is no page. -/
theorem pagePaths_of_isEmpty (h : j.analysis.elements.isEmpty = true) : j.pagePaths = [] := by
  have helements : j.analysis.elements = [] := List.isEmpty_iff.1 h
  simp [pagePaths, Group.ofAnalysis, Group.standalone, Analysis.classes, Analysis.ofKind,
    helements]

/-- What is told of all diagrams in the end. -/
def concludeDiagrams (out : Nat × List String) : Except Failure String :=
  if out.2.isEmpty then .ok (toString out.1 ++ " diagrams written")
  else .error (.diagram ("; ".intercalate out.2))

/-- Writing the diagrams of all formats that are switched on, in one step. -/
theorem writeDiagrams_eq (j : Job) (sink : Sink σ) : j.writeDiagrams sink = fun s =>
    (concludeDiagrams (j.buildDiagrams sink (Diagram.Format.enabled j.output) s).1,
      (j.buildDiagrams sink (Diagram.Format.enabled j.output) s).2) := by
  funext s
  unfold writeDiagrams concludeDiagrams
  dsimp only
  split_ifs
  · rfl
  · rfl

/-- What a run leaves behind, but for its calls. -/
def outcome (j : Job) (sink : Sink σ) (s : σ) : Except Failure String × σ :=
  ((j.run sink s).result, (j.run sink s).state)

theorem outcome_eq (j : Job) (sink : Sink σ) :
    j.outcome sink = sink.afterDirectory j.output.directory .error fun s =>
      ((j.writeAll sink s).1.map fun _ => j.output.directory, (j.writeAll sink s).2) := by
  funext s
  unfold outcome Job.run afterDirectory
  obtain ⟨result, t⟩ := sink.ensureDirectory j.output.directory s
  cases result with
  | error f => rfl
  | ok _ => rfl

end Job

end Generation

end Docsmith
