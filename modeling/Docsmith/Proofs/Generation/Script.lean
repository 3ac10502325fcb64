import Docsmith.Proofs.FileTree.Trail
import Docsmith.Proofs.FileTree.Spelling
import Docsmith.Proofs.Generation.Arrival
import Docsmith.Proofs.Generation.Paths
import Docsmith.Proofs.Model.Line
/-!
# Generation — stages as scripts

A stage of a run, thing by thing: it asks a line of requests, makes a
directory, writes a document, and goes on with what comes of it. A script
leaves open when these things are done and what other stages do in the
meantime. Played on a sink by itself, with the answers in the order of the
line, the script of a stage does the stage's work (`Job.play_elementScript`,
`Job.play_testScript`, `Job.play_diagramScript`). A script is *steady* if the order in which answers
arrive makes no difference to how it goes on; those of the stages are
(`Job.steady_of_mem_scripts`).
-/


namespace Docsmith.Generation

open Document Model Sink

variable {σ : Type} {sink : Sink σ}

/-- What a stage does: the next thing, and how it goes on. -/
inductive Script where
  /-- Nothing more. -/
  | rest (outcome : Outcome)
  /-- Has requests answered. -/
  | ask (requests : List (Nat × Request)) (next : List Arrival → Script)
  /-- Makes a directory. -/
  | make (directory : String) (next : Except Failure Unit → Script)
  /-- Writes a document. -/
  | write (draft : Draft) (next : Except Failure String → Script)

namespace Script

/-- Writes documents one after the other. -/
def writeAll : List Draft → (List (Except Failure String) → Script) → Script
  | [], next => next []
  | d :: drafts, next => .write d fun result => writeAll drafts fun results => next (result :: results)

/-- What the script does to a sink by itself. Answers arrive in the order of the
line. -/
def play (sink : Sink σ) (reply : Call → Except Failure String) : Script → σ → Outcome × σ
  | .rest outcome, s => (outcome, s)
  | .ask requests next, s => (next (requests.map (answered reply))).play sink reply s
  | .make directory next, s =>
    (next (sink.ensureDirectory directory s).1).play sink reply (sink.ensureDirectory directory s).2
  | .write d next, s =>
    (next (sink.write d.path d.content s).1).play sink reply (sink.write d.path d.content s).2

/-- The documents of the script, if nothing fails. -/
def drafts (reply : Call → Except Failure String) : Script → List Draft
  | .rest _ => []
  | .ask requests next => (next (requests.map (answered reply))).drafts reply
  | .make _ next => (next (.ok ())).drafts reply
  | .write d next => d :: (next (.ok d.path)).drafts reply

/-- The outcome of the script, if nothing fails. -/
def outcome (reply : Call → Except Failure String) : Script → Outcome
  | .rest outcome => outcome
  | .ask requests next => (next (requests.map (answered reply))).outcome reply
  | .make _ next => (next (.ok ())).outcome reply
  | .write d next => (next (.ok d.path)).outcome reply

/-- As long as nothing fails, the script goes on in the same way in whatever
order answers arrive, and makes none but allowed directories. -/
inductive Steady (reply : Call → Except Failure String) (allowed : String → Prop) : Script → Prop
  | rest {outcome} : Steady reply allowed (.rest outcome)
  | ask {requests next} :
      (∀ arrivals, arrivals.Perm (requests.map (answered reply)) →
        next arrivals = next (requests.map (answered reply))) →
      Steady reply allowed (next (requests.map (answered reply))) →
      Steady reply allowed (.ask requests next)
  | make {directory next} : allowed directory → Steady reply allowed (next (.ok ())) →
      Steady reply allowed (.make directory next)
  | write {d next} : Steady reply allowed (next (.ok d.path)) →
      Steady reply allowed (.write d next)

variable {reply : Call → Except Failure String} {allowed : String → Prop} {drafts : List Draft}
variable {next : List (Except Failure String) → Script}

theorem play_writeAll (s : σ) : (writeAll drafts next).play sink reply s =
    (next (sink.writeAll drafts s).1).play sink reply (sink.writeAll drafts s).2 := by
  induction drafts generalizing next s with
  | nil => rfl
  | cons d drafts ih =>
    rw [writeAll, play, ih]
    rfl

/-- What documents are written with when nothing fails. -/
def okPaths (drafts : List Draft) : List (Except Failure String) :=
  drafts.map fun d => .ok d.path

theorem drafts_writeAll : (writeAll drafts next).drafts reply =
    drafts ++ (next (okPaths drafts)).drafts reply := by
  induction drafts generalizing next with
  | nil => rfl
  | cons d drafts ih =>
    rw [writeAll, Script.drafts, ih]
    rfl

theorem Steady.writeAll (h : (next (okPaths drafts)).Steady reply allowed) :
    (writeAll drafts next).Steady reply allowed := by
  induction drafts generalizing next with
  | nil => exact h
  | cons d drafts ih => exact .write (ih h)

end Script

/-! ## The stages -/

namespace Job

variable {j : Job}

/-- What the backends reply, whenever they do. -/
def reply (j : Job) (c : Call) : Except Failure String :=
  (j.backends c).result

/-- The pages of the elements. -/
def elementScript (j : Job) : Script :=
  let stage := "element documentation"
  if j.analysis.elements.isEmpty then .rest (.skipped stage "no code elements")
  else
    let groups := Group.ofAnalysis j.analysis
    .ask (ElementPages.line j.config.backends groups) fun arrivals =>
      .writeAll (ElementPages.drafts (Path.join j.output.directory elementsDirectory) groups
        (ElementPages.fill (ElementPages.elements groups).length arrivals)) fun results =>
      .rest (.ofResult stage (ElementPages.conclude groups results))

/-- The page of unit tests. -/
def testScript (j : Job) : Script :=
  let stage := "unit tests"
  if !j.output.unitTests then .rest (.skipped stage "disabled by configuration")
  else
    .ask (UnitTests.line j.config.backends j.analysis) fun arrivals =>
      let sections := UnitTests.sections (UnitTests.targets j.analysis) arrivals
      .write ⟨UnitTests.path j.output, TestPage.render j.output.targetCoverage sections⟩ fun result =>
      .rest (.ofResult stage (result.map fun _ =>
        "Unit tests generated for " ++ toString sections.length ++ " elements"))

/-- The diagrams of one format. -/
def formatScript (j : Job) (f : Diagram.Format) (next : Except Failure (List String) → Script) :
    Script :=
  match Diagram.views j.analysis with
  | .error failure => next (.error failure)
  | .ok [] => next (.ok [])
  | .ok views =>
    .make (f.directory j.output) fun made =>
      match made with
      | .error failure => next (.error failure)
      | .ok () =>
        .writeAll (f.drafts (f.naming j.output) (f.directory j.output) j.generatedOn views)
          fun results => next (.ok (results.filterMap succeeded?))

/-- The diagrams of some formats. -/
def formatsScript (j : Job) : List Diagram.Format → (Nat × List String → Script) → Script
  | [], next => next (0, [])
  | f :: formats, next =>
    j.formatScript f fun result => j.formatsScript formats fun rest => next (told f result rest)

/-- The diagrams of all formats that are switched on. -/
def diagramScript (j : Job) : Script :=
  let stage := "diagrams"
  if (Diagram.Format.enabled j.output).isEmpty then
    .rest (.skipped stage "no diagram format enabled")
  else
    j.formatsScript (Diagram.Format.enabled j.output) fun out =>
      .rest (.ofResult stage (concludeDiagrams out))

/-- The scripts of the stages beside the overview. -/
def scripts (j : Job) : List Script :=
  [j.elementScript, j.testScript, j.diagramScript]

/-! ## What the scripts do -/

/-- The answers that a stage gets are those of its requests in their order. -/
theorem answers_timeline (j : Job) (requests : List Request) :
    (j.timeline requests).answers j.backends = requests.map (·.run j.reply) :=
  Timeline.answers_eq j.backends j.output.concurrency requests

/-- With elements, the pages are written. -/
theorem play_elementScript (hsome : j.analysis.elements ≠ []) (sink : Sink σ) (s : σ) :
    j.elementScript.play sink j.reply s =
      let groups := Group.ofAnalysis j.analysis
      let out := ElementPages.write sink (Path.join j.output.directory elementsDirectory) groups
        ((j.timeline (ElementPages.requests j.config.backends groups)).answers j.backends) s
      (.ofResult "element documentation" out.1, out.2) := by
  unfold elementScript
  dsimp only
  rw [if_neg (List.isEmpty_iff.not.2 hsome), Script.play, ElementPages.fill_eq (.refl _),
    Script.play_writeAll, answers_timeline]
  rfl

/-- Where unit tests are wanted, their page is written. -/
theorem play_testScript (hsome : j.output.unitTests = true) (sink : Sink σ) (s : σ) :
    j.testScript.play sink j.reply s =
      let out := UnitTests.write sink j.output j.analysis
        ((j.timeline (UnitTests.requests j.config.backends j.analysis)).answers j.backends) s
      (.ofResult "unit tests" out.1, out.2) := by
  have hlength : ((UnitTests.targets j.analysis).zip ((UnitTests.requests j.config.backends
      j.analysis).map (·.run j.reply))).length = (UnitTests.targets j.analysis).length := by
    simp [UnitTests.requests]
  unfold testScript
  dsimp only
  rw [hsome, Bool.not_true, if_neg Bool.false_ne_true, Script.play, UnitTests.sections_eq (.refl _),
    answers_timeline, hlength, Script.play, Script.play]
  unfold UnitTests.write UnitTests.draft
  dsimp only [UnitTests.path]
  split
  · next h => rw [h]; rfl
  · next h => rw [h]; rfl

theorem play_formatScript (f : Diagram.Format) (next : Except Failure (List String) → Script)
    (s : σ) : (j.formatScript f next).play sink j.reply s =
      let made := Diagram.build sink f (f.naming j.output) (f.directory j.output) j.generatedOn
        j.analysis s
      (next made.1).play sink j.reply made.2 := by
  unfold formatScript Diagram.build
  cases Diagram.views j.analysis with
  | error failure => rfl
  | ok views =>
    cases views with
    | nil => rfl
    | cons v views =>
      rw [Script.play]
      obtain ⟨result, t, h⟩ : ∃ result t,
          sink.ensureDirectory (f.directory j.output) s = (result, t) := ⟨_, _, rfl⟩
      cases result with
      | error failure => simp only [h]
      | ok _ =>
        simp only [h]
        rw [Script.play_writeAll]

theorem play_formatsScript (formats : List Diagram.Format) (next : Nat × List String → Script)
    (s : σ) : (j.formatsScript formats next).play sink j.reply s =
      (next (j.buildDiagrams sink formats s).1).play sink j.reply
        (j.buildDiagrams sink formats s).2 := by
  induction formats generalizing next s with
  | nil => rfl
  | cons f formats ih =>
    rw [formatsScript, play_formatScript, ih, buildDiagrams_cons]

/-- With formats that are switched on, the diagrams are written. -/
theorem play_diagramScript (hsome : Diagram.Format.enabled j.output ≠ []) (sink : Sink σ) (s : σ) :
    j.diagramScript.play sink j.reply s =
      (.ofResult "diagrams" (j.writeDiagrams sink s).1, (j.writeDiagrams sink s).2) := by
  unfold diagramScript
  dsimp only
  rw [if_neg (List.isEmpty_iff.not.2 hsome), play_formatsScript, Script.play, writeDiagrams_eq]

/-! ## The course of the scripts -/

/-- The directory's pieces are pieces of a path that the run writes to. -/
def Allows (j : Job) (directory : String) : Prop :=
  ∃ path ∈ j.paths, ∀ name ∈ FileTree.pieces directory, FileTree.IsName name →
    name ∈ FileTree.pieces path

/-- The directory of a document has only pieces of the document's path. -/
theorem allows_of_join {directory name : String} (hname : Path.IsFileName name)
    (hpath : Path.join directory name ∈ j.paths) : j.Allows directory := by
  refine ⟨_, hpath, fun piece hm hpiece => ?_⟩
  rw [FileTree.pieces_join hname.no_slash hname.ne_empty]
  rw [FileTree.pieces] at hm
  rcases List.mem_append.1 hm with hm | hm
  · exact List.mem_append_left _ hm
  · split_ifs at hm
    · exact absurd (List.mem_singleton.1 hm) hpiece.1
    · cases hm

theorem allows_output (j : Job) : j.Allows j.output.directory :=
  allows_of_join (by decide : Path.IsFileName "README.md") (by simp [paths, overviewPath])

/-- A format's directory is that of its diagrams. -/
theorem allows_directory (hcheck : j.config.check = .ok ()) {f : Diagram.Format}
    (hf : f ∈ Diagram.Format.enabled j.output) {v : Diagram.View} {views : List Diagram.View}
    (hv : Diagram.views j.analysis = .ok (v :: views)) : j.Allows (f.directory j.output) := by
  refine allows_of_join (isFileName_diagramName hcheck f v.type) ?_
  have hdrawn : v.type ∈ Diagram.drawn j.analysis := by
    rw [Diagram.drawn, hv]
    exact List.mem_cons_self
  have hpath : Path.join (f.directory j.output) (j.diagramName f v.type) ∈ j.diagramPaths :=
    List.mem_flatMap.2 ⟨f, hf, List.mem_map.2 ⟨v.type, hdrawn, rfl⟩⟩
  simp [paths, hpath]

theorem steady_formatScript (hcheck : j.config.check = .ok ()) {f : Diagram.Format}
    (hf : f ∈ Diagram.Format.enabled j.output) {next : Except Failure (List String) → Script}
    (h : ∀ result, (next result).Steady j.reply j.Allows) :
    (j.formatScript f next).Steady j.reply j.Allows := by
  unfold formatScript
  split
  · exact h _
  · exact h _
  · next views hne hv =>
    obtain ⟨v, rest, rfl⟩ := List.exists_cons_of_ne_nil hne
    exact .make (allows_directory hcheck hf hv) (Script.Steady.writeAll (h _))

theorem steady_formatsScript (hcheck : j.config.check = .ok ()) {formats : List Diagram.Format}
    (hf : ∀ f ∈ formats, f ∈ Diagram.Format.enabled j.output) {next : Nat × List String → Script}
    (h : ∀ out, (next out).Steady j.reply j.Allows) :
    (j.formatsScript formats next).Steady j.reply j.Allows := by
  induction formats generalizing next with
  | nil => exact h _
  | cons f formats ih =>
    refine steady_formatScript hcheck (hf f List.mem_cons_self) fun result => ?_
    exact ih (fun g hg => hf g (List.mem_cons_of_mem f hg)) fun out => h (told f result out)

/-- **The scripts of the stages are steady**, if the configuration is
accepted. -/
theorem steady_of_mem_scripts (hcheck : j.config.check = .ok ()) {script : Script}
    (h : script ∈ j.scripts) : script.Steady j.reply j.Allows := by
  simp only [scripts, List.mem_cons, List.not_mem_nil, or_false] at h
  rcases h with rfl | rfl | rfl
  · unfold elementScript
    dsimp only
    split_ifs
    · exact .rest
    · refine .ask (fun arrivals hperm => ?_) (Script.Steady.writeAll .rest)
      rw [ElementPages.fill_eq hperm, ElementPages.fill_eq (.refl _)]
  · unfold testScript
    dsimp only
    split_ifs
    · exact .rest
    · refine .ask (fun arrivals hperm => ?_) (.write .rest)
      rw [UnitTests.sections_eq hperm, UnitTests.sections_eq (.refl _)]
  · unfold diagramScript
    dsimp only
    split_ifs
    · exact .rest
    · exact steady_formatsScript hcheck (fun f hf => hf) fun out => .rest

/-! ## The documents of a run -/

theorem paths_formatScript {f : Diagram.Format} {next : Except Failure (List String) → Script}
    {paths : List String} (h : ∀ result, ((next result).drafts j.reply).map (·.path) = paths) :
    ((j.formatScript f next).drafts j.reply).map (·.path) =
      f.paths (f.naming j.output) (f.directory j.output) j.analysis ++ paths := by
  unfold formatScript Diagram.Format.paths Diagram.drawn
  split
  · next failure hv => simp [hv, h]
  · next hv => simp [hv, h]
  · next views hne hv =>
    rw [hv, Script.drafts, Script.drafts_writeAll, List.map_append, Diagram.Format.paths_drafts, h]

theorem paths_formatsScript (formats : List Diagram.Format) {next : Nat × List String → Script}
    (h : ∀ out, (next out).drafts j.reply = []) :
    ((j.formatsScript formats next).drafts j.reply).map (·.path) =
      formats.flatMap fun f => f.paths (f.naming j.output) (f.directory j.output) j.analysis := by
  induction formats generalizing next with
  | nil => rw [formatsScript, h]; rfl
  | cons f formats ih =>
    rw [formatsScript, List.flatMap_cons]
    exact paths_formatScript fun result => ih fun out => h (told f result out)

/-- **The scripts write to the paths of the run**, but for the overview's. -/
theorem paths_scripts (j : Job) :
    (j.scripts.flatMap fun script => script.drafts j.reply).map (·.path) =
      j.pagePaths ++ j.testPaths ++ j.diagramPaths := by
  have helements : (j.elementScript.drafts j.reply).map (·.path) = j.pagePaths := by
    unfold elementScript
    dsimp only
    split_ifs with hnone
    · rw [pagePaths_of_isEmpty hnone]
      rfl
    · rw [Script.drafts, Script.drafts_writeAll, List.map_append, ElementPages.paths_drafts]
      exact List.append_nil _
  have htests : (j.testScript.drafts j.reply).map (·.path) = j.testPaths := by
    unfold testScript testPaths
    cases j.output.unitTests with
    | false => rfl
    | true => rfl
  have hdiagrams : (j.diagramScript.drafts j.reply).map (·.path) = j.diagramPaths := by
    unfold diagramScript diagramPaths
    dsimp only
    split_ifs with hnone
    · rw [List.isEmpty_iff.1 hnone]
      rfl
    · exact paths_formatsScript _ fun out => rfl
  simp [scripts, helements, htests, hdiagrams]

end Job

end Docsmith.Generation
