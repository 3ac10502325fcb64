import Docsmith.Proofs.Generation.Ready
import Docsmith.Proofs.Sink.Log
/-!
# Generation — the course of a run

What a run asks of its sink, whatever the sink answers and however long the
backends and the sink take. A stage that has something to do does all of it, or
what is done within its limit, and then says so (`Job.PagesDone`,
`Job.TestsDone`, `Job.DiagramsDone`). The course of a run is made of those of
its stages (`Job.Course`), and each run on a sink with a transcript takes such
a course (`Job.run_transcribed`).
-/


namespace Docsmith.Generation

open Document Model Sink

variable {σ : Type} {sink : Sink σ}

/-! ## The documents -/

namespace Job

variable {j : Job}

/-- The pages of the elements, with what the models write. -/
def pages (j : Job) : List Draft :=
  let groups := Group.ofAnalysis j.analysis
  ElementPages.drafts (Path.join j.output.directory elementsDirectory) groups
    ((ElementPages.elements groups).map (ElementPages.textsOf j.config.backends j.reply))

/-- The page of unit tests, with what the models write. -/
def testPage (j : Job) : Draft :=
  let targets := UnitTests.targets j.analysis
  ⟨UnitTests.path j.output, TestPage.render j.output.targetCoverage
    (targets.zip ((UnitTests.requests j.config.backends j.analysis).map (·.run j.reply)))⟩

/-- The diagrams of a format. -/
def drawings (j : Job) (f : Diagram.Format) (views : List Diagram.View) : List Draft :=
  f.drafts (f.naming j.output) (f.directory j.output) j.generatedOn views

/-! ## Time limits -/

/-- The time of the stage of the pages, and its clock when its requests are
answered. -/
def pagesPace (j : Job) : Pace :=
  j.pace "element documentation" j.limits.elements

def pagesReady (j : Job) : Clock :=
  ⟨(j.timeline (ElementPages.requests j.config.backends (Group.ofAnalysis j.analysis))).finish, 0⟩

/-- The same for the page of unit tests. -/
def testsPace (j : Job) : Pace :=
  j.pace "unit tests" j.limits.tests

def testsReady (j : Job) : Clock :=
  ⟨(j.timeline (UnitTests.requests j.config.backends j.analysis)).finish, 0⟩

/-- The same for the diagrams, which need no answers. -/
def diagramsPace (j : Job) : Pace :=
  j.pace "diagrams" j.limits.diagrams

def diagramsReady : Clock :=
  ⟨(⟨[]⟩ : Timeline).finish, 0⟩

/-- The answers for the pages, and writing the pages, take longer than the limit. -/
def PagesLate (j : Job) : Prop :=
  j.pagesPace.Late j.pagesReady j.pages.length

/-- The answers for the page of unit tests, and writing it, take longer than the
limit. -/
def TestsLate (j : Job) : Prop :=
  j.testsPace.Late j.testsReady 1

/-- How many things there are to do for the diagrams of some formats: a directory
that was refused gets no diagrams. -/
def diagramThings (j : Job) (formats : List Diagram.Format) (deeds : List Deed) : Nat :=
  let views := (Diagram.drawn j.analysis).length
  if views = 0 then 0
  else formats.length * (1 + views) - deeds.countP (·.Refused) * views

/-- The diagrams take longer than the limit, after what was done for them. -/
def DiagramsLate (j : Job) (deeds : List Deed) : Prop :=
  j.diagramsPace.Late diagramsReady (j.diagramThings (Diagram.Format.enabled j.output) deeds)

instance (j : Job) : Decidable j.PagesLate :=
  inferInstanceAs (Decidable (Pace.Late _ _ _))

instance (j : Job) : Decidable j.TestsLate :=
  inferInstanceAs (Decidable (Pace.Late _ _ _))

instance (j : Job) (deeds : List Deed) : Decidable (j.DiagramsLate deeds) :=
  inferInstanceAs (Decidable (Pace.Late _ _ _))

/-- No stage is given up, whatever the sink answers. -/
structure Finishes (j : Job) : Prop where
  pages : j.analysis.elements ≠ [] → ¬ j.PagesLate
  tests : j.output.unitTests = true → ¬ j.TestsLate
  diagrams : ¬ j.DiagramsLate []

/-! ## The stages of a run -/

/-- What the stage of the pages does and how it ends: nothing without elements, and
else every page is handed over, or those for which there is time. -/
inductive PagesDone (j : Job) : List Deed → Outcome → Prop
  | idle : j.analysis.elements = [] →
      PagesDone j [] (.skipped "element documentation" "no code elements")
  | late {results : List (Except Failure String)} : j.analysis.elements ≠ [] → j.PagesLate →
      results.length = j.pages.length →
      PagesDone j ((List.zipWith .wrote j.pages results).take
          (j.pagesPace.reach j.pagesReady j.pages.length))
        (.failure "element documentation"
          (Failure.timeout "element documentation" j.limits.elements).message)
  | wrote {results : List (Except Failure String)} : j.analysis.elements ≠ [] → ¬ j.PagesLate →
      results.length = j.pages.length → PagesDone j (List.zipWith .wrote j.pages results)
        (.ofResult "element documentation"
          (ElementPages.conclude (Group.ofAnalysis j.analysis) results))

/-- The same for the page of unit tests. -/
inductive TestsDone (j : Job) : List Deed → Outcome → Prop
  | idle : j.output.unitTests = false →
      TestsDone j [] (.skipped "unit tests" "disabled by configuration")
  | late {result : Except Failure String} : j.output.unitTests = true → j.TestsLate →
      TestsDone j ([.wrote j.testPage result].take (j.testsPace.reach j.testsReady 1))
        (.failure "unit tests" (Failure.timeout "unit tests" j.limits.tests).message)
  | wrote {result : Except Failure String} : j.output.unitTests = true → ¬ j.TestsLate →
      TestsDone j [.wrote j.testPage result] (.ofResult "unit tests" (result.map fun _ =>
        "Unit tests generated for " ++ toString (UnitTests.targets j.analysis).length ++
          " elements"))

/-- What is done for the diagrams of one format, and its result: a directory that
cannot be made gets no diagram, and a diagram that cannot be written is no
failure. -/
inductive FormatDone (j : Job) (f : Diagram.Format) :
    List Deed → Except Failure (List String) → Prop
  | unusable {failure : Failure} : Diagram.views j.analysis = .error failure →
      FormatDone j f [] (.error failure)
  | idle : Diagram.views j.analysis = .ok [] → FormatDone j f [] (.ok [])
  | refused {views : List Diagram.View} {failure : Failure} :
      Diagram.views j.analysis = .ok views → views ≠ [] →
      FormatDone j f [.made (f.directory j.output) (.error failure)] (.error failure)
  | drawn {views : List Diagram.View} {results : List (Except Failure String)} :
      Diagram.views j.analysis = .ok views → views ≠ [] →
      results.length = (j.drawings f views).length →
      FormatDone j f (.made (f.directory j.output) (.ok ()) ::
        List.zipWith .wrote (j.drawings f views) results) (.ok (results.filterMap succeeded?))

/-- What is done for the diagrams of some formats, and what is told of it. -/
inductive FormatsDone (j : Job) : List Diagram.Format → List Deed → Nat × List String → Prop
  | nil : FormatsDone j [] [] (0, [])
  | cons {f : Diagram.Format} {formats : List Diagram.Format} {deeds more : List Deed}
      {result : Except Failure (List String)} {rest : Nat × List String} :
      j.FormatDone f deeds result → FormatsDone j formats more rest →
      FormatsDone j (f :: formats) (deeds ++ more) (told f result rest)

/-- What the stage of the diagrams does and how it ends. -/
inductive DiagramsDone (j : Job) : List Deed → Outcome → Prop
  | idle : Diagram.Format.enabled j.output = [] →
      DiagramsDone j [] (.skipped "diagrams" "no diagram format enabled")
  | late {full : List Deed} {out : Nat × List String} : Diagram.Format.enabled j.output ≠ [] →
      j.FormatsDone (Diagram.Format.enabled j.output) full out →
      j.diagramsPace.Late diagramsReady full.length →
      DiagramsDone j (full.take (j.diagramsPace.reach diagramsReady full.length))
        (.failure "diagrams" (Failure.timeout "diagrams" j.limits.diagrams).message)
  | drew {deeds : List Deed} {out : Nat × List String} : Diagram.Format.enabled j.output ≠ [] →
      j.FormatsDone (Diagram.Format.enabled j.output) deeds out →
      ¬ j.diagramsPace.Late diagramsReady deeds.length →
      DiagramsDone j deeds (.ofResult "diagrams" (concludeDiagrams out))

/-- With elements, every page is handed over. -/
theorem pages_of_runs (hsome : j.analysis.elements ≠ []) {deeds : List Deed} {outcome : Outcome}
    (h : j.elementScript.Runs j.reply deeds outcome) :
    ∃ results, results.length = j.pages.length ∧ deeds = List.zipWith .wrote j.pages results ∧
      outcome = .ofResult "element documentation"
        (ElementPages.conclude (Group.ofAnalysis j.analysis) results) := by
  unfold elementScript at h
  dsimp only at h
  rw [if_neg (List.isEmpty_iff.not.2 hsome)] at h
  cases h with
  | ask hruns =>
    dsimp only at hruns
    rw [ElementPages.fill_eq (.refl _), ElementPages.pairs_requests] at hruns
    obtain ⟨results, more, hlength, rfl, hrest⟩ := hruns.of_writeAll
    cases hrest
    exact ⟨results, hlength, List.append_nil _, rfl⟩

theorem pagesDone_of_limited (hsome : j.analysis.elements ≠ []) {deeds : List Deed}
    {outcome : Outcome} (h : j.elementScript.Limited j.reply "element documentation" j.pagesPace
      j.pagesReady deeds outcome) : j.PagesDone deeds outcome := by
  have hcount : ∀ {results : List (Except Failure String)}, results.length = j.pages.length →
      (List.zipWith Deed.wrote j.pages results).length = j.pages.length := by
    intro results hlength
    rw [List.length_zipWith, hlength, Nat.min_self]
  cases h with
  | whole hruns hlimit =>
    obtain ⟨results, hlength, rfl, rfl⟩ := pages_of_runs hsome hruns
    rw [hcount hlength] at hlimit
    exact .wrote hsome hlimit hlength
  | part hruns hlimit =>
    obtain ⟨results, hlength, rfl, -⟩ := pages_of_runs hsome hruns
    rw [hcount hlength] at hlimit ⊢
    exact .late hsome hlimit hlength

/-- Where unit tests are wanted, their page is handed over. -/
theorem testPage_of_runs (hsome : j.output.unitTests = true) {deeds : List Deed}
    {outcome : Outcome} (h : j.testScript.Runs j.reply deeds outcome) :
    ∃ result, deeds = [.wrote j.testPage result] ∧
      outcome = .ofResult "unit tests" (result.map fun _ =>
        "Unit tests generated for " ++ toString (UnitTests.targets j.analysis).length ++
          " elements") := by
  have hlength : ((UnitTests.targets j.analysis).zip ((UnitTests.requests j.config.backends
      j.analysis).map (·.run j.reply))).length = (UnitTests.targets j.analysis).length := by
    simp [UnitTests.requests]
  unfold testScript at h
  dsimp only at h
  rw [hsome, Bool.not_true, if_neg Bool.false_ne_true] at h
  cases h with
  | ask hruns =>
    dsimp only at hruns
    rw [UnitTests.sections_eq (.refl _), hlength] at hruns
    cases hruns with
    | write hrest =>
      cases hrest
      exact ⟨_, rfl, rfl⟩

theorem testsDone_of_limited (hsome : j.output.unitTests = true) {deeds : List Deed}
    {outcome : Outcome} (h : j.testScript.Limited j.reply "unit tests" j.testsPace
      j.testsReady deeds outcome) : j.TestsDone deeds outcome := by
  cases h with
  | whole hruns hlimit =>
    obtain ⟨result, rfl, rfl⟩ := testPage_of_runs hsome hruns
    exact .wrote hsome hlimit
  | part hruns hlimit =>
    obtain ⟨result, rfl, -⟩ := testPage_of_runs hsome hruns
    exact .late hsome hlimit

theorem formatDone_of_runs {f : Diagram.Format} {next : Except Failure (List String) → Script}
    {deeds : List Deed} {outcome : Outcome}
    (h : (j.formatScript f next).Runs j.reply deeds outcome) :
    ∃ first more result, deeds = first ++ more ∧ j.FormatDone f first result ∧
      (next result).Runs j.reply more outcome := by
  unfold formatScript at h
  split at h
  · next failure hv => exact ⟨[], deeds, _, rfl, .unusable hv, h⟩
  · next hv => exact ⟨[], deeds, _, rfl, .idle hv, h⟩
  · next views hne hv =>
    cases h with
    | @make _ _ result rest _ hrest =>
      cases result with
      | error failure => exact ⟨[_], rest, _, rfl, .refused hv hne, hrest⟩
      | ok _ =>
        obtain ⟨results, more, hlength, rfl, hruns⟩ := Script.Runs.of_writeAll hrest
        exact ⟨_, more, _, rfl, .drawn hv hne hlength, hruns⟩

theorem formatsDone_of_runs {formats : List Diagram.Format} {next : Nat × List String → Script}
    {deeds : List Deed} {outcome : Outcome}
    (h : (j.formatsScript formats next).Runs j.reply deeds outcome) :
    ∃ first more out, deeds = first ++ more ∧ j.FormatsDone formats first out ∧
      (next out).Runs j.reply more outcome := by
  induction formats generalizing next deeds with
  | nil => exact ⟨[], deeds, _, rfl, .nil, h⟩
  | cons f formats ih =>
    obtain ⟨first, others, result, rfl, hfirst, hothers⟩ := formatDone_of_runs h
    obtain ⟨second, more, rest, rfl, hsecond, hruns⟩ := ih hothers
    exact ⟨first ++ second, more, _, (List.append_assoc _ _ _).symm, .cons hfirst hsecond, hruns⟩

/-- With formats that are switched on, each gets its diagrams. -/
theorem formats_of_runs (hsome : Diagram.Format.enabled j.output ≠ []) {deeds : List Deed}
    {outcome : Outcome} (h : j.diagramScript.Runs j.reply deeds outcome) :
    ∃ out, j.FormatsDone (Diagram.Format.enabled j.output) deeds out ∧
      outcome = .ofResult "diagrams" (concludeDiagrams out) := by
  unfold diagramScript at h
  dsimp only at h
  rw [if_neg (List.isEmpty_iff.not.2 hsome)] at h
  obtain ⟨first, more, out, rfl, hdone, hrest⟩ := formatsDone_of_runs h
  cases hrest
  rw [List.append_nil]
  exact ⟨out, hdone, rfl⟩

theorem diagramsDone_of_limited (hsome : Diagram.Format.enabled j.output ≠ [])
    {deeds : List Deed} {outcome : Outcome} (h : j.diagramScript.Limited j.reply "diagrams"
      j.diagramsPace diagramsReady deeds outcome) : j.DiagramsDone deeds outcome := by
  cases h with
  | whole hruns hlimit =>
    obtain ⟨out, hdone, rfl⟩ := formats_of_runs hsome hruns
    exact .drew hsome hdone hlimit
  | part hruns hlimit =>
    obtain ⟨out, hdone, -⟩ := formats_of_runs hsome hruns
    exact .late hsome hdone hlimit

/-- Documents are no refused directories. -/
theorem not_refused_of_mem_zipWith {drafts : List Draft} {results : List (Except Failure String)}
    {deed : Deed} (h : deed ∈ List.zipWith Deed.wrote drafts results) : ¬ deed.Refused := by
  rw [← List.map_uncurry_zip_eq_zipWith] at h
  obtain ⟨pair, -, rfl⟩ := List.mem_map.1 h
  rintro ⟨directory, failure, heq⟩
  cases heq

/-- The classes that are drawn are those of the views. -/
theorem length_drawn {views : List Diagram.View} (h : Diagram.views j.analysis = .ok views) :
    (Diagram.drawn j.analysis).length = views.length := by
  rw [Diagram.drawn, h]
  exact List.length_map _

theorem FormatDone.length_of_none {f : Diagram.Format} {deeds : List Deed}
    {result : Except Failure (List String)} (h : j.FormatDone f deeds result)
    (hnone : (Diagram.drawn j.analysis).length = 0) : deeds.length = 0 := by
  cases h with
  | unusable => rfl
  | idle => rfl
  | refused hv hne | drawn hv hne =>
    exact absurd (List.length_eq_zero_iff.1 ((length_drawn hv).symm.trans hnone)) hne

/-- For each format there is its directory and a diagram of each class, unless the directory is
refused. -/
theorem FormatDone.length_of_some {f : Diagram.Format} {deeds : List Deed}
    {result : Except Failure (List String)} (h : j.FormatDone f deeds result)
    (hsome : (Diagram.drawn j.analysis).length ≠ 0) :
    deeds.length + deeds.countP (·.Refused) * (Diagram.drawn j.analysis).length =
      1 + (Diagram.drawn j.analysis).length := by
  cases h with
  | unusable hv =>
    rw [Diagram.drawn, hv] at hsome
    exact absurd rfl hsome
  | idle hv => exact absurd (length_drawn hv) hsome
  | @refused views failure =>
    have hrefused : (Deed.made (f.directory j.output) (.error failure)).Refused := ⟨_, _, rfl⟩
    simp [hrefused]
  | @drawn views results hv hne hlength =>
    have hdrawings : (j.drawings f views).length = views.length := List.length_map _
    have hmade : (Deed.made (f.directory j.output) (.ok ()) ::
        List.zipWith .wrote (j.drawings f views) results).countP (·.Refused) = 0 := by
      rw [List.countP_eq_zero, List.forall_mem_cons]
      refine ⟨by simp [Deed.Refused], fun deed hdeed => ?_⟩
      simpa using not_refused_of_mem_zipWith hdeed
    rw [hmade, length_drawn hv, List.length_cons, List.length_zipWith, hlength, hdrawings]
    omega

/-- **Everything there is to do for some formats.** -/
theorem FormatsDone.length_eq {formats : List Diagram.Format} {deeds : List Deed}
    {out : Nat × List String} (h : j.FormatsDone formats deeds out) :
    deeds.length = j.diagramThings formats deeds := by
  unfold diagramThings
  dsimp only
  split_ifs with hnone
  · induction h with
    | nil => rfl
    | cons hfirst _ ih => rw [List.length_append, hfirst.length_of_none hnone, ih]
  · refine Nat.eq_sub_of_add_eq ?_
    induction h with
    | nil => simp
    | cons hfirst _ ih =>
      have hlength := hfirst.length_of_some hnone
      rw [List.length_append, List.countP_append, List.length_cons, Nat.add_mul, Nat.add_mul,
        Nat.one_mul, ← ih, ← hlength]
      omega

/-- The less was refused, the more there is to do. -/
theorem diagramThings_mono (formats : List Diagram.Format) {deeds more : List Deed}
    (h : deeds.Sublist more) : j.diagramThings formats more ≤ j.diagramThings formats deeds := by
  unfold diagramThings
  dsimp only
  split_ifs
  · exact Nat.le_refl _
  · exact Nat.sub_le_sub_left (Nat.mul_le_mul_right _ h.countP_le) _

/-- Whether the diagrams are late is seen from what was done. -/
theorem FormatsDone.late_iff {full : List Deed} {out : Nat × List String}
    (h : j.FormatsDone (Diagram.Format.enabled j.output) full out) :
    j.diagramsPace.Late diagramsReady full.length ↔ j.DiagramsLate full := by
  rw [DiagramsLate, ← h.length_eq]

/-- Where no format is switched on nothing is late. -/
theorem not_diagramsLate_of_idle {deeds : List Deed} (h : Diagram.Format.enabled j.output = []) :
    ¬ j.DiagramsLate deeds := by
  have hnothing : j.diagramThings [] deeds = 0 := by
    unfold diagramThings
    dsimp only
    rw [List.length_nil, Nat.zero_mul, Nat.zero_sub, ite_self]
  rw [DiagramsLate, h, hnothing]
  exact Nat.not_lt_zero _

theorem DiagramsLate.of_sublist {deeds more : List Deed} (h : j.DiagramsLate more)
    (hsub : deeds.Sublist more) : j.DiagramsLate deeds :=
  h.mono (diagramThings_mono _ hsub)

/-! ## The run -/

/-- What each of the three stages beside the overview does, and how they end. -/
inductive StagesDone (j : Job) (pages tests diagrams : List Deed) : List Outcome → Prop
  | intro {o₁ o₂ o₃ : Outcome} : j.PagesDone pages o₁ → j.TestsDone tests o₂ →
      j.DiagramsDone diagrams o₃ → StagesDone j pages tests diagrams [o₁, o₂, o₃]

/-- What a run does, and its result. Where the output directory can be made, the
overview is the last document. -/
inductive Course (j : Job) : List Deed → Except Failure String → Prop
  | refused {failure : Failure} :
      Course j [.made j.output.directory (.error failure)] (.error failure)
  | ended {deeds pages tests diagrams : List Deed} {outcomes : List Outcome}
      {result : Except Failure String} : deeds.Perm (pages ++ tests ++ diagrams) →
      j.StagesDone pages tests diagrams outcomes →
      Course j (.made j.output.directory (.ok ()) :: (deeds ++
          [.wrote ⟨j.overviewPath, Overview.compose j.overview outcomes⟩ result]))
        (result.map fun _ => j.output.directory)

/-- The stages with their courses. -/
def parts (j : Job) (sink : Sink σ) : List (Stage.Part σ) :=
  [⟨j.elementStage sink, j.elementStage sink.recorded, j.PagesDone⟩,
    ⟨j.testStage sink, j.testStage sink.recorded, j.TestsDone⟩,
    ⟨j.diagramStage sink, j.diagramStage sink.recorded, j.DiagramsDone⟩]

theorem name_elementStage (j : Job) (sink : Sink σ) :
    (j.elementStage sink).name = "element documentation" := by
  unfold elementStage
  dsimp only
  split_ifs <;> rfl

theorem name_testStage (j : Job) (sink : Sink σ) : (j.testStage sink).name = "unit tests" := by
  unfold testStage
  dsimp only
  split_ifs <;> rfl

theorem name_diagramStage (j : Job) (sink : Sink σ) : (j.diagramStage sink).name = "diagrams" := by
  unfold diagramStage
  dsimp only
  split_ifs <;> rfl

theorem stage_ofResult (name : String) (result : Except Failure String) :
    (Outcome.ofResult name result).stage = name := by
  cases result with
  | ok content => rfl
  | error failure => rfl

theorem PagesDone.stage {deeds : List Deed} {outcome : Outcome} (h : j.PagesDone deeds outcome) :
    outcome.stage = "element documentation" := by
  cases h with
  | idle => rfl
  | late => rfl
  | wrote => exact stage_ofResult _ _

theorem TestsDone.stage {deeds : List Deed} {outcome : Outcome} (h : j.TestsDone deeds outcome) :
    outcome.stage = "unit tests" := by
  cases h with
  | idle => rfl
  | late => rfl
  | wrote => exact stage_ofResult _ _

theorem DiagramsDone.stage {deeds : List Deed} {outcome : Outcome}
    (h : j.DiagramsDone deeds outcome) : outcome.stage = "diagrams" := by
  cases h with
  | idle => rfl
  | late => rfl
  | drew => exact stage_ofResult _ _

/-- A stage that has nothing to do asks nothing. -/
theorem transcribed_skipped {fits : List Deed → Outcome → Prop} (sink : Sink σ)
    (name reason : String) (h : fits [] (.skipped name reason)) :
    sink.Transcribed (Stage.skipped name reason).act (Stage.skipped name reason).act fits := by
  refine (transcribed_pure sink _).imp fun deeds outcome hnone => ?_
  obtain ⟨rfl, rfl⟩ := hnone
  exact h

theorem does_elementScript (j : Job) (hsome : j.analysis.elements ≠ []) :
    Stage.Does "element documentation" j.reply j.elementScript fun _ tool =>
      ElementPages.write tool (Path.join j.output.directory elementsDirectory)
        (Group.ofAnalysis j.analysis) ((j.timeline (ElementPages.requests j.config.backends
          (Group.ofAnalysis j.analysis))).answers j.backends) :=
  fun _ tool x => play_elementScript hsome tool x

theorem does_testScript (j : Job) (hsome : j.output.unitTests = true) :
    Stage.Does "unit tests" j.reply j.testScript fun _ tool =>
      UnitTests.write tool j.output j.analysis
        ((j.timeline (UnitTests.requests j.config.backends j.analysis)).answers j.backends) :=
  fun _ tool x => play_testScript hsome tool x

theorem does_diagramScript (j : Job) (hsome : Diagram.Format.enabled j.output ≠ []) :
    Stage.Does "diagrams" j.reply j.diagramScript fun _ tool => j.writeDiagrams tool :=
  fun _ tool x => play_diagramScript hsome tool x

theorem elementStage_transcribed (j : Job) (sink : Sink σ) :
    sink.Transcribed (j.elementStage sink).act (j.elementStage sink.recorded).act
      j.PagesDone := by
  unfold elementStage
  dsimp only
  split_ifs with hnone
  · exact transcribed_skipped sink _ _ (.idle (List.isEmpty_iff.1 hnone))
  · have hsome : j.analysis.elements ≠ [] := List.isEmpty_iff.not.1 hnone
    exact (Stage.timed_transcribed (j.does_elementScript hsome) sink).imp fun _ _ =>
      pagesDone_of_limited hsome

theorem testStage_transcribed (j : Job) (sink : Sink σ) :
    sink.Transcribed (j.testStage sink).act (j.testStage sink.recorded).act j.TestsDone := by
  unfold testStage
  dsimp only
  split_ifs with hnone
  · exact transcribed_skipped sink _ _ (.idle (by simpa using hnone))
  · have hsome : j.output.unitTests = true := by simpa using hnone
    exact (Stage.timed_transcribed (j.does_testScript hsome) sink).imp fun _ _ =>
      testsDone_of_limited hsome

theorem diagramStage_transcribed (j : Job) (sink : Sink σ) :
    sink.Transcribed (j.diagramStage sink).act (j.diagramStage sink.recorded).act
      j.DiagramsDone := by
  unfold diagramStage
  dsimp only
  split_ifs with hnone
  · exact transcribed_skipped sink _ _ (.idle (List.isEmpty_iff.1 hnone))
  · have hsome : Diagram.Format.enabled j.output ≠ [] := List.isEmpty_iff.not.1 hnone
    exact (Stage.timed_transcribed (j.does_diagramScript hsome) sink).imp fun _ _ =>
      diagramsDone_of_limited hsome

/-- The stages read nothing of the sink before they act. -/
theorem parts_sound (j : Job) (sink : Sink σ) : ∀ p ∈ j.parts sink, p.Sound sink := by
  have helements : (j.elementStage sink.recorded).timeline = (j.elementStage sink).timeline := by
    unfold elementStage
    dsimp only
    split_ifs <;> rfl
  have htests : (j.testStage sink.recorded).timeline = (j.testStage sink).timeline := by
    unfold testStage
    dsimp only
    split_ifs <;> rfl
  have hdiagrams : (j.diagramStage sink.recorded).timeline = (j.diagramStage sink).timeline := by
    unfold diagramStage
    dsimp only
    split_ifs <;> rfl
  intro p hp
  simp only [parts, List.mem_cons, List.not_mem_nil, or_false] at hp
  rcases hp with rfl | rfl | rfl
  · exact ⟨(j.name_elementStage _).trans (j.name_elementStage _).symm, helements,
      j.elementStage_transcribed sink, fun h => h.stage.trans (j.name_elementStage _).symm⟩
  · exact ⟨(j.name_testStage _).trans (j.name_testStage _).symm, htests,
      j.testStage_transcribed sink, fun h => h.stage.trans (j.name_testStage _).symm⟩
  · exact ⟨(j.name_diagramStage _).trans (j.name_diagramStage _).symm, hdiagrams,
      j.diagramStage_transcribed sink, fun h => h.stage.trans (j.name_diagramStage _).symm⟩

/-- The stages of a run, each with a course of its own. -/
theorem stages_transcribed (j : Job) (sink : Sink σ) :
    sink.Transcribed (Stage.run (j.stages sink)) (Stage.run (j.stages sink.recorded))
      fun deeds outcomes => ∃ pages tests diagrams, deeds.Perm (pages ++ tests ++ diagrams) ∧
        j.StagesDone pages tests diagrams outcomes := by
  have hnames : ((j.parts sink).map (·.plain.name)).Nodup := by
    simp only [parts, List.map_cons, List.map_nil, name_elementStage, name_testStage,
      name_diagramStage]
    decide
  refine (Stage.run_transcribed (j.parts_sound sink) hnames).imp fun deeds outcomes hcourse => ?_
  obtain ⟨reports, hperm, rfl, hall⟩ := hcourse
  simp only [parts, List.forall₂_cons_left_iff, List.forall₂_nil_left_iff] at hall
  obtain ⟨pages, -, hpages, ⟨tests, -, htests, ⟨diagrams, -, hdiagrams, rfl, rfl⟩, rfl⟩, rfl⟩ :=
    hall
  exact ⟨pages.1, tests.1, diagrams.1, by simpa using hperm, .intro hpages htests hdiagrams⟩

/-- A directory is made first; where that fails, nothing else is done. -/
theorem transcribed_afterDirectory {α : Type} {plain : σ → α × σ}
    {program : List Deed × σ → α × (List Deed × σ)} {fits : List Deed → α → Prop}
    (directory : String) (refuse : Failure → α) (h : sink.Transcribed plain program fits) :
    sink.Transcribed (sink.afterDirectory directory refuse plain)
      (sink.recorded.afterDirectory directory refuse program) fun deeds a =>
        (∃ failure, deeds = [.made directory (.error failure)] ∧ a = refuse failure) ∨
        ∃ more, deeds = .made directory (.ok ()) :: more ∧ fits more a := by
  intro past s
  have hfirst : sink.recorded.ensureDirectory directory (past, s) =
      ((sink.ensureDirectory directory s).1,
        past ++ [.made directory (sink.ensureDirectory directory s).1],
        (sink.ensureDirectory directory s).2) := rfl
  unfold afterDirectory
  rw [hfirst]
  obtain ⟨result, t, hmade⟩ : ∃ result t, sink.ensureDirectory directory s = (result, t) :=
    ⟨_, _, rfl⟩
  rw [hmade]
  cases result with
  | error failure => exact ⟨[.made directory (.error failure)], rfl, .made hmade .nil,
      .inl ⟨failure, rfl, rfl⟩⟩
  | ok _ =>
    obtain ⟨more, hprogram, hdoes, hfits⟩ := h (past ++ [.made directory (.ok ())]) t
    refine ⟨.made directory (.ok ()) :: more, ?_, .made hmade hdoes, .inr ⟨more, rfl, hfits⟩⟩
    dsimp only
    rw [hprogram, List.append_assoc, List.singleton_append]

/-- **A run takes one of its courses**, on any sink, and a transcript makes no
difference to it. -/
theorem run_transcribed (j : Job) (sink : Sink σ) :
    sink.Transcribed (j.outcome sink) (j.outcome sink.recorded) j.Course := by
  have hall := (j.stages_transcribed sink).bind fun outcomes =>
    (transcribed_write sink ⟨j.overviewPath, Overview.compose j.overview outcomes⟩).map
      fun result => result.map fun _ => ()
  have hafter := transcribed_afterDirectory j.output.directory Except.error
    (hall.map fun result => result.map fun _ => j.output.directory)
  rw [outcome_eq, outcome_eq]
  refine hafter.imp fun deeds result hcourse => ?_
  rcases hcourse with ⟨failure, rfl, rfl⟩ | ⟨more, rfl, hmore⟩
  · exact .refused
  · obtain ⟨-, ⟨first, last, outcomes, rfl, hstages, answer, rfl, rfl⟩, rfl⟩ := hmore
    obtain ⟨pages, tests, diagrams, hperm, hdone⟩ := hstages
    have hresult : ((answer.map fun _ => ()).map fun _ => j.output.directory) =
        answer.map fun _ => j.output.directory := by
      cases answer with
      | error failure => rfl
      | ok path => rfl
    rw [hresult]
    exact .ended hperm hdone

/-- What a run asks of a sink, in full, and the answers. -/
def transcript (j : Job) (sink : Sink σ) (s : σ) : List Deed :=
  (j.run sink.recorded ([], s)).state.1

/-- What a run asks of a sink, and the answers, without the texts. -/
def log (j : Job) (sink : Sink σ) (s : σ) : List Act :=
  (j.transcript sink s).map Deed.act

/-- What a run asks is one of its courses, and with it the sink goes from the
state before the run to the one after it. -/
theorem course_transcript (j : Job) (sink : Sink σ) (s : σ) :
    (j.run sink.recorded ([], s)).result = (j.run sink s).result ∧
      (j.run sink.recorded ([], s)).state.2 = (j.run sink s).state ∧
      sink.Does s (j.transcript sink s) (j.run sink s).state ∧
      j.Course (j.transcript sink s) (j.run sink s).result := by
  obtain ⟨deeds, hrun, hdoes, hcourse⟩ := j.run_transcribed sink [] s
  have hresult : (j.run sink.recorded ([], s)).result = (j.run sink s).result :=
    congrArg (·.1) hrun
  have hstate : (j.run sink.recorded ([], s)).state.2 = (j.run sink s).state :=
    congrArg (·.2.2) hrun
  have hdeeds : j.transcript sink s = deeds := congrArg (·.2.1) hrun
  rw [hdeeds]
  exact ⟨hresult, hstate, hdoes, hcourse⟩

end Job

end Docsmith.Generation
