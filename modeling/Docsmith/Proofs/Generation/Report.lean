import Docsmith.Proofs.Generation.Course
/-!
# Generation — what a run reports

A run fails in two cases only: its output directory cannot be made, or its
overview cannot be written. Whatever else goes wrong is told of in the
overview, one line for each stage that failed, in the order of the stages. A
stage fails if it is late; that of the pages or of the unit tests also if one of its
documents cannot be written, and that of the diagrams if the analysis has no
usable views or a directory cannot be made; a stage that has nothing to do
does not fail. Which stages failed and why is read off the transcript of the
run (`Job.failures`), on any sink and with any backends (`Job.run_reports`).
-/


namespace Docsmith

open Sink

/-! ## The overview of an analysis ends a line -/

namespace Document.Overview

/-- The text ends with the end of a line. -/
def EndsLine (text : String) : Prop :=
  text.toList.getLast? = some '\n'

theorem EndsLine.append {text : String} (before : String) (h : EndsLine text) :
    EndsLine (before ++ text) := by
  unfold EndsLine at *
  rw [String.toList_append, List.getLast?_append, h]
  rfl

theorem endsLine_links (a : Analysis) : EndsLine (links a) := by
  unfold links
  split
  · rfl
  · have hlast : EndsLine "\n" := rfl
    exact (hlast.append _).append _

theorem endsLine_render (a : Analysis) (generatedOn : String) : EndsLine (render a generatedOn) :=
  (endsLine_links a).append _

end Document.Overview

namespace Generation

open Document Model

variable {σ : Type}

/-! ## Results and what was done -/

/-- What failed among documents that were handed over is what failed among the
answers. -/
theorem map_failure?_zipWith {drafts : List Draft} {results : List (Except Failure String)}
    (h : results.length = drafts.length) :
    (List.zipWith Deed.wrote drafts results).map Deed.failure? = results.map failed? := by
  induction drafts generalizing results with
  | nil =>
    obtain rfl := List.length_eq_zero_iff.1 h
    rfl
  | cons d drafts ih =>
    cases results with
    | nil => cases h
    | cons result results =>
      rw [List.zipWith_cons_cons, List.map_cons, List.map_cons, ih (Nat.succ.inj h)]
      rfl

/-- Documents are no directories. -/
theorem filterMap_made?_zipWith (drafts : List Draft) (results : List (Except Failure String)) :
    (List.zipWith Deed.wrote drafts results).filterMap Deed.made? = [] := by
  rw [List.filterMap_eq_nil_iff]
  intro deed hdeed
  rw [← List.map_uncurry_zip_eq_zipWith] at hdeed
  obtain ⟨pair, -, rfl⟩ := List.mem_map.1 hdeed
  rfl

/-! ## Failures in words -/

/-- One line for each stage that failed. -/
def failureLines (failures : List (String × Failure)) : String :=
  String.join (failures.map fun (stage, failure) =>
    "- **" ++ stage ++ "**: " ++ failure.message ++ "\n")

/-- The overview of a run in which these stages failed, and the overview itself
before them. -/
def errorReadme (reason : String) (failures : List (String × Failure)) : String :=
  "# Error Generating Documentation\n\n" ++
    "There was an error generating the main documentation: " ++ reason ++ "\n" ++
    if failures = [] then "" else "\n" ++ failureLines failures

theorem failureLines_eq (failures : List (String × Failure)) :
    String.join ((failures.map fun x => Outcome.failure x.1 x.2.message).map Overview.bullet) =
      failureLines failures := by
  rw [List.map_map]
  rfl

theorem compose_failure {outcomes : List Outcome} {failures : List (String × Failure)}
    (h : outcomes.filter (!·.succeeded) = failures.map fun x => .failure x.1 x.2.message)
    (stage reason : String) :
    Overview.compose (.failure stage reason) outcomes = errorReadme reason failures := by
  have hreason : Overview.diagnostic (.failure stage reason) = reason := rfl
  have hfailed : (Outcome.failure stage reason).succeeded = false := rfl
  unfold Overview.compose errorReadme
  simp only [h, hfailed, hreason, failureLines_eq, Bool.false_eq_true, if_false, List.isEmpty_iff,
    List.map_eq_nil_iff]
  split_ifs with hnone
  · subst hnone
    exact String.append_empty
  · simp only [String.append_assoc]

/-- A stage ended well, or it failed for a reason that its outcome tells. -/
inductive Ended (stage : String) : Option Failure → Outcome → Prop
  | well {o : Outcome} : o.succeeded = true → Ended stage none o
  | ill {failure : Failure} : Ended stage (some failure) (.failure stage failure.message)

theorem Ended.failed {stage : String} {failure? : Option Failure} {outcome : Outcome}
    (h : Ended stage failure? outcome) :
    [outcome].filter (!·.succeeded) =
      (failure?.toList.map (stage, ·)).map fun x => .failure x.1 x.2.message := by
  cases h with
  | well hsucceeded => simp [hsucceeded]
  | ill => rfl

namespace Job

variable {j : Job} {deeds pages tests diagrams : List Deed} {outcome : Outcome}

/-! ## Which stages failed -/

/-- The pages that could not be written, in words. -/
def pageFaults (j : Job) (deeds : List Deed) : List String :=
  ((Group.ofAnalysis j.analysis).zip (deeds.map Deed.failure?)).filterMap fun (g, failure?) =>
    failure?.map fun f => g.fileName ++ ": " ++ f.message

/-- Why the stage of the pages failed, if it did. -/
def pagesFailure? (j : Job) (deeds : List Deed) : Option Failure :=
  if j.analysis.elements = [] then none
  else if j.PagesLate then some (.timeout "element documentation" j.limits.elements)
  else if j.pageFaults deeds = [] then none
  else some (.output (toString (j.pageFaults deeds).length ++ " of " ++
    toString (Group.ofAnalysis j.analysis).length ++ " element documents failed (" ++
    "; ".intercalate (j.pageFaults deeds) ++ ")"))

/-- Why the stage of the unit tests failed, if it did. -/
def testsFailure? (j : Job) (deeds : List Deed) : Option Failure :=
  if j.output.unitTests = false then none
  else if j.TestsLate then some (.timeout "unit tests" j.limits.tests)
  else deeds.findSome? Deed.failure?

/-- The formats whose diagrams failed, in words: all of them if the analysis has no
usable views, and else those whose directory could not be made. -/
def diagramFaults (j : Job) (formats : List Diagram.Format) (deeds : List Deed) : List String :=
  match Diagram.views j.analysis with
  | .error failure => formats.map fun f => f.name ++ ": " ++ failure.message
  | .ok [] => []
  | .ok (_ :: _) => (formats.zip (deeds.filterMap Deed.made?)).filterMap fun (f, result) =>
      (failed? result).map fun failure => f.name ++ ": " ++ failure.message

/-- Why the stage of the diagrams failed, if it did. -/
def diagramsFailure? (j : Job) (deeds : List Deed) : Option Failure :=
  let faults := j.diagramFaults (Diagram.Format.enabled j.output) deeds
  if j.DiagramsLate deeds then some (.timeout "diagrams" j.limits.diagrams)
  else if faults = [] then none
  else some (.diagram ("; ".intercalate faults))

/-- The stages that failed, in their order, and why. -/
def failures (j : Job) (pages tests diagrams : List Deed) : List (String × Failure) :=
  (j.pagesFailure? pages).toList.map ("element documentation", ·) ++
    (j.testsFailure? tests).toList.map ("unit tests", ·) ++
    (j.diagramsFailure? diagrams).toList.map ("diagrams", ·)

/-- The overview of a run in which these stages failed. -/
def readme (j : Job) (failures : List (String × Failure)) : String :=
  Overview.render j.analysis j.generatedOn ++
    if failures = [] then ""
    else "\n## Error Generating Documentation\n\n" ++ failureLines failures

/-! ## Stages and their failures -/

theorem PagesDone.ended (h : j.PagesDone deeds outcome) :
    Ended "element documentation" (j.pagesFailure? deeds) outcome := by
  unfold pagesFailure?
  cases h with
  | idle hnone =>
    rw [if_pos hnone]
    exact .well rfl
  | late hsome hlate =>
    rw [if_neg hsome, if_pos hlate]
    exact .ill
  | @wrote results hsome hlate hlength =>
    rw [if_neg hsome, if_neg hlate]
    have hfaults : j.pageFaults (List.zipWith .wrote j.pages results) =
        ((Group.ofAnalysis j.analysis).zip results).filterMap fun p =>
          (failed? p.2).map fun f => p.1.fileName ++ ": " ++ f.message := by
      rw [pageFaults, map_failure?_zipWith hlength, List.zip_map_right, List.filterMap_map]
      rfl
    unfold ElementPages.conclude
    dsimp only
    generalize hfailures : List.filterMap _ _ = failures
    obtain rfl : j.pageFaults _ = failures := hfaults.trans hfailures
    simp only [List.isEmpty_iff]
    split_ifs
    · exact .well rfl
    · exact .ill

theorem TestsDone.ended (h : j.TestsDone deeds outcome) :
    Ended "unit tests" (j.testsFailure? deeds) outcome := by
  unfold testsFailure?
  cases h with
  | idle hnone =>
    rw [if_pos hnone]
    exact .well rfl
  | late hsome hlate =>
    rw [hsome, if_neg (Bool.true_eq_false ▸ not_false), if_pos hlate]
    exact .ill
  | @wrote result hsome hlate =>
    rw [hsome, if_neg (Bool.true_eq_false ▸ not_false), if_neg hlate]
    cases result with
    | ok path => exact .well rfl
    | error failure => exact .ill

/-- What is told of some formats is what failed for them. -/
theorem FormatsDone.faults {formats : List Diagram.Format} {out : Nat × List String}
    (h : j.FormatsDone formats deeds out) : out.2 = j.diagramFaults formats deeds := by
  unfold diagramFaults
  induction h with
  | nil =>
    cases Diagram.views j.analysis with
    | error failure => rfl
    | ok views => cases views <;> rfl
  | @cons f formats deeds more result rest hfirst _ ih =>
    cases hfirst with
    | unusable hv =>
      rw [hv] at ih ⊢
      exact congrArg (_ :: ·) ih
    | idle hv =>
      rw [hv] at ih ⊢
      exact ih
    | @refused views failure hv hne =>
      obtain ⟨v, views, rfl⟩ := List.exists_cons_of_ne_nil hne
      rw [hv] at ih ⊢
      exact congrArg (_ :: ·) ih
    | @drawn views results hv hne hlength =>
      obtain ⟨v, views, rfl⟩ := List.exists_cons_of_ne_nil hne
      rw [hv] at ih ⊢
      dsimp only at ih ⊢
      rw [List.cons_append, List.filterMap_cons_some (b := .ok ()) (by rfl), List.filterMap_append,
        filterMap_made?_zipWith]
      exact ih

theorem DiagramsDone.ended (h : j.DiagramsDone deeds outcome) :
    Ended "diagrams" (j.diagramsFailure? deeds) outcome := by
  unfold diagramsFailure?
  cases h with
  | idle hnone =>
    have hdone : j.FormatsDone (Diagram.Format.enabled j.output) [] (0, []) :=
      hnone ▸ FormatsDone.nil
    have hfaults : j.diagramFaults (Diagram.Format.enabled j.output) [] = [] := hdone.faults.symm
    dsimp only
    rw [if_neg (not_diagramsLate_of_idle hnone), if_pos hfaults]
    exact .well rfl
  | @late full out hsome hformats hlate =>
    dsimp only
    rw [if_pos ((hformats.late_iff.1 hlate).of_sublist (List.take_sublist _ _))]
    exact .ill
  | @drew _ out hsome hformats hlate =>
    dsimp only
    rw [if_neg (hformats.late_iff.not.1 hlate), ← hformats.faults]
    unfold concludeDiagrams
    simp only [List.isEmpty_iff]
    split_ifs
    · exact .well rfl
    · exact .ill

/-! ## When a stage fails -/

/-- The stage of the pages fails if it is late or a page cannot be written. -/
theorem PagesDone.failure_iff (h : j.PagesDone deeds outcome) :
    (∃ failure, j.pagesFailure? deeds = some failure) ↔
      j.analysis.elements ≠ [] ∧ (j.PagesLate ∨ ∃ deed ∈ deeds, deed.Failed) := by
  unfold pagesFailure?
  cases h with
  | idle hnone => simp [hnone]
  | late hsome hlate => simp [hsome, hlate]
  | @wrote results hsome hlate hlength =>
    have hpages : j.pages.length = (Group.ofAnalysis j.analysis).length :=
      ElementPages.length_drafts _ _ _
    -- no answer stands without a group
    have hzip : ((Group.ofAnalysis j.analysis).zip
        ((List.zipWith Deed.wrote j.pages results).map Deed.failure?)).map (·.2) =
        (List.zipWith Deed.wrote j.pages results).map Deed.failure? := by
      refine List.map_snd_zip ?_
      rw [List.length_map, List.length_zipWith]
      omega
    have hnil : j.pageFaults (List.zipWith .wrote j.pages results) = [] ↔
        ∀ deed ∈ List.zipWith Deed.wrote j.pages results, deed.failure? = none := by
      rw [← List.forall_mem_map (P := (· = none)), ← hzip, List.forall_mem_map, pageFaults,
        List.filterMap_eq_nil_iff]
      simp only [Option.map_eq_none_iff]
    have hany : (∃ deed ∈ List.zipWith Deed.wrote j.pages results, deed.Failed) ↔
        ¬ j.pageFaults (List.zipWith .wrote j.pages results) = [] := by
      rw [hnil]
      simp only [Deed.Failed, ← Option.ne_none_iff_exists', not_forall, exists_prop]
    rw [hany, if_neg hsome, if_neg hlate]
    split_ifs with hfaults <;> simp [hsome, hlate, hfaults]

/-- The stage of the unit tests fails if it is late or its page cannot be written. -/
theorem testsFailure?_iff (j : Job) (deeds : List Deed) :
    (∃ failure, j.testsFailure? deeds = some failure) ↔
      j.output.unitTests = true ∧ (j.TestsLate ∨ ∃ deed ∈ deeds, deed.Failed) := by
  unfold testsFailure? Deed.Failed
  split_ifs with hnone hlate
  · simp [hnone]
  · simp [hnone, hlate]
  · simp only [← Option.isSome_iff_exists, List.findSome?_isSome_iff]
    simp [hnone, hlate]

theorem FormatsDone.faults_ne_nil_iff {formats : List Diagram.Format} {out : Nat × List String}
    (h : j.FormatsDone formats deeds out) : out.2 ≠ [] ↔
      (formats ≠ [] ∧ ∃ failure, Diagram.views j.analysis = .error failure) ∨
        ∃ deed ∈ deeds, deed.Refused := by
  induction h with
  | nil => simp
  | @cons f formats deeds more result rest hfirst _ ih =>
    cases hfirst with
    | unusable hv => simp [told, hv]
    | idle hv =>
      simp only [hv, reduceCtorEq, exists_false, and_false, false_or] at ih
      simp [told, hv, ih]
    | @refused views failure hv hne =>
      have hrefused : (Deed.made (f.directory j.output) (.error failure)).Refused := ⟨_, _, rfl⟩
      simp [told, hrefused]
    | @drawn views results hv hne hlength =>
      have hmade : ¬ (Deed.made (f.directory j.output) (.ok ())).Refused := by
        rintro ⟨directory, failure, heq⟩
        cases heq
      have hwrote : ¬ ∃ deed ∈ List.zipWith Deed.wrote (j.drawings f views) results,
          deed.Refused := by
        rintro ⟨deed, hdeed, hrefused⟩
        exact not_refused_of_mem_zipWith hdeed hrefused
      simp only [hv, reduceCtorEq, exists_false, and_false, false_or] at ih
      simp only [told, hv, reduceCtorEq, exists_false, and_false, false_or, ih, List.cons_append,
        List.exists_mem_cons_iff, hmade, List.mem_append, or_and_right, exists_or, hwrote]

/-- The stage of the diagrams fails if the analysis has no usable views, a directory cannot be
made, or it is late. -/
theorem DiagramsDone.failure_iff (h : j.DiagramsDone deeds outcome) :
    (∃ failure, j.diagramsFailure? deeds = some failure) ↔
      (Diagram.Format.enabled j.output ≠ [] ∧
        ∃ failure, Diagram.views j.analysis = .error failure) ∨
      (∃ deed ∈ deeds, deed.Refused) ∨ j.DiagramsLate deeds := by
  by_cases hlate : j.DiagramsLate deeds
  · simp [diagramsFailure?, hlate]
  obtain ⟨out, hformats⟩ : ∃ out, j.FormatsDone (Diagram.Format.enabled j.output) deeds out := by
    cases h with
    | idle hnone =>
      rw [hnone]
      exact ⟨_, .nil⟩
    | late _ hformats hfull =>
      exact absurd ((hformats.late_iff.1 hfull).of_sublist (List.take_sublist _ _)) hlate
    | drew _ hformats => exact ⟨_, hformats⟩
  rw [or_iff_left hlate, ← hformats.faults_ne_nil_iff, hformats.faults]
  unfold diagramsFailure?
  dsimp only
  rw [if_neg hlate]
  split_ifs with hnil <;> simp [hnil]

/-! ## What the overview tells -/

theorem overview_eq (j : Job) :
    j.overview = .success "main documentation" (Overview.render j.analysis j.generatedOn) := by
  unfold overview within
  dsimp only
  rw [if_pos (Nat.zero_le _)]
  rfl

/-- Of the outcomes, those that are no success tell of the failures. -/
theorem StagesDone.failed {outcomes : List Outcome}
    (h : j.StagesDone pages tests diagrams outcomes) : outcomes.filter (!·.succeeded) =
      (j.failures pages tests diagrams).map fun x => .failure x.1 x.2.message := by
  obtain ⟨hpages, htests, hdiagrams⟩ := h
  rename_i o₁ o₂ o₃
  have hsplit : [o₁, o₂, o₃] = [o₁] ++ [o₂] ++ [o₃] := rfl
  rw [hsplit, List.filter_append, List.filter_append, hpages.ended.failed, htests.ended.failed,
    hdiagrams.ended.failed, failures, List.map_append, List.map_append]

theorem compose_success {outcomes : List Outcome} {failures : List (String × Failure)}
    (h : outcomes.filter (!·.succeeded) = failures.map fun x => .failure x.1 x.2.message) :
    Overview.compose j.overview outcomes = j.readme failures := by
  have hends : (Overview.render j.analysis j.generatedOn).toList.getLast? = some '\n' :=
    Overview.endsLine_render j.analysis j.generatedOn
  unfold Overview.compose readme
  simp only [overview_eq, h, failureLines_eq, Outcome.success, if_true, List.isEmpty_iff,
    List.map_eq_nil_iff]
  split_ifs with hnone hline
  · subst hnone
    rfl
  · simp only [String.append_empty, String.append_assoc]
  · exact absurd (beq_iff_eq.2 hends) hline

/-- The stages that failed are told of once each, in their order, and no other stage
is. -/
structure Accounts (j : Job) (pages tests diagrams : List Deed)
    (failures : List (String × Failure)) : Prop where
  /-- The failures are those of the stages' outcomes, and they are told of in the same
  way after the overview and after an error text in its place. -/
  outcomes : ∃ outcomes, j.StagesDone pages tests diagrams outcomes ∧
    outcomes.filter (!·.succeeded) = failures.map (fun x => .failure x.1 x.2.message) ∧
    Overview.compose j.overview outcomes = j.readme failures ∧
    ∀ stage reason, Overview.compose (.failure stage reason) outcomes = errorReadme reason failures
  order : (failures.map (·.1)).Sublist ["element documentation", "unit tests", "diagrams"]
  pages : "element documentation" ∈ failures.map (·.1) ↔
    j.analysis.elements ≠ [] ∧ (j.PagesLate ∨ ∃ deed ∈ pages, deed.Failed)
  tests : "unit tests" ∈ failures.map (·.1) ↔
    j.output.unitTests = true ∧ (j.TestsLate ∨ ∃ deed ∈ tests, deed.Failed)
  diagrams : "diagrams" ∈ failures.map (·.1) ↔
    (Diagram.Format.enabled j.output ≠ [] ∧ ∃ failure, Diagram.views j.analysis = .error failure) ∨
      (∃ deed ∈ diagrams, deed.Refused) ∨ j.DiagramsLate diagrams

theorem map_fst_failures (j : Job) (pages tests diagrams : List Deed) :
    (j.failures pages tests diagrams).map (·.1) =
      (j.pagesFailure? pages).toList.map (fun _ => "element documentation") ++
        (j.testsFailure? tests).toList.map (fun _ => "unit tests") ++
        (j.diagramsFailure? diagrams).toList.map fun _ => "diagrams" := by
  rw [failures, List.map_append, List.map_append, List.map_map, List.map_map, List.map_map]
  rfl

theorem StagesDone.accounts {outcomes : List Outcome}
    (h : j.StagesDone pages tests diagrams outcomes) :
    j.Accounts pages tests diagrams (j.failures pages tests diagrams) := by
  have hfailed := h.failed
  have hdone := h
  obtain ⟨hpages, htests, hdiagrams⟩ := h
  have hone : ∀ (failure? : Option Failure) (name : String),
      (failure?.toList.map fun _ => name).Sublist [name] := by
    intro failure? name
    cases failure? with
    | none => exact List.nil_sublist _
    | some failure => exact List.Sublist.refl _
  refine ⟨⟨_, hdone, hfailed, compose_success hfailed, compose_failure hfailed⟩, ?_, ?_, ?_, ?_⟩
  · rw [map_fst_failures]
    exact ((hone _ _).append (hone _ _)).append (hone _ _)
  · rw [map_fst_failures, ← hpages.failure_iff]
    simp [Option.ne_none_iff_exists']
  · rw [map_fst_failures, ← j.testsFailure?_iff]
    simp [Option.ne_none_iff_exists']
  · rw [map_fst_failures, ← hdiagrams.failure_iff]
    simp [Option.ne_none_iff_exists']

/-- What a run reports: nothing but its failure where the output directory cannot be
made, and else an overview that tells of the stages that failed. -/
inductive Reported (j : Job) : List Deed → Except Failure String → Prop
  | refused {failure : Failure} :
      Reported j [.made j.output.directory (.error failure)] (.error failure)
  | told {deeds pages tests diagrams : List Deed} {result : Except Failure String} :
      deeds.Perm (pages ++ tests ++ diagrams) →
      j.Accounts pages tests diagrams (j.failures pages tests diagrams) →
      Reported j (.made j.output.directory (.ok ()) :: (deeds ++
          [.wrote ⟨j.overviewPath, j.readme (j.failures pages tests diagrams)⟩ result]))
        (result.map fun _ => j.output.directory)

/-- **A run fails only with its output directory or its overview**, and the overview
tells of each stage that failed, on any sink and with any backends. The overview itself
never fails. -/
theorem run_reports (j : Job) (sink : Sink σ) (s : σ) :
    (j.run sink.recorded ([], s)).result = (j.run sink s).result ∧
      (j.run sink.recorded ([], s)).state.2 = (j.run sink s).state ∧
      j.overview = .success "main documentation" (Overview.render j.analysis j.generatedOn) ∧
      j.Reported (j.transcript sink s) (j.run sink s).result := by
  obtain ⟨hresult, hstate, -, hcourse⟩ := j.course_transcript sink s
  refine ⟨hresult, hstate, j.overview_eq, ?_⟩
  generalize j.transcript sink s = deeds at hcourse
  generalize (j.run sink s).result = result at hcourse
  cases hcourse with
  | refused => exact .refused
  | ended hperm hdone =>
    have haccounts := hdone.accounts
    rw [compose_success hdone.failed]
    exact .told hperm haccounts

end Job

end Generation

end Docsmith
