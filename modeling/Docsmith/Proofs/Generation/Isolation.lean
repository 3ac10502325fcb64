import Docsmith.Proofs.Generation.Confinement
import Docsmith.Proofs.Generation.Report
import Docsmith.Proofs.Model.Payload
import Docsmith.Proofs.Sink.Separate
/-!
# Generation — stages keep to themselves

Which documents a stage hands over depends on the replies to its own calls
alone (`Job.Hands`): on what they say, and on how long they take, which may
make the stage too late for some of its documents. So on a sink that keeps
documents apart, replies to the calls of one stage make a difference to the
documents of that stage, to what the overview tells of failures, and to nothing
else (`Job.run_agrees`).
-/


namespace Docsmith

open Sink

/-! ## Replies that are alike -/

namespace Model

variable {purposes : List Purpose} {backends other : Backends}

/-- Backends that do the same with each call, but for calls for some purposes. -/
def AlikeBut (purposes : List Purpose) (backends other : Backends) : Prop :=
  ∀ call, (∀ p ∈ purposes, ∀ e b, call ≠ Call.ofPrompt (p.prompt e) b) → backends call = other call

theorem AlikeBut.symm (h : AlikeBut purposes backends other) : AlikeBut purposes other backends :=
  fun call hcall => (h call hcall).symm

/-- The calls of a request for another purpose get the same replies. -/
theorem AlikeBut.calls (h : AlikeBut purposes backends other) {r : Request}
    (hr : r.purpose ∉ purposes) : ∀ c ∈ r.calls, backends c = other c := by
  intro c hc
  obtain ⟨b, -, rfl⟩ := List.mem_map.1 hc
  refine h _ fun p hp e b' => ?_
  have hne : r.purpose ≠ p := fun heq => hr (heq ▸ hp)
  exact Purpose.call_ne hne r.element e b b'

/-- What is answered to a request depends on the replies to its calls. -/
theorem Request.run_congr {r : Request} {reply reply' : Call → Except Failure String}
    (h : ∀ c ∈ r.calls, reply c = reply' c) : r.run reply = r.run reply' := by
  rw [Request.run, Request.run, List.map_congr_left h]

/-- And so do the moments at which requests begin and end. -/
theorem Timeline.ofRequests_congr {requests : List Request} (slots : Nat)
    (h : ∀ r ∈ requests, ∀ c ∈ r.calls, backends c = other c) :
    ofRequests backends slots requests = ofRequests other slots requests := by
  have hduration : ∀ r ∈ requests, r.duration backends = r.duration other := by
    intro r hr
    have hdelays : r.calls.map (fun c => (backends c).delay.nanos) =
        r.calls.map fun c => (other c).delay.nanos :=
      List.map_congr_left fun c hc => by rw [h r hr c hc]
    rw [Request.duration, Request.duration, hdelays]
  unfold ofRequests
  rw [List.map_congr_left hduration]

end Model

namespace Generation

open Document Model

variable {σ κ ε : Type} {sink : Sink σ}

namespace Job

variable {j : Job} {purposes : List Purpose} {backends : Backends}

/-! ## The documents of a stage -/

/-- The job with other backends. -/
def answeredBy (j : Job) (backends : Backends) : Job :=
  { j with backends }

/-- Requests for other purposes are answered the same. -/
theorem run_answeredBy (h : AlikeBut purposes j.backends backends) {r : Request}
    (hr : r.purpose ∉ purposes) : r.run (j.answeredBy backends).reply = r.run j.reply := by
  refine Request.run_congr fun c hc => ?_
  rw [reply, reply, h.calls hr c hc]
  rfl

theorem timeline_answeredBy (h : AlikeBut purposes j.backends backends) {requests : List Request}
    (hr : ∀ r ∈ requests, r.purpose ∉ purposes) :
    (j.answeredBy backends).timeline requests = j.timeline requests :=
  (Timeline.ofRequests_congr _ fun r hmem => h.calls (hr r hmem)).symm

/-- Pages are about documentation and usage examples. -/
theorem purpose_of_mem_requests {r : Request}
    (h : r ∈ ElementPages.requests j.config.backends (Group.ofAnalysis j.analysis)) :
    r.purpose = .documentation ∨ r.purpose = .usageExamples := by
  obtain ⟨e, -, hpair⟩ := List.mem_flatMap.1 h
  simp only [List.mem_cons, List.not_mem_nil, or_false] at hpair
  exact hpair.imp (congrArg Request.purpose) (congrArg Request.purpose)

/-- The pages depend on replies about documentation and usage examples alone. -/
theorem pages_answeredBy (h : AlikeBut purposes j.backends backends)
    (hdocumentation : .documentation ∉ purposes) (hexamples : .usageExamples ∉ purposes) :
    (j.answeredBy backends).pages = j.pages ∧
      (j.answeredBy backends).pagesReady = j.pagesReady := by
  have htexts : ∀ e, ElementPages.textsOf j.config.backends (j.answeredBy backends).reply e =
      ElementPages.textsOf j.config.backends j.reply e := by
    intro e
    rw [ElementPages.textsOf, ElementPages.textsOf, run_answeredBy h hdocumentation,
      run_answeredBy h hexamples]
  have hpurpose : ∀ r ∈ ElementPages.requests j.config.backends (Group.ofAnalysis j.analysis),
      r.purpose ∉ purposes := by
    intro r hr
    rcases purpose_of_mem_requests hr with hpurpose | hpurpose
    · rwa [hpurpose]
    · rwa [hpurpose]
  have htimeline := timeline_answeredBy h hpurpose
  refine ⟨?_, ?_⟩
  · unfold pages
    exact congrArg _ (List.map_congr_left fun e _ => htexts e)
  · unfold pagesReady
    exact congrArg (fun t : Timeline => (⟨t.finish, 0⟩ : Clock)) htimeline

/-- The page of unit tests depends on replies about unit tests alone. -/
theorem testPage_answeredBy (h : AlikeBut purposes j.backends backends)
    (htests : .unitTests ∉ purposes) : (j.answeredBy backends).testPage = j.testPage ∧
      (j.answeredBy backends).testsReady = j.testsReady := by
  have hpurpose : ∀ r ∈ UnitTests.requests j.config.backends j.analysis, r.purpose ∉ purposes := by
    intro r hr
    obtain ⟨e, -, rfl⟩ := List.mem_map.1 hr
    exact htests
  have hanswers : (UnitTests.requests j.config.backends j.analysis).map
      (·.run (j.answeredBy backends).reply) =
        (UnitTests.requests j.config.backends j.analysis).map (·.run j.reply) :=
    List.map_congr_left fun r hr => run_answeredBy h (hpurpose r hr)
  have htimeline := timeline_answeredBy h hpurpose
  refine ⟨?_, ?_⟩
  · unfold testPage
    dsimp only
    rw [← hanswers]
    rfl
  · unfold testsReady
    exact congrArg (fun t : Timeline => (⟨t.finish, 0⟩ : Clock)) htimeline

/-- The pages for which there is time. -/
def timelyPages (j : Job) : List Draft :=
  j.pages.take (j.pagesPace.reach j.pagesReady j.pages.length)

/-- The page of unit tests, if there is time for it. -/
def timelyTests (j : Job) : List Draft :=
  [j.testPage].take (j.testsPace.reach j.testsReady 1)

open scoped Classical in
/-- What is asked for the diagrams of a format, if these directories can be made. -/
noncomputable def formatOrders (j : Job) (makable : String → Prop) (f : Diagram.Format) :
    List (Draft ⊕ String) :=
  match Diagram.views j.analysis with
  | .error _ | .ok [] => []
  | .ok views => .inr (f.directory j.output) ::
      if makable (f.directory j.output) then (j.drawings f views).map .inl else []

/-- What is asked for the diagrams of a run while there is time. -/
noncomputable def timelyOrders (j : Job) (makable : String → Prop) : List (Draft ⊕ String) :=
  let all := (Diagram.Format.enabled j.output).flatMap (j.formatOrders makable)
  all.take (j.diagramsPace.reach diagramsReady all.length)

/-- The document is one that a run hands over beside its overview, if these directories
can be made. -/
inductive Hands (j : Job) (makable : String → Prop) (d : Draft) : Prop
  | page : j.analysis.elements ≠ [] → d ∈ j.timelyPages → Hands j makable d
  | tests : j.output.unitTests = true → d ∈ j.timelyTests → Hands j makable d
  | drawing : .inl d ∈ j.timelyOrders makable → Hands j makable d

/-- The paths of documents that replies about some purposes make a difference to. -/
def exposed (j : Job) (purposes : List Purpose) : List String :=
  (if .documentation ∈ purposes ∨ .usageExamples ∈ purposes then j.pagePaths else []) ++
    if .unitTests ∈ purposes then j.testPaths else []

theorem path_mem_pagePaths {d : Draft} (h : d ∈ j.pages) : d.path ∈ j.pagePaths := by
  have hpath : d.path ∈ j.pages.map (·.path) := List.mem_map_of_mem h
  rwa [pages, ElementPages.paths_drafts] at hpath

/-- **Other documents are handed over all the same.** -/
theorem Hands.answeredBy {makable : String → Prop} {d : Draft} (h : j.Hands makable d)
    (halike : AlikeBut purposes j.backends backends) (hexposed : d.path ∉ j.exposed purposes) :
    (j.answeredBy backends).Hands makable d := by
  unfold exposed at hexposed
  rw [List.mem_append, not_or] at hexposed
  cases h with
  | page hsome hd =>
    have hpurposes : ¬ (.documentation ∈ purposes ∨ .usageExamples ∈ purposes) := by
      intro hp
      rw [if_pos hp] at hexposed
      exact hexposed.1 (path_mem_pagePaths (List.mem_of_mem_take hd))
    rw [not_or] at hpurposes
    obtain ⟨hpages, hready⟩ := pages_answeredBy halike hpurposes.1 hpurposes.2
    refine .page hsome ?_
    unfold timelyPages
    rw [hpages, hready]
    exact hd
  | tests hsome hd =>
    have hpurposes : .unitTests ∉ purposes := by
      intro hp
      rw [if_pos hp, testPaths, if_pos hsome, List.mem_singleton.1 (List.mem_of_mem_take hd)]
        at hexposed
      exact hexposed.2 (List.mem_singleton_self _)
    obtain ⟨hpage, hready⟩ := testPage_answeredBy halike hpurposes
    refine .tests hsome ?_
    unfold timelyTests
    rw [hpage, hready]
    exact hd
  | drawing hd => exact .drawing hd

variable {deeds : List Deed} {outcome : Outcome} {d : Draft}

/-- Of the pages those are handed over for which there is time. -/
theorem PagesDone.handed_eq (h : j.PagesDone deeds outcome) :
    handed deeds = if j.analysis.elements = [] then [] else j.timelyPages := by
  cases h with
  | idle hnone => rw [if_pos hnone]; rfl
  | late hsome hlate hlength =>
    rw [if_neg hsome, List.take_zipWith, handed_zipWith (by rw [List.length_take, hlength,
      List.length_take])]
    rfl
  | wrote hsome hlate hlength =>
    rw [if_neg hsome, handed_zipWith hlength, timelyPages, Pace.reach_of_not_late hlate,
      List.take_length]

theorem PagesDone.mem_handed (h : j.PagesDone deeds outcome) :
    d ∈ handed deeds ↔ j.analysis.elements ≠ [] ∧ d ∈ j.timelyPages := by
  rw [h.handed_eq]
  split_ifs with hnone <;> simp [hnone]

theorem PagesDone.paths_handed (h : j.PagesDone deeds outcome) :
    ((handed deeds).map (·.path)).Sublist j.pagePaths := by
  rw [h.handed_eq]
  split_ifs
  · exact List.nil_sublist _
  · have hsub := (List.take_sublist (j.pagesPace.reach j.pagesReady j.pages.length)
      j.pages).map (·.path)
    have hpaths : j.pages.map (·.path) = j.pagePaths := ElementPages.paths_drafts _ _ _
    rwa [hpaths] at hsub

/-- Pages ask for no directory. -/
theorem PagesDone.made_not_mem (h : j.PagesDone deeds outcome) {directory : String}
    {answer : Except Failure Unit} : .made directory answer ∉ deeds := by
  have hpages : ∀ {results : List (Except Failure String)},
      .made directory answer ∉ List.zipWith Deed.wrote j.pages results := by
    intro results hmem
    obtain ⟨_, _, _, heq⟩ := mem_zipWith_wrote hmem
    cases heq
  cases h with
  | idle => exact List.not_mem_nil
  | late => exact fun hmem => hpages (List.mem_of_mem_take hmem)
  | wrote => exact hpages

theorem TestsDone.made_not_mem (h : j.TestsDone deeds outcome) {directory : String}
    {answer : Except Failure Unit} : .made directory answer ∉ deeds := by
  cases h with
  | idle => exact List.not_mem_nil
  | late => exact fun hmem => nomatch List.mem_singleton.1 (List.mem_of_mem_take hmem)
  | wrote => exact fun hmem => nomatch List.mem_singleton.1 hmem

/-- And so is the page of unit tests. -/
theorem TestsDone.handed_eq (h : j.TestsDone deeds outcome) :
    handed deeds = if j.output.unitTests then j.timelyTests else [] := by
  cases h with
  | idle hnone => rw [hnone]; rfl
  | @late result hsome =>
    rw [if_pos hsome, timelyTests]
    cases j.testsPace.reach j.testsReady 1 with
    | zero => rfl
    | succ k => simp [handed, Deed.draft?]
  | wrote hsome hlate =>
    rw [if_pos hsome, timelyTests, Pace.reach_of_not_late hlate]
    rfl

theorem TestsDone.mem_handed (h : j.TestsDone deeds outcome) :
    d ∈ handed deeds ↔ j.output.unitTests = true ∧ d ∈ j.timelyTests := by
  rw [h.handed_eq]
  split_ifs with hsome <;> simp [hsome]

theorem TestsDone.paths_handed (h : j.TestsDone deeds outcome) :
    ((handed deeds).map (·.path)).Sublist j.testPaths := by
  rw [h.handed_eq, testPaths]
  split_ifs
  · exact (List.take_sublist (j.testsPace.reach j.testsReady 1) [j.testPage]).map (·.path)
  · exact List.nil_sublist _

/-- A format's directory is the first thing that is asked for, and the answer settles the rest. -/
theorem FormatDone.order_eq {f : Diagram.Format} {result : Except Failure (List String)}
    (h : j.FormatDone f deeds result) {makable : String → Prop} {k : Nat}
    (hmade : ∀ directory answer, .made directory answer ∈ deeds.take (k + 1) →
      (answer = .ok () ↔ makable directory)) : deeds.map Deed.order = j.formatOrders makable f := by
  unfold formatOrders
  cases h with
  | unusable hv => rw [hv]; rfl
  | idle hv => rw [hv]; rfl
  | @refused views failure hv hne =>
    obtain ⟨v, views, rfl⟩ := List.exists_cons_of_ne_nil hne
    have hno : ¬ makable (f.directory j.output) :=
      (hmade _ (.error failure) List.mem_cons_self).not.1 nofun
    simp [hv, hno, Deed.order]
  | @drawn views results hv hne hlength =>
    obtain ⟨v, views, rfl⟩ := List.exists_cons_of_ne_nil hne
    have hyes : makable (f.directory j.output) := (hmade _ (.ok ()) List.mem_cons_self).1 rfl
    simp [hv, hyes, Deed.order, map_order_zipWith hlength]

/-- **As far as directories are answered for by their paths**, what is done for the diagrams is
what there is to ask. -/
theorem FormatsDone.order_take {formats : List Diagram.Format} {out : Nat × List String}
    (h : j.FormatsDone formats deeds out) {makable : String → Prop} (k : Nat)
    (hmade : ∀ directory answer, .made directory answer ∈ deeds.take k →
      (answer = .ok () ↔ makable directory)) :
    (deeds.map Deed.order).take k = (formats.flatMap (j.formatOrders makable)).take k := by
  induction h generalizing k with
  | nil => rfl
  | @cons f formats first more result rest hfirst _ ih =>
    cases k with
    | zero => rfl
    | succ k =>
      rw [List.take_append] at hmade
      have hformat := hfirst.order_eq fun directory answer hdeed =>
        hmade directory answer (List.mem_append_left _ hdeed)
      have hrest := ih (k + 1 - first.length) fun directory answer hdeed =>
        hmade directory answer (List.mem_append_right _ hdeed)
      rw [List.map_append, List.flatMap_cons, List.take_append, List.take_append, ← hformat,
        List.length_map, hrest]

theorem FormatDone.paths_handed {f : Diagram.Format} {result : Except Failure (List String)}
    (h : j.FormatDone f deeds result) : ((handed deeds).map (·.path)).Sublist
      (f.paths (f.naming j.output) (f.directory j.output) j.analysis) := by
  cases h with
  | unusable => exact List.nil_sublist _
  | idle => exact List.nil_sublist _
  | refused => exact List.nil_sublist _
  | @drawn views results hv hne hlength =>
    have hhanded : handed (.made (f.directory j.output) (.ok ()) ::
        List.zipWith .wrote (j.drawings f views) results) = j.drawings f views :=
      handed_zipWith hlength
    have hdrawn : Diagram.drawn j.analysis = views.map (·.type) := by
      rw [Diagram.drawn, hv]
    rw [hhanded, drawings, Diagram.Format.paths_drafts, Diagram.Format.paths, hdrawn]

/-- The directories of the formats that are switched on. -/
def formatDirectories (j : Job) : List String :=
  (Diagram.Format.enabled j.output).map fun f => f.directory j.output

theorem FormatDone.directory {f : Diagram.Format} {result : Except Failure (List String)}
    (h : j.FormatDone f deeds result) {directory : String} {answer : Except Failure Unit}
    (hdeed : .made directory answer ∈ deeds) : directory = f.directory j.output := by
  cases h with
  | unusable => cases hdeed
  | idle => cases hdeed
  | refused =>
    cases List.mem_singleton.1 hdeed
    rfl
  | drawn =>
    rcases List.mem_cons.1 hdeed with heq | hdeed
    · cases heq
      rfl
    · obtain ⟨_, _, _, heq⟩ := mem_zipWith_wrote hdeed
      cases heq

section

variable {formats : List Diagram.Format} {out : Nat × List String}

theorem FormatsDone.paths_handed (h : j.FormatsDone formats deeds out) :
    ((handed deeds).map (·.path)).Sublist
      (formats.flatMap fun f => f.paths (f.naming j.output) (f.directory j.output) j.analysis) := by
  induction h with
  | nil => exact List.nil_sublist _
  | cons hfirst _ ih =>
    rw [handed_append, List.map_append, List.flatMap_cons]
    exact hfirst.paths_handed.append ih

theorem FormatsDone.directory (h : j.FormatsDone formats deeds out) {directory : String}
    {answer : Except Failure Unit} (hdeed : .made directory answer ∈ deeds) :
    ∃ f ∈ formats, directory = f.directory j.output := by
  induction h with
  | nil => cases hdeed
  | cons hfirst _ ih =>
    rcases List.mem_append.1 hdeed with hdeed | hdeed
    · exact ⟨_, List.mem_cons_self, hfirst.directory hdeed⟩
    · obtain ⟨f, hf, heq⟩ := ih hdeed
      exact ⟨f, List.mem_cons_of_mem _ hf, heq⟩

end

/-- The diagrams of no formats are none, and those that are in time are all there are, so that
neither is an exception. -/
theorem DiagramsDone.formats (h : j.DiagramsDone deeds outcome) :
    ∃ full out, j.FormatsDone (Diagram.Format.enabled j.output) full out ∧
      deeds = full.take (j.diagramsPace.reach diagramsReady full.length) := by
  cases h with
  | idle hnone =>
    rw [hnone]
    exact ⟨[], _, .nil, rfl⟩
  | late _ hformats => exact ⟨_, _, hformats, rfl⟩
  | drew _ hformats hlate =>
    refine ⟨_, _, hformats, ?_⟩
    rw [Pace.reach_of_not_late hlate, List.take_length]

/-- **What is asked for the diagrams** is what there is time for. -/
theorem DiagramsDone.order_eq (h : j.DiagramsDone deeds outcome) {makable : String → Prop}
    (hmade : ∀ directory answer, .made directory answer ∈ deeds →
      (answer = .ok () ↔ makable directory)) : deeds.map Deed.order = j.timelyOrders makable := by
  obtain ⟨full, out, hformats, rfl⟩ := h.formats
  have htake := hformats.order_take _ hmade
  unfold timelyOrders
  dsimp only
  rw [← List.length_map Deed.order] at htake
  rw [List.map_take, ← List.length_map Deed.order]
  refine Pace.take_reach_eq htake fun hwhole => ?_
  -- with everything done there is nothing more to ask either
  rw [List.length_map] at hwhole
  rw [hwhole, List.take_length] at hmade
  have hall := hformats.order_take ((full.map Deed.order).length +
    ((Diagram.Format.enabled j.output).flatMap (j.formatOrders makable)).length)
    fun directory answer hdeed => hmade directory answer (List.mem_of_mem_take hdeed)
  rwa [List.take_of_length_le (Nat.le_add_right _ _),
    List.take_of_length_le (Nat.le_add_left _ _)] at hall

theorem DiagramsDone.mem_handed (h : j.DiagramsDone deeds outcome) {makable : String → Prop}
    (hmade : ∀ directory answer, .made directory answer ∈ deeds →
      (answer = .ok () ↔ makable directory)) :
    d ∈ handed deeds ↔ .inl d ∈ j.timelyOrders makable := by
  rw [mem_handed_iff_order, h.order_eq hmade]

theorem DiagramsDone.paths_handed (h : j.DiagramsDone deeds outcome) :
    ((handed deeds).map (·.path)).Sublist j.diagramPaths := by
  obtain ⟨full, out, hformats, rfl⟩ := h.formats
  have hsub : (handed (full.take (j.diagramsPace.reach diagramsReady full.length))).Sublist
      (handed full) := (List.take_sublist _ _).filterMap _
  exact (hsub.map _).trans hformats.paths_handed

section

variable {pages tests diagrams : List Deed} {outcomes : List Outcome}

/-- **What the stages hand over.** -/
theorem StagesDone.mem_handed (h : j.StagesDone pages tests diagrams outcomes)
    {makable : String → Prop}
    (hmade : ∀ directory answer, .made directory answer ∈ pages ++ tests ++ diagrams →
      (answer = .ok () ↔ makable directory)) :
    d ∈ handed (pages ++ tests ++ diagrams) ↔ j.Hands makable d := by
  obtain ⟨hpages, htests, hdiagrams⟩ := h
  rw [handed_append, handed_append, List.mem_append, List.mem_append, hpages.mem_handed,
    htests.mem_handed,
    hdiagrams.mem_handed fun directory answer hdeed => hmade _ _ (List.mem_append_right _ hdeed)]
  constructor
  · rintro ((⟨hsome, hd⟩ | ⟨hsome, hd⟩) | hd)
    · exact .page hsome hd
    · exact .tests hsome hd
    · exact .drawing hd
  · intro hhands
    cases hhands with
    | page hsome hd => exact .inl (.inl ⟨hsome, hd⟩)
    | tests hsome hd => exact .inl (.inr ⟨hsome, hd⟩)
    | drawing hd => exact .inr hd

theorem StagesDone.paths_handed (h : j.StagesDone pages tests diagrams outcomes) :
    ((handed (pages ++ tests ++ diagrams)).map (·.path)).Sublist
      (j.pagePaths ++ j.testPaths ++ j.diagramPaths) := by
  obtain ⟨hpages, htests, hdiagrams⟩ := h
  rw [handed_append, handed_append, List.map_append, List.map_append]
  exact (hpages.paths_handed.append htests.paths_handed).append hdiagrams.paths_handed

theorem StagesDone.directory (h : j.StagesDone pages tests diagrams outcomes) {directory : String}
    {answer : Except Failure Unit} (hdeed : .made directory answer ∈ pages ++ tests ++ diagrams) :
    directory ∈ j.formatDirectories := by
  obtain ⟨hpages, htests, hdiagrams⟩ := h
  obtain ⟨full, out, hformats, rfl⟩ := hdiagrams.formats
  rcases List.mem_append.1 hdeed with hdeed | hdeed
  · rcases List.mem_append.1 hdeed with hdeed | hdeed
    · exact absurd hdeed hpages.made_not_mem
    · exact absurd hdeed htests.made_not_mem
  · obtain ⟨f, hf, rfl⟩ := hformats.directory (List.mem_of_mem_take hdeed)
    exact List.mem_map_of_mem hf

end

/-- What a run asks of its sink once the output directory stands: documents at the run's
paths, each of them once, and the formats' directories. The overview comes last, and with
it the run ends. -/
structure Goes (j : Job) (deeds : List Deed) (result : Except Failure String) : Prop where
  within : ∀ deed ∈ deeds, deed.Within j.paths j.formatDirectories
  paths : ((handed deeds).map (·.path)).Subperm j.paths
  drafts : ∃ tail, ∀ makable : String → Prop, (∀ directory answer, .made directory answer ∈ deeds →
    (answer = .ok () ↔ makable directory)) → ∀ d, d ∈ handed deeds ↔ j.Hands makable d ∨
      d = ⟨j.overviewPath, Overview.render j.analysis j.generatedOn ++ tail⟩
  overview : ∃ d answer, .wrote d answer ∈ deeds ∧ d.path = j.overviewPath ∧
    ((∃ directory, result = .ok directory) ↔ ∃ written, answer = .ok written)

/-- **What a run asks for**: its output directory, and where that stands the rest. -/
theorem Course.goes {result : Except Failure String} (h : j.Course deeds result) :
    (∃ failure, deeds = [.made j.output.directory (.error failure)] ∧ result = .error failure) ∨
      ∃ rest, deeds = .made j.output.directory (.ok ()) :: rest ∧ j.Goes rest result := by
  cases h with
  | refused => exact .inl ⟨_, rfl, rfl⟩
  | @ended deeds pages tests diagrams outcomes answer hperm hdone =>
    refine .inr ⟨_, rfl, ?_⟩
    obtain ⟨tail, htail⟩ : ∃ tail, j.readme (j.failures pages tests diagrams) =
        Overview.render j.analysis j.generatedOn ++ tail := ⟨_, rfl⟩
    rw [compose_success hdone.failed, htail]
    have hhanded : handed (deeds ++ [.wrote ⟨j.overviewPath,
        Overview.render j.analysis j.generatedOn ++ tail⟩ answer]) =
          handed deeds ++ [⟨j.overviewPath, Overview.render j.analysis j.generatedOn ++ tail⟩] :=
      handed_append _ _
    have hstages : (handed deeds).Perm (handed (pages ++ tests ++ diagrams)) := hperm.filterMap _
    refine ⟨fun deed hdeed => ?_, ?_, ⟨tail, fun makable hmade d => ?_⟩,
      ⟨_, answer, List.mem_append_right _ (List.mem_singleton_self _), rfl, ?_⟩⟩
    · rcases List.mem_append.1 hdeed with hdeed | hdeed
      · cases deed with
        | wrote d result =>
          have hd := hstages.mem_iff.1 (mem_handed.2 ⟨result, hdeed⟩)
          have hpath := hdone.paths_handed.subset (List.mem_map_of_mem (f := Draft.path) hd)
          exact List.mem_append_left _ hpath
        | made directory result => exact hdone.directory (hperm.mem_iff.1 hdeed)
      · rw [List.mem_singleton.1 hdeed]
        exact List.mem_append_right _ (List.mem_singleton_self _)
    · rw [hhanded, List.map_append]
      have hsub := hdone.paths_handed.append (List.Sublist.refl [j.overviewPath])
      exact ⟨_, ((hstages.map (·.path)).append_right [j.overviewPath]).symm, hsub⟩
    · rw [hhanded, List.mem_append, List.mem_singleton, hstages.mem_iff,
        hdone.mem_handed fun directory answer hdeed =>
          hmade directory answer (List.mem_append_left _ (hperm.mem_iff.2 hdeed))]
    · cases answer with
      | error failure => simp [Except.map]
      | ok path => simp [Except.map]

variable {l : Layout σ κ ε} {known : σ → Prop} {s t u : σ}

/-- How a run goes on from the state in which its output directory stands: it hands over
these documents and the overview, each place is that of one document, and the run ends well
if the overview can be written. -/
structure Settles (j : Job) (l : Layout σ κ ε) (t : σ) (result : Except Failure String) (u : σ) :
    Prop where
  handed : ∃ deeds tail, l.Follows t deeds u ∧
    ((Sink.handed deeds).map fun d => l.place d.path).Nodup ∧
    ∀ d, d ∈ Sink.handed deeds ↔ j.Hands l.makable d ∨
      d = ⟨j.overviewPath, Overview.render j.analysis j.generatedOn ++ tail⟩
  result : (∃ directory, result = .ok directory) ↔ l.writable j.overviewPath

/-- An overview that can be written starts with the overview proper. -/
theorem Settles.overview {result : Except Failure String} (h : j.Settles l t result u)
    (hwritable : l.writable j.overviewPath) : ∃ tail, l.entry u (l.place j.overviewPath) =
      some (l.stored (Overview.render j.analysis j.generatedOn ++ tail)) := by
  obtain ⟨deeds, tail, hfollows, hplaces, hdrafts⟩ := h.handed
  exact ⟨tail, hfollows.stored hplaces _ ((hdrafts _).2 (.inr rfl)) hwritable⟩

/-- A run on a sink that keeps its documents apart is refused its output directory, or it goes
on as the layout has it. -/
theorem run_follows (hsep : sink.Separates l known j.paths j.formatDirectories)
    (hstart : ∀ {result t}, sink.ensureDirectory j.output.directory s = (result, t) → known t)
    (hnodup : (j.paths.map l.place).Nodup) :
    (∃ failure, j.transcript sink s = [.made j.output.directory (.error failure)] ∧
        sink.ensureDirectory j.output.directory s = (.error failure, (j.run sink s).state) ∧
        (j.run sink s).result = .error failure) ∨
      ∃ t rest, j.transcript sink s = .made j.output.directory (.ok ()) :: rest ∧
        sink.ensureDirectory j.output.directory s = (.ok (), t) ∧
        j.Goes rest (j.run sink s).result ∧ l.Follows t rest (j.run sink s).state ∧
        ((handed rest).map fun d => l.place d.path).Nodup := by
  obtain ⟨-, -, hdoes, hcourse⟩ := j.course_transcript sink s
  generalize j.transcript sink s = deeds at hdoes hcourse
  generalize (j.run sink s).result = result at hcourse
  generalize (j.run sink s).state = u at hdoes
  rcases hcourse.goes with ⟨failure, rfl, rfl⟩ | ⟨rest, rfl, hgoes⟩
  · cases hdoes with
    | made hm hrest =>
      cases hrest
      exact .inl ⟨failure, rfl, hm, rfl⟩
  · cases hdoes with
    | @made _ t _ _ _ _ hm hrest =>
      obtain ⟨paths, hperm, hsub⟩ := hgoes.paths
      have hplaces := ((hperm.map l.place).nodup_iff).1 (hnodup.sublist (hsub.map l.place))
      rw [List.map_map] at hplaces
      exact .inr ⟨t, rest, rfl, hm, hgoes, hsep.does hrest (hstart hm) hgoes.within, hplaces⟩

/-- Two runs leave the same, but for documents at some paths and for what the overviews
tell of failures. -/
structure Agrees (j : Job) (l : Layout σ κ ε) (excepted : List String) (s : σ) (r r' : Run σ) :
    Prop where
  documents : ∀ place ∉ excepted.map l.place, place ≠ l.place j.overviewPath →
    l.entry r.state place = l.entry r'.state place
  overview : (∃ tail tail', l.entry r.state (l.place j.overviewPath) =
        some (l.stored (Overview.render j.analysis j.generatedOn ++ tail)) ∧
      l.entry r'.state (l.place j.overviewPath) =
        some (l.stored (Overview.render j.analysis j.generatedOn ++ tail'))) ∨
    l.entry r.state (l.place j.overviewPath) = l.entry s (l.place j.overviewPath) ∧
      l.entry r'.state (l.place j.overviewPath) = l.entry s (l.place j.overviewPath)
  result : (∃ directory, r.result = .ok directory) ↔ ∃ directory, r'.result = .ok directory

end Job

end Generation

end Docsmith
