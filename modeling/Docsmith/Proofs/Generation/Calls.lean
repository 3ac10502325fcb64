import Docsmith.Proofs.Generation.Course
import Docsmith.Proofs.Model.Payload
import Docsmith.Sink.Memory
/-!
# Generation — the calls of a run

A run asks every backend for documentation and for usage examples of each
element of each group, and for unit tests of each class and method where
these are wanted. If no stage is late these are all of its calls, each made
once (`Job.calls_accounted`); a run that cannot make its output directory
makes none. Where unit tests are not wanted none are asked for, be the run
late or failing, and their stage asks nothing of the sink.
-/


namespace Docsmith

/-! ## Calls within a limit -/

namespace Model.Timeline

variable {backends : Backends} {l : Timeline} {limit : Span}

/-- A request ends no earlier than it begins. -/
theorem start_le_stop {slots : Nat} {requests : List Request} {entry : Request × Nat × Nat}
    (h : entry ∈ (ofRequests backends slots requests).entries) : entry.2.1 ≤ entry.2.2 := by
  unfold ofRequests at h
  obtain ⟨⟨r, t, d⟩, -, rfl⟩ := List.mem_map.1 h
  exact Nat.le_add_right t d

/-- No request ends later than the last one. -/
theorem stop_le_finish {entry : Request × Nat × Nat} (h : entry ∈ l.entries) :
    entry.2.2 ≤ l.finish := by
  have hmax : ∀ (stops : List Nat) (start : Nat), start ≤ stops.foldl max start ∧
      ∀ stop ∈ stops, stop ≤ stops.foldl max start := by
    intro stops
    induction stops with
    | nil => exact fun start => ⟨Nat.le_refl _, nofun⟩
    | cons first stops ih =>
      intro start
      obtain ⟨hstart, hrest⟩ := ih (max start first)
      rw [List.foldl_cons]
      refine ⟨by omega, fun stop hstop => ?_⟩
      rcases List.mem_cons.1 hstop with rfl | hstop
      · omega
      · exact hrest stop hstop
  exact (hmax _ 0).2 _ (List.mem_map_of_mem (f := fun entry : Request × Nat × Nat => entry.2.2) h)

/-- Whatever the limit, calls are calls of the requests. -/
theorem exists_request_of_mem_flights {slots : Nat} {requests : List Request} {flight : Flight}
    (h : flight ∈ (ofRequests backends slots requests).flights backends limit) :
    ∃ r ∈ requests, flight.call ∈ r.calls := by
  unfold flights at h
  obtain ⟨⟨r, start, stop⟩, hentry, hflight⟩ := List.mem_flatMap.1 h
  obtain ⟨c, hc, rfl⟩ := List.mem_map.1 hflight
  have hr := List.mem_map_of_mem (f := fun entry : Request × Nat × Nat => entry.1)
    (List.mem_filter.1 hentry).1
  rw [entries_ofRequests] at hr
  exact ⟨r, hr, hc⟩

/-- **Within the limit every request makes all of its calls.** -/
theorem calls_of_finish_le {slots : Nat} {requests : List Request}
    (h : (ofRequests backends slots requests).finish ≤ limit.nanos) :
    ((ofRequests backends slots requests).flights backends limit).map (·.call) =
      requests.flatMap (·.calls) := by
  have hall : (ofRequests backends slots requests).entries.filter
      (fun entry => entry.2.1 ≤ limit.nanos) = (ofRequests backends slots requests).entries := by
    refine List.filter_eq_self.2 fun entry hentry => decide_eq_true ?_
    exact Nat.le_trans (start_le_stop hentry) (Nat.le_trans (stop_le_finish hentry) h)
  have hrequests := entries_ofRequests backends slots requests
  have hflights : ((ofRequests backends slots requests).flights backends limit).map (·.call) =
      (ofRequests backends slots requests).entries.flatMap (·.1.calls) := by
    unfold flights
    rw [hall, List.map_flatMap]
    refine List.flatMap_congr fun entry _ => ?_
    rw [List.map_map]
    exact List.map_id _
  rw [hflights]
  nth_rewrite 2 [← hrequests]
  rw [List.flatMap_map]

end Model.Timeline

namespace Generation

open Document Model Sink

variable {σ : Type} {sink : Sink σ}

namespace Job

variable {j : Job}

/-- The calls for some purposes about some elements, one for each backend. -/
def callsFor (j : Job) (purposes : List Purpose) (elements : List Element) : List Call :=
  elements.flatMap fun e => purposes.flatMap fun p =>
    j.config.backends.map (Call.ofPrompt (p.prompt e))

/-- All calls of a run in which no stage is late. -/
def calls (j : Job) : List Call :=
  j.callsFor [.documentation, .usageExamples]
      (ElementPages.elements (Group.ofAnalysis j.analysis)) ++
    if j.output.unitTests then
      j.callsFor [.unitTests] (j.analysis.elements.filter (·.kind != .field))
    else []

theorem calls_elementStage
    (htime : (j.elementStage sink).timeline.finish ≤ (j.elementStage sink).limit.nanos) :
    ((j.elementStage sink).flights j.backends).map (·.call) =
      j.callsFor [.documentation, .usageExamples]
        (ElementPages.elements (Group.ofAnalysis j.analysis)) := by
  unfold elementStage Stage.flights at *
  dsimp only at htime ⊢
  split_ifs at htime ⊢ with hnone
  · have helements : j.analysis.elements = [] := List.isEmpty_iff.1 hnone
    simp [Stage.skipped, Timeline.flights, callsFor, ElementPages.elements, Group.ofAnalysis,
      Group.standalone, Analysis.classes, Analysis.ofKind, helements]
  · refine (Timeline.calls_of_finish_le htime).trans ?_
    unfold ElementPages.requests callsFor
    rw [List.flatMap_assoc]
    rfl

theorem calls_testStage
    (htime : (j.testStage sink).timeline.finish ≤ (j.testStage sink).limit.nanos) :
    ((j.testStage sink).flights j.backends).map (·.call) =
      if j.output.unitTests then
        j.callsFor [.unitTests] (j.analysis.elements.filter (·.kind != .field))
      else [] := by
  unfold testStage Stage.flights at *
  dsimp only at htime ⊢
  cases htests : j.output.unitTests with
  | false => rfl
  | true =>
    rw [htests] at htime
    refine (Timeline.calls_of_finish_le htime).trans ?_
    unfold UnitTests.requests callsFor UnitTests.targets
    rw [List.flatMap_map, if_pos rfl]
    simp only [List.flatMap_cons, List.flatMap_nil, List.append_nil]
    rfl

/-- Diagrams ask no model. -/
theorem flights_diagramStage (j : Job) (sink : Sink σ) :
    (j.diagramStage sink).flights j.backends = [] := by
  unfold diagramStage Stage.flights
  dsimp only
  split_ifs <;> rfl

/-- Where no unit tests are wanted, their stage makes no call. -/
theorem flights_testStage_of_not (h : j.output.unitTests = false) (sink : Sink σ) :
    (j.testStage sink).flights j.backends = [] := by
  unfold testStage
  rw [h]
  rfl

/-- The stage of the pages asks for nothing but documentation and usage examples. -/
theorem purpose_of_mem_flights {flight : Timeline.Flight}
    (h : flight ∈ (j.elementStage sink).flights j.backends) :
    ∃ p ≠ Purpose.unitTests, ∃ e b, flight.call = Call.ofPrompt (p.prompt e) b := by
  unfold elementStage Stage.flights at h
  dsimp only at h
  split_ifs at h with hnone
  · cases h
  · obtain ⟨r, hr, hcall⟩ := Timeline.exists_request_of_mem_flights h
    obtain ⟨b, -, hb⟩ := List.mem_map.1 hcall
    obtain ⟨e, -, hpair⟩ := List.mem_flatMap.1 hr
    simp only [List.mem_cons, List.not_mem_nil, or_false] at hpair
    rcases hpair with rfl | rfl
    · exact ⟨.documentation, nofun, e, b, hb.symm⟩
    · exact ⟨.usageExamples, nofun, e, b, hb.symm⟩

/-- The calls of a run are those of its stages, if it gets as far. -/
theorem flights_run (j : Job) (sink : Sink σ) (s : σ) : (j.run sink s).flights =
    match (sink.ensureDirectory j.output.directory s).1 with
    | .ok _ => (j.elementStage sink).flights j.backends ++ (j.testStage sink).flights j.backends
    | .error _ => [] := by
  unfold run
  obtain ⟨result, t⟩ := sink.ensureDirectory j.output.directory s
  cases result with
  | error failure => rfl
  | ok _ =>
    have hflights : j.flights sink = (j.elementStage sink).flights j.backends ++
        ((j.testStage sink).flights j.backends ++
          ((j.diagramStage sink).flights j.backends ++ [])) := rfl
    rw [flights_diagramStage, List.append_nil, List.append_nil] at hflights
    exact hflights

/-- **All calls of a run are accounted for.** If no stage is late and the output
directory can be made, each of them is made once. Without unit tests in the
configuration no call asks for any, and their stage asks nothing of the sink. -/
theorem calls_accounted (j : Job) (sink : Sink σ) (s : σ) :
    (j.InTime sink → ((j.run sink s).flights.map (·.call)).Perm
      (match (sink.ensureDirectory j.output.directory s).1 with
        | .ok _ => j.calls
        | .error _ => [])) ∧
    (j.output.unitTests = false →
      (∀ flight ∈ (j.run sink s).flights, ∀ e b,
        flight.call ≠ Call.ofPrompt (Purpose.unitTests.prompt e) b) ∧
      ∀ past t, ((j.testStage sink.recorded).act (past, t)).2 = (past, t)) := by
  rw [flights_run]
  refine ⟨fun htime => ?_, fun hnone => ⟨fun flight hflight e b => ?_, fun past t => ?_⟩⟩
  · cases (sink.ensureDirectory j.output.directory s).1 with
    | error failure => exact .refl _
    | ok _ =>
      have helements := calls_elementStage (htime (j.elementStage sink) (by simp [stages]))
      have htests := calls_testStage (htime (j.testStage sink) (by simp [stages]))
      dsimp only
      rw [List.map_append, helements, htests]
      exact .refl _
  · cases hmade : (sink.ensureDirectory j.output.directory s).1 with
    | error failure =>
      rw [hmade] at hflight
      cases hflight
    | ok _ =>
      rw [hmade] at hflight
      dsimp only at hflight
      rw [flights_testStage_of_not hnone, List.append_nil] at hflight
      obtain ⟨p, hp, e', b', hcall⟩ := purpose_of_mem_flights hflight
      rw [hcall]
      exact Purpose.call_ne hp e' e b' b
  · unfold testStage
    rw [hnone]
    rfl

end Job

/-- A class. -/
def cart : Element :=
  ⟨.type, "Cart", "shop.Cart", "/work/shop/Cart.java", 1, "public class Cart", "", [], []⟩

/-- A project of one class, with one backend. -/
def solitary (unitTests : Bool) : Job where
  config := { backends := [{ name := "llama3" }], output := { unitTests } }
  analysis := ⟨"/work/shop", [cart]⟩
  limits := .ofBase ⟨1⟩
  backends _ := ⟨⟨0⟩, .ok ""⟩
  generatedOn := ""

theorem solitary_inTime : ∀ unitTests, ∀ directories ∈ [[], ["docs"]],
    (solitary unitTests).InTime (Sink.memory [] directories) := by
  unfold Job.InTime
  decide +kernel

/-- Three calls with unit tests, and without them none that asks for any. -/
theorem calls_accounted_solitary :
    (((solitary true).run (Sink.memory [] []) {}).flights.map (·.call)).Perm
        ([Purpose.documentation, .usageExamples, .unitTests].map fun p =>
          Call.ofPrompt (p.prompt cart) { name := "llama3" }) ∧
      (solitary false).output.unitTests = false ∧
      ∀ flight ∈ ((solitary false).run (Sink.memory [] []) {}).flights, ∀ e b,
        flight.call ≠ Call.ofPrompt (Purpose.unitTests.prompt e) b :=
  ⟨((solitary true).calls_accounted (Sink.memory [] []) {}).1
      (solitary_inTime true [] List.mem_cons_self), rfl,
    (((solitary false).calls_accounted (Sink.memory [] []) {}).2 rfl).1⟩

/-- **A run that is refused its output directory makes no call**, although no stage is
late. -/
theorem refused_run_calls_none :
    (solitary false).InTime (Sink.memory [] ["docs"]) ∧
      ¬ (((solitary false).run (Sink.memory [] ["docs"]) {}).flights.map (·.call)).Perm
        (solitary false).calls := by
  refine ⟨solitary_inTime false ["docs"] (by decide), fun hperm => ?_⟩
  have hlength := hperm.length_eq
  revert hlength
  decide +kernel

end Generation

end Docsmith
