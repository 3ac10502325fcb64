import Docsmith.Config.Debug
import Docsmith.Proofs.Config.Reload
import Docsmith.Proofs.Generation.Schedule
import Docsmith.Proofs.Model.Keys
/-!
# Generation — keys

What a run makes does not tell the keys of its backends: two configurations that
differ in keys alone are accepted alike, are shown alike, and lead to the same
documents, if backends do not go by their keys (`Job.keys_withheld`). The run without
keys is the same run, part by part: its scripts, its lines and its stages are those of
the run with keys, less the keys.
-/


namespace Docsmith.Generation

open Document Model Sink

variable {σ : Type} {sink : Sink σ} {reply : Call → Except Failure String}

/-! ## Scripts -/

namespace Script

/-- The same script, to backends without their keys. -/
def withoutKeys : Script → Script
  | .rest outcome => .rest outcome
  | .ask requests next =>
    .ask (requests.map fun (index, r) => (index, r.withoutKeys)) fun arrivals =>
      (next arrivals).withoutKeys
  | .make directory next => .make directory fun result => (next result).withoutKeys
  | .write d next => .write d fun result => (next result).withoutKeys

theorem withoutKeys_writeAll (drafts : List Draft)
    (next : List (Except Failure String) → Script) :
    (writeAll drafts next).withoutKeys = writeAll drafts fun results =>
      (next results).withoutKeys := by
  induction drafts generalizing next with
  | nil => rfl
  | cons d drafts ih =>
    rw [writeAll, withoutKeys, writeAll]
    exact congrArg (Script.write d) (funext fun result => ih _)

end Script

namespace Job

variable {j : Job}

/-- The job without keys. -/
def withoutKeys (j : Job) : Job :=
  { j with config := j.config.withoutKeys }

@[simp] theorem analysis_withoutKeys (j : Job) : j.withoutKeys.analysis = j.analysis := rfl

@[simp] theorem output_withoutKeys (j : Job) : j.withoutKeys.output = j.output := rfl

@[simp] theorem limits_withoutKeys (j : Job) : j.withoutKeys.limits = j.limits := rfl

@[simp] theorem backends_withoutKeys (j : Job) : j.withoutKeys.backends = j.backends := rfl

@[simp] theorem models_withoutKeys (j : Job) :
    j.withoutKeys.config.backends = j.config.backends.map (·.withoutKey) := rfl

theorem line_withoutKeys (backends : List Config.Backend) (groups : List Group) :
    ElementPages.line (backends.map (·.withoutKey)) groups =
      (ElementPages.line backends groups).map fun (index, r) => (index, r.withoutKeys) := by
  rw [ElementPages.line, ElementPages.line, List.map_flatMap]
  rfl

theorem testLine_withoutKeys (backends : List Config.Backend) (a : Analysis) :
    UnitTests.line (backends.map (·.withoutKey)) a =
      (UnitTests.line backends a).map fun (index, r) => (index, r.withoutKeys) := by
  rw [UnitTests.line, UnitTests.line, List.map_map]
  rfl

theorem elementScript_withoutKeys (j : Job) :
    j.withoutKeys.elementScript = j.elementScript.withoutKeys := by
  simp only [elementScript, analysis_withoutKeys, output_withoutKeys, models_withoutKeys,
    line_withoutKeys]
  split_ifs
  · rfl
  · simp only [Script.withoutKeys, Script.withoutKeys_writeAll]

theorem testScript_withoutKeys (j : Job) :
    j.withoutKeys.testScript = j.testScript.withoutKeys := by
  simp only [testScript, analysis_withoutKeys, output_withoutKeys, models_withoutKeys,
    testLine_withoutKeys]
  split_ifs
  · rfl
  · simp only [Script.withoutKeys]

theorem formatScript_withoutKeys (j : Job) (f : Diagram.Format)
    (next : Except Failure (List String) → Script) :
    (j.withoutKeys.formatScript f fun result => (next result).withoutKeys) =
      (j.formatScript f next).withoutKeys := by
  unfold formatScript
  rw [analysis_withoutKeys, output_withoutKeys]
  split
  · rfl
  · rfl
  · rw [Script.withoutKeys]
    refine congrArg (Script.make _) (funext fun made => ?_)
    cases made with
    | error failure => rfl
    | ok => exact (Script.withoutKeys_writeAll _ _).symm

theorem formatsScript_withoutKeys (j : Job) (formats : List Diagram.Format)
    (next : Nat × List String → Script) :
    (j.withoutKeys.formatsScript formats fun out => (next out).withoutKeys) =
      (j.formatsScript formats next).withoutKeys := by
  induction formats generalizing next with
  | nil => rfl
  | cons f formats ih =>
    rw [formatsScript, formatsScript, ← formatScript_withoutKeys]
    exact congrArg _ (funext fun result => ih fun rest => next (told f result rest))

theorem diagramScript_withoutKeys (j : Job) :
    j.withoutKeys.diagramScript = j.diagramScript.withoutKeys := by
  unfold diagramScript
  rw [output_withoutKeys]
  dsimp only
  by_cases hnone : (Diagram.Format.enabled j.output).isEmpty = true
  · rw [if_pos hnone, if_pos hnone, Script.withoutKeys]
  · rw [if_neg hnone, if_neg hnone, ← formatsScript_withoutKeys]
    rfl

/-- **The scripts of the job without keys** are those of the job, without keys. -/
theorem stageScripts_withoutKeys (j : Job) :
    j.withoutKeys.stageScripts = j.stageScripts.map Script.withoutKeys := by
  simp only [stageScripts, scripts, List.map_cons, List.map_nil, elementScript_withoutKeys,
    testScript_withoutKeys, diagramScript_withoutKeys, Script.withoutKeys]
  rfl

end Job

/-! ## Stages at work -/

/-- What a stage is at, without keys. -/
def Task.withoutKeys : Task → Task
  | .ready script => .ready script.withoutKeys
  | .asking line next => .asking line.withoutKeys fun arrivals => (next arrivals).withoutKeys
  | .writing writer next => .writing writer fun result => (next result).withoutKeys

/-- A stage at work, without keys. -/
def Worker.withoutKeys (w : Worker) : Worker :=
  { w with task := w.task.withoutKeys }

/-- The stages at work, without keys. -/
def Session.withoutKeys (s : Session) : Session :=
  { s with workers := s.workers.map Worker.withoutKeys }

variable {c : Setting}

theorem Worker.step_withoutKeys (h : KeyBlind c.reply) (stage : Nat) (move : Line.Move)
    (w : Worker) (d : Disk) :
    w.withoutKeys.step c stage move d =
      ((w.step c stage move d).1.withoutKeys, (w.step c stage move d).2) := by
  obtain ⟨task, begun⟩ := w
  match task with
  | .ready (.rest _) | .ready (.ask _ _) | .ready (.make _ _) | .ready (.write _ _) => rfl
  | .asking line next =>
    simp only [step, withoutKeys, Task.withoutKeys, Line.isOver_withoutKeys]
    split_ifs
    · rfl
    · simp only [Line.step_withoutKeys h]
  | .writing writer next =>
    simp only [step, withoutKeys, Task.withoutKeys]
    split
    · rfl
    · rfl

@[simp] theorem Worker.outcome?_withoutKeys (w : Worker) :
    w.withoutKeys.outcome? = w.outcome? := by
  obtain ⟨task, begun⟩ := w
  match task with
  | .ready (.rest _) | .ready (.ask _ _) | .ready (.make _ _) | .ready (.write _ _) => rfl
  | .asking _ _ | .writing _ _ => rfl

namespace Session

theorem step_withoutKeys (h : KeyBlind c.reply) (s : Session) (e : Tick) :
    s.withoutKeys.step c e = (s.step c e).withoutKeys := by
  unfold step
  dsimp only [withoutKeys]
  rw [List.getElem?_map]
  cases s.workers[e.stage]? with
  | none => rfl
  | some w =>
    dsimp only [Option.map_some]
    rw [Worker.step_withoutKeys h, List.map_set]

/-- **The session without keys goes as the other one does**, by induction on the
turns. -/
theorem run_withoutKeys (h : KeyBlind c.reply) (s : Session) (events : List Tick) :
    s.withoutKeys.run c events = (s.run c events).withoutKeys := by
  induction events generalizing s with
  | nil => rfl
  | cons e events ih =>
    rw [run, List.foldl_cons, step_withoutKeys h]
    exact ih (s.step c e)

@[simp] theorem outcomes?_withoutKeys (s : Session) : s.withoutKeys.outcomes? = s.outcomes? := by
  simp only [outcomes?, withoutKeys, List.all_map, List.filterMap_map, Function.comp_def,
    Worker.outcome?_withoutKeys]

end Session

namespace Job

variable {j : Job}

theorem session_withoutKeys (j : Job) (d : Disk) :
    j.withoutKeys.session d = (j.session d).withoutKeys := by
  simp only [session, Session.withoutKeys, stageScripts_withoutKeys, List.map_map,
    output_withoutKeys]
  rfl

/-- **On every schedule the run without keys ends as the other one does.** -/
theorem follow_withoutKeys (h : KeyBlind j.backends) (here : Place) (m : Schedule) (d : Disk) :
    j.withoutKeys.follow here m d = j.follow here m d := by
  unfold follow
  rw [output_withoutKeys]
  split
  · rfl
  · next made _ =>
    have hsetting : j.withoutKeys.setting here m = j.setting here m := rfl
    rw [hsetting, session_withoutKeys, Session.run_withoutKeys h.result]
    dsimp only
    rw [Session.outcomes?_withoutKeys]
    rfl

end Job

/-! ## Stages in turn -/

/-- The same stage, to backends without their keys. -/
def Stage.withoutKeys (stage : Stage σ) : Stage σ :=
  { stage with timeline := stage.timeline.withoutKeys }

theorem Stage.actAll_withoutKeys (stages : List (Stage σ)) (s : σ) :
    actAll (stages.map withoutKeys) s = actAll stages s := by
  induction stages generalizing s with
  | nil => rfl
  | cons stage stages ih =>
    rw [List.map_cons, actAll, actAll]
    simp only [ih]
    rfl

theorem Stage.run_withoutKeys (stages : List (Stage σ)) (s : σ) :
    run (stages.map withoutKeys) s = run stages s := by
  -- stages are sorted by when they finish, which keys do not change
  have hready : (stages.map withoutKeys).mergeSort
      (fun a b => a.timeline.finish ≤ b.timeline.finish) =
        (stages.mergeSort fun a b => a.timeline.finish ≤ b.timeline.finish).map withoutKeys := by
    refine (List.map_mergeSort fun a _ b _ => ?_).symm
    simp only [withoutKeys, Timeline.finish_withoutKeys]
  unfold run
  dsimp only
  rw [hready, actAll_withoutKeys, List.filterMap_map]
  rfl

theorem Stage.withoutKeys_timed (name : String) (pace : Pace) (timeline : Timeline)
    (work : Sink (Clock × σ) → Clock × σ → Except Failure String × Clock × σ) :
    (timed name pace timeline sink work).withoutKeys =
      timed name pace timeline.withoutKeys sink work := by
  simp only [timed, withoutKeys, Timeline.finish_withoutKeys]

namespace Job

variable {j : Job}

@[simp] theorem pace_withoutKeys (j : Job) (stage : String) (limit : Span) :
    j.withoutKeys.pace stage limit = j.pace stage limit := rfl

theorem timeline_withoutKeys (h : KeyBlind j.backends) (requests : List Request) :
    j.withoutKeys.timeline (requests.map Request.withoutKeys) =
      (j.timeline requests).withoutKeys :=
  Timeline.ofRequests_withoutKeys h _ _

theorem answers_withoutKeys (h : KeyBlind j.backends) (requests : List Request) :
    (j.timeline requests).withoutKeys.answers j.backends =
      (j.timeline requests).answers j.backends := by
  -- answers come in the order of the requests, whenever they arrive
  calc (j.timeline requests).withoutKeys.answers j.backends
      = (requests.map Request.withoutKeys).map (·.run j.reply) := by
        rw [← timeline_withoutKeys h]
        exact answers_timeline j.withoutKeys _
    _ = requests.map (·.run j.reply) := by
        rw [List.map_map]
        exact List.map_congr_left fun r _ => r.run_withoutKeys h.result
    _ = (j.timeline requests).answers j.backends := (answers_timeline j requests).symm

theorem requests_withoutKeys (backends : List Config.Backend) (groups : List Group) :
    ElementPages.requests (backends.map (·.withoutKey)) groups =
      (ElementPages.requests backends groups).map Request.withoutKeys := by
  rw [ElementPages.requests, ElementPages.requests, List.map_flatMap]
  rfl

theorem testRequests_withoutKeys (backends : List Config.Backend) (a : Analysis) :
    UnitTests.requests (backends.map (·.withoutKey)) a =
      (UnitTests.requests backends a).map Request.withoutKeys := by
  rw [UnitTests.requests, UnitTests.requests, List.map_map]
  rfl

theorem elementStage_withoutKeys (h : KeyBlind j.backends) :
    j.withoutKeys.elementStage sink = (j.elementStage sink).withoutKeys := by
  simp only [elementStage, analysis_withoutKeys, output_withoutKeys, models_withoutKeys,
    limits_withoutKeys, pace_withoutKeys, backends_withoutKeys, requests_withoutKeys,
    timeline_withoutKeys h,
    answers_withoutKeys h]
  split_ifs
  · rfl
  · rw [Stage.withoutKeys_timed]

theorem testStage_withoutKeys (h : KeyBlind j.backends) :
    j.withoutKeys.testStage sink = (j.testStage sink).withoutKeys := by
  simp only [testStage, analysis_withoutKeys, output_withoutKeys, models_withoutKeys,
    limits_withoutKeys, pace_withoutKeys, backends_withoutKeys, testRequests_withoutKeys,
    timeline_withoutKeys h,
    answers_withoutKeys h]
  split_ifs
  · rfl
  · rw [Stage.withoutKeys_timed]

theorem buildDiagrams_withoutKeys (j : Job) (formats : List Diagram.Format) (s : σ) :
    j.withoutKeys.buildDiagrams sink formats s = j.buildDiagrams sink formats s := by
  induction formats generalizing s with
  | nil => rfl
  | cons f formats ih =>
    simp only [buildDiagrams, ih]
    rfl

theorem diagramStage_withoutKeys (j : Job) :
    j.withoutKeys.diagramStage sink = (j.diagramStage sink).withoutKeys := by
  have hwork : ∀ (τ : Type) (tool : Sink τ), j.withoutKeys.writeDiagrams tool =
      j.writeDiagrams tool := by
    intro τ tool
    funext s
    simp only [writeDiagrams, output_withoutKeys, buildDiagrams_withoutKeys]
  unfold diagramStage
  rw [funext (hwork _), output_withoutKeys, limits_withoutKeys]
  dsimp only
  split_ifs
  · rfl
  · rw [Stage.withoutKeys_timed]
    rfl

theorem stages_withoutKeys (h : KeyBlind j.backends) :
    j.withoutKeys.stages sink = (j.stages sink).map Stage.withoutKeys := by
  rw [stages, elementStage_withoutKeys h, testStage_withoutKeys h, diagramStage_withoutKeys]
  rfl

theorem flights_withoutKeys (h : KeyBlind j.backends) :
    j.withoutKeys.flights sink = (j.flights sink).map Timeline.Flight.withoutKey := by
  rw [flights, stages_withoutKeys h, List.flatMap_map, flights, List.map_flatMap]
  exact List.flatMap_congr fun stage _ => Timeline.flights_withoutKeys h _ _

/-- **The run without keys does what the other one does**, and makes the same calls
but for the keys. -/
theorem run_withoutKeys (h : KeyBlind j.backends) (s : σ) :
    (j.withoutKeys.run sink s).result = (j.run sink s).result ∧
      (j.withoutKeys.run sink s).state = (j.run sink s).state ∧
      (j.withoutKeys.run sink s).flights =
        (j.run sink s).flights.map Timeline.Flight.withoutKey := by
  have hwrite : j.withoutKeys.writeAll sink = j.writeAll sink := by
    funext s
    simp only [writeAll, stages_withoutKeys h, Stage.run_withoutKeys]
    rfl
  unfold run
  rw [output_withoutKeys, hwrite, flights_withoutKeys h]
  split
  · exact ⟨rfl, rfl, rfl⟩
  · exact ⟨rfl, rfl, rfl⟩

end Job

/-! ## Configurations that differ in keys -/

theorem value_withoutKeys (showUnset : Bool) (c : Config) :
    c.withoutKeys.value showUnset = c.value showUnset := by
  rw [Config.value, Config.value, Config.withoutKeys, List.map_map]
  rfl

theorem render_withoutKeys (c : Config) (format : Config.Format) :
    c.withoutKeys.render format = c.render format := by
  cases format <;> rw [Config.render, Config.render, value_withoutKeys]

/-- Two backends that differ in their keys alone speak one protocol, at one endpoint,
and are asked the same. -/
structure AskedAlike (b b' : Config.Backend) : Prop where
  protocol : Protocol.ofBackend b = Protocol.ofBackend b'
  payload : ∀ (p : Protocol) prompt, p.payload b prompt = p.payload b' prompt
  endpoint : ∀ p : Protocol, p.endpoint b.baseUrl = p.endpoint b'.baseUrl

theorem askedAlike_of_withoutKey {b b' : Config.Backend} (h : b.withoutKey = b'.withoutKey) :
    AskedAlike b b' where
  protocol := by rw [← Protocol.ofBackend_withoutKey, h, Protocol.ofBackend_withoutKey]
  payload p prompt := by rw [← Protocol.payload_withoutKey, h, Protocol.payload_withoutKey]
  endpoint p := by
    have hurl : b.withoutKey.baseUrl = b'.withoutKey.baseUrl := congrArg Config.Backend.baseUrl h
    change p.endpoint b.withoutKey.baseUrl = p.endpoint b'.withoutKey.baseUrl
    rw [hurl]

/-- Two jobs that do the same to every sink and on every schedule, and make the same
calls but for keys. -/
structure DoneAlike (j j' : Job) : Prop where
  result : ∀ {σ : Type} (sink : Sink σ) s, (j.run sink s).result = (j'.run sink s).result
  state : ∀ {σ : Type} (sink : Sink σ) s, (j.run sink s).state = (j'.run sink s).state
  flights : ∀ {σ : Type} (sink : Sink σ) s,
    (j.run sink s).flights.map Timeline.Flight.withoutKey =
      (j'.run sink s).flights.map Timeline.Flight.withoutKey
  ending : ∀ here m d, j.follow here m d = j'.follow here m d

theorem doneAlike_of_withoutKeys {j j' : Job} (h : KeyBlind j.backends) (h' : KeyBlind j'.backends)
    (hsame : j.withoutKeys = j'.withoutKeys) : DoneAlike j j' where
  result sink s := by
    rw [← (Job.run_withoutKeys h s).1, hsame, (Job.run_withoutKeys h' s).1]
  state sink s := by
    rw [← (Job.run_withoutKeys h s).2.1, hsame, (Job.run_withoutKeys h' s).2.1]
  flights sink s := by
    rw [← (Job.run_withoutKeys h s).2.2, hsame, (Job.run_withoutKeys h' s).2.2]
  ending here m d := by
    rw [← Job.follow_withoutKeys h, hsame, Job.follow_withoutKeys h']

/-- **Keys are withheld.** Configurations that differ in the keys of their backends
alone are accepted or refused alike, shown alike, and lead to the same calls, documents
and results, where what backends reply depends on the backend's name, the endpoint and
the payload. A backend in a log tells no more of its key than that there is one. -/
theorem keys_withheld {c c' : Config} (hsame : c.withoutKeys = c'.withoutKeys) :
    c.check = c'.check ∧
      (∀ format, c.render format = c'.render format) ∧
      List.Forall₂ AskedAlike c.backends c'.backends ∧
      (∀ analysis limits backends generatedOn, KeyBlind backends →
        DoneAlike ⟨c, analysis, limits, backends, generatedOn⟩
          ⟨c', analysis, limits, backends, generatedOn⟩) ∧
      ∀ (b : Config.Backend) (key key' : String),
        { b with apiKey := some key }.logText = { b with apiKey := some key' }.logText := by
  refine ⟨?_, fun format => ?_, ?_, fun analysis limits backends generatedOn h => ?_,
    fun b key key' => rfl⟩
  · rw [← Config.check_withoutKeys, hsame, Config.check_withoutKeys]
  · rw [← render_withoutKeys, hsame, render_withoutKeys]
  · have hbackends : c.backends.map (·.withoutKey) = c'.backends.map (·.withoutKey) :=
      congrArg Config.backends hsame
    have hpairs : List.Forall₂ Eq (c.backends.map (·.withoutKey))
        (c'.backends.map (·.withoutKey)) := by
      rw [hbackends]
      exact List.forall₂_refl _
    rw [List.forall₂_map_left_iff, List.forall₂_map_right_iff] at hpairs
    exact hpairs.imp fun b b' => askedAlike_of_withoutKey
  · refine doneAlike_of_withoutKeys h h ?_
    unfold Job.withoutKeys
    rw [hsame]

/-- Two backends, of which the first one has a key. -/
def keyed (key : String) : Config :=
  { Job.errand.config with backends := [{ name := "a", apiKey := some key }, { name := "b" }] }

/-- A scheduled run with either key. -/
theorem keys_withheld_errand :
    (keyed "one").render .toml = (keyed "two").render .toml ∧
      ({ Job.errand with config := keyed "one" } : Job).follow [] Job.orderly
          { tree := Job.errandTree } =
        ({ Job.errand with config := keyed "two" } : Job).follow [] Job.orderly
          { tree := Job.errandTree } := by
  have hblind : KeyBlind Job.errand.backends := fun c d hname _ _ =>
    congrArg (fun name => (⟨⟨0⟩, .ok name⟩ : Reply)) hname
  have hsame : (keyed "one").withoutKeys = (keyed "two").withoutKeys := rfl
  obtain ⟨-, hrender, -, hdone, -⟩ := keys_withheld hsame
  exact ⟨hrender .toml, (hdone Job.errand.analysis Job.errand.limits Job.errand.backends
    Job.errand.generatedOn hblind).ending [] Job.orderly { tree := Job.errandTree }⟩

end Docsmith.Generation
