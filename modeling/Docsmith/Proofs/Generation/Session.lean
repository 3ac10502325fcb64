import Docsmith.Proofs.Generation.Script
/-!
# Generation — stages at work together

The stages of a run share one disk. A *schedule* says whose turn it is and,
for a stage that waits for answers, which request begins, which call gets
its reply and which request finishes; how many requests may be under way;
and what the temporary names are. Nothing else is left open: between two
turns of a stage any number of turns of the others may come, and a write is
as many turns as it has steps on the disk (`Job.follow`). Limits on time play
no part: a stage works until it has nothing more to do.
-/


namespace Docsmith

/-- Writes a document under a policy, with a given token and no other writer at
work. -/
def Disk.writeAs (policy : Config.Collision) (here : Place) (path content token : String)
    (d : Disk) : Except Failure String × Disk :=
  let (w, e) := (Writer.start policy path content token).run policy here d.patience d
  (w.result?.getD (.error (.output ("No free name for " ++ path))),
    { e with begun := d.begun + 1 })

namespace Generation

open Disk Document Model Sink

/-! ## Turns -/

/-- What a stage is at. -/
inductive Task where
  /-- It is about to do the next thing of its script. -/
  | ready (script : Script)
  /-- It waits for answers. -/
  | asking (line : Line) (next : List Arrival → Script)
  /-- It writes a document. -/
  | writing (writer : Writer) (next : Except Failure String → Script)

/-- A stage at work, and how many writes it has begun. -/
structure Worker where
  task : Task
  begun : Nat := 0

/-- The stages at work on a disk, and what they have asked of it. -/
structure Session where
  disk : Disk
  workers : List Worker
  log : List Act := []

/-- What does not change while the stages work: the replies, the policy, the
directory where paths start, the number of slots, and the tokens of each
stage's writes. -/
structure Setting where
  reply : Model.Call → Except Failure String
  policy : Config.Collision
  here : Place
  slots : Nat
  token : (stage write : Nat) → String

/-- A stage has its turn. If it waits for answers, this is what happens in its
line. -/
structure Tick where
  stage : Nat
  move : Line.Move := .begin

namespace Worker

/-- One turn: the stage and the disk after it, and what was asked and
answered. -/
def step (c : Setting) (stage : Nat) (move : Line.Move) (w : Worker) (d : Disk) :
    Worker × Disk × List Act :=
  match w.task with
  | .ready (.rest _) => (w, d, [])
  | .ready (.ask requests next) => ({ w with task := .asking ⟨requests, [], []⟩ next }, d, [])
  | .ready (.make directory next) =>
    let (result, d) := Disk.ensureDirectory c.here directory d
    ({ w with task := .ready (next result) }, d, [.made directory result])
  | .ready (.write x next) =>
    (⟨.writing (Writer.start c.policy x.path x.content (c.token stage w.begun)) next, w.begun + 1⟩,
      d, [])
  | .asking line next =>
    if line.isOver then ({ w with task := .ready (next line.arrived) }, d, [])
    else ({ w with task := .asking (line.step c.slots c.reply move) next }, d, [])
  | .writing writer next =>
    match writer.result? with
    | some result => ({ w with task := .ready (next result) }, d, [.wrote writer.path result])
    | none =>
      let (writer, d) := writer.step c.policy c.here d
      ({ w with task := .writing writer next }, d, [])

/-- The outcome of a stage that has nothing more to do. -/
def outcome? (w : Worker) : Option Outcome :=
  match w.task with
  | .ready (.rest outcome) => some outcome
  | _ => none

end Worker

namespace Session

/-- A turn of one stage. -/
def step (c : Setting) (s : Session) (e : Tick) : Session :=
  match s.workers[e.stage]? with
  | some w =>
    let (w, d, acts) := w.step c e.stage e.move s.disk
    ⟨d, s.workers.set e.stage w, s.log ++ acts⟩
  | none => s

/-- Turns in their order. -/
def run (c : Setting) (s : Session) (events : List Tick) : Session :=
  events.foldl (step c) s

/-- The outcomes of the stages, once none has anything more to do. -/
def outcomes? (s : Session) : Option (List Outcome) :=
  if s.workers.all (·.outcome?.isSome) then some (s.workers.filterMap Worker.outcome?) else none

end Session

/-- How a run goes in time. The overview is the one document that the stage of
number zero writes. -/
structure Schedule where
  slots : Nat
  token : (stage write : Nat) → String
  events : List Tick

/-- What a scheduled run ends with. -/
structure Ending where
  result : Except Failure String
  log : List Act
  disk : Disk

/-- Nothing that the run asked of the disk failed. -/
def Ending.Succeeded (e : Ending) : Prop :=
  ∀ act ∈ e.log, act.Succeeded

instance (e : Ending) : Decidable e.Succeeded :=
  inferInstanceAs (Decidable (∀ act ∈ e.log, act.Succeeded))

namespace Job

/-- The setting of a run on a schedule. -/
def setting (j : Job) (here : Place) (m : Schedule) : Setting :=
  ⟨j.reply, j.output.collision, here, m.slots, m.token⟩

/-- The scripts of the four stages; the overview asks for nothing. -/
def stageScripts (j : Job) : List Script :=
  .rest j.overview :: j.scripts

/-- The stages before their first turns, once the output directory is made. -/
def session (j : Job) (d : Disk) : Session :=
  ⟨d, j.stageScripts.map fun script => ⟨.ready script, 0⟩, [.made j.output.directory (.ok ())]⟩

/-- The run on a schedule: the output directory is made, the stages work
together, and when all of them have ended the overview is written. A schedule
that stops earlier has no ending. -/
def follow (j : Job) (here : Place) (m : Schedule) (d : Disk) : Option Ending :=
  match Disk.ensureDirectory here j.output.directory d with
  | (.error f, d) => some ⟨.error f, [.made j.output.directory (.error f)], d⟩
  | (.ok (), d) =>
    let s := (j.session d).run (j.setting here m) m.events
    match s.outcomes? with
    | some (main :: others) =>
      let (result, d) := Disk.writeAs j.output.collision here j.overviewPath
        (Overview.compose main others) (m.token 0 0) s.disk
      some ⟨result.map fun _ => j.output.directory, s.log ++ [.wrote j.overviewPath result], d⟩
    | _ => none

end Job

/-! ## Runs and their ends -/

/-- The stages have ended with some outcomes if each of them has. -/
theorem Session.outcomes?_eq_some_iff {s : Session} {outcomes : List Outcome} :
    s.outcomes? = some outcomes ↔ s.workers.map Worker.outcome? = outcomes.map some := by
  unfold outcomes?
  generalize s.workers = workers
  constructor
  · intro h
    split_ifs at h with hall
    obtain rfl := Option.some.inj h
    induction workers with
    | nil => rfl
    | cons w workers ih =>
      rw [List.all_cons, Bool.and_eq_true] at hall
      obtain ⟨outcome, houtcome⟩ := Option.isSome_iff_exists.1 hall.1
      rw [List.filterMap_cons_some houtcome, List.map_cons, List.map_cons, houtcome,
        ih hall.2 rfl]
  · intro h
    have hall : workers.all (·.outcome?.isSome) = true := by
      rw [List.all_eq_true]
      intro w hw
      have hin : w.outcome? ∈ outcomes.map some := h ▸ List.mem_map_of_mem hw
      obtain ⟨outcome, -, houtcome⟩ := List.mem_map.1 hin
      rw [← houtcome]
      rfl
    have hfilter : workers.filterMap Worker.outcome? =
        (workers.map Worker.outcome?).filterMap id := by
      rw [List.filterMap_map]
      rfl
    rw [if_pos hall, hfilter, h, List.filterMap_map]
    exact congrArg some List.filterMap_some

theorem Session.run_append (c : Setting) (s : Session) (first events : List Tick) :
    s.run c (first ++ events) = (s.run c first).run c events :=
  List.foldl_append

theorem Session.length_run (c : Setting) (s : Session) (events : List Tick) :
    (s.run c events).workers.length = s.workers.length := by
  induction events generalizing s with
  | nil => rfl
  | cons e events ih =>
    have hstep : (s.step c e).workers.length = s.workers.length := by
      unfold step
      split
      · exact List.length_set
      · rfl
    exact (ih (s.step c e)).trans hstep

/-! ## The record grows -/

theorem Session.log_step (c : Setting) (s : Session) (e : Tick) :
    ∃ acts, (s.step c e).log = s.log ++ acts := by
  rw [step]
  split
  · exact ⟨_, rfl⟩
  · exact ⟨[], by rw [List.append_nil]⟩

theorem Session.log_run (c : Setting) (s : Session) (events : List Tick) :
    ∃ acts, (s.run c events).log = s.log ++ acts := by
  induction events generalizing s with
  | nil => exact ⟨[], by rw [List.append_nil]; rfl⟩
  | cons e events ih =>
    obtain ⟨first, hfirst⟩ := s.log_step c e
    obtain ⟨rest, hrest⟩ := ih (s.step c e)
    refine ⟨first ++ rest, ?_⟩
    rw [run, List.foldl_cons, ← run, hrest, hfirst, List.append_assoc]

end Generation

end Docsmith
