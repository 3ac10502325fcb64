import Docsmith.Config.Basic
import Docsmith.Failure
import Docsmith.Model.Timeline
import Docsmith.Sink.Basic
/-!
# Generation — stages

A stage first has its requests answered and then works on the sink. Its
limit is for both. A stage that needs longer is given up wherever it is:
what it has done by then stays done, and nothing more is. Stages take to
the sink one after the other, in the order in which their requests are
answered, and those that are ready at the same moment in their own order.
-/

/-! ## Time limits

Each stage has a time limit. The stages that ask models have twice the
time of the others, as long as that can be told in sixty-four bits of
seconds. What counts against a limit is the time until the requests are
answered and the time that the sink takes: something that is asked of a sink
takes effect at one moment and is answered at another, and a limit may pass
before the one, between the two, or behind both. A write that a limit cuts
short on its way is one that is not done; what it may leave beside its target
is told by its steps on the disk (`Disk.Writer.step`).
-/

namespace Docsmith

/-- The longest span that can be told. -/
def Span.longest : Span :=
  .ofParts (Nat.pow 2 64 - 1) 999999999

/-- Twice a span, or the longest one. -/
def Span.twice (s : Span) : Span :=
  ⟨min (2 * s.nanos) longest.nanos⟩

/-- How long a sink takes for something that it is asked: until it is done,
and from then on until the answer is there. -/
structure Lag where
  work : Span := ⟨0⟩
  answer : Span := ⟨0⟩
  deriving DecidableEq, Repr

/-- The limit of each stage, and how long the sink takes for what a stage
asks of it, thing by thing. -/
structure Limits where
  main : Span
  elements : Span
  tests : Span
  diagrams : Span
  lags : (stage : String) → (number : Nat) → Lag := fun _ _ => {}

namespace Limits

/-- The limits that go with a basic span, and a sink that takes no time. -/
def ofBase (base : Span) : Limits where
  main := base
  elements := base.twice
  tests := base.twice
  diagrams := base

/-- The limits in a configuration. -/
def ofOutput (o : Config.Output) : Limits :=
  ofBase (.ofSecs o.stageTimeoutSecs)

end Limits

/-- The result of an operation that takes some time, unless a limit passes
first. -/
def within {α : Type} (limit : Span) (operation : String) (taken : Span)
    (result : Except Failure α) : Except Failure α :=
  if taken.nanos ≤ limit.nanos then result else .error (.timeout operation limit)

end Docsmith

/-! ## Sinks that take their time -/

namespace Docsmith.Generation

variable {σ α : Type}

/-- The time in a stage, and how many things it has asked of the sink. -/
structure Clock where
  now : Nat
  asked : Nat := 0

/-- The time that a stage has, and how long the sink takes for each thing
that the stage asks of it. -/
structure Pace where
  limit : Span
  lags : Nat → Lag

namespace Pace

/-- When the next thing is done. -/
def done (p : Pace) (c : Clock) : Nat :=
  c.now + (p.lags c.asked).work.nanos

/-- The clock when the next thing is answered. -/
def next (p : Pace) (c : Clock) : Clock :=
  ⟨p.done c + (p.lags c.asked).answer.nanos, c.asked + 1⟩

/-- Asks something. What would be done only when the limit has passed is not
done at all, and no one is there for the answer. -/
def ask (p : Pace) (f : σ → Except Failure α × σ) (s : Clock × σ) :
    Except Failure α × Clock × σ :=
  if p.done s.1 ≤ p.limit.nanos then
    let (result, t) := f s.2
    (result, p.next s.1, t)
  else (.error (.output "given up"), p.next s.1, s.2)

end Pace

end Docsmith.Generation

/-- The sink as a stage has it that works at some pace. -/
def Docsmith.Sink.paced {σ : Type} (sink : Sink σ) (p : Generation.Pace) :
    Sink (Generation.Clock × σ) where
  write path content := p.ask (sink.write path content)
  ensureDirectory path := p.ask (sink.ensureDirectory path)

/-! ## Stages -/

namespace Docsmith.Generation

open Model

variable {σ : Type}

/-- A stage: its requests over time, its limit, and what it does when all
of them are answered or the limit has passed. -/
structure Stage (σ : Type) where
  name : String
  timeline : Timeline := ⟨[]⟩
  limit : Span := .longest
  act : σ → Outcome × σ

namespace Stage

/-- A stage that has nothing to do. -/
def skipped (name reason : String) : Stage σ where
  name
  act s := (.skipped name reason, s)

/-- A stage that works on a sink within a limit. Its clock is set to the
moment when its requests are answered. -/
def timed (name : String) (pace : Pace) (timeline : Timeline) (sink : Sink σ)
    (work : Sink (Clock × σ) → Clock × σ → Except Failure String × Clock × σ) : Stage σ where
  name
  timeline
  limit := pace.limit
  act s :=
    let (result, clock, s) := work (sink.paced pace) (⟨timeline.finish, 0⟩, s)
    (.ofResult name (within pace.limit name ⟨clock.now⟩ result), s)

/-- The calls a stage makes. -/
def flights (backends : Backends) (stage : Stage σ) : List Timeline.Flight :=
  stage.timeline.flights backends stage.limit

/-- Lets stages act one after the other; the outcomes stand in that order. -/
def actAll : List (Stage σ) → σ → List Outcome × σ
  | [], s => ([], s)
  | stage :: stages, s =>
    let (outcome, s) := stage.act s
    let (outcomes, s) := actAll stages s
    (outcome :: outcomes, s)

/-- Lets stages act in the order in which they are ready; the outcomes
stand in the stages' own order. -/
def run (stages : List (Stage σ)) (s : σ) : List Outcome × σ :=
  let ready := stages.mergeSort fun a b => a.timeline.finish ≤ b.timeline.finish
  let (outcomes, s) := actAll ready s
  (stages.filterMap fun stage => outcomes.find? (·.stage == stage.name), s)

end Stage

end Docsmith.Generation
