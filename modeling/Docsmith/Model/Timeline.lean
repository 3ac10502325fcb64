import Docsmith.Model.Request
import Docsmith.Time.Stamp
/-!
# Models — requests over time

A stage has requests waiting in line and a number of slots. A request
takes the slot that is free first, makes all its calls at once and keeps
the slot until the last reply. A stage that needs longer than its limit is
dropped: no further request begins, and calls under way end there. Times
count from the beginning of the stage in nanoseconds.
-/

namespace Docsmith.Model

/-- What a backend does with a call: after some time it gives a body or
fails. -/
structure Reply where
  delay : Span
  result : Except Failure String

/-- What backends do with each call. -/
abbrev Backends := Call → Reply

/-- How long a request takes: as long as its slowest call. -/
def Request.duration (backends : Backends) (r : Request) : Nat :=
  (r.calls.map fun c => (backends c).delay.nanos).foldl max 0

/-- Puts a moment into an ascending list of moments. -/
def insertMoment (t : Nat) : List Nat → List Nat
  | [] => [t]
  | u :: rest => if t ≤ u then t :: u :: rest else u :: insertMoment t rest

/-- When each request begins, given in ascending order when the slots are
free. -/
def beginnings : (free durations : List Nat) → List Nat
  | _, [] => []
  | [], _ :: _ => []
  | t :: free, d :: durations => t :: beginnings (insertMoment (t + d) free) durations

/-- A stage's requests with the moments at which they begin and end, in
the order of the line. -/
structure Timeline where
  entries : List (Request × Nat × Nat)

namespace Timeline

/-- The timeline of requests that share some slots, of which there is at
least one. -/
def ofRequests (backends : Backends) (slots : Nat) (requests : List Request) : Timeline :=
  let durations := requests.map (·.duration backends)
  let free := List.replicate (min (max slots 1) requests.length) 0
  ⟨requests.zip ((beginnings free durations).zip durations) |>.map fun (r, t, d) => (r, t, t + d)⟩

/-- When the last request ends. -/
def finish (l : Timeline) : Nat :=
  (l.entries.map fun (_, _, stop) => stop).foldl max 0

/-- A call under way: when it begins and when it ends. -/
structure Flight where
  call : Call
  start : Nat
  stop : Nat

/-- The calls that are made within a limit. -/
def flights (l : Timeline) (backends : Backends) (limit : Span) : List Flight :=
  (l.entries.filter fun (_, start, _) => start ≤ limit.nanos).flatMap fun (r, start, _) =>
    r.calls.map fun c => ⟨c, start, min (start + (backends c).delay.nanos) limit.nanos⟩

/-- The answers in the order in which they arrive, each with its place in
the line. -/
def arrivals (l : Timeline) (backends : Backends) : List (Nat × String) :=
  let placed := (List.range l.entries.length).zip l.entries
  let ordered := placed.mergeSort fun (_, _, _, stop) (_, _, _, stop') => stop ≤ stop'
  ordered.map fun (place, r, _) => (place, r.run fun c => (backends c).result)

/-- Answers put back in the order of the line; `count` is its length. -/
def putBack (count : Nat) (arrivals : List (Nat × String)) : List String :=
  (arrivals.foldl (fun (texts : Array String) (place, text) => texts.setIfInBounds place text)
    (Array.replicate count "")).toList

/-- The answers in the order of the line. -/
def answers (l : Timeline) (backends : Backends) : List String :=
  putBack l.entries.length (l.arrivals backends)

end Timeline

/-- The most calls under way at one moment, of calls in the order in which
they begin. A call that has ended when another begins is not under way. -/
def maxInFlight (flights : List Timeline.Flight) : Nat :=
  let ordered := flights.mergeSort fun f g => f.start ≤ g.start
  (ordered.foldl (fun (most, stops) f =>
    let stops := stops.filter fun stop => f.start < stop
    (max most (stops.length + 1), f.stop :: stops)) ((0, []) : Nat × List Nat)).1

end Docsmith.Model
