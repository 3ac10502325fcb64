import Docsmith.Failure
/-!
# Sinks — where documents go

A sink writes documents and makes directories, and each may fail. What a
sink is made of is left open; whoever writes to it passes its state on.
The path that a document was written to need not be the one asked for.
-/

namespace Docsmith

/-- What writing a document and making a directory do to a state. -/
structure Sink (σ : Type) where
  write : (path content : String) → σ → Except Failure String × σ
  ensureDirectory : (path : String) → σ → Except Failure Unit × σ

/-- A document: the path it is meant for and its text. -/
structure Draft where
  path : String
  content : String
  deriving DecidableEq, Repr

namespace Sink

variable {σ : Type}

/-- Writes documents one after the other; a failure stops none of them.
The results stand in the order of the documents. -/
def writeAll (sink : Sink σ) : List Draft → σ → List (Except Failure String) × σ
  | [], s => ([], s)
  | d :: drafts, s =>
    let (result, s) := sink.write d.path d.content s
    let (results, s) := writeAll sink drafts s
    (result :: results, s)

end Sink

/-- The value of a result, if there is one. -/
def succeeded? {α : Type} : Except Failure α → Option α
  | .ok a => some a
  | .error _ => none

/-- The failure of a result, if it is one. -/
def failed? {α : Type} : Except Failure α → Option Failure
  | .ok _ => none
  | .error f => some f

end Docsmith
