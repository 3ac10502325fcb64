import Docsmith.Ordered
import Docsmith.Path
import Docsmith.Sink.Basic
/-!
# Sinks — in memory

A sink that keeps documents under their paths and refuses those with
certain file names, as well as certain directories. It shows what a run
writes.
-/

namespace Docsmith

/-- Documents in ascending order of their paths, and how many writes have
succeeded. -/
structure Memory where
  documents : List (String × String) := []
  writes : Nat := 0
  deriving DecidableEq, Repr

namespace Sink

/-- The sink that refuses some file names and some directories. -/
def memory (names directories : List String) : Sink Memory where
  write path content m :=
    if (Path.fileName? path).any names.contains then
      (.error (.output ("rejected " ++ path)), m)
    else (.ok path, ⟨Ordered.insert path content m.documents, m.writes + 1⟩)
  ensureDirectory path m :=
    if directories.contains path then (.error (.output ("no directory " ++ path)), m)
    else (.ok (), m)

end Sink

end Docsmith
