import Docsmith.Config.Basic
import Docsmith.Decimal.Shortest
import Docsmith.Glob
import Docsmith.Language
/-!
# Configurations — what is refused

The parts are looked at in a fixed order and the first fault counts:
backends one after the other, then output, then sources.
-/

namespace Docsmith.Config

open Decimal

/-- Refuses a configuration with a message. -/
def refuse (message : String) : Except Failure Unit :=
  .error (.config message)

/-- A backend has a name, a temperature from 0 to 2, and a time-out and a
number of tokens other than zero. -/
def Backend.check (b : Backend) : Except Failure Unit :=
  if Text.isBlankText b.name.toList then refuse "Model backend name must not be empty"
  else if !b.temperature.between 0 2 then
    refuse ("Temperature for " ++ b.name ++ " must be between 0.0 and 2.0, got " ++
      String.ofList (b.temperature.plainText .single))
  else if b.timeoutSeconds = 0 then
    refuse ("timeout_seconds for " ++ b.name ++ " must be greater than 0")
  else if b.maxTokens = 0 then
    refuse ("max_tokens for " ++ b.name ++ " must be greater than 0")
  else .ok ()

/-- Every backend is acceptable and no two have one name; `seen` are the
names before. -/
def checkBackends (seen : List String) : List Backend → Except Failure Unit
  | [] => .ok ()
  | b :: rest => do
    b.check
    if seen.contains b.name then refuse ("Duplicate model backend name: " ++ b.name)
    else checkBackends (b.name :: seen) rest

/-- The coverage is from 0 to 1, time-out and concurrency are not zero and
the names of diagrams are allowed. -/
def Output.check (o : Output) : Except Failure Unit := do
  if !o.targetCoverage.between 0 1 then
    refuse ("target_coverage must be between 0.0 and 1.0, got " ++
      String.ofList (o.targetCoverage.plainText .double))
  else if o.stageTimeoutSecs = 0 then refuse "stage_timeout_secs must be greater than 0"
  else if o.concurrency = 0 then refuse "concurrency must be greater than 0"
  else
    o.mermaidNaming.check
    o.plantUmlNaming.check

/-- Refuses the name of an unknown language. -/
def checkLanguage (name : String) : Except Failure Unit :=
  match Language.ofName name with
  | .ok _ => .ok ()
  | .error message => refuse message

/-- Refuses a text that is no glob pattern. -/
def checkPattern (pattern : String) : Except Failure Unit :=
  match Glob.parse pattern with
  | .ok _ => .ok ()
  | .error e => refuse ("Invalid glob pattern '" ++ pattern ++ "': " ++ e.message)

/-- The number of threads is not zero, the languages are known and the
patterns are patterns. -/
def Sources.check (s : Sources) : Except Failure Unit := do
  if s.maxThreads = some 0 then refuse "max_threads must be greater than 0"
  else
    s.languages.forM checkLanguage
    (s.includePatterns ++ s.excludePatterns).forM checkPattern

/-- Refuses an unacceptable configuration. -/
def check (c : Config) : Except Failure Unit := do
  checkBackends [] c.backends
  c.output.check
  c.sources.check

end Docsmith.Config
