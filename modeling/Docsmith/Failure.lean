import Docsmith.Time.Stamp
/-!
# Failures and outcomes

What can go wrong, by cause, and the one place where each cause gets its
words. A failure of a model backend carries a category, which tells
whether the same request may succeed later.
-/

namespace Docsmith

/-- Why a model backend failed. -/
inductive Failure.Category where
  | rateLimit
  | auth
  | network
  | unavailable
  | badRequest
  | transient
  | unknown
  deriving DecidableEq, Repr

namespace Failure.Category

/-- The category's name. -/
def name : Category → String
  | .rateLimit => "RATE_LIMIT"
  | .auth => "AUTH"
  | .network => "NETWORK"
  | .unavailable => "UNAVAILABLE"
  | .badRequest => "BAD_REQUEST"
  | .transient => "TRANSIENT"
  | .unknown => "UNKNOWN"

/-- The same request to the same backend may succeed later. -/
def isRetryable : Category → Bool
  | .rateLimit | .network | .transient => true
  | _ => false

/-- The category of a reply with a status other than success. -/
def ofStatus (status : Nat) : Category :=
  if status = 429 then .rateLimit
  else if status = 401 ∨ status = 403 then .auth
  else if status = 400 ∨ status = 422 then .badRequest
  else if status = 404 then .unavailable
  else if status = 500 ∨ status = 502 ∨ status = 503 ∨ status = 504 then .transient
  else .unknown

end Failure.Category

/-- A failure of a model backend. -/
structure Failure.Backend where
  category : Failure.Category
  message : String
  backend : Option String := none
  deriving DecidableEq, Repr

/-- The text of a backend failure: backend and category in brackets. -/
def Failure.Backend.text (f : Failure.Backend) : String :=
  match f.backend with
  | some b => "[" ++ b ++ ":" ++ f.category.name ++ "] " ++ f.message
  | none => "[" ++ f.category.name ++ "] " ++ f.message

/-- What went wrong. -/
inductive Failure where
  | io (message : String)
  | json (message : String)
  | yaml (message : String)
  | notFound (path : String)
  | parse (path message : String)
  | backend (failure : Failure.Backend)
  | modelCall (message : String)
  | timeout (operation : String) (limit : Span)
  | diagram (message : String)
  | output (message : String)
  | config (message : String)
  deriving DecidableEq, Repr

namespace Failure

/-- The failure in words. -/
def message : Failure → String
  | .io m => "IO error: " ++ m
  | .json m => "JSON error: " ++ m
  | .yaml m => "YAML error: " ++ m
  | .notFound path => "Path not found: " ++ path
  | .parse path m => "Parse error in " ++ path ++ ": " ++ m
  | .backend f => f.text
  | .modelCall m => "LLM API error: " ++ m
  | .timeout operation limit => "Timeout after " ++ limit.text ++ ": " ++ operation
  | .diagram m => "Diagram error: " ++ m
  | .output m => "Output error: " ++ m
  | .config m => "Config error: " ++ m

/-- A later attempt may succeed. -/
def isRecoverable : Failure → Bool
  | .backend f => f.category.isRetryable
  | .timeout _ _ => true
  | _ => false

/-- The cause of a failed model call without the words around it. -/
def cause : Failure → String
  | .backend f => f.message
  | .modelCall m => m
  | other => other.message

end Failure

/-! ## Outcomes of a stage

What a stage of a run ended with: its text, or why there is none. A stage
that had nothing to do has succeeded and says why in its diagnostic.
-/

/-- The outcome of one stage. -/
structure Outcome where
  stage : String
  content : String
  succeeded : Bool
  diagnostic : Option String
  deriving DecidableEq, Repr

namespace Outcome

/-- A stage that produced a text. -/
def success (stage content : String) : Outcome :=
  ⟨stage, content, true, none⟩

/-- A stage that had nothing to do. -/
def skipped (stage reason : String) : Outcome :=
  ⟨stage, "", true, some reason⟩

/-- A stage that failed. -/
def failure (stage diagnostic : String) : Outcome :=
  ⟨stage, "", false, some diagnostic⟩

/-- The outcome of a result: a failure is told in its own words. -/
def ofResult (stage : String) : Except Failure String → Outcome
  | .ok content => success stage content
  | .error f => failure stage f.message

end Outcome

/-! ## One result after the other

A computation that goes on only after a success has succeeded exactly if
both of its parts have.
-/

section Results

variable {ε α β : Type} {x : Except ε α} {f : α → Except ε β} {a : α} {b : β}

theorem bind_eq_ok : (x >>= f) = .ok b ↔ ∃ a, x = .ok a ∧ f a = .ok b := by
  cases x with
  | error e => exact ⟨nofun, nofun⟩
  | ok a => exact ⟨fun h => ⟨a, rfl, h⟩, fun ⟨_, ha, h⟩ => by cases ha; exact h⟩

/-- A result that is known to be there is a success. -/
theorem eq_ok_of_toOption (h : x.toOption = some a) : x = .ok a := by
  cases x with
  | error e => cases h
  | ok a' => cases h; rfl

end Results

end Docsmith
