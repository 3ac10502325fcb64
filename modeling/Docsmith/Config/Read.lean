import Docsmith.Config.Basic
/-!
# Configurations — reading from a value

A record is read from an object, by the names of its fields, or from an
array, by their order. A field that is missing has its default and one
that is unknown is ignored; `null` is a value of optional fields only.
Whole numbers must fit their field; a floating-point field takes whole
numbers too and rounds what it gets to its own format.
-/

namespace Docsmith.Config

open Decimal

/-- What the source of a value decides: whether what stands for a record or
a policy may be longer than that, and whether a policy may be given by its
number. -/
structure Reading where
  longForms : Bool
  numberedPolicies : Bool

/-- Values of a document that is read as it stands. -/
def Reading.document : Reading := ⟨false, false⟩

/-- Values that were merged from layers. -/
def Reading.layered : Reading := ⟨true, true⟩

/-- Reads one field: a missing one has its default, if there is one. -/
def field? {α : Type} (find : String → Option Json) (name : String) (read : Json → Option α)
    (default : Option α) : Option α :=
  match find name with
  | some value => read value
  | none => default

/-- How the fields of a record are found in a value. -/
def finder? (r : Reading) (names : List String) : Json → Option (String → Option Json)
  | .object fields => some fun name => Ordered.find? name fields
  | .array items =>
    if !r.longForms && names.length < items.length then none
    else some fun name => ((names.zip items).find? (·.1 == name)).map (·.2)
  | _ => none

/-- A text. -/
def text? : Json → Option String
  | .string s => some s
  | _ => none

/-- A truth value. -/
def bool? : Json → Option Bool
  | .bool b => some b
  | _ => none

/-- A whole number of some bits. -/
def nat? (bits : Nat) : Json → Option Nat
  | .number (.whole n) => if 0 ≤ n && n < Int.pow 2 bits then some n.toNat else none
  | _ => none

/-- A floating-point number of a format. -/
def float? (format : Format) : Json → Option Binary
  | .number (.whole n) => some (format.ofInt n)
  | .number (.float x) => some (x.roundTo format)
  | .number (.single x) => some (x.roundTo format)
  | _ => none

/-- An optional value. -/
def optional? {α : Type} (read : Json → Option α) : Json → Option (Option α)
  | .null => some none
  | value => (read value).map some

/-- A list of values. -/
def list? {α : Type} (read : Json → Option α) : Json → Option (List α)
  | .array items => items.mapM read
  | _ => none

mutual

/-- A value in which numbers that are not finite have become `null`. -/
def finite : Json → Json
  | .number (.float x) => if x.isFinite then .number (.float x) else .null
  | .array items => .array (finiteItems items)
  | .object fields => .object (finiteFields fields)
  | value => value

/-- The items of an array with finite numbers only. -/
def finiteItems : List Json → List Json
  | [] => []
  | item :: items => finite item :: finiteItems items

/-- The fields of an object with finite numbers only. -/
def finiteFields : List (String × Json) → List (String × Json)
  | [] => []
  | (name, value) :: fields => (name, finite value) :: finiteFields fields

end

/-- Free fields. -/
def fields? : Json → Option (List (String × Json))
  | .object fields => some (finiteFields fields)
  | _ => none

/-- A policy for existing files: by its name, or as the name of the
only field, or the first, of an object. -/
def collision? (r : Reading) (value : Json) : Option Collision :=
  let named (name : String) := Collision.all.find? (·.name == name)
  match value with
  | .string name => named name
  | .object ((name, .null) :: rest) => if r.longForms || rest.isEmpty then named name else none
  | .number (.whole n) => if r.numberedPolicies && 0 ≤ n then Collision.all[n.toNat]? else none
  | _ => none

/-- How the files of a diagram format are named. -/
def naming? (r : Reading) (value : Json) : Option Diagram.Naming := do
  let find ← finder? r ["prefix", "suffix", "extension"] value
  return {
    before := ← field? find "prefix" text? (some "")
    after := ← field? find "suffix" (optional? text?) (some none)
    extension := ← field? find "extension" (optional? text?) (some none) }

/-- The fields of a backend, in order. -/
def backendFields : List String :=
  ["name", "provider", "base_url", "api_key", "max_tokens", "temperature", "timeout_seconds",
    "max_retries", "extra"]

/-- A backend. Its name is the one field without a default. -/
def backend? (r : Reading) (value : Json) : Option Backend := do
  let find ← finder? r backendFields value
  let d : Backend := { name := "" }
  return {
    name := ← field? find "name" text? none
    provider := ← field? find "provider" text? (some d.provider)
    baseUrl := ← field? find "base_url" text? (some d.baseUrl)
    apiKey := ← field? find "api_key" (optional? text?) (some d.apiKey)
    maxTokens := ← field? find "max_tokens" (nat? 32) (some d.maxTokens)
    temperature := ← field? find "temperature" (float? .single) (some d.temperature)
    timeoutSeconds := ← field? find "timeout_seconds" (nat? 64) (some d.timeoutSeconds)
    maxRetries := ← field? find "max_retries" (nat? 64) (some d.maxRetries)
    extra := ← field? find "extra" Config.fields? (some d.extra) }

/-- The fields of the output settings, in order. -/
def outputFields : List String :=
  ["output_directory", "generate_unit_tests", "generate_mermaid", "generate_plantuml",
    "mermaid_naming", "plantuml_naming", "mermaid_output_path", "plantuml_output_path",
    "target_coverage", "stage_timeout_secs", "concurrency", "collision_policy"]

/-- The output settings. -/
def output? (r : Reading) (value : Json) : Option Output := do
  let find ← finder? r outputFields value
  let d : Output := {}
  return {
    directory := ← field? find "output_directory" text? (some d.directory)
    unitTests := ← field? find "generate_unit_tests" bool? (some d.unitTests)
    mermaid := ← field? find "generate_mermaid" bool? (some d.mermaid)
    plantUml := ← field? find "generate_plantuml" bool? (some d.plantUml)
    mermaidNaming := ← field? find "mermaid_naming" (naming? r) (some d.mermaidNaming)
    plantUmlNaming := ← field? find "plantuml_naming" (naming? r) (some d.plantUmlNaming)
    mermaidPath := ← field? find "mermaid_output_path" (optional? text?) (some d.mermaidPath)
    plantUmlPath := ← field? find "plantuml_output_path" (optional? text?) (some d.plantUmlPath)
    targetCoverage := ← field? find "target_coverage" (float? .double) (some d.targetCoverage)
    stageTimeoutSecs := ← field? find "stage_timeout_secs" (nat? 64) (some d.stageTimeoutSecs)
    concurrency := ← field? find "concurrency" (nat? 64) (some d.concurrency)
    collision := ← field? find "collision_policy" (collision? r) (some d.collision) }

/-- The fields of the source settings, in order. -/
def sourcesFields : List String :=
  ["include_private_members", "max_threads", "supported_languages", "max_file_size",
    "include_patterns", "exclude_patterns"]

/-- The source settings. -/
def sources? (r : Reading) (value : Json) : Option Sources := do
  let find ← finder? r sourcesFields value
  let d : Sources := {}
  return {
    includePrivate := ← field? find "include_private_members" bool? (some d.includePrivate)
    maxThreads := ← field? find "max_threads" (optional? (nat? 64)) (some d.maxThreads)
    languages := ← field? find "supported_languages" (list? text?) (some d.languages)
    maxFileSize := ← field? find "max_file_size" (nat? 64) (some d.maxFileSize)
    includePatterns := ← field? find "include_patterns" (list? text?) (some d.includePatterns)
    excludePatterns := ← field? find "exclude_patterns" (list? text?) (some d.excludePatterns) }

/-- A configuration. -/
def read? (r : Reading) (value : Json) : Option Config := do
  let find ← finder? r ["llm_models", "output", "analysis"] value
  return {
    backends := ← field? find "llm_models" (list? (backend? r)) (some [])
    output := ← field? find "output" (output? r) (some {})
    sources := ← field? find "analysis" (sources? r) (some {}) }

end Docsmith.Config
