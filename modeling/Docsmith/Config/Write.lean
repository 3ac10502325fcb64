import Docsmith.Config.Basic
/-!
# Configurations — writing as a value

The fields of each record in their fixed order. Keys of backends are left
out, and so are directories for diagrams that are not set. Other optional
fields that are not set are `null`, or left out where `null` cannot be
written; `showUnset` tells which.
-/

namespace Docsmith.Config

/-- A list of texts. -/
def textList (items : List String) : Json :=
  .array (items.map .string)

/-- A field that may be unset. -/
def optionalField (showUnset : Bool) (name : String) : Option Json → List (String × Json)
  | some value => [(name, value)]
  | none => if showUnset then [(name, .null)] else []

/-- A naming as a value. -/
def namingValue (showUnset : Bool) (n : Diagram.Naming) : Json :=
  .object <|
    ("prefix", .string n.before) :: optionalField showUnset "suffix" (n.after.map .string) ++
    optionalField showUnset "extension" (n.extension.map .string)

/-- A backend as a value, without its key. -/
def Backend.value (b : Backend) : Json :=
  .object [("name", .string b.name), ("provider", .string b.provider),
    ("base_url", .string b.baseUrl), ("max_tokens", .ofNat b.maxTokens),
    ("temperature", .number (.single b.temperature)),
    ("timeout_seconds", .ofNat b.timeoutSeconds), ("max_retries", .ofNat b.maxRetries),
    ("extra", .object b.extra)]

/-- The output settings as a value. -/
def Output.value (showUnset : Bool) (o : Output) : Json :=
  .object <|
    [("output_directory", .string o.directory), ("generate_unit_tests", .bool o.unitTests),
      ("generate_mermaid", .bool o.mermaid), ("generate_plantuml", .bool o.plantUml),
      ("mermaid_naming", namingValue showUnset o.mermaidNaming),
      ("plantuml_naming", namingValue showUnset o.plantUmlNaming)] ++
    optionalField false "mermaid_output_path" (o.mermaidPath.map .string) ++
    optionalField false "plantuml_output_path" (o.plantUmlPath.map .string) ++
    [("target_coverage", .number (.float o.targetCoverage)),
      ("stage_timeout_secs", .ofNat o.stageTimeoutSecs), ("concurrency", .ofNat o.concurrency),
      ("collision_policy", .string o.collision.name)]

/-- The source settings as a value. -/
def Sources.value (showUnset : Bool) (s : Sources) : Json :=
  .object <|
    ("include_private_members", .bool s.includePrivate) ::
      optionalField showUnset "max_threads" (s.maxThreads.map .ofNat) ++
    [("supported_languages", textList s.languages), ("max_file_size", .ofNat s.maxFileSize),
      ("include_patterns", textList s.includePatterns),
      ("exclude_patterns", textList s.excludePatterns)]

/-- A configuration as a value. -/
def value (showUnset : Bool) (c : Config) : Json :=
  .object [("llm_models", .array (c.backends.map (·.value))),
    ("output", c.output.value showUnset), ("analysis", c.sources.value showUnset)]

end Docsmith.Config
