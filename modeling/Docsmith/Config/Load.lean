import Docsmith.Failure
import Docsmith.Path
import Docsmith.FileTree.Change
import Docsmith.Config.Layers
/-!
# Configurations — loading

A configuration comes from a file that is named, or else from the user's
own file and the project's, where there are such; variables lie over
either.
-/

namespace Docsmith.Config

/-! ## A project's file

A project may hold a configuration of its own, in a directory made for it.
The file is made from a template that sets every common value.
-/

/-- The file that a project's configuration is in, from its root. -/
def projectFile : String :=
  ".documentor/config.toml"

/-- The lines of a new configuration. -/
def template : List String :=
  [ "# Documentor Project Configuration",
    "# Overrides the global config. DOCUMENTOR_* environment variables override both",
    "# (use \"__\" between levels, e.g. DOCUMENTOR_OUTPUT__GENERATE_MERMAID=true).",
    "",
    "# Every backend is asked for every element; results are merged.",
    "[[llm_models]]",
    "name = \"llama3\"",
    "provider = \"ollama\"",
    "base_url = \"http://localhost:11434\"",
    "max_tokens = 4096",
    "temperature = 0.7",
    "timeout_seconds = 30",
    "max_retries = 2",
    "",
    "# [[llm_models]]",
    "# name = \"gpt-4o\"",
    "# provider = \"openai\"",
    "# base_url = \"https://api.openai.com\"",
    "# api_key = \"sk-...\"",
    "",
    "[output]",
    "output_directory = \"docs\"",
    "generate_unit_tests = true",
    "generate_mermaid = true",
    "generate_plantuml = false",
    "# Diagram directories default to <output_directory>/diagrams",
    "# mermaid_output_path = \"docs/uml\"",
    "# plantuml_output_path = \"docs/uml\"",
    "target_coverage = 0.8",
    "stage_timeout_secs = 180",
    "concurrency = 4",
    "# overwrite | skip | suffix",
    "collision_policy = \"overwrite\"",
    "",
    "[output.mermaid_naming]",
    "prefix = \"\"",
    "suffix = \"_diagram\"",
    "",
    "[output.plantuml_naming]",
    "prefix = \"\"",
    "suffix = \"_diagram\"",
    "extension = \"plantuml\"",
    "",
    "[analysis]",
    "include_private_members = false",
    "supported_languages = [\"java\", \"python\"]",
    "max_file_size = 1048576",
    "include_patterns = [\"**/*.java\", \"**/*.py\"]",
    "exclude_patterns = [\"**/test/**\", \"**/target/**\"]" ]

/-- Makes the directory of a project's configuration and writes the file
unless there is one and it is not to be replaced. -/
def initProject (t : FileTree) (here : Place) (root : String) (force : Bool) :
    Except Failure String × FileTree :=
  let directory := Path.join root ".documentor"
  let file := Path.join directory "config.toml"
  match t.makeDirectories here directory with
  | (.error e, t) => (.error (.io e.message), t)
  | (.ok (), t) =>
    if t.isPresent here file && !force then (.ok file, t)
    else
      match t.writeFile here file ("\n".intercalate template ++ "\n").toUTF8 with
      | .ok t => (.ok file, t)
      | .error e => (.error (.io e.message), t)

/-! ## Loading -/

/-- The value of a variable that is not empty. -/
def nonEmpty? (environment : List (String × String)) (name : String) : Option String :=
  ((environment.find? (·.1 == name)).map (·.2)).filter (!·.isEmpty)

/-- The user's own configuration file, if it is known where it would be. -/
def userFile? (environment : List (String × String)) : Option String :=
  let base? := (nonEmpty? environment "XDG_CONFIG_HOME").or
    ((nonEmpty? environment "HOME").map (Path.join · ".config"))
  base?.map fun base => Path.join (Path.join base "documentor") "config.toml"

/-- The layer of a file; there is none where no file is. -/
def layersAt (t : FileTree) (here : Place) (isJson : Bool) (path : String) : List Layer :=
  match t.read? here path with
  | some content => [⟨isJson, String.fromUTF8? content⟩]
  | none => []

/-- The configuration in a file that is named. -/
def loadFile (t : FileTree) (here : Place) (environment : List (String × String)) (path : String) :
    Except Failure Config :=
  if t.isPresent here path then ofLayers (layersAt t here (isJsonPath path) path) environment
  else .error (.notFound path)

/-- The layers of a user's own file, if it is known where it would be, and of a
project's file. -/
def fileLayers (t : FileTree) (here : Place) (own : Option String) (project : String) :
    List Layer :=
  (own.map (layersAt t here false)).getD [] ++ layersAt t here false project

/-- The configuration in a user's own file and a project's file. -/
def loadFiles (t : FileTree) (here : Place) (environment : List (String × String))
    (own : Option String) (project : String) : Except Failure Config :=
  ofLayers (fileLayers t here own project) environment

/-- The configuration of a user in a project. -/
def loadLayered (t : FileTree) (here : Place) (environment : List (String × String)) :
    Except Failure Config :=
  loadFiles t here environment (userFile? environment) projectFile

/-- The configuration in a file if one is named, and else the user's. -/
def load (t : FileTree) (here : Place) (environment : List (String × String))
    (file : Option String) : Except Failure Config :=
  match file with
  | some path => loadFile t here environment path
  | none => loadLayered t here environment

end Docsmith.Config
