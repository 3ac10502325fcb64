import Docsmith.Config.Write
import Docsmith.Failure
import Docsmith.Json.Printer
import Docsmith.Toml.Printer
import Docsmith.Unicode.Lowercase
import Docsmith.Yaml.Printer
/-!
# Configurations — shown to a reader

A configuration is shown in one of three formats, none of which tells a
key.
-/

namespace Docsmith.Config

/-- The formats. -/
inductive Format where
  | toml
  | json
  | yaml
  deriving DecidableEq, Repr

/-- The names a format goes by, in lower case. -/
def Format.names : Format → List String
  | .toml => ["toml", "text"]
  | .json => ["json"]
  | .yaml => ["yaml", "yml"]

/-- The format with a name, in any case. -/
def Format.ofName (name : String) : Except String Format :=
  let lowered := String.ofList (Unicode.lower name.toList)
  match [Format.toml, .json, .yaml].find? (·.names.contains lowered) with
  | some format => .ok format
  | none => .error ("Invalid format '" ++ name ++ "'. Valid values: toml, json, yaml")

/-- A configuration in a format. Not every free field of a backend can be
written as TOML. -/
def render (c : Config) : Format → Except Failure String
  | .toml =>
    match Toml.render? (c.value false) with
    | some text => .ok text
    | none => .error (.config "unsupported unit type")
  | .json => .ok (c.value true).pretty
  | .yaml => .ok (Yaml.render (c.value true))

end Docsmith.Config
