import Docsmith.Analysis
import Docsmith.Failure
import Docsmith.Json.Printer
import Docsmith.Language
import Docsmith.Yaml.Printer
/-!
# Reports on an analysis

A report tells what was found: as a text for a terminal, or whole, with
every element, in a format for other programs.
-/

namespace Docsmith

/-- The formats of a report. -/
inductive Report.Format where
  | text
  | json
  | yaml
  deriving DecidableEq, Repr

namespace Report

/-- The names a format goes by, in lower case. -/
def Format.names : Format → List String
  | .text => ["text"]
  | .json => ["json"]
  | .yaml => ["yaml", "yml"]

/-- The format with a name, in any case. -/
def Format.ofName (name : String) : Except String Format :=
  let lowered := String.ofList (Unicode.lower name.toList)
  match [Format.text, .json, .yaml].find? (·.names.contains lowered) with
  | some format => .ok format
  | none => .error ("Invalid format '" ++ name ++ "'. Valid values: text, json, yaml")

/-- The languages of the files that hold elements, in ascending order of
their names, with the number of files. -/
def languages (a : Analysis) : List (String × Nat) :=
  let names := a.files.map fun file => (Language.ofPath file).fence
  (names.foldl (fun keys name => Ordered.insertKey name keys) []).map fun name =>
    (name, names.count name)

/-- A list of texts as a value. -/
def texts (items : List String) : Json :=
  .array (items.map .string)

/-- An element as a value. -/
def elementValue (e : Element) : Json :=
  .object [("kind", .string e.kind.name), ("name", .string e.name),
    ("qualified_name", .string e.qualifiedName), ("file_path", .string e.file),
    ("line_number", .ofNat e.line), ("signature", .string e.signature),
    ("documentation", .string e.documentation), ("parameters", texts e.parameters),
    ("annotations", texts e.annotations)]

/-- Numbers as a value. -/
def countsValue (c : Analysis.Counts) : Json :=
  .object [("total", .ofNat c.total), ("classes", .ofNat c.classes), ("methods", .ofNat c.methods),
    ("fields", .ofNat c.fields), ("files", .ofNat c.files)]

/-- The whole report as a value, with the moment of the analysis. -/
def value (a : Analysis) (analyzedAt : String) : Json :=
  .object [("project", .string a.projectName), ("stats", countsValue a.counts),
    ("languages", .object ((languages a).map fun (name, files) => (name, .ofNat files))),
    ("elements", .object [("project_path", .string a.project),
      ("elements", .array (a.elements.map elementValue)), ("timestamp", .string analyzedAt)])]

/-- The report for other programs; a terminal's text is none. -/
def render (a : Analysis) (analyzedAt : String) : Format → Except Failure String
  | .json => .ok (value a analyzedAt).pretty
  | .yaml => .ok (Yaml.render (value a analyzedAt))
  | .text => .error (.config "text reports are printed directly")

end Report

end Docsmith
