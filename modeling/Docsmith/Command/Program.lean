import Docsmith.Command.Line
import Docsmith.Config.Basic
import Docsmith.Config.Load
import Docsmith.Config.Render
import Docsmith.Generation.Run
import Docsmith.Report
import Docsmith.Scan.Project
import Docsmith.Sink.Disk
/-!
# Commands

What the program does when it is asked to: report on a project, write its
documents, and show or make configurations. A command is a function of the
file tree and of what else it finds around it; it gives a result, what it
prints, and the tree it leaves.
-/

/-! ## Lines for a terminal

The kinds of lines that commands print. Each text ends its last line.
-/

namespace Docsmith.Console

/-- Tells that something is done. -/
def success (message : String) : String :=
  "✓ " ++ message ++ "\n"

/-- Warns. -/
def warning (message : String) : String :=
  "⚠ " ++ message ++ "\n"

/-- Informs. -/
def info (message : String) : String :=
  "ℹ " ++ message ++ "\n"

/-- A heading after an empty line. -/
def header (message : String) : String :=
  "\n" ++ message ++ "\n"

/-- A heading after an empty line, with a rule below. -/
def titled (message : String) : String :=
  header message ++ String.ofList (List.replicate 40 '─') ++ "\n"

/-- A text filled up with spaces. -/
def padded (width : Nat) (text : String) : String :=
  text ++ String.ofList (List.replicate (width - text.length) ' ')

/-- A labelled value. -/
def field (label value : String) : String :=
  "  " ++ padded 10 (label ++ ":") ++ " " ++ value ++ "\n"

/-- A labelled path, with a mark that tells whether something is there. -/
def pathStatus (label path : String) (isPresent : Bool) : String :=
  "  " ++ padded 9 (label ++ ":") ++ " " ++ (if isPresent then "✓" else "✗") ++ " " ++ path ++ "\n"

end Docsmith.Console

/-! ## Commands -/

namespace Docsmith.Command

open Console

/-- What a command finds around it: the working directory as a place and
as a path, the environment, how model backends reply, and the time as
documents and reports tell it. -/
structure Surroundings where
  here : Place := []
  directory : String := "/"
  environment : List (String × String) := []
  backends : Model.Backends
  generatedOn : String
  analyzedAt : String

/-- What a command did. -/
structure Done (α : Type) where
  result : Except Failure α
  printed : String
  tree : FileTree

namespace Done

variable {α β : Type}

/-- A command that leaves the tree as it is and prints only if it
succeeds. -/
def ofText (t : FileTree) (text : Except Failure String) : Done Unit :=
  ⟨text.map fun _ => (), text.toOption.getD "", t⟩

/-- Goes on after a command unless it failed. -/
def andThen (d : Done α) (next : FileTree → Done β) : Done β :=
  match d.result with
  | .error f => ⟨.error f, d.printed, d.tree⟩
  | .ok _ =>
    let e := next d.tree
    { e with printed := d.printed ++ e.printed }

/-- Prints something before. -/
def after (text : String) (d : Done α) : Done α :=
  { d with printed := text ++ d.printed }

end Done

/-! ## Reports -/

/-- The report for a terminal. -/
def terminalReport (a : Analysis) : String :=
  let languages := Report.languages a
  header ("Analysis: " ++ a.projectName) ++ info a.counts.summary ++ titled "Elements" ++
    String.join (Element.Kind.all.map fun kind =>
      field kind.description (toString (a.ofKind kind).length)) ++
    (if languages.isEmpty then ""
      else titled "Languages" ++ String.join (languages.map fun (name, files) =>
        field name (toString files ++ " files"))) ++
    (if a.elements.isEmpty then warning "No code elements found"
      else "\nTo generate documentation, run: documentor generate\n")

/-- Reports on a project. -/
def analyze (s : Surroundings) (root : String) (c : Config) (format : Report.Format)
    (t : FileTree) : Done Unit :=
  .ofText t do
    let a ← Scan.project t s.here root c.sources
    match format with
    | .text => return terminalReport a
    | _ => return (← Report.render a s.analyzedAt format) ++ "\n"

/-! ## Configurations -/

/-- Shows a configuration. -/
def showConfig (c : Config) (format : Config.Format) (t : FileTree) : Done Unit :=
  .ofText t ((c.render format).map (· ++ "\n"))

/-- Shows where configuration files would be, and which are there. -/
def configPaths (s : Surroundings) (t : FileTree) : Done Unit :=
  let status (label path : String) : String :=
    pathStatus label path (t.isPresent s.here path)
  let own := match Config.userFile? s.environment with
    | some path => status "Global" path
    | none => field "Global" "(not available)"
  .ofText t (.ok (titled "Configuration paths" ++ own ++ status "Project" Config.projectFile))

/-- Makes the configuration of a project. -/
def initConfig (s : Surroundings) (root : String) (force : Bool) (t : FileTree) : Done Unit :=
  let (result, t) := Config.initProject t s.here root force
  .ofText t (result.map fun file =>
    success "Initialized project configuration" ++ field "Config" file)

/-! ## Documents -/

/-- What is said where no model backend is configured. -/
def noBackendsNotice : String :=
  warning "No LLM models configured; documents will contain placeholder text" ++
    info "Run 'documentor config init' to create a project config"

/-- Writes the documents of a project that has been analysed; the result
is the output directory. -/
def document (s : Surroundings) (c : Config) (a : Analysis) (t : FileTree) : Done String :=
  let job : Generation.Job :=
    { config := c, analysis := a, limits := .ofOutput c.output, backends := s.backends
      generatedOn := s.generatedOn }
  let run := job.run (Sink.disk c.output.collision s.here) { tree := t }
  let notice := match run.result with
    | .ok directory => success ("Documentation generated: " ++ Path.join directory "README.md")
    | .error _ => ""
  ⟨run.result, notice, run.state.tree⟩

/-- Writes the documents of a project. -/
def generate (s : Surroundings) (root : String) (c : Config) (o : Config.Overrides) (t : FileTree) :
    Done String :=
  let c := o.apply c
  match c.check with
  | .error f => ⟨.error f, "", t⟩
  | .ok () =>
    Done.after (if c.backends.isEmpty then noBackendsNotice else "") <|
      match Scan.project t s.here root c.sources with
      | .error f => ⟨.error f, "", t⟩
      | .ok a => Done.after (info a.counts.summary) (document s c a t)

/-! ## The program

A run of the program reads its line, loads the configuration and does what
is asked. It ends with a code: nought where all went well, one where a
command failed, two where the line could not be read.
-/

/-- What a run of the program leaves: its code, what it printed and
complained of, and the tree. -/
structure Ended where
  code : Nat
  printed : String := ""
  complained : String := ""
  tree : FileTree

/-- The program's name and version. -/
def version : String :=
  "documentor 0.1.0\n"

/-- How the program is used. -/
def usage : String :=
  "Usage: documentor [OPTIONS] <COMMAND>\n\nCommands:\n  analyze\n  generate\n  config\n  help\n"

/-- A failure with what caused it. -/
def withCauses : Failure → String
  | .io m => (Failure.io m).message ++ ": " ++ m
  | f => f.message

/-- What is said of a failure: its head is red on a terminal. -/
def complaint (f : Failure) : String :=
  "\x1b[31mError:\x1b[0m " ++ withCauses f ++ "\n"

/-- The end of a run that came to a command. -/
def Ended.ofDone {α : Type} (d : Done α) : Ended :=
  match d.result with
  | .ok _ => { code := 0, printed := d.printed, tree := d.tree }
  | .error f => { code := 1, printed := d.printed, complained := complaint f, tree := d.tree }

/-- Does what a line asks for. -/
def perform (s : Surroundings) (line : Line) (t : FileTree) : Ended :=
  let configured (run : Config → Ended) : Ended :=
    match Config.load t s.here s.environment line.config with
    | .ok c => run c
    | .error f => { code := 1, complained := complaint f, tree := t }
  match line.request with
  | .analyze root format => configured fun c => .ofDone (analyze s root c format t)
  | .generate root overrides => configured fun c => .ofDone (generate s root c overrides t)
  | .showConfig format => configured fun c => .ofDone (showConfig c format t)
  | .configPaths => .ofDone (configPaths s t)
  | .initConfig force => .ofDone (initConfig s s.directory force t)

/-- Runs the program on the words of its line. -/
def program (s : Surroundings) (words : List String) (t : FileTree) : Ended :=
  let fromEnvironment := (s.environment.find? (·.1 == "DOCUMENTOR_CONFIG")).map (·.2)
  match Line.read words fromEnvironment with
  | .ok line => perform s line t
  | .error .version => { code := 0, printed := version, tree := t }
  | .error .help => { code := 0, printed := usage, tree := t }
  | .error .misuse => { code := 2, complained := usage, tree := t }

end Docsmith.Command
