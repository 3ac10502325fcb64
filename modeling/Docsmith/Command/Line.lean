import Docsmith.Config.Basic
import Docsmith.Config.Render
import Docsmith.Report
/-!
# Commands — the command line

The words of a command line are read from left to right, level by level: a
level has switches, and either commands, each of which opens a level of its
own, or places for a word or two. A switch is long or a letter; letters may
be run together, and a value follows its switch after `=`, as the next
word, or, after a letter, at once. No switch stands twice on one level. The
first word that does not fit ends the reading, and so does one that asks
for help.
-/

namespace Docsmith.Command

/-- A switch. One that takes a value says which values will do. -/
structure Switch where
  name : String
  letter : Option Char := none
  accepts : Option (String → Bool) := none

/-- Why reading a line ends early. -/
inductive Stop where
  | misuse
  | help
  | version
  deriving DecidableEq, Repr

/-- The switches given on a level, each with its value, the last one
first. -/
abbrev Given := List (String × String)

/-- A level of the command line. -/
structure Level where
  switches : List Switch
  commands : List String := []
  places : Nat := 0
  isOutermost : Bool := false

/-- What the words of a level come to: its switches, its other words, and
the command that opens the next level with the words after it. -/
structure Words where
  given : Given := []
  places : List String := []
  next : Option (String × List String) := none
  deriving DecidableEq, Repr

namespace Words

/-- Notes a switch. -/
def note (s : Switch) (value : String) (w : Words) : Except Stop Words :=
  if w.given.any (·.1 == s.name) then .error .misuse
  else if s.accepts.any (!· value) then .error .misuse
  else .ok { w with given := (s.name, value) :: w.given }

/-- Notes a word in the next place, if there is one for it. -/
def place (l : Level) (word : String) (w : Words) : Except Stop Words :=
  if word.isEmpty || l.places ≤ w.places.length then .error .misuse
  else .ok { w with places := w.places ++ [word] }

end Words

/-- A word that may be a value or a place: it is no switch. -/
def isPlain (word : String) : Bool :=
  word == "-" || word.toList.head? != some '-'

/-- Reads letters run together. A letter whose value is the next word comes
back. -/
def readLetters (l : Level) : List Char → Words → Except Stop (Words × Option Switch)
  | [], w => .ok (w, none)
  | c :: letters, w =>
    if c = 'h' then .error .help
    else if c = 'V' && l.isOutermost then .error .version
    else
      match l.switches.find? (·.letter == some c) with
      | none => .error .misuse
      | some s =>
        if s.accepts.isNone then do readLetters l letters (← w.note s "")
        else
          match letters with
          | [] => .ok (w, some s)
          | '=' :: value => do return (← w.note s (String.ofList value), none)
          | value => do return (← w.note s (String.ofList value), none)

/-- Reads a long switch. One whose value is the next word comes back. -/
def readLong (l : Level) (text : List Char) (w : Words) : Except Stop (Words × Option Switch) :=
  let name := String.ofList (text.takeWhile (· != '='))
  let value? := match text.dropWhile (· != '=') with
    | '=' :: value => some (String.ofList value)
    | _ => none
  if name = "help" && value?.isNone then .error .help
  else if name = "version" && l.isOutermost && value?.isNone then .error .version
  else
    match l.switches.find? (·.name == name), value? with
    | none, _ => .error .misuse
    | some s, some value =>
      if s.accepts.isNone then .error .misuse else do return (← w.note s value, none)
    | some s, none =>
      if s.accepts.isNone then do return (← w.note s "", none) else .ok (w, some s)

/-- Reads the words of a level. -/
def Level.read (l : Level) : List String → Words → Except Stop Words
  | [], w => .ok w
  | [word], w => do
    if word = "--" then .ok w
    else if isPlain word then
      if l.commands.contains word then .ok { w with next := some (word, []) } else w.place l word
    else
      match ← readSwitch word w with
      | (w, none) => .ok w
      | (_, some _) => .error .misuse
  | word :: following :: rest, w => do
    if word = "--" then (following :: rest).foldlM (fun w word => w.place l word) w
    else if isPlain word then
      if l.commands.contains word then .ok { w with next := some (word, following :: rest) }
      else l.read (following :: rest) (← w.place l word)
    else
      match ← readSwitch word w with
      | (w, none) => l.read (following :: rest) w
      | (w, some s) =>
        if isPlain following then l.read rest (← w.note s following) else .error .misuse
where
  /-- Reads a word that starts with a hyphen. -/
  readSwitch (word : String) (w : Words) : Except Stop (Words × Option Switch) :=
    match word.toList with
    | '-' :: '-' :: text => readLong l text w
    | '-' :: letters => readLetters l letters w
    | _ => .error .misuse

/-! ## The program's line -/

/-- A path is not empty. -/
def acceptsPath (value : String) : Bool :=
  !value.isEmpty

/-- The switches that every level has. -/
def commonSwitches : List Switch :=
  [⟨"config", some 'c', some acceptsPath⟩, ⟨"verbose", none, none⟩, ⟨"quiet", some 'q', none⟩]

/-- The outermost level. -/
def outermost : Level :=
  { switches := commonSwitches, commands := ["analyze", "generate", "config", "help"]
    isOutermost := true }

/-- The level of reports. -/
def analyzeLevel : Level :=
  { switches := commonSwitches ++
      [⟨"format", some 'f', some fun name => (Report.Format.ofName name).toOption.isSome⟩]
    places := 1 }

/-- The level of documents. -/
def generateLevel : Level :=
  { switches := commonSwitches ++
      [⟨"output", some 'o', some acceptsPath⟩, ⟨"mermaid", none, none⟩, ⟨"plantuml", none, none⟩,
        ⟨"mermaid-output", none, some acceptsPath⟩, ⟨"plantuml-output", none, some acceptsPath⟩,
        ⟨"include-private", none, none⟩, ⟨"no-tests", none, none⟩]
    places := 1 }

/-- The level of configurations. -/
def configLevel : Level :=
  { switches := commonSwitches, commands := ["show", "path", "init", "help"] }

/-- The level of showing a configuration. -/
def showLevel : Level :=
  { switches := commonSwitches ++
      [⟨"format", some 'f', some fun name => (Config.Format.ofName name).toOption.isSome⟩] }

/-- The level of configuration paths. -/
def pathLevel : Level :=
  { switches := commonSwitches }

/-- The level of making a configuration. -/
def initLevel : Level :=
  { switches := commonSwitches ++ [⟨"force", none, none⟩] }

/-- What a line asks for. -/
inductive Request where
  | analyze (root : String) (format : Report.Format)
  | generate (root : String) (overrides : Config.Overrides)
  | showConfig (format : Config.Format)
  | configPaths
  | initConfig (force : Bool)
  deriving DecidableEq, Repr

/-- A request and the configuration file that is named for it. -/
structure Line where
  config : Option String
  request : Request
  deriving DecidableEq, Repr

/-- The value of a switch. -/
def value? (given : Given) (name : String) : Option String :=
  (given.find? (·.1 == name)).map (·.2)

/-- A switch is given. -/
def has (given : Given) (name : String) : Bool :=
  given.any (·.1 == name)

/-- The project that a line names, or the working directory. -/
def rootOf (w : Words) : String :=
  w.places.head?.getD "."

/-- What is asked for in one run of documents. -/
def overridesOf (given : Given) : Config.Overrides :=
  { output := value? given "output", mermaid := has given "mermaid"
    plantUml := has given "plantuml", mermaidPath := value? given "mermaid-output"
    plantUmlPath := value? given "plantuml-output", includePrivate := has given "include-private"
    noTests := has given "no-tests" }

/-- Reads the words after `config`. -/
def readConfig (words : List String) : Except Stop (Given × Request) := do
  let own ← configLevel.read words {}
  match own.next with
  | some ("show", rest) =>
    let w ← showLevel.read rest {}
    let format := ((value? w.given "format").bind fun f => (Config.Format.ofName f).toOption)
    return (w.given ++ own.given, .showConfig (format.getD .toml))
  | some ("path", rest) =>
    let w ← pathLevel.read rest {}
    return (w.given ++ own.given, .configPaths)
  | some ("init", rest) =>
    let w ← initLevel.read rest {}
    return (w.given ++ own.given, .initConfig (has w.given "force"))
  | some _ => .error .help
  | none => .error .misuse

/-- Reads a line. A configuration file that is named on an inner level
counts before one on an outer level, and both before that of the
environment. -/
def Line.read (words : List String) (fromEnvironment : Option String) : Except Stop Line := do
  let own ← outermost.read words {}
  let (given, request) : Given × Request ← match own.next with
    | some ("analyze", rest) =>
      let w ← analyzeLevel.read rest {}
      let format := ((value? w.given "format").bind fun f => (Report.Format.ofName f).toOption)
      pure (w.given, .analyze (rootOf w) (format.getD .text))
    | some ("generate", rest) =>
      let w ← generateLevel.read rest {}
      pure (w.given, .generate (rootOf w) (overridesOf w.given))
    | some ("config", rest) => readConfig rest
    | some _ => .error .help
    | none => .error .misuse
  let named := value? (given ++ own.given) "config"
  match named.or fromEnvironment with
  | some "" => .error .misuse
  | config => return ⟨config, request⟩

end Docsmith.Command
