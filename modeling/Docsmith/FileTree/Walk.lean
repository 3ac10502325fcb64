import Docsmith.FileTree.Basic
import Docsmith.Path
import Docsmith.Text.Basic
/-!
# File trees — walking

The files below a directory in ascending order of their places, without
those that ignore files rule out. Every directory may hold the ignore files
`.ignore`, `.gitignore` and `.git/info/exclude`, which speak of what is
below it. Of two files of one kind the deeper one is asked first, and of
two kinds the one named first here. What is below an ignored directory is
not looked at. Links are listed and not gone through.
-/

/-! ## Ignore files

A line of an ignore file is a rule: a pattern, which a leading `!` turns
into an exception and a slash at the end restricts to directories. A
pattern with no slash but at its end counts at any depth. Of the rules of
a file that hold for a path the last one decides.
-/

namespace Docsmith.Ignore

/-! ## Patterns

The patterns of ignore files. A pattern and the paths it is held against
are read octet by octet. `?` stands for an octet and `*` for a run of
octets, neither for a slash; `[…]` for one of some octets, and `[!…]` or
`[^…]` for one of the others; `{…,…}` for one of some patterns; a
backslash takes away the meaning of what follows it. `**` as a whole
component stands for any run of components. A pattern with braces is the
list of the patterns without braces that it stands for.
-/

/-- A text as octets, each as the character of its number. -/
def octets (text : String) : List Char :=
  text.toUTF8.data.toList.map fun octet => Char.ofNat octet.toNat

/-- A part of a pattern. -/
inductive Token where
  | char (c : Char)
  | anyChar
  | anyRun
  | fromStart
  | between
  | below
  | member (isNegated : Bool) (ranges : List (Char × Char))
  deriving DecidableEq, Repr

/-- What is left of a text after a run without a slash. -/
def runs : List Char → List (List Char)
  | [] => [[]]
  | c :: text => (c :: text) :: (if c == '/' then [] else runs text)

/-- What is left of a text after any run. -/
def tails : List Char → List (List Char)
  | [] => [[]]
  | c :: text => (c :: text) :: tails text

/-- What is left of a text after each of its slashes. -/
def afterEachSlash : List Char → List (List Char)
  | [] => []
  | c :: text => if c == '/' then text :: afterEachSlash text else afterEachSlash text

/-- What is left of a text after what a token can stand for. -/
def Token.remainders : Token → List Char → List (List Char)
  | .char d, c :: text => if c == d then [text] else []
  | .anyChar, c :: text => if c == '/' then [] else [text]
  | .member isNegated ranges, c :: text =>
    if ranges.any (fun (low, high) => low ≤ c && c ≤ high) == isNegated then [] else [text]
  | .anyRun, text => runs text
  | .fromStart, text => text :: afterEachSlash text
  | .between, '/' :: text => text :: afterEachSlash text
  | .below, '/' :: text => tails text
  | _, _ => []

/-- The tokens stand for the whole text. -/
def stands : List Token → List Char → Bool
  | [], text => text.isEmpty
  | token :: tokens, text => (token.remainders text).any (stands tokens)

/-- How a bracket ends. -/
inductive Bracket where
  | unclosed
  | disordered
  | closed (ranges : List (Char × Char)) (rest : List Char)

/-- Reads the members of a bracket. The first character inside is a member
whatever it is, and so is a hyphen at the end; `ranges` holds the members
so far, the last one first, and `isRange` tells that its end comes next. -/
def bracket (isFirst isRange : Bool) (ranges : List (Char × Char)) : List Char → Bracket
  | [] => .unclosed
  | c :: text =>
    if c == ']' && !isFirst then
      .closed ((if isRange then [('-', '-')] else []) ++ ranges) text
    else if c == '-' && !isFirst && !isRange then bracket false true ranges text
    else
      match isRange, ranges with
      | true, (low, _) :: others =>
        if c < low then .disordered else bracket false false ((low, c) :: others) text
      | _, _ => bracket false false ((c, c) :: ranges) text

/-- A level of braces: the branches that are complete and the one being
read, each as the token lists it stands for, the last token first. -/
structure Level where
  finished : List (List Token) := []
  current : List (List Token) := [[]]
  isFresh : Bool := true

namespace Level

/-- Appends a token to the branch being read. -/
def push (token : Token) (l : Level) : Level :=
  { l with current := l.current.map (token :: ·), isFresh := false }

/-- Turns the slash before a run of components into that run. -/
def widen (token : Token) (l : Level) : Level :=
  { l with current := l.current.map fun tokens =>
      match tokens with
      | .fromStart :: _ | .below :: _ => tokens
      | _ => token :: tokens.drop 1 }

/-- Begins the next branch. -/
def comma (l : Level) : Level :=
  { l with finished := l.finished ++ l.current, current := [[]], isFresh := true }

/-- Appends what the branches of an inner level stand for. Empty branches
do not count. -/
def close (inner l : Level) : Level :=
  let branches := (inner.finished ++ inner.current).filter (!·.isEmpty)
  { l with
    current :=
      if branches.isEmpty then l.current
      else l.current.flatMap fun tokens => branches.map (· ++ tokens)
    isFresh := false }

end Level

/-- Reads on inside levels of braces; `previous` is the character before.
A bracket that is not closed is a plain character, and so are all after
it. A text may be no pattern. -/
def readFrom : (fuel : Nat) → (brackets : Bool) → (previous : Option Char) → (level : Level) →
    (outer : List Level) → List Char → Option (List (List Token))
  | 0, _, _, _, _, _ => none
  | _ + 1, _, _, level, outer, [] =>
    if outer.isEmpty then some (level.current.map List.reverse) else none
  | fuel + 1, brackets, previous, level, outer, c :: rest =>
    let go (level : Level) := readFrom fuel brackets (some c) level outer rest
    match c, rest with
    | '?', _ => go (level.push .anyChar)
    | '*', '*' :: after =>
      let isWhole := after.isEmpty || after.head? == some '/'
      let closes := after.isEmpty ||
        (!outer.isEmpty && (after.head? == some ',' || after.head? == some '\x7d'))
      if level.isFresh && isWhole then
        readFrom fuel brackets (some '/') (level.push .fromStart) outer (after.drop 1)
      else if !level.isFresh && previous == some '/' && closes then
        readFrom fuel brackets (some '*') (level.widen .below) outer after
      else if !level.isFresh && previous == some '/' && isWhole then
        readFrom fuel brackets (some '/') (level.widen .between) outer (after.drop 1)
      else readFrom fuel brackets (some '*') (level.push .anyRun) outer after
    | '*', _ => go (level.push .anyRun)
    | '[', _ =>
      let isNegated := rest.head? == some '!' || rest.head? == some '^'
      match brackets, bracket true false [] (rest.drop (if isNegated then 1 else 0)) with
      | true, .closed ranges after =>
        readFrom fuel true (some ']') (level.push (.member isNegated ranges)) outer after
      | true, .disordered => none
      | _, _ => readFrom fuel false (some c) (level.push (.char c)) outer rest
    | '\x7b', _ => readFrom fuel brackets (some c) {} (level :: outer) rest
    | '\x7d', _ =>
      match outer with
      | [] => none
      | l :: outer => readFrom fuel brackets (some c) (l.close level) outer rest
    | ',', _ => go (if outer.isEmpty then level.push (.char c) else level.comma)
    | '\\', d :: after => readFrom fuel brackets (some d) (level.push (.char d)) outer after
    | '\\', [] => none
    | _, _ => go (level.push (.char c))

/-- Reads a pattern. One that is `**` and nothing else stands for every
text. -/
def parse? (pattern : List Char) : Option (List (List Token)) :=
  (readFrom (pattern.length + 1) true none {} [] pattern).map fun branches =>
    if branches == [[.fromStart]] then [[.fromStart, .anyRun]] else branches

/-! ## Rules -/

/-- What a rule says of a path. -/
inductive Verdict where
  | ignored
  | kept
  deriving DecidableEq, Repr

/-- A rule of an ignore file. -/
structure Rule where
  pattern : List (List Token)
  verdict : Verdict
  directoriesOnly : Bool
  deriving DecidableEq, Repr

namespace Rule

/-- The pattern that counts: at any depth where it has no slash, and only
for what is inside where it ends in `/**`. -/
def completed (isRooted : Bool) (pattern : List Char) : List Char :=
  let anywhere := ['*', '*', '/']
  let placed :=
    if isRooted || pattern.contains '/' || pattern == ['*', '*'] then pattern
    else anywhere ++ pattern
  if Text.endsWith ['/', '*', '*'] placed then placed ++ ['/', '*'] else placed

/-- A line without the blanks at its end, but for one after a backslash. -/
def trimmed (line : List Char) : List Char :=
  if Text.endsWith ['\\', ' '] line then line else Text.trimEnd line

/-- The rule of a line, if it is one. -/
def ofLine? (line : List Char) : Option Rule :=
  let line := trimmed line
  if line.isEmpty || line.head? == some '#' then none
  else
    let (verdict, isRooted, body) : Verdict × Bool × List Char :=
      match line with
      | '\\' :: '!' :: _ | '\\' :: '#' :: _ => (.ignored, false, line.drop 1)
      | '!' :: '/' :: rest => (.kept, true, rest)
      | '!' :: rest => (.kept, false, rest)
      | '/' :: rest => (.ignored, true, rest)
      | _ => (.ignored, false, line)
    let directoriesOnly := body.getLast? == some '/'
    let body :=
      if directoriesOnly then (Text.dropEnd? ['\\'] body.dropLast).getD body.dropLast else body
    (parse? (octets (String.ofList (completed isRooted body)))).map fun pattern =>
      ⟨pattern, verdict, directoriesOnly⟩

/-- The rule holds for a path. -/
def holds (r : Rule) (path : List Char) (isDirectory : Bool) : Bool :=
  (!r.directoriesOnly || isDirectory) && r.pattern.any (stands · path)

end Rule

/-- The lines of a file up to the first that is no text. -/
def fileLines (content : ByteArray) : List (List Char) :=
  let pieces : List (List UInt8) := content.data.toList.foldr
    (fun octet lines =>
      if octet = 10 then [] :: lines
      else
        match lines with
        | [] => [[octet]]
        | line :: lines => (octet :: line) :: lines)
    [[]]
  let texts := pieces.map fun piece => String.fromUTF8? ⟨piece.toArray⟩
  (texts.takeWhile Option.isSome).map fun text => Text.dropReturn (text.getD "").toList

/-- The rules of an ignore file. -/
def rules (content : ByteArray) : List Rule :=
  let lines := match fileLines content with
    | ('\ufeff' :: line) :: lines => line :: lines
    | lines => lines
  lines.filterMap Rule.ofLine?

/-- What rules say of a path: the last that holds decides. -/
def verdict? (rules : List Rule) (path : List Char) (isDirectory : Bool) : Option Verdict :=
  (rules.reverse.find? (·.holds path isDirectory)).map (·.verdict)

end Docsmith.Ignore

/-! ## What is left of a directory -/

namespace Docsmith.FileTree

open Ignore

/-- The kinds of ignore files, by the place they have in a directory. -/
def ignoreFiles : List Place :=
  [[".ignore"], [".gitignore"], [".git", "info", "exclude"]]

/-- The directories of a tree, the root first. -/
def directories (t : FileTree) : List Place :=
  [] :: t.nodes.filterMap fun (place, node) => if node.isDirectory then some place else none

/-- The directories and the rules of their ignore files of one kind. A link
may lead to such a file. -/
def rulesOf (t : FileTree) (kind : Place) : List (Place × List Rule) :=
  t.directories.filterMap fun place =>
    (t.read? [] ("/" ++ "/".intercalate (place ++ kind))).map fun content => (place, rules content)

/-- What ignore files of one kind say of an entry: the deepest directory
above it that has a say decides. -/
def verdictOf (table : List (Place × List Rule)) (place : Place) (isDirectory : Bool) :
    Option Verdict :=
  (List.range place.length).reverse.findSome? fun depth =>
    (table.find? (·.1 == place.take depth)).bind fun (_, rules) =>
      verdict? rules (octets ("/".intercalate (place.drop depth))) isDirectory

/-- An entry is ruled out by the ignore files of its tree. -/
def isIgnored (t : FileTree) (tables : List (List (Place × List Rule))) (place : Place) : Bool :=
  let isDirectory := (t.get? place).any Node.isDirectory
  tables.findSome? (verdictOf · place isDirectory) == some .ignored

/-- No entry on the way from a directory to a place is ruled out. -/
def isOpen (t : FileTree) (tables : List (List (Place × List Rule))) (base rest : Place) : Bool :=
  (List.range rest.length).all fun depth =>
    !t.isIgnored tables (base ++ rest.take (depth + 1))

/-- The paths of the files and links below a directory, in the order of
their places; a path to a file stands for itself. -/
def walk (t : FileTree) (here : Place) (root : String) : List String :=
  match t.resolve here root with
  | .ok (.directory base) =>
    let tables := ignoreFiles.map t.rulesOf
    t.nodes.filterMap fun (place, node) =>
      let rest := place.drop base.length
      if base.isPrefixOf place && !node.isDirectory && t.isOpen tables base rest then
        some (Path.join root ("/".intercalate rest))
      else none
  | .ok (.file _ _) => [root]
  | _ => []

end Docsmith.FileTree
