import Docsmith.Text.Basic
/-!
# Paths

A path is a text of components between slashes. Empty components and `.`
do not count, but for a `.` at the very start of a relative path; `..` is
kept. The last component is a file name unless it is `.` or `..`.
-/

namespace Docsmith.Path

/-- A part of a path. -/
inductive Component where
  | root
  | current
  | parent
  | name (s : List Char)
  deriving DecidableEq, Repr

/-- The component a piece between slashes stands for, if any. -/
def ofPiece? : List Char → Option Component
  | [] => none
  | ['.'] => none
  | ['.', '.'] => some .parent
  | s => some (.name s)

/-- The components of a path. -/
def components (path : List Char) : List Component :=
  let pieces := Text.splitChar '/' path
  let start : List Component := match pieces with
    | [] :: _ :: _ => [.root]
    | ['.'] :: _ => [.current]
    | _ => []
  start ++ pieces.filterMap ofPiece?

/-- Starts at the root. -/
def isAbsolute (path : String) : Bool :=
  path.toList.head? == some '/'

/-- The last component, if it is a name. -/
def fileName? (path : String) : Option String :=
  match (components path.toList).getLast? with
  | some (.name s) => some (String.ofList s)
  | _ => none

/-- Appends a path to a directory. An absolute path stands for itself. -/
def join (directory path : String) : String :=
  if isAbsolute path then path
  else if directory.isEmpty || directory.toList.getLast? == some '/' then directory ++ path
  else directory ++ "/" ++ path

/-- A file name cut at its last dot: stem and extension. A name whose only
dot is its first character has no extension. -/
def splitName (name : String) : String × Option String :=
  if name = ".." then (name, none)
  else
    match Text.splitLast? ['.'] name.toList with
    | none => (name, none)
    | some ([], _) => (name, none)
    | some (stem, extension) => (String.ofList stem, some (String.ofList extension))

/-- The extension of a path's file name. -/
def extension? (path : String) : Option String :=
  (fileName? path).bind fun name => (splitName name).2

/-- A piece that is no component of its own. -/
def isSilent (piece : List Char) : Bool :=
  piece.isEmpty || piece == ['.']

/-- The pieces after the first `count` components. -/
def dropComponents : Nat → List (List Char) → List (List Char)
  | 0, pieces => pieces
  | _ + 1, [] => []
  | count + 1, piece :: pieces =>
    if isSilent piece then dropComponents (count + 1) pieces else dropComponents count pieces

/-- Drops silent pieces at the end. -/
def trimPieces (pieces : List (List Char)) : List (List Char) :=
  (pieces.reverse.dropWhile isSilent).reverse

/-- The rest of a path below a directory whose components it starts with.
The rest keeps its own spelling, but for silent pieces around it. -/
def below? (directory path : String) : Option String :=
  let base := components directory.toList
  let pieces := Text.splitChar '/' path.toList
  if !base.isPrefixOf (components path.toList) then none
  else
    let rest : List (List Char) := match base, pieces with
      | [], [] :: piece :: more => [] :: trimPieces (piece :: more)
      | [], first :: more => first :: trimPieces more
      | .root :: below, _ => trimPieces ((dropComponents below.length pieces).dropWhile isSilent)
      | .current :: below, _ :: more =>
        trimPieces ((dropComponents below.length more).dropWhile isSilent)
      | base, _ => trimPieces ((dropComponents base.length pieces).dropWhile isSilent)
    match rest with
    | [[]] => if isAbsolute path && base.isEmpty then some "/" else some ""
    | _ => some (String.ofList (Text.join ['/'] rest))

/-- The pieces without the last one that counts. -/
def dropLastPiece (pieces : List (List Char)) : List (List Char) :=
  trimPieces (trimPieces pieces).dropLast

/-- The path above: the path without its last component, if it has one. The
path above a child of the root is the root in its plain spelling. -/
def parent? (path : String) : Option String :=
  let spelt (pieces : List (List Char)) := String.ofList (Text.join ['/'] pieces)
  match Text.splitChar '/' path.toList with
  | [] :: below =>
    if (trimPieces below).isEmpty then none
    else if (dropLastPiece below).isEmpty then some "/"
    else some (spelt ([] :: dropLastPiece below))
  | ['.'] :: below =>
    if (trimPieces below).isEmpty then some "" else some (spelt (['.'] :: dropLastPiece below))
  | pieces => some (spelt (dropLastPiece pieces))

/-- The path with another file name in place of its own; a path without
one gets it appended. -/
def withFileName (path name : String) : String :=
  if (fileName? path).isSome then join ((parent? path).getD "") name else join path name

/-- The path with a number at the end of its file name, before the
extension. -/
def suffixed (path : String) (n : Nat) : String :=
  let (stem, extension) := ((fileName? path).map splitName).getD ("", none)
  let numbered := stem ++ "_" ++ toString n
  withFileName path (match extension with
    | some e => numbered ++ "." ++ e
    | none => numbered)

end Docsmith.Path
