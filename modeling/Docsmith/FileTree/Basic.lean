import Docsmith.Text.Basic
/-!
# File trees — places and paths

A tree is a table of places, a place being the list of names on the way
from the root. At a place stands a directory, a file or a link to a path.
A path is followed from a starting directory, one piece after the other;
links on the way are replaced by what they lead to. Nothing here changes a
tree but `insert` and `erase`, and both act on one place.
-/

namespace Docsmith

/-- The names on the way from the root of a tree. -/
abbrev Place := List String

/-- What stands at a place. -/
inductive FileTree.Node where
  | directory
  | file (content : ByteArray)
  | link (target : String)

/-- Files are told apart by their octets and links by their targets. -/
instance : DecidableEq FileTree.Node
  | .directory, .directory => isTrue rfl
  | .file x, .file y =>
    @decidable_of_iff _ (x = y) ⟨congrArg FileTree.Node.file, FileTree.Node.file.inj⟩
      (ByteArray.instDecidableEq x y)
  | .link x, .link y =>
    decidable_of_iff (x = y) ⟨congrArg FileTree.Node.link, FileTree.Node.link.inj⟩
  | .directory, .file _ | .directory, .link _ | .file _, .directory
  | .file _, .link _ | .link _, .directory | .link _, .file _ => isFalse nofun

/-- The node is a directory. -/
def FileTree.Node.isDirectory : Node → Bool
  | .directory => true
  | _ => false

/-- A file tree: its places in ascending order and what stands there. The
root is a directory and is not listed. Names are texts, so a name that is no
UTF-8 has no place in a tree. -/
structure FileTree where
  nodes : List (Place × FileTree.Node) := []

namespace FileTree

/-- Why a tree cannot do what is asked. -/
inductive Error where
  | notFound
  | busy
  | exists
  | notDirectory
  | isDirectory
  | nameTooLong
  | tooManyLinks
  deriving DecidableEq, Repr

/-- The error in words, with its number. -/
def Error.message : Error → String
  | .notFound => "No such file or directory (os error 2)"
  | .busy => "Device or resource busy (os error 16)"
  | .exists => "File exists (os error 17)"
  | .notDirectory => "Not a directory (os error 20)"
  | .isDirectory => "Is a directory (os error 21)"
  | .nameTooLong => "File name too long (os error 36)"
  | .tooManyLinks => "Too many levels of symbolic links (os error 40)"

/-- What stands at a place. -/
def get? (t : FileTree) (place : Place) : Option Node :=
  if place.isEmpty then some .directory
  else (t.nodes.find? (·.1 == place)).map (·.2)

/-- Puts an entry in its place; what stood there is replaced. -/
def insertNode (place : Place) (node : Node) : List (Place × Node) → List (Place × Node)
  | [] => [(place, node)]
  | (other, old) :: rest =>
    if place = other then (place, node) :: rest
    else if place < other then (place, node) :: (other, old) :: rest
    else (other, old) :: insertNode place node rest

/-- Puts something at a place. -/
def insert (t : FileTree) (place : Place) (node : Node) : FileTree :=
  ⟨insertNode place node t.nodes⟩

/-- Takes away what stands at a place. -/
def erase (t : FileTree) (place : Place) : FileTree :=
  ⟨t.nodes.filter (·.1 != place)⟩

/-- Where a path leads. -/
inductive Spot where
  | directory (place : Place)
  | file (place : Place) (content : ByteArray)
  | link (place : Place) (target : String)
  | missing (place : Place)

/-- Where following a path ends, or the link at which it goes on. -/
inductive Stop where
  | spot (s : Spot)
  | jump (directory : Place) (target : String) (rest : List String)

/-- The pieces of a path. A slash at the end asks for a directory, as a
piece `.` does. -/
def pieces (path : String) : List String :=
  let all := (Text.splitChar '/' path.toList).map String.ofList
  all.filter (!·.isEmpty) ++ (if all.getLast? == some "" then ["."] else [])

/-- Where a path starts. -/
def start (here : Place) (path : String) : Place :=
  if path.toList.head? == some '/' then [] else here

/-- A name has at most 255 bytes. -/
def fits (name : String) : Bool :=
  name.utf8ByteSize ≤ 255

/-- Follows pieces from a directory up to the next link. A link that is
the last piece is gone through only when `through` says so. -/
def advance (t : FileTree) (through : Bool) : Place → List String → Except Error Stop
  | directory, [] => .ok (.spot (.directory directory))
  | directory, piece :: rest =>
    if piece = "." then advance t through directory rest
    else if piece = ".." then advance t through directory.dropLast rest
    else if !fits piece then .error .nameTooLong
    else
      match t.get? (directory ++ [piece]) with
      | some .directory => advance t through (directory ++ [piece]) rest
      | some (.link target) =>
        if rest.isEmpty && !through then .ok (.spot (.link (directory ++ [piece]) target))
        else .ok (.jump directory target rest)
      | some (.file content) =>
        if rest.isEmpty then .ok (.spot (.file (directory ++ [piece]) content))
        else .error .notDirectory
      | none =>
        if rest.isEmpty then .ok (.spot (.missing (directory ++ [piece]))) else .error .notFound

/-- Follows pieces from a directory through at most `links` links. -/
def follow (t : FileTree) (through : Bool) : (links : Nat) → Place → List String → Except Error Spot
  | links, directory, rest =>
    match t.advance through directory rest with
    | .error e => .error e
    | .ok (.spot s) => .ok s
    | .ok (.jump directory target rest) =>
      match links with
      | 0 => .error .tooManyLinks
      | links + 1 =>
        if target.isEmpty then .error .notFound
        else follow t through links (start directory target) (pieces target ++ rest)

/-- Follows a path from a directory through at most forty links. -/
def trace (t : FileTree) (through : Bool) (here : Place) (path : String) : Except Error Spot :=
  if path.isEmpty then .error .notFound
  else t.follow through 40 (start here path) (pieces path)

/-- Where a path leads from a directory. -/
def resolve (t : FileTree) (here : Place) (path : String) : Except Error Spot :=
  t.trace true here path

/-- What a path names from a directory: a link at its end is not gone
through. -/
def locate (t : FileTree) (here : Place) (path : String) : Except Error Spot :=
  t.trace false here path

/-- The path leads to a file or a directory. -/
def isPresent (t : FileTree) (here : Place) (path : String) : Bool :=
  match t.resolve here path with
  | .ok (.directory _) | .ok (.file _ _) => true
  | _ => false

/-- The path leads to a directory. -/
def isDirectory (t : FileTree) (here : Place) (path : String) : Bool :=
  match t.resolve here path with
  | .ok (.directory _) => true
  | _ => false

/-- The bytes of the file that a path leads to. -/
def read? (t : FileTree) (here : Place) (path : String) : Option ByteArray :=
  match t.resolve here path with
  | .ok (.file _ content) => some content
  | _ => none

/-- The text of the file that a path leads to, if its bytes are one. -/
def readText? (t : FileTree) (here : Place) (path : String) : Option String :=
  (t.read? here path).bind String.fromUTF8?

end FileTree

end Docsmith
