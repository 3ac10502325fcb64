import Docsmith.Path
import Docsmith.FileTree.Basic
/-!
# File trees — changes

Making directories, writing, renaming and removing files. A change that
fails leaves the tree as it was, but for making a directory with all those
above it: the ones made before the failure stay.
-/

namespace Docsmith.FileTree

/-- A path without the slashes at its end. -/
def dropSlashes (path : String) : String :=
  match Text.dropAllEnd '/' path.toList with
  | [] => path
  | kept => String.ofList kept

/-- Makes one directory in a directory that exists. -/
def makeDirectory (t : FileTree) (here : Place) (path : String) : Except Error FileTree :=
  match t.locate here (dropSlashes path) with
  | .ok (.missing place) => .ok (t.insert place .directory)
  | .ok _ => .error .exists
  | .error e => .error e

/-- Makes one directory, or finds it made. -/
def haveDirectory (t : FileTree) (here : Place) (path : String) : Except Error Unit × FileTree :=
  match t.makeDirectory here path with
  | .ok made => (.ok (), made)
  | .error e => if t.isDirectory here path then (.ok (), t) else (.error e, t)

/-- Makes a directory and those above it; `depth` bounds how many. -/
def makeUpTo : (depth : Nat) → FileTree → (here : Place) → (path : String) →
    Except Error Unit × FileTree
  | 0, t, here, path => t.haveDirectory here path
  | depth + 1, t, here, path =>
    if path.isEmpty then (.ok (), t)
    else
      match t.makeDirectory here path with
      | .ok made => (.ok (), made)
      | .error .notFound =>
        match Path.parent? path with
        | none => (.error .notFound, t)
        | some above =>
          match makeUpTo depth t here above with
          | (.ok (), t) => t.haveDirectory here path
          | (.error e, t) => (.error e, t)
      | .error e => if t.isDirectory here path then (.ok (), t) else (.error e, t)

/-- Makes a directory and all those above it that are missing; the empty
path asks for none. -/
def makeDirectories (t : FileTree) (here : Place) (path : String) : Except Error Unit × FileTree :=
  makeUpTo (path.length + 1) t here path

/-- Writes a file, through links, in a directory that exists. -/
def writeFile (t : FileTree) (here : Place) (path : String) (content : ByteArray) :
    Except Error FileTree :=
  match t.resolve here path with
  | .ok (.file place _) | .ok (.missing place) => .ok (t.insert place (.file content))
  | .ok (.directory _) => .error .isDirectory
  | .ok (.link _ _) => .error .tooManyLinks
  | .error e => .error e

/-- The place that a renamed file gets: that of the path itself, where it
is a link too. A directory is not replaced by a file. -/
def landing (t : FileTree) (here : Place) (path : String) : Except Error Place :=
  let bare := dropSlashes path
  match t.locate here bare with
  | .error e => .error e
  | .ok spot =>
    if (pieces bare).getLast?.any fun piece => piece == "." || piece == ".." then .error .busy
    else if bare != path then .error .notDirectory
    else
      match spot with
      | .directory [] => .error .busy
      | .directory _ => .error .isDirectory
      | .file place _ | .link place _ | .missing place => .ok place

/-- Renames a file; a file or link of the new name is replaced. -/
def renameFile (t : FileTree) (here : Place) (source target : String) : Except Error FileTree :=
  match t.locate here source with
  | .error e => .error e
  | .ok (.file place content) =>
    match t.landing here target with
    | .ok goal => .ok ((t.erase place).insert goal (.file content))
    | .error e => .error e
  | .ok (.directory _) => .error .isDirectory
  | .ok _ => .error .notFound

/-- Removes a file or a link. -/
def removeFile (t : FileTree) (here : Place) (path : String) : Except Error FileTree :=
  match t.locate here path with
  | .ok (.file place _) | .ok (.link place _) => .ok (t.erase place)
  | .ok (.directory _) => .error .isDirectory
  | .ok (.missing _) => .error .notFound
  | .error e => .error e

end Docsmith.FileTree
