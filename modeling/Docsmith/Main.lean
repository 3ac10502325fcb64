import Docsmith.Command.Program
import Docsmith.Model.Exchange
import Docsmith.Time.Stamp
import Std.Time.DateTime.Timestamp
/-!
# The program

Takes a picture of the files that a run may look at, lets the program work
on it, and makes the changes it made. No connection to a model backend is
ever made: each is out of reach.
-/

namespace Docsmith.Main

/-- The place of an absolute path. -/
def placeOf (path : String) : Place :=
  (FileTree.pieces path).foldl (fun place piece =>
    if piece = "." then place else if piece = ".." then place.dropLast else place ++ [piece]) []

/-- The absolute path of a place. -/
def pathOf (place : Place) : String :=
  "/" ++ "/".intercalate place

/-- Puts something at a place and directories on the way to it. -/
def put (t : FileTree) (place : Place) (node : FileTree.Node) : FileTree :=
  let above := (List.range place.length).map place.take
  (above.foldl (fun t place =>
    if place.isEmpty || (t.get? place).isSome then t else t.insert place .directory) t).insert
      place node

/-- Adds an entry of a directory and all below it to a picture. -/
partial def addEntry (place : Place) (entry : IO.FS.DirEntry) (t : FileTree) : IO FileTree := do
  match (← entry.path.symlinkMetadata).type with
  | .symlink =>
    let target ← try pure (toString (← IO.FS.realPath entry.path)) catch _ => pure ""
    return put t place (.link target)
  | .dir =>
    let mut t := put t place .directory
    for inner in ← entry.path.readDir do
      t ← addEntry (place ++ [inner.fileName]) inner t
    return t
  | _ =>
    let content ← try IO.FS.readBinFile entry.path catch _ => pure ByteArray.empty
    return put t place (.file content)

/-- Adds what stands at a place, and all below it, to a picture. -/
def addPlace (t : FileTree) (place : Place) : IO FileTree := do
  match place.getLast? with
  | none => return t
  | some name =>
    let entry : IO.FS.DirEntry := ⟨pathOf place.dropLast, name⟩
    try addEntry place entry t catch _ => return t

/-- The ignore files above a place. -/
def ignoreFilesAbove (place : Place) : List Place :=
  (List.range place.length).flatMap fun depth => FileTree.ignoreFiles.map (place.take depth ++ ·)

/-- The picture of the working directory, of what the words of the line
name, and of the user's own configuration. -/
def picture (here : Place) (words : List String) (environment : List (String × String)) :
    IO FileTree := do
  let file := environment.filter (·.1 == "DOCUMENTOR_CONFIG")
  let named := (words ++ file.map (·.2)).map fun word => placeOf (Path.join (pathOf here) word)
  let own := (Config.userFile? environment).toList.map fun file =>
    placeOf (Path.join (pathOf here) file)
  let outside := named.filter fun place => 1 < place.length && !here.isPrefixOf place
  let places := [here] ++ (outside ++ own).eraseDups
  (places.flatMap ignoreFilesAbove ++ places).foldlM addPlace {}

/-- Makes the changes that lead from one picture to the next. -/
def apply (old new : FileTree) : IO Unit := do
  for (place, node) in new.nodes do
    if old.get? place != some node then
      match node with
      | .directory => IO.FS.createDirAll (pathOf place)
      | .file content =>
        let temporary := pathOf place ++ ".tmp"
        IO.FS.writeBinFile temporary content
        IO.FS.rename temporary (pathOf place)
      | .link _ => pure ()
  for (place, _) in old.nodes do
    if (new.get? place).isNone then IO.FS.removeFile (pathOf place)

/-- The variables of the environment. -/
def readEnvironment : IO (List (String × String)) := do
  let bytes ← try IO.FS.readBinFile "/proc/self/environ" catch _ => pure ByteArray.empty
  let text := (String.fromUTF8? bytes).getD ""
  return ((Text.splitChar '\x00' text.toList).filterMap (Text.splitOnce? ['='])).map
    fun (name, value) => (String.ofList name, String.ofList value)

/-- The moment now. -/
def now : IO Stamp := do
  let moment ← Std.Time.Timestamp.now
  return ⟨moment.toNanosecondsSinceUnixEpoch.val.toNat⟩

/-- A backend that is out of reach. -/
def unreachable : Model.Backends := fun c =>
  ⟨⟨0⟩, (Model.invoke c.backend c.endpoint c.payload fun _ => .unreachable).1⟩

/-- Runs the program. -/
def run (words : List String) : IO UInt32 := do
  let directory := toString (← IO.currentDir)
  let here := placeOf directory
  let environment ← readEnvironment
  let moment ← now
  let old ← picture here words environment
  let s : Command.Surroundings :=
    { here, directory, environment, backends := unreachable, generatedOn := moment.text
      analyzedAt := moment.precise }
  let ended := Command.program s words old
  apply old ended.tree
  IO.print ended.printed
  IO.eprint ended.complained
  return ended.code.toUInt32

end Docsmith.Main

/-- The program on the words of its line. -/
def main (words : List String) : IO UInt32 :=
  Docsmith.Main.run words
