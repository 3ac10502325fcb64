import Docsmith.Config.Basic
import Docsmith.Sink.Basic
import Docsmith.FileTree.Change
/-!
# Sinks — on disk

A sink that writes into a file tree. A document is first written under a
name of its own beside its target and then renamed, so that no reader of
the target meets half of it. Under the policies that spare what exists, a
writer looks for a path at which nothing stands and enters it in a list of
reserved paths; a path stays reserved whatever becomes of the write.

A write is a sequence of steps, each of which acts on the disk at once.
Several writers may take their steps in turn; the sink itself lets one
writer finish before the next begins.
-/

namespace Docsmith

/-- A file tree and the paths that writers have reserved. -/
structure Disk where
  tree : FileTree
  reserved : List (List Path.Component) := []
  /-- How many writes have begun. -/
  begun : Nat := 0

namespace Disk

open Config (Collision)

/-- What a writer does next. -/
inductive Phase where
  /-- Looks whether something stands at a candidate. -/
  | look (n : Nat)
  /-- Reserves a candidate at which it saw nothing. -/
  | reserve (n : Nat)
  /-- Makes the directory of the target. -/
  | prepare (target : String)
  /-- Writes the document under a temporary name. -/
  | stage (target : String)
  /-- Renames the document to its target. -/
  | publish (target : String)
  /-- Removes what may stand under the temporary name. -/
  | discard (target : String) (failure : Failure)
  /-- Rests. -/
  | done (result : Except Failure String)

/-- A document being written. The token makes its temporary name its own. -/
structure Writer where
  path : String
  content : String
  token : String
  phase : Phase

/-- The `n`-th path tried for a document: the path itself, then those with
a number. -/
def candidate (path : String) (n : Nat) : String :=
  if n = 0 then path else Path.suffixed path n

/-- The directory of a path. -/
def folder (path : String) : String :=
  match Path.parent? path with
  | some above => if above.isEmpty then "." else above
  | none => "."

/-- The temporary path of a document with a target. -/
def temporary (token target : String) : String :=
  Path.join (folder target) ("." ++ (Path.fileName? target).getD "" ++ "." ++ token ++ ".tmp")

/-- The failure of something done to a path. -/
def failure (action path : String) (e : FileTree.Error) : Failure :=
  .output ("Failed to " ++ action ++ " " ++ path ++ ": " ++ e.message)

namespace Writer

/-- The temporary path of the document. -/
def temporary (w : Writer) (target : String) : String :=
  Disk.temporary w.token target

/-- Where a write begins. -/
def start (policy : Collision) (path content token : String) : Writer :=
  ⟨path, content, token, if policy = .overwrite then .prepare path else .look 0⟩

/-- Goes on after a candidate that is taken: a document that may be spared
is, and any other one gets the next number. -/
def pass (policy : Collision) (w : Writer) (n : Nat) : Writer :=
  { w with phase := if policy = .skip then .done (.ok w.path) else .look (n + 1) }

/-- Goes on after the file system refused the step at hand. A look cannot be
refused: whatever on a tree keeps it from seeing something counts as nothing
being there (`isPresent`). Nor can a reservation, which asks nothing of the
file system. So the writer stays where it is if either meets a refusal. -/
def refused (w : Writer) (e : FileTree.Error) : Writer :=
  match w.phase with
  | .prepare target =>
    { w with phase := .done (.error (failure "create directory" (folder target) e)) }
  | .stage target =>
    { w with phase := .discard target (failure "write" (w.temporary target) e) }
  | .publish target => { w with phase := .discard target (failure "write" target e) }
  | .discard _ f => { w with phase := .done (.error f) }
  | _ => w

/-- The writer's result, once it rests. -/
def result? (w : Writer) : Option (Except Failure String) :=
  match w.phase with
  | .done result => some result
  | _ => none

/-- Takes one step. -/
def step (policy : Collision) (here : Place) (w : Writer) (d : Disk) : Writer × Disk :=
  match w.phase with
  | .look n =>
    if d.tree.isPresent here (candidate w.path n) then (w.pass policy n, d)
    else ({ w with phase := .reserve n }, d)
  | .reserve n =>
    let target := candidate w.path n
    let key := Path.components target.toList
    if d.reserved.contains key then (w.pass policy n, d)
    else ({ w with phase := .prepare target }, { d with reserved := key :: d.reserved })
  | .prepare target =>
    match d.tree.makeDirectories here (folder target) with
    | (.ok (), t) => ({ w with phase := .stage target }, { d with tree := t })
    | (.error e, t) => (w.refused e, { d with tree := t })
  | .stage target =>
    match d.tree.writeFile here (w.temporary target) w.content.toUTF8 with
    | .ok t => ({ w with phase := .publish target }, { d with tree := t })
    | .error e => (w.refused e, d)
  | .publish target =>
    match d.tree.renameFile here (w.temporary target) target with
    | .ok t => ({ w with phase := .done (.ok target) }, { d with tree := t })
    | .error e => (w.refused e, d)
  | .discard target f =>
    match d.tree.removeFile here (w.temporary target) with
    | .ok t => ({ w with phase := .done (.error f) }, { d with tree := t })
    | .error e => (w.refused e, d)
  | .done _ => (w, d)

/-- Takes steps until the writer rests, at most `count` of them. -/
def run (policy : Collision) (here : Place) : (count : Nat) → Writer → Disk → Writer × Disk
  | 0, w, d => (w, d)
  | count + 1, w, d =>
    if w.result?.isSome then (w, d)
    else
      let (w, d) := w.step policy here d
      run policy here count w d

end Writer

/-- Steps enough for any write: two for each candidate that may be taken,
and those after the search. -/
def patience (d : Disk) : Nat :=
  2 * (d.tree.nodes.length + d.reserved.length) + 8

/-- The last digits of a number in base sixteen: as many as are asked for,
above the lowest `skipped` ones. -/
def digitGroup (n skipped count : Nat) : String :=
  String.ofList ((List.range count).reverse.map fun i =>
    Nat.digitChar (n / Nat.pow 16 (skipped + i) % 16))

/-- A token that no other write on the disk has: the number of the write in
thirty-two hexadecimal digits, in groups of eight, four, four, four and
twelve. -/
def nextToken (d : Disk) : String :=
  "-".intercalate
    ([(24, 8), (20, 4), (16, 4), (12, 4), (0, 12)].map fun (skipped, count) =>
      digitGroup d.begun skipped count)

/-- Makes a directory and those above it. -/
def ensureDirectory (here : Place) (path : String) (d : Disk) : Except Failure Unit × Disk :=
  match d.tree.makeDirectories here path with
  | (.ok (), t) => (.ok (), { d with tree := t })
  | (.error e, t) => (.error (failure "create directory" path e), { d with tree := t })

/-- Writes a document under a policy, with no other writer at work. -/
def write (policy : Collision) (here : Place) (path content : String) (d : Disk) :
    Except Failure String × Disk :=
  let (w, e) := (Writer.start policy path content d.nextToken).run policy here d.patience d
  (w.result?.getD (.error (.output ("No free name for " ++ path))),
    { e with begun := d.begun + 1 })

end Disk

/-- The sink on a disk, where paths start at a directory. -/
def Sink.disk (policy : Config.Collision) (here : Place) : Sink Disk where
  write := Disk.write policy here
  ensureDirectory := Disk.ensureDirectory here

end Docsmith
