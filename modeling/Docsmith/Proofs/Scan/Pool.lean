import Docsmith.Proofs.Scan.Order
import Mathlib.Data.List.Induction
import Mathlib.Data.PNat.Basic
/-!
# Scans — many files at a time

The files of a scan are analysed on a pool of workers: each has a task of its own,
which begins in the order of the walk, as soon as a worker is free, and ends whenever it
ends, with the file's elements or in a panic. What is collected goes by the order in which
the tasks began, so neither the number of workers nor the order in which tasks end
makes a difference (`Pool.collected_eq`, `scan_in_order`).
-/


namespace Docsmith.Scan

variable {t : FileTree} {here : Place} {root : String} {settings : Config.Sources}
variable {read : SourceFile → Option String} {files : List SourceFile} {workers : Nat}

/-! ## Tasks -/

/-- How far the task of a file has come. -/
inductive Progress where
  | running
  | ended (elements : List Element)
  | panicked

namespace Progress

/-- The task has a worker. -/
def isRunning : Progress → Bool
  | .running => true
  | _ => false

/-- The task has ended in a panic. -/
def isPanicked : Progress → Bool
  | .panicked => true
  | _ => false

/-- What the task contributes. -/
def elements : Progress → List Element
  | .ended elements => elements
  | _ => []

end Progress

/-- The files whose tasks have not begun, and the other tasks in the order in which they
began. -/
structure Pool where
  waiting : List SourceFile
  tasks : List (SourceFile × Progress) := []

/-- Something that happens: a task begins, or one ends in either way. -/
inductive Pool.Move where
  | start
  | finish (task : Nat)
  | panic (task : Nat)

/-- How many files are analysed at a time: as many as is set, or else as the machine
offers. -/
def workerCount (configured : Option Nat) (offered : Option ℕ+) : Nat :=
  (configured.filter (0 < ·)).getD ((offered.map PNat.val).getD 1)

theorem workerCount_pos (configured : Option Nat) (offered : Option ℕ+) :
    0 < workerCount configured offered := by
  have hoffered : 0 < (offered.map PNat.val).getD 1 := by
    cases offered with
    | none => exact Nat.one_pos
    | some n => exact n.pos
  unfold workerCount
  cases hfilter : configured.filter (0 < ·) with
  | none => exact hoffered
  | some n => exact of_decide_eq_true (Option.filter_eq_some_iff.1 hfilter).2

namespace Pool

variable {p : Pool}

/-- The tasks that have a worker. -/
def running (p : Pool) : Nat :=
  p.tasks.countP (·.2.isRunning)

/-- The pool after something has happened, with a number of workers. What cannot happen
changes nothing. -/
def step (workers : Nat) (read : SourceFile → Option String) (p : Pool) : Move → Pool
  | .start =>
    match p.waiting with
    | file :: waiting =>
      if p.running < workers then ⟨waiting, p.tasks ++ [(file, .running)]⟩ else p
    | [] => p
  | .finish n =>
    match p.tasks[n]? with
    | some (file, .running) => { p with tasks := p.tasks.set n (file, .ended (analyze read file)) }
    | _ => p
  | .panic n =>
    match p.tasks[n]? with
    | some (file, .running) => { p with tasks := p.tasks.set n (file, .panicked) }
    | _ => p

/-- Moves in their order. -/
def run (workers : Nat) (read : SourceFile → Option String) (p : Pool) (moves : List Move) : Pool :=
  moves.foldl (step workers read) p

/-- All tasks have begun and ended. -/
def isOver (p : Pool) : Bool :=
  p.waiting.isEmpty && p.tasks.all (!·.2.isRunning)

/-- The elements of all tasks, in the order in which these began. -/
def collected (p : Pool) : List Element :=
  p.tasks.flatMap (·.2.elements)

/-- The files whose tasks have not panicked. -/
def survivors (p : Pool) : List SourceFile :=
  (p.tasks.filter (!·.2.isPanicked)).map (·.1)

/-- The tasks are those of the files in their order, there are no more of them at a time
than workers, and each that has ended well has ended with its file's elements. -/
structure Sound (workers : Nat) (read : SourceFile → Option String) (files : List SourceFile)
    (p : Pool) : Prop where
  files : p.tasks.map (·.1) ++ p.waiting = files
  bounded : p.running ≤ workers
  own : ∀ task ∈ p.tasks, ∀ elements, task.2 = .ended elements → elements = analyze read task.1

theorem Sound.start (workers : Nat) (read : SourceFile → Option String) (files : List SourceFile) :
    Sound workers read files ⟨files, []⟩ :=
  ⟨rfl, Nat.zero_le _, List.forall_mem_nil _⟩

/-- A task that ends sets its worker free. -/
theorem running_set {n : Nat} {file : SourceFile} {progress : Progress}
    (htask : p.tasks[n]? = some (file, .running)) (hended : progress.isRunning = false) :
    running { p with tasks := p.tasks.set n (file, progress) } + 1 = p.running := by
  obtain ⟨hn, hget⟩ := List.getElem?_eq_some_iff.1 htask
  have hone : 0 < p.tasks.countP (·.2.isRunning) :=
    List.countP_pos_iff.2 ⟨_, List.mem_of_getElem? htask, rfl⟩
  have hset := List.countP_set (p := fun task : SourceFile × Progress => task.2.isRunning)
    (a := (file, progress)) hn
  have hbefore : Progress.running.isRunning = true := rfl
  simp only [hget, hbefore, hended, if_true, Bool.false_eq_true, if_false] at hset
  unfold running
  dsimp only
  omega

/-- A task that ends leaves the others as they are. -/
theorem Sound.set (h : Sound workers read files p) {n : Nat} {file : SourceFile}
    {progress : Progress} (htask : p.tasks[n]? = some (file, .running))
    (hended : progress.isRunning = false)
    (hown : ∀ elements, progress = .ended elements → elements = analyze read file) :
    Sound workers read files { p with tasks := p.tasks.set n (file, progress) } := by
  obtain ⟨hn, hget⟩ := List.getElem?_eq_some_iff.1 htask
  refine ⟨?_, ?_, fun task hmem elements helements => ?_⟩
  · have hlength : n < (p.tasks.map (·.1)).length := by rwa [List.length_map]
    have hfile : (p.tasks.map (·.1))[n] = file := by rw [List.getElem_map, hget]
    have hsame : (p.tasks.set n (file, progress)).map (·.1) = p.tasks.map (·.1) := by
      rw [List.map_set]
      dsimp only
      rw [← hfile]
      exact List.set_getElem_self _
    rw [← h.files]
    exact congrArg (· ++ p.waiting) hsame
  · have hfreed := running_set htask hended
    have hbounded := h.bounded
    omega
  · rcases List.mem_or_eq_of_mem_set hmem with hmem | rfl
    · exact h.own task hmem elements helements
    · exact hown elements helements

/-- **Whatever happens**, tasks stay in order and keep to their files. -/
theorem Sound.step (h : Sound workers read files p) (move : Move) :
    Sound workers read files (p.step workers read move) := by
  cases move with
  | start =>
    rw [Pool.step]
    split
    · next file waiting hwaiting =>
      split_ifs with hfree
      -- the new task takes the worker that was free
      · refine ⟨?_, ?_, ?_⟩
        · rw [← h.files, hwaiting, List.map_append, List.append_assoc]
          rfl
        · unfold running
          rw [List.countP_append]
          exact hfree
        · refine List.forall_mem_append.2 ⟨h.own, List.forall_mem_singleton.2 ?_⟩
          exact fun _ hnever => nomatch hnever
      · exact h
    · exact h
  | finish n =>
    rw [Pool.step]
    split
    · next file htask => exact h.set htask rfl fun _ hended => (Progress.ended.inj hended).symm
    · exact h
  | panic n =>
    rw [Pool.step]
    split
    · next file htask => exact h.set htask rfl fun _ hnever => nomatch hnever
    · exact h

theorem Sound.run (h : Sound workers read files p) (moves : List Move) :
    Sound workers read files (p.run workers read moves) := by
  induction moves generalizing p with
  | nil => exact h
  | cons move moves ih => exact ih (h.step move)

theorem run_append (workers : Nat) (read : SourceFile → Option String) (p : Pool)
    (moves more : List Move) :
    p.run workers read (moves ++ more) = (p.run workers read moves).run workers read more :=
  List.foldl_append

/-! ## Pools that are over -/

/-- **What is collected are the elements of the files whose tasks have not panicked**, in
the order of the files. -/
theorem collected_eq (h : Sound workers read files p) (hover : p.isOver = true) :
    p.collected = p.survivors.flatMap (analyze read) := by
  have hended : ∀ task ∈ p.tasks, task.2.isRunning = false := by
    intro task htask
    have hall := (Bool.and_eq_true_iff.1 hover).2
    simpa using List.all_eq_true.1 hall task htask
  have hown := h.own
  -- the tasks alone decide what is collected, so the induction is on them
  unfold collected survivors
  generalize p.tasks = tasks at hended hown
  induction tasks with
  | nil => rfl
  | cons task tasks ih =>
    obtain ⟨file, progress⟩ := task
    obtain ⟨hfirst, hended⟩ := List.forall_mem_cons.1 hended
    obtain ⟨hfile, hown⟩ := List.forall_mem_cons.1 hown
    rw [List.flatMap_cons, ih hended hown, List.filter_cons]
    cases progress with
    | running => cases hfirst
    | panicked => rfl
    | ended elements =>
      have hown : elements = analyze read file := hfile elements rfl
      rw [hown]
      rfl

/-- How much there is to do: each file has a beginning and an end. -/
def toDo (p : Pool) : Nat :=
  2 * p.waiting.length + p.running

/-- A pool that is not over has a task that can end or one that can begin. -/
theorem exists_move (hworkers : 0 < workers) (read : SourceFile → Option String)
    (hover : p.isOver ≠ true) : ∃ move, (p.step workers read move).toDo < p.toDo := by
  -- a task under way can end; if there is none, all workers are free
  by_cases hrunning : ∃ task ∈ p.tasks, task.2.isRunning = true
  · obtain ⟨⟨file, progress⟩, hmem, hprogress⟩ := hrunning
    obtain ⟨n, hn⟩ := List.mem_iff_getElem?.1 hmem
    cases progress with
    | running =>
      have hended : (Progress.ended (analyze read file)).isRunning = false := rfl
      have hfreed := running_set hn hended
      refine ⟨.finish n, ?_⟩
      simp only [step, hn, toDo]
      omega
    | ended elements => cases hprogress
    | panicked => cases hprogress
  · have hidle : p.running = 0 := by
      rw [running, List.countP_eq_zero]
      exact fun task hmem hyes => hrunning ⟨task, hmem, hyes⟩
    have hwaiting : p.waiting ≠ [] := by
      intro hnone
      refine hover (Bool.and_eq_true_iff.2 ⟨List.isEmpty_iff.2 hnone, ?_⟩)
      refine List.all_eq_true.2 fun task hmem => ?_
      simpa using fun hyes => hrunning ⟨task, hmem, hyes⟩
    obtain ⟨file, waiting, hwaiting⟩ := List.exists_cons_of_ne_nil hwaiting
    have hfree : p.running < workers := hidle ▸ hworkers
    have hone : running ⟨waiting, p.tasks ++ [(file, .running)]⟩ = 1 := by
      unfold running at hidle ⊢
      rw [List.countP_append, hidle]
      rfl
    refine ⟨.start, ?_⟩
    simp only [step, hwaiting, hfree, if_true, toDo, hone, List.length_cons]
    omega

/-- **A pool can always come to its end**, by induction on what there is to do. -/
theorem exists_isOver (hworkers : 0 < workers) (read : SourceFile → Option String) (p : Pool) :
    ∃ moves, (p.run workers read moves).isOver = true := by
  generalize hleft : p.toDo = left
  induction left using Nat.strong_induction_on generalizing p with
  | _ left ih =>
    by_cases hover : p.isOver = true
    · exact ⟨[], hover⟩
    · obtain ⟨move, hless⟩ := exists_move hworkers read hover
      obtain ⟨moves, hend⟩ := ih _ (hleft ▸ hless) _ rfl
      exact ⟨move :: moves, hend⟩

end Pool

/-! ## Scans -/

/-- The pool of a scan after some moves. -/
def poolOf (t : FileTree) (here : Place) (root : String) (settings : Config.Sources)
    (offered : Option ℕ+) (read : SourceFile → Option String) (moves : List Pool.Move) : Pool :=
  Pool.run (workerCount settings.maxThreads offered) read
    ⟨sourceFiles t here root (.ofSources settings), []⟩ moves

/-- What a scan comes to once its pool is over; `read` tells what the tasks can read. -/
def pooled (t : FileTree) (here : Place) (root : String) (settings : Config.Sources)
    (offered : Option ℕ+) (read : SourceFile → Option String) (moves : List Pool.Move) :
    Option (Except Failure Analysis) :=
  if !t.isPresent here root then some (.error (.notFound root))
  else
    let p := poolOf t here root settings offered read moves
    if p.isOver then some (.ok (conclude root settings p.collected)) else none

variable {offered : Option ℕ+} {moves : List Pool.Move}

theorem sound_poolOf (t : FileTree) (here : Place) (root : String) (settings : Config.Sources)
    (offered : Option ℕ+) (read : SourceFile → Option String) (moves : List Pool.Move) :
    Pool.Sound (workerCount settings.maxThreads offered) read
      (sourceFiles t here root (.ofSources settings))
      (poolOf t here root settings offered read moves) :=
  (Pool.Sound.start _ _ _).run moves

/-- The elements of some files, file after file in the order of the paths' bytes, and in
each file as they stand there, less those that are not shown. -/
def listed (settings : Config.Sources) (read : SourceFile → Option String)
    (files : List SourceFile) : List Element :=
  ((readable read files).mergeSort fun a b => Text.bytes a.1 ≤ Text.bytes b.1).flatMap
    fun source => (Source.elements source.1 source.2).filter (isShown settings)

theorem conclude_eq (root : String) (settings : Config.Sources) (files : List SourceFile) :
    conclude root settings (files.flatMap (analyze read)) = ⟨root, listed settings read files⟩ :=
  congrArg (Analysis.mk root) (elements_conclude root settings files)

/-- **A scan lists the elements of its files in order**, however many workers there are
and in whatever order tasks end: it fails exactly if there is no project, and otherwise
gives the elements of the files whose tasks have not panicked, once all have ended. Each
file has a task, no more of them run at a time than there are workers, and the scan always
comes to its end. If no task panics, it gives what the project's scan gives. -/
theorem scan_in_order (t : FileTree) (here : Place) (root : String) (settings : Config.Sources)
    (offered : Option ℕ+) (read : SourceFile → Option String) (moves : List Pool.Move) :
    (∀ result, pooled t here root settings offered read moves = some result ↔
      if t.isPresent here root then
        (poolOf t here root settings offered read moves).isOver ∧
          result = .ok ⟨root, listed settings read
            (poolOf t here root settings offered read moves).survivors⟩
      else result = .error (.notFound root)) ∧
    ((poolOf t here root settings offered read moves).tasks.map (·.1) ++
        (poolOf t here root settings offered read moves).waiting =
      sourceFiles t here root (.ofSources settings)) ∧
    (poolOf t here root settings offered read moves).running ≤
      workerCount settings.maxThreads offered ∧
    (∃ more, (pooled t here root settings offered read (moves ++ more)).isSome) ∧
    project t here root settings =
      if t.isPresent here root then
        .ok ⟨root, listed settings (fun file => t.readText? here file.path)
          (sourceFiles t here root (.ofSources settings))⟩
      else .error (.notFound root) := by
  have hsound := sound_poolOf t here root settings offered read moves
  refine ⟨fun result => ?_, hsound.files, hsound.bounded, ?_, ?_⟩
  · unfold pooled
    dsimp only
    cases hpresent : t.isPresent here root with
    | false => simp [eq_comm]
    | true =>
      simp only [Bool.not_true, Bool.false_eq_true, if_false, if_true]
      split_ifs with hover
      · rw [Pool.collected_eq hsound hover, conclude_eq, Option.some.injEq, eq_comm]
        exact ⟨fun h => ⟨hover, h⟩, And.right⟩
      · exact ⟨fun h => (nomatch h), fun h => absurd h.1 hover⟩
  · obtain ⟨more, hover⟩ := Pool.exists_isOver (workerCount_pos settings.maxThreads offered) read
      (poolOf t here root settings offered read moves)
    refine ⟨more, ?_⟩
    rw [poolOf, ← Pool.run_append] at hover
    unfold pooled poolOf
    dsimp only
    rw [hover, if_pos rfl]
    split_ifs <;> rfl
  · rw [project_eq, elementsOf_eq_analyze, conclude_eq]
    cases t.isPresent here root <;> rfl

end Docsmith.Scan
