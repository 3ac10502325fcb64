import Docsmith.Sink.Disk
import Mathlib.Data.List.Induction
/-!
# Sinks — writers at work together

The writers of one sink take their steps in any order, and the file system
may refuse any step of any of them. A race is the disk, its writers, and
what the steps so far have brought about: which paths were reserved, which
documents landed where and which temporary files could not be removed. All
that a step can do is said once, by `Turn`; everything else about races is
read off it.
-/


namespace Docsmith

namespace Disk

open Config (Collision)

/-- A write that is asked for, and the token of its temporary name. -/
structure Call where
  path : String
  content : String
  token : String
  deriving DecidableEq, Repr

/-- The bytes of the document. -/
def Call.bytes (c : Call) : ByteArray :=
  c.content.toUTF8

/-- What becomes of a step. One that is refused may have made some of the
directories above its target, up to a number of levels above, and may have
written a part of its document. -/
inductive Fate where
  | carried
  | refused (error : FileTree.Error) (height : Option Nat) (part : Option ByteArray)

/-- The path some levels above a path. -/
def ancestor : (height : Nat) → (path : String) → String
  | 0, path => path
  | height + 1, path =>
    match Path.parent? path with
    | some above => ancestor height above
    | none => path

/-- What a step brings about, beside its effect on the disk. -/
inductive Note where
  | nothing
  /-- A path was reserved. -/
  | claimed (target : String)
  /-- The document was renamed to its target and stands at a place. -/
  | landed (place : Place)
  /-- A temporary file could not be removed. -/
  | stuck

namespace Writer

/-- The tree after a refused step. -/
def remains (here : Place) (w : Writer) (t : FileTree) (height : Option Nat)
    (part : Option ByteArray) : FileTree :=
  match w.phase with
  | .prepare target =>
    match height with
    | some height => (t.makeDirectories here (ancestor height (folder target))).2
    | none => t
  | .stage target =>
    match part with
    | some part =>
      match t.writeFile here (w.temporary target) part with
      | .ok t => t
      | .error _ => t
    | none => t
  | _ => t

/-- Takes one step with a fate. -/
def meet (policy : Collision) (here : Place) (w : Writer) (d : Disk) : Fate → Writer × Disk
  | .carried => w.step policy here d
  | .refused e height part => (w.refused e, { d with tree := w.remains here d.tree height part })

/-- What one step with a fate brings about. -/
def note (here : Place) (w : Writer) (d : Disk) (fate : Fate) : Note :=
  match w.phase, fate with
  | .reserve n, .carried =>
    if d.reserved.contains (Path.components (candidate w.path n).toList) then .nothing
    else .claimed (candidate w.path n)
  | .publish target, .carried =>
    match d.tree.renameFile here (w.temporary target) target, d.tree.landing here target with
    | .ok _, .ok place => .landed place
    | _, _ => .nothing
  | .discard target _, .carried =>
    match d.tree.removeFile here (w.temporary target) with
    | .ok _ | .error .notFound => .nothing
    | .error _ => .stuck
  | .discard _ _, .refused _ _ _ => .stuck
  | _, _ => .nothing

end Writer

/-- Writers at work on a disk. What they did stands with the number of the
writer, the latest first. -/
structure Race where
  disk : Disk
  writers : List Writer
  claims : List (Nat × String) := []
  published : List (Place × Nat) := []
  stuck : List Nat := []

/-- A writer takes its next step, and it has a fate. -/
structure Event where
  writer : Nat
  fate : Fate

namespace Race

/-- All writers before their first step. -/
def start (policy : Collision) (t : FileTree) (calls : List Call) : Race :=
  ⟨⟨t, [], 0⟩, calls.map fun c => Writer.start policy c.path c.content c.token, [], [], []⟩

/-- The tree of the disk. -/
def tree (s : Race) : FileTree :=
  s.disk.tree

/-- The race once a writer has gone on and the disk has changed. -/
def after (s : Race) (i : Nat) (w : Writer) (d : Disk) (note : Note) : Race where
  disk := d
  writers := s.writers.set i w
  claims := match note with
    | .claimed target => (i, target) :: s.claims
    | _ => s.claims
  published := match note with
    | .landed place => (place, i) :: s.published
    | _ => s.published
  stuck := match note with
    | .stuck => i :: s.stuck
    | _ => s.stuck

/-- One step of one writer. -/
def step (policy : Collision) (here : Place) (s : Race) (e : Event) : Race :=
  match s.writers[e.writer]? with
  | some w =>
    let (w', d) := w.meet policy here s.disk e.fate
    s.after e.writer w' d (w.note here s.disk e.fate)
  | none => s

/-- Steps in their order. -/
def run (policy : Collision) (here : Place) (s : Race) (events : List Event) : Race :=
  events.foldl (step policy here) s

end Race

/-- The race of some writes on a tree after some steps. -/
abbrev race (policy : Collision) (here : Place) (t : FileTree) (calls : List Call)
    (events : List Event) : Race :=
  (Race.start policy t calls).run policy here events

namespace Race

/-- What a writer has answered, once it rests. -/
def result? (s : Race) (i : Nat) : Option (Except Failure String) :=
  s.writers[i]?.bind Writer.result?

/-- Every writer rests. -/
def IsOver (s : Race) : Prop :=
  ∀ w ∈ s.writers, w.result?.isSome

/-- The writer whose document was the last to land at a place. -/
def newest? (s : Race) (place : Place) : Option Nat :=
  (s.published.find? (·.1 == place)).map (·.2)

end Race

/-- What one step of a writer can do: the writer and the disk after it, and
what it brings about. -/
inductive Turn (policy : Collision) (here : Place) (w : Writer) (d : Disk) :
    Writer → Disk → Note → Prop
  /-- Nothing is done. -/
  | rest : Turn policy here w d w d .nothing
  /-- Something stands at the candidate. -/
  | found {n} : w.phase = .look n → d.tree.isPresent here (candidate w.path n) = true →
      Turn policy here w d (w.pass policy n) d .nothing
  /-- Nothing stands at the candidate. -/
  | free {n} : w.phase = .look n → d.tree.isPresent here (candidate w.path n) = false →
      Turn policy here w d { w with phase := .reserve n } d .nothing
  /-- The candidate is reserved already. -/
  | taken {n} : w.phase = .reserve n →
      Path.components (candidate w.path n).toList ∈ d.reserved →
      Turn policy here w d (w.pass policy n) d .nothing
  /-- The candidate is reserved. -/
  | claim {n} : w.phase = .reserve n →
      Path.components (candidate w.path n).toList ∉ d.reserved →
      Turn policy here w d { w with phase := .prepare (candidate w.path n) }
        { d with reserved := Path.components (candidate w.path n).toList :: d.reserved }
        (.claimed (candidate w.path n))
  /-- The directory of the target is there. -/
  | prepare {target t} : w.phase = .prepare target →
      d.tree.makeDirectories here (folder target) = (.ok (), t) →
      Turn policy here w d { w with phase := .stage target } { d with tree := t } .nothing
  /-- It is not, if some above it are. -/
  | unprepared {target e t} : w.phase = .prepare target →
      (t = d.tree ∨ ∃ height,
        t = (d.tree.makeDirectories here (ancestor height (folder target))).2) →
      Turn policy here w d
        { w with phase := .done (.error (failure "create directory" (folder target) e)) }
        { d with tree := t } .nothing
  /-- The document stands under its temporary name. -/
  | stage {target t} : w.phase = .stage target →
      d.tree.writeFile here (w.temporary target) w.content.toUTF8 = .ok t →
      Turn policy here w d { w with phase := .publish target } { d with tree := t } .nothing
  /-- It does not, if some of it does. -/
  | unstaged {target e t} : w.phase = .stage target →
      (t = d.tree ∨ ∃ part, d.tree.writeFile here (w.temporary target) part = .ok t) →
      Turn policy here w d
        { w with phase := .discard target (failure "write" (w.temporary target) e) }
        { d with tree := t } .nothing
  /-- The document is renamed. -/
  | publish {target t place} : w.phase = .publish target →
      d.tree.renameFile here (w.temporary target) target = .ok t →
      d.tree.landing here target = .ok place →
      Turn policy here w d { w with phase := .done (.ok target) } { d with tree := t }
        (.landed place)
  /-- It is not. -/
  | unpublished {target e} : w.phase = .publish target →
      Turn policy here w d { w with phase := .discard target (failure "write" target e) } d
        .nothing
  /-- The temporary file is removed. -/
  | discard {target f t} : w.phase = .discard target f →
      d.tree.removeFile here (w.temporary target) = .ok t →
      Turn policy here w d { w with phase := .done (.error f) } { d with tree := t } .nothing
  /-- There is none. -/
  | vanished {target f} : w.phase = .discard target f →
      d.tree.removeFile here (w.temporary target) = .error .notFound →
      Turn policy here w d { w with phase := .done (.error f) } d .nothing
  /-- It cannot be removed. -/
  | left {target f} : w.phase = .discard target f →
      Turn policy here w d { w with phase := .done (.error f) } d .stuck

variable {policy : Collision} {here : Place} {w : Writer} {d : Disk}

/-- A refused step. -/
theorem refused_turn (e : FileTree.Error) (height : Option Nat) (part : Option ByteArray) :
    Turn policy here w d (w.refused e)
      { d with tree := w.remains here d.tree height part }
      (w.note here d (.refused e height part)) := by
  unfold Writer.refused Writer.remains Writer.note
  cases hp : w.phase with
  | look n => exact .rest
  | reserve n => exact .rest
  | prepare target =>
    refine .unprepared hp ?_
    cases height with
    | none => exact .inl rfl
    | some height => exact .inr ⟨height, rfl⟩
  | stage target =>
    refine .unstaged hp ?_
    cases part with
    | none => exact .inl rfl
    | some part =>
      dsimp only
      split
      · next t ht => exact .inr ⟨part, ht⟩
      · exact .inl rfl
  | publish target => exact .unpublished hp
  | discard target f => exact .left hp
  | done result => exact .rest

/-- A renamed file has a place to land on. -/
theorem landing_of_renameFile {t u : FileTree} {source target : String}
    (h : t.renameFile here source target = .ok u) : ∃ place, t.landing here target = .ok place := by
  rw [FileTree.renameFile] at h
  split at h
  · cases h
  · split at h
    · next place hl => exact ⟨place, hl⟩
    · cases h
  · cases h
  · cases h

/-- A step that is carried out. -/
theorem carried_turn : Turn policy here w d (w.step policy here d).1 (w.step policy here d).2
    (w.note here d .carried) := by
  unfold Writer.step Writer.note
  cases hp : w.phase with
  | look n =>
    dsimp only
    split
    · next hpresent => exact .found hp hpresent
    · next hpresent => exact .free hp (Bool.not_eq_true _ ▸ hpresent)
  | reserve n =>
    dsimp only
    split
    · next hk => exact .taken hp (List.contains_iff_mem.1 hk)
    · next hk => exact .claim hp fun h => hk (List.contains_iff_mem.2 h)
  | prepare target =>
    dsimp only
    split
    · next t hm => exact .prepare hp hm
    · next e t hm =>
      rw [Writer.refused, hp]
      exact .unprepared hp (.inr ⟨0, by rw [ancestor, hm]⟩)
  | stage target =>
    dsimp only
    split
    · next t hw => exact .stage hp hw
    · next e hw =>
      rw [Writer.refused, hp]
      exact .unstaged (t := d.tree) hp (.inl rfl)
  | publish target =>
    dsimp only
    cases hr : d.tree.renameFile here (w.temporary target) target with
    | ok t =>
      obtain ⟨place, hl⟩ := landing_of_renameFile hr
      rw [hl]
      exact .publish hp hr hl
    | error e =>
      dsimp only
      rw [Writer.refused, hp]
      exact .unpublished hp
  | discard target f =>
    dsimp only
    cases hr : d.tree.removeFile here (w.temporary target) with
    | ok t => exact .discard hp hr
    | error e =>
      dsimp only
      rw [Writer.refused, hp]
      cases e with
      | notFound => exact .vanished hp hr
      | _ => exact .left hp
  | done result => exact .rest

/-- **Every step is a turn.** -/
theorem meet_turn (fate : Fate) : Turn policy here w d (w.meet policy here d fate).1
    (w.meet policy here d fate).2 (w.note here d fate) := by
  cases fate with
  | carried => exact carried_turn
  | refused e height part => exact refused_turn e height part

namespace Race

variable {s : Race} {e : Event}

variable {i j : Nat} {note : Note} {w' : Writer} {d' : Disk}

@[simp] theorem disk_after : (s.after i w' d' note).disk = d' := rfl

@[simp] theorem tree_after : (s.after i w' d' note).tree = d'.tree := rfl

@[simp] theorem writers_after : (s.after i w' d' note).writers = s.writers.set i w' := rfl

theorem mem_stuck_after :
    j ∈ (s.after i w' d' note).stuck ↔ note = .stuck ∧ j = i ∨ j ∈ s.stuck := by
  cases note <;> simp [after]

theorem mem_claims_after {target : String} : (j, target) ∈ (s.after i w' d' note).claims ↔
    note = .claimed target ∧ j = i ∨ (j, target) ∈ s.claims := by
  cases note <;> simp [after, and_comm, eq_comm]

theorem claims_of_not_claimed (hnote : ∀ target, note ≠ .claimed target) :
    (s.after i w' d' note).claims = s.claims := by
  cases note with
  | claimed target => exact absurd rfl (hnote target)
  | _ => rfl

theorem mem_published_after {place : Place} : (place, j) ∈ (s.after i w' d' note).published ↔
    note = .landed place ∧ j = i ∨ (place, j) ∈ s.published := by
  cases note <;> simp [after, eq_comm]

/-- A document that lands is the newest where it does. -/
theorem newest?_landed (goal place : Place) : (s.after i w' d' (.landed goal)).newest? place =
    if goal = place then some i else s.newest? place := by
  rw [newest?, show (s.after i w' d' (.landed goal)).published = (goal, i) :: s.published from rfl]
  by_cases h : goal = place
  · rw [List.find?_cons_of_pos (by simpa using h), if_pos h]
    rfl
  · rw [List.find?_cons_of_neg (by simpa using h), if_neg h]
    rfl

/-- Nothing else makes a document the newest. -/
theorem newest?_of_not_landed (hnote : ∀ goal, note ≠ .landed goal) (place : Place) :
    (s.after i w' d' note).newest? place = s.newest? place := by
  cases note with
  | landed goal => exact absurd rfl (hnote goal)
  | _ => rfl

/-- The writer after a step is the one that took it, or it is as before. -/
theorem writers_after_cases {w'' : Writer} (hw : s.writers[i]? = some w)
    (h : (s.after i w' d' note).writers[j]? = some w'') :
    j = i ∧ w'' = w' ∨ j ≠ i ∧ s.writers[j]? = some w'' := by
  rw [writers_after] at h
  by_cases hij : j = i
  · subst hij
    obtain ⟨hlen, -⟩ := List.getElem?_eq_some_iff.1 hw
    rw [List.getElem?_set_self hlen, Option.some.injEq] at h
    exact .inl ⟨rfl, h.symm⟩
  · rw [List.getElem?_set_ne (Ne.symm hij)] at h
    exact .inr ⟨hij, h⟩

theorem writers_after_self (hw : s.writers[i]? = some w) :
    (s.after i w' d' note).writers[i]? = some w' := by
  obtain ⟨hlen, -⟩ := List.getElem?_eq_some_iff.1 hw
  rw [writers_after, List.getElem?_set_self hlen]

theorem writers_after_ne (hij : j ≠ i) :
    (s.after i w' d' note).writers[j]? = s.writers[j]? := by
  rw [writers_after, List.getElem?_set_ne (Ne.symm hij)]

/-- What is known of a writer stays known, if the one that takes the step keeps
it. -/
theorem exists_writer_after {holds : Writer → Prop} {v : Writer} (hw : s.writers[i]? = some w)
    (hkeep : holds w → holds w') (hv : s.writers[j]? = some v) (h : holds v) :
    ∃ v, (s.after i w' d' note).writers[j]? = some v ∧ holds v := by
  by_cases hij : j = i
  · subst hij
    rw [hw, Option.some.injEq] at hv
    subst hv
    exact ⟨w', writers_after_self hw, hkeep h⟩
  · exact ⟨v, by rw [writers_after_ne hij, hv], h⟩

/-- **A step of a race is a turn of its writer**, or there is no such writer. -/
theorem step_cases (policy : Collision) (here : Place) (s : Race) (e : Event) :
    s.step policy here e = s ∨ ∃ w w' d note, s.writers[e.writer]? = some w ∧
      Turn policy here w s.disk w' d note ∧
      s.step policy here e = s.after e.writer w' d note := by
  unfold step
  cases hw : s.writers[e.writer]? with
  | none => exact .inl rfl
  | some w => exact .inr ⟨w, _, _, _, rfl, meet_turn e.fate, rfl⟩

@[simp] theorem run_nil : s.run policy here [] = s := rfl

@[simp] theorem run_concat (events : List Event) :
    s.run policy here (events ++ [e]) = (s.run policy here events).step policy here e := by
  rw [run, List.foldl_append]
  rfl

theorem race_concat (here : Place) (t : FileTree) (calls : List Call) (events : List Event) :
    race policy here t calls (events ++ [e]) =
      (race policy here t calls events).step policy here e :=
  run_concat events

/-- What holds at the start and is kept by every turn holds of every race. -/
theorem run_induction {holds : Race → Prop} (hstart : holds s)
    (hturn : ∀ (s : Race) i w w' d note, holds s → s.writers[i]? = some w →
      Turn policy here w s.disk w' d note → holds (s.after i w' d note))
    (events : List Event) : holds (s.run policy here events) := by
  induction events using List.reverseRecOn with
  | nil => exact hstart
  | append_singleton events e ih =>
    rw [run_concat]
    rcases step_cases policy here (s.run policy here events) e with h | ⟨w, w', d, note, hw, ht, h⟩
    · rwa [h]
    · rw [h]
      exact hturn _ _ _ _ _ _ ih hw ht

end Race

end Disk

end Docsmith
