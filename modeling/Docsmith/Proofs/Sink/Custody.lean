import Docsmith.Proofs.FileTree.Staging
import Docsmith.Proofs.Sink.Ledger
import Docsmith.Proofs.Sink.Temporary
/-!
# Sinks — who has what on the disk

Whatever the policy, the order of the steps and the steps that fail, a
writer has its temporary file exactly while it is about to rename or remove
it, and nobody else touches that file (`Writer.Tidy`); every other place
has what it had at the start, or the document that was the last to land
there (`Settled`). One turn keeps this (`InCustody.after`), so every race
does (`InCustody.run`).
-/


namespace Docsmith

namespace Disk

open Config (Collision)

open FileTree

variable {policy : Collision} {here : Place} {t : FileTree} {calls : List Call} {i : Nat}
variable {w w' : Writer} {d d' : Disk} {note : Note} {c : Call} {s : Race} {path target : String}

/-! ## A writer and its temporary file -/

/-- The temporary file of a writer, phase by phase: it has one while it is
about to rename it, it may have one while it is about to remove it, and one
is left only where removing it failed. -/
def Writer.Tidy (calls : List Call) (here : Place) (i : Nat) (stuck : Prop) (t : FileTree)
    (w : Writer) : Prop :=
  match w.phase with
  | .publish target =>
    t.Staged (IsTemporary calls) (Owns calls i) here (w.temporary target) w.content.toUTF8
  | .discard target _ => t.Vacant (Owns calls i) ∨
    ∃ part, t.Staged (IsTemporary calls) (Owns calls i) here (w.temporary target) part
  | .done _ => t.Vacant (Owns calls i) ∨ stuck
  | _ => t.Vacant (Owns calls i)

/-- What is vacant is tidy, except that a document is to be renamed. -/
theorem Writer.Tidy.of_vacant {stuck : Prop} (h : t.Vacant (Owns calls i))
    (hp : ∀ target, w.phase ≠ .publish target) : w.Tidy calls here i stuck t := by
  unfold Writer.Tidy
  split
  · next target hpublish => exact absurd hpublish (hp target)
  · exact .inl h
  · exact .inl h
  · exact h

theorem Writer.Tidy.imp {stuck stuck' : Prop} (h : w.Tidy calls here i stuck t)
    (hs : stuck → stuck') : w.Tidy calls here i stuck' t := by
  unfold Writer.Tidy at h ⊢
  split at h
  · exact h
  · exact h
  · exact h.imp_right hs
  · exact h

/-- Another writer's step leaves a writer tidy. -/
theorem Writer.Tidy.moves {u v : FileTree} {j : Nat} {stuck : Prop} (hf : Fresh v calls)
    (h : w.Tidy calls here i stuck t) (hm : t.Moves (IsTemporary calls) (Owns calls j) u)
    (hij : i ≠ j) : w.Tidy calls here i stuck u := by
  have hown : ∀ place, Owns calls i place → IsTemporary calls place ∧ ¬ Owns calls j place :=
    fun place hp => ⟨⟨i, hp⟩, fun hj => hij (hf.owner_eq hp hj)⟩
  unfold Writer.Tidy at h ⊢
  split
  · next hp =>
    rw [hp] at h
    exact Staged.moves h hm hown
  · next hp =>
    rw [hp] at h
    rcases h with h | ⟨part, h⟩
    · exact .inl (Vacant.moves h hm hown)
    · exact .inr ⟨part, Staged.moves h hm hown⟩
  · next hp =>
    rw [hp] at h
    exact h.imp_left fun h => Vacant.moves h hm hown
  · next h1 h2 h3 =>
    split at h
    · next hp => exact absurd hp (h1 _)
    · next hp => exact absurd hp (h2 _ _)
    · next hp => exact absurd hp (h3 _)
    · exact Vacant.moves h hm hown

/-! ## What one turn does to the disk -/

/-- What stands at a place before and after a step that brings something
about: a document that lands there, or a new directory, or no change. -/
def Note.Leaves (c : Call) (place : Place) (before after : Option Node) : Note → Prop
  | .landed goal => after = if place = goal then some (.file c.bytes) else before
  | _ => after = before ∨ before = none ∧ after = some .directory

/-- The effect of a writer's step: temporary files of others stay as they
are, the writer stays tidy, and every other place keeps what it has, but for
a document that lands. -/
structure Effect (calls : List Call) (here : Place) (i : Nat) (c : Call) (stuck : Prop) (note : Note)
    (w : Writer) (t u : FileTree) : Prop where
  moves : t.Moves (IsTemporary calls) (Owns calls i) u
  tidy : w.Tidy calls here i (stuck ∨ note = .stuck) u
  elsewhere : ∀ place, ¬ IsTemporary calls place → note.Leaves c place (t.get? place) (u.get? place)
  goal : ∀ place, note = .landed place → ¬ IsTemporary calls place

/-- A step after which the disk is as it was. -/
theorem Effect.same {stuck : Prop} (h : w.Tidy calls here i (stuck ∨ note = .stuck) t)
    (hnote : ∀ place, note ≠ .landed place) : Effect calls here i c stuck note w t t := by
  refine ⟨.refl _ _ t, h, fun place _ => ?_, fun place hp => absurd hp (hnote place)⟩
  cases note with
  | landed goal => exact absurd rfl (hnote goal)
  | _ => exact .inl rfl

/-- What is known of the disk and a writer when the writer takes a step. -/
structure Ready (policy : Collision) (here : Place) (calls : List Call) (i : Nat) (c : Call)
    (w : Writer) (t : FileTree) : Prop where
  closed : t.IsClosed
  base : t.get? here = some .directory
  links : t.LinksApart (IsTemporary calls)
  call : calls[i]? = some c
  serves : w.Serves policy c

variable {t₀ : FileTree} {stuck : Prop}

/-- What the temporary path of a writer leads to is the writer's own. -/
theorem Ready.ownPath (h : Ready policy here calls i c w t) (hf : Fresh t₀ calls) (target : String) :
    OwnPath (IsTemporary calls) (Owns calls i) t here (w.temporary target) := by
  refine ⟨h.closed, h.base, h.links, fun name hn directory => ?_, fun place hp => ⟨i, hp⟩⟩
  rw [Writer.temporary, h.serves.token] at hn
  exact hf.owns_temporary h.call hn directory

/-- New directories without temporary names are a move of any writer. -/
theorem moves_of_adds {own : Place → Prop} {u : FileTree}
    (h : Adds (fun name => ¬ IsTemporary calls [name]) t u) :
    t.Moves (IsTemporary calls) own u := by
  refine h.moves fun place name hn hname => ?_
  obtain ⟨above, rfl⟩ := List.getLast?_eq_some_iff.1 hn
  rwa [isTemporary_concat]

/-- Making directories above a target touches no temporary file. -/
theorem Ready.makeDirectories (h : Ready policy here calls i c w t) (hf : Fresh t₀ calls)
    (ht : Tries policy c.path target) (height : Nat) {u : FileTree}
    (hu : u = (t.makeDirectories here (ancestor height (folder target))).2)
    (htidy : t.Vacant (Owns calls i)) :
    t.Moves (IsTemporary calls) (Owns calls i) u ∧ u.Vacant (Owns calls i) ∧
      ∀ place, u.get? place = t.get? place ∨
        t.get? place = none ∧ u.get? place = some .directory := by
  obtain ⟨n, rfl, -⟩ := ht
  have hadds : Adds (fun name => ¬ IsTemporary calls [name]) t u := by
    rw [hu]
    refine makeDirectories_adds h.closed h.base fun name hm hname => ?_
    exact hf.not_isTemporary_ancestor (List.mem_of_getElem? h.call) height hm hname
  refine ⟨moves_of_adds hadds, fun place hp => ?_, hadds.get?_eq_or⟩
  have hnobody : t.Moves (IsTemporary calls) (fun _ => False) u := moves_of_adds hadds
  rw [hnobody.others place ⟨i, hp⟩ not_false]
  exact htidy place hp

/-- **The effect of a turn.** -/
theorem Turn.effect (h : Turn policy here w d w' d' note) (hr : Ready policy here calls i c w d.tree)
    (hf : Fresh t₀ calls) (ht : w.Tidy calls here i stuck d.tree) :
    Effect calls here i c stuck note w' d.tree d'.tree := by
  have hphase := hr.serves.phase
  unfold Writer.Tidy at ht
  -- a step that fails may have done a part of its work, which is the work of a step that does not
  cases h with
  | rest =>
    refine .same ?_ (by simp)
    unfold Writer.Tidy
    split at ht <;> simp_all
  | found hp | taken hp =>
    rw [hp] at ht
    exact .same (.of_vacant ht fun target => by rw [Writer.pass]; split_ifs <;> simp) (by simp)
  | free hp | claim hp =>
    rw [hp] at ht
    exact .same (.of_vacant ht (by simp)) (by simp)
  | @prepare target u hp hm =>
    rw [hp] at ht hphase
    obtain ⟨hmoves, hvacant, helse⟩ :=
      hr.makeDirectories hf hphase 0 (u := u) (by rw [ancestor, hm]) ht
    exact ⟨hmoves, .of_vacant hvacant (by simp), fun place _ => helse place, by simp⟩
  | @unprepared target e u hp hm =>
    rw [hp] at ht hphase
    rcases hm with rfl | ⟨height, hm⟩
    · exact .same (.of_vacant ht (by simp)) (by simp)
    · obtain ⟨hmoves, hvacant, helse⟩ := hr.makeDirectories hf hphase height hm ht
      exact ⟨hmoves, .of_vacant hvacant (by simp), fun place _ => helse place, by simp⟩
  | @stage target u hp hw =>
    rw [hp] at ht
    obtain ⟨hmoves, hstaged, helse⟩ := (hr.ownPath hf target).writeFile ht hw
    exact ⟨hmoves, hstaged, fun place hn => .inl (helse place hn), by simp⟩
  | @unstaged target e u hp hw =>
    rw [hp] at ht
    rcases hw with rfl | ⟨part, hw⟩
    · exact .same (.of_vacant ht (by simp)) (by simp)
    · obtain ⟨hmoves, hstaged, helse⟩ := (hr.ownPath hf target).writeFile ht hw
      exact ⟨hmoves, .inr ⟨part, hstaged⟩, fun place hn => .inl (helse place hn), by simp⟩
  | @publish target u goal hp hw hl =>
    rw [hp] at ht hphase
    obtain ⟨n, rfl, -⟩ := hphase
    have hgoal : ∀ name ∈ pieces (candidate c.path n), IsName name → ∀ above : Place,
        ¬ IsTemporary calls (above ++ [name]) := fun name hm _ above => by
      rw [isTemporary_concat]
      exact hf.not_isTemporary_candidate (List.mem_of_getElem? hr.call) hm
    obtain ⟨hmoves, hvacant, hfree, hthere, helse⟩ :=
      (hr.ownPath hf _).renameFile ht hgoal hw hl
    refine ⟨hmoves, .of_vacant hvacant (by simp), fun place hn => ?_, fun place hplace => ?_⟩
    · rw [Note.Leaves]
      split_ifs with he
      · rw [he]
        exact hthere.trans (by rw [hr.serves.content, Call.bytes])
      · exact helse place hn he
    · cases hplace
      exact hfree
  | unpublished hp =>
    rw [hp] at ht
    exact .same (.inr ⟨_, ht⟩) (by simp)
  | @discard target f u hp hw =>
    rw [hp] at ht
    obtain ⟨hmoves, hvacant, helse⟩ := (hr.ownPath hf target).removeFile ht hw
    exact ⟨hmoves, .of_vacant hvacant (by simp), fun place hn => .inl (helse place hn), by simp⟩
  | @vanished target f hp hw =>
    rw [hp] at ht
    exact .same (.of_vacant (vacant_of_removeFile ht hw) (by simp)) (by simp)
  | left hp => exact .same (.inr (.inr rfl)) (by simp)

/-! ## Every race -/

/-- The place has the last document that landed there or, where none has,
what it had at the start; a directory may have been made where nothing
was. -/
def Race.Settled (t₀ : FileTree) (calls : List Call) (s : Race) (place : Place) : Prop :=
  match s.newest? place with
  | some i => ∃ c, calls[i]? = some c ∧ s.tree.get? place = some (.file c.bytes)
  | none => s.tree.get? place = t₀.get? place ∨
    t₀.get? place = none ∧ s.tree.get? place = some .directory

/-- A place stays settled where nothing lands: a directory cannot come where a
document stands. -/
theorem Race.Settled.grows {s' : Race} {place : Place} (h : s.Settled t₀ calls place)
    (hnewest : s'.newest? place = s.newest? place)
    (hmove : s'.tree.get? place = s.tree.get? place ∨
      s.tree.get? place = none ∧ s'.tree.get? place = some .directory) :
    s'.Settled t₀ calls place := by
  unfold Race.Settled at h ⊢
  rw [hnewest]
  rcases hmove with hsame | ⟨hbare, hdir⟩
  · rwa [hsame]
  · rw [hbare] at h
    rw [hdir]
    split at h
    · obtain ⟨_, -, hfile⟩ := h
      cases hfile
    · rcases h with hb | ⟨-, hb⟩
      · exact .inr ⟨hb.symm, rfl⟩
      · cases hb

/-- Every temporary file is in the hands of its writer, and every other place
is settled. -/
structure InCustody (policy : Collision) (here : Place) (t₀ : FileTree) (calls : List Call)
    (s : Race) : Prop where
  closed : s.tree.IsClosed
  base : s.tree.get? here = some .directory
  later : t₀.Later (IsTemporary calls) s.tree
  ledger : Ledger policy calls s
  tidy : ∀ (i : Nat) (w : Writer), s.writers[i]? = some w → w.Tidy calls here i (i ∈ s.stuck) s.tree
  settled : ∀ place, ¬ IsTemporary calls place → s.Settled t₀ calls place
  lasting : ∀ place i, (place, i) ∈ s.published → ¬ IsTemporary calls place

/-- Links of the start stand at no temporary place. -/
theorem Fresh.linksApart (h : Fresh t₀ calls) : t₀.LinksApart (IsTemporary calls) :=
  fun place target hl ht => by
    rw [h.tree place ht] at hl
    cases hl

namespace InCustody

/-- At the start nothing is written. -/
theorem start (hc : t₀.IsClosed) (hb : t₀.get? here = some .directory) (hf : Fresh t₀ calls) :
    InCustody policy here t₀ calls (Race.start policy t₀ calls) := by
  have hvacant : ∀ i, t₀.Vacant (Owns calls i) := fun i place hp => hf.tree place ⟨i, hp⟩
  refine ⟨hc, hb, .refl _ _, .start policy t₀ calls, fun i w hw => ?_, fun place _ => .inl rfl,
    fun place i hi => ?_⟩
  · rw [Race.start, List.getElem?_map, Option.map_eq_some_iff] at hw
    obtain ⟨c, -, rfl⟩ := hw
    refine .of_vacant (hvacant i) fun target => ?_
    rw [Writer.start]
    split_ifs <;> simp
  · cases hi

/-- What a writer knows when it takes its step. -/
theorem ready (h : InCustody policy here t₀ calls s) (hf : Fresh t₀ calls)
    (hw : s.writers[i]? = some w) : ∃ c, Ready policy here calls i c w s.tree := by
  obtain ⟨c, hc, hserves⟩ := h.ledger.serves i w hw
  exact ⟨c, h.closed, h.base, hf.linksApart.later h.later, hc, hserves⟩

/-- A place stays settled when a writer takes a step. -/
theorem settled_after (h : InCustody policy here t₀ calls s) {place : Place}
    (hp : ¬ IsTemporary calls place) (hc : calls[i]? = some c)
    (he : note.Leaves c place (s.tree.get? place) (d'.tree.get? place)) :
    (s.after i w' d' note).Settled t₀ calls place := by
  have hbefore := h.settled place hp
  by_cases hlanded : ∃ goal, note = .landed goal
  · obtain ⟨goal, rfl⟩ := hlanded
    unfold Race.Settled at hbefore ⊢
    rw [Note.Leaves] at he
    rw [Race.tree_after, Race.newest?_landed, he]
    by_cases hgoal : goal = place
    · rw [if_pos hgoal, if_pos hgoal.symm]
      exact ⟨c, hc, rfl⟩
    · rw [if_neg hgoal, if_neg (Ne.symm hgoal)]
      exact hbefore
  · have hnone : ∀ goal, note ≠ .landed goal := fun goal hg => hlanded ⟨goal, hg⟩
    refine hbefore.grows (Race.newest?_of_not_landed hnone place) ?_
    cases note with
    | landed goal => exact absurd rfl (hnone goal)
    | _ => exact he

/-- **One turn keeps everything in custody.** -/
theorem after (h : InCustody policy here t₀ calls s) (hf : Fresh t₀ calls)
    (hw : s.writers[i]? = some w) (ht : Turn policy here w s.disk w' d' note) :
    InCustody policy here t₀ calls (s.after i w' d' note) := by
  obtain ⟨c, hready⟩ := h.ready hf hw
  have heffect := ht.effect hready hf (h.tidy i w hw)
  have hmoves : s.tree.Moves (IsTemporary calls) (Owns calls i) d'.tree := heffect.moves
  have hlater : t₀.Later (IsTemporary calls) d'.tree :=
    h.later.trans hf.linksApart hmoves.toLater
  -- the writer that moved is tidy by its effect, the others since their places are not touched
  refine ⟨hmoves.closed h.closed, hmoves.directory _ h.base, hlater, h.ledger.after hw ht,
    fun j w'' hj => ?_, fun place hp => ?_, fun place j hj => ?_⟩
  · rcases Race.writers_after_cases hw hj with ⟨rfl, rfl⟩ | ⟨hne, hj⟩
    · refine heffect.tidy.imp fun h => Race.mem_stuck_after.2 ?_
      rcases h with h | h
      · exact .inr h
      · exact .inl ⟨h, rfl⟩
    · have htidy := (h.tidy j w'' hj).moves hf hmoves hne
      exact htidy.imp fun h => Race.mem_stuck_after.2 (.inr h)
  · exact h.settled_after hp hready.call (heffect.elsewhere place hp)
  · rcases Race.mem_published_after.1 hj with ⟨hnote, -⟩ | hj
    · exact heffect.goal place hnote
    · exact h.lasting place j hj

/-- **Every race keeps everything in custody.** -/
theorem run (policy : Collision) (hc : t₀.IsClosed) (hb : t₀.get? here = some .directory)
    (hf : Fresh t₀ calls) (events : List Event) :
    InCustody policy here t₀ calls (race policy here t₀ calls events) :=
  Race.run_induction (start hc hb hf) (fun _ _ _ _ _ _ h hw ht => h.after hf hw ht) events

/-- **A writer that rests leaves no temporary file**, unless it could not
remove one. -/
theorem vacant_of_rests (h : InCustody policy here t₀ calls s) (hover : s.IsOver)
    (hc : calls[i]? = some c) (hi : i ∉ s.stuck) : s.tree.Vacant (Owns calls i) := by
  obtain ⟨w, hw⟩ := h.ledger.exists_writer hc
  obtain ⟨result, hrest⟩ := Option.isSome_iff_exists.1 (hover w (List.mem_of_getElem? hw))
  have hphase : w.phase = .done result := Writer.result?_eq_some.1 hrest
  have htidy := h.tidy i w hw
  rw [Writer.Tidy, hphase] at htidy
  exact htidy.resolve_right hi

end InCustody

end Disk

end Docsmith
