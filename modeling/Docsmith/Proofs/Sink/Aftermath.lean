import Docsmith.Proofs.FileTree.LinkFree
import Docsmith.Proofs.Sink.Custody
/-!
# Sinks — what overwriting writers leave behind

Writers that overwrite may share the disk with others that make
directories, and each may begin when it likes. If all of them succeed and no
two of their paths can come to lead to one place, what they leave is fixed by
the disk at the start and the documents alone (`Traced.get?_eq_file_iff`): a
document stands where its path reaches, every other file is as it was, and
there is no further one. Neither the order of the steps nor the temporary
names can be told from it.
-/


namespace Docsmith

namespace Disk

open Config (Collision)

open FileTree

variable {here : Place} {t₀ : FileTree} {calls : List Call} {i : Nat} {place : Place} {s : Race}
variable {w w' : Writer} {d' : Disk} {note : Note} {content : ByteArray}

/-- Custody of a race, together with what its record tells: documents landed
where their paths reach, and only failed writers left a temporary file. -/
structure Traced (here : Place) (t₀ : FileTree) (calls : List Call) (s : Race) : Prop
    extends InCustody .overwrite here t₀ calls s where
  reached : ∀ place i, (place, i) ∈ s.published →
    ∃ c, calls[i]? = some c ∧ t₀.Reaches here c.path place
  failed : ∀ i ∈ s.stuck, ∃ (w : Writer) (f : Failure),
    s.writers[i]? = some w ∧ w.phase = .done (.error f)

/-- A temporary file that cannot be removed is that of a writer that fails. -/
theorem Turn.failed_of_stuck {policy : Collision} {d : Disk}
    (h : Turn policy here w d w' d' .stuck) : ∃ f, w'.phase = .done (.error f) := by
  cases h with
  | left => exact ⟨_, rfl⟩

namespace Traced

theorem start (hc : t₀.IsClosed) (hb : t₀.get? here = some .directory) (hf : Fresh t₀ calls) :
    Traced here t₀ calls (Race.start .overwrite t₀ calls) := by
  refine ⟨.start hc hb hf, fun place i hi => ?_, fun i hi => ?_⟩
  · cases hi
  · cases hi

/-- **One turn of a writer** is traced. -/
theorem after (h : Traced here t₀ calls s) (hf : Fresh t₀ calls) (hw : s.writers[i]? = some w)
    (ht : Turn .overwrite here w s.disk w' d' note) :
    Traced here t₀ calls (s.after i w' d' note) := by
  refine ⟨h.toInCustody.after hf hw ht, fun place j hj => ?_, fun j hj => ?_⟩
  · rcases Race.mem_published_after.1 hj with ⟨rfl, rfl⟩ | hj
    · obtain ⟨c, hready⟩ := h.ready hf hw
      obtain ⟨target, hp, -, hl⟩ := ht.landed
      have htarget := hready.serves.phase
      rw [hp] at htarget
      rw [htarget.eq_of_overwrite] at hl
      exact ⟨c, hready.call, s.tree, h.later.grownFrom hf.tree, h.closed, h.base, hl⟩
    · exact h.reached place j hj
  · rcases Race.mem_stuck_after.1 hj with ⟨rfl, rfl⟩ | hj
    · obtain ⟨f, hfailed⟩ := ht.failed_of_stuck
      exact ⟨w', f, Race.writers_after_self hw, hfailed⟩
    · obtain ⟨v, f, hv, hfailed⟩ := h.failed j hj
      obtain ⟨v, hv, hfailed⟩ : ∃ v : Writer, (s.after i w' d' note).writers[j]? = some v ∧
          v.phase = .done (.error f) :=
        Race.exists_writer_after hw ht.rests hv hfailed
      exact ⟨v, f, hv, hfailed⟩

/-- Writers go on from where they are. -/
theorem run (h : Traced here t₀ calls s) (hf : Fresh t₀ calls) (events : List Event) :
    Traced here t₀ calls (s.run .overwrite here events) :=
  Race.run_induction h (fun _ _ _ _ _ _ h hw ht => h.after hf hw ht) events

/-- **Directories that others make** are no writer's business. -/
theorem made (h : Traced here t₀ calls s) (hf : Fresh t₀ calls) {u : FileTree}
    (hadds : Adds (fun name => ¬ IsTemporary calls [name]) s.tree u) :
    Traced here t₀ calls { s with disk := { s.disk with tree := u } } := by
  have hmoves : s.tree.Moves (IsTemporary calls) (fun _ => False) u := moves_of_adds hadds
  refine ⟨⟨hadds.closed h.closed, hadds.kept here _ h.base,
    h.later.trans hf.linksApart hmoves.toLater, ?_, fun i w hw => ?_, fun place hp => ?_,
    h.lasting⟩, h.reached, h.failed⟩
  · have hl := h.ledger
    exact ⟨hl.length, hl.serves, hl.reserved, hl.apart, hl.claimed, hl.answered, hl.claimant,
      hl.rested⟩
  · -- as far as this writer can tell, another one has moved
    have hothers : s.tree.Moves (IsTemporary calls) (Owns calls (i + 1)) u := moves_of_adds hadds
    exact (h.tidy i w hw).moves hf hothers (Nat.ne_of_lt (Nat.lt_succ_self i))
  · exact (h.settled place hp).grows rfl (hadds.get?_eq_or place)

end Traced

/-! ## When all have succeeded -/

/-- No two of the paths can come to lead to one place. -/
def ReachApart (here : Place) (t : FileTree) (paths : List String) : Prop :=
  paths.Pairwise fun p q => ∀ place, t.Reaches here p place → ¬ t.Reaches here q place

/-- **Paths that spell different places** cannot come to lead to one, where no
links stand. -/
theorem reachApart_of_spelt {paths : List String} (hl : t₀.HasNoLinks)
    (h : (paths.map (spelt here)).Nodup) : ReachApart here t₀ paths := by
  rw [List.Nodup, List.pairwise_map] at h
  refine h.imp fun hne place hp hq => hne ?_
  rw [← hp.eq_spelt hl, ← hq.eq_spelt hl]

/-- Of writes that are apart only one can come to a place. -/
theorem ReachApart.index_eq (h : ReachApart here t₀ (calls.map (·.path))) {j : Nat} {c d : Call}
    (hc : calls[i]? = some c) (hd : calls[j]? = some d) (hi : t₀.Reaches here c.path place)
    (hj : t₀.Reaches here d.path place) : i = j := by
  obtain ⟨hi', rfl⟩ := List.getElem?_eq_some_iff.1 hc
  obtain ⟨hj', rfl⟩ := List.getElem?_eq_some_iff.1 hd
  rw [ReachApart, List.pairwise_map, List.pairwise_iff_getElem] at h
  rcases Nat.lt_trichotomy i j with hlt | heq | hlt
  · exact absurd hj (h i j hi' hj' hlt place hi)
  · exact heq
  · exact absurd hi (h j i hj' hi' hlt place hj)

/-- What stands as a file once documents were written: each document where its
path reaches, and the other files of the start. -/
def Leaves (here : Place) (t : FileTree) (drafts : List Draft) (place : Place)
    (content : ByteArray) : Prop :=
  (∃ x ∈ drafts, t.Reaches here x.path place ∧ content = x.content.toUTF8) ∨
    t.get? place = some (.file content) ∧ ∀ x ∈ drafts, ¬ t.Reaches here x.path place

/-- The document of a write. -/
def Call.draft (c : Call) : Draft :=
  ⟨c.path, c.content⟩

theorem leaves_draft_iff : Leaves here t₀ (calls.map Call.draft) place content ↔
    (∃ c ∈ calls, t₀.Reaches here c.path place ∧ content = c.bytes) ∨
      t₀.get? place = some (.file content) ∧ ∀ c ∈ calls, ¬ t₀.Reaches here c.path place := by
  simp [Leaves, Call.draft, Call.bytes]

/-- Where a document reaches that is apart from the others, it is what is left. -/
theorem ReachApart.leaves_iff (h : ReachApart here t₀ (calls.map (·.path))) {c : Call}
    (hc : calls[i]? = some c) (hreach : t₀.Reaches here c.path place) :
    Leaves here t₀ (calls.map Call.draft) place content ↔ content = c.bytes := by
  rw [leaves_draft_iff]
  constructor
  · rintro (⟨d, hd, hother, rfl⟩ | ⟨-, hnone⟩)
    · obtain ⟨j, hj⟩ := List.mem_iff_getElem?.1 hd
      obtain rfl := h.index_eq hc hj hreach hother
      obtain rfl : c = d := Option.some.inj (hc.symm.trans hj)
      rfl
    · exact absurd hreach (hnone c (List.mem_of_getElem? hc))
  · exact fun heq => .inl ⟨c, List.mem_of_getElem? hc, hreach, heq⟩

/-- Where none reaches, the files of the start are. -/
theorem leaves_iff_of_not_reaches (h : ∀ c ∈ calls, ¬ t₀.Reaches here c.path place) :
    Leaves here t₀ (calls.map Call.draft) place content ↔
      t₀.get? place = some (.file content) := by
  rw [leaves_draft_iff]
  constructor
  · rintro (⟨c, hc, hreach, -⟩ | ⟨hfile, -⟩)
    · exact absurd hreach (h c hc)
    · exact hfile
  · exact fun hfile => .inr ⟨hfile, h⟩

/-- No path reaches a temporary place. -/
theorem Fresh.not_reaches (hf : Fresh t₀ calls) {c : Call} (hc : c ∈ calls)
    (htemp : IsTemporary calls place) : ¬ t₀.Reaches here c.path place := by
  intro h
  obtain ⟨name, hname, -, hlast⟩ := h.getLast?
  obtain ⟨above, rfl⟩ := List.getLast?_eq_some_iff.1 hlast
  exact hf.path c hc name hname (isTemporary_concat.1 htemp)

namespace Traced

/-- Every document of writers that have succeeded has landed, and where its path
reaches. -/
theorem exists_landed (h : Traced here t₀ calls s) (hdone : ∀ (i : Nat) (w : Writer),
    s.writers[i]? = some w → ∃ p, w.phase = .done (.ok p)) {c : Call} (hc : calls[i]? = some c) :
    ∃ place, (place, i) ∈ s.published ∧ t₀.Reaches here c.path place := by
  obtain ⟨w, hw⟩ := h.ledger.exists_writer hc
  obtain ⟨p, hp⟩ := hdone i w hw
  rcases h.ledger.answered i w p hw hp with ⟨place, hplace⟩ | hskip
  · obtain ⟨d, hd, hreach⟩ := h.reached place i hplace
    obtain rfl : c = d := Option.some.inj (hc.symm.trans hd)
    exact ⟨place, hplace, hreach⟩
  · cases hskip

/-- Writers that have succeeded leave no temporary file. -/
theorem get?_of_isTemporary (h : Traced here t₀ calls s) (hdone : ∀ (i : Nat) (w : Writer),
    s.writers[i]? = some w → ∃ p, w.phase = .done (.ok p)) (htemp : IsTemporary calls place) :
    s.tree.get? place = none := by
  obtain ⟨i, c, name, hc, hown⟩ := htemp
  have hover : s.IsOver := by
    intro w hw
    obtain ⟨j, hj⟩ := List.mem_iff_getElem?.1 hw
    obtain ⟨p, hp⟩ := hdone j w hj
    rw [Writer.result?, hp]
    rfl
  have hstuck : i ∉ s.stuck := by
    intro hi
    obtain ⟨w, f, hw, hfailed⟩ := h.failed i hi
    obtain ⟨p, hp⟩ := hdone i w hw
    rw [hfailed] at hp
    cases hp
  exact h.vacant_of_rests hover hc hstuck place ⟨c, name, hc, hown⟩

/-- **What writers leave behind that all succeed** is fixed by the disk at the
start and the documents. -/
theorem get?_eq_file_iff (h : Traced here t₀ calls s) (hf : Fresh t₀ calls)
    (hapart : ReachApart here t₀ (calls.map (·.path))) (hdone : ∀ (i : Nat) (w : Writer),
      s.writers[i]? = some w → ∃ p, w.phase = .done (.ok p)) (place : Place)
    (content : ByteArray) : s.tree.get? place = some (.file content) ↔
      Leaves here t₀ (calls.map Call.draft) place content := by
  by_cases htemp : IsTemporary calls place
  · have hnone : ∀ c ∈ calls, ¬ t₀.Reaches here c.path place :=
      fun c hc => hf.not_reaches hc htemp
    rw [leaves_iff_of_not_reaches hnone, h.get?_of_isTemporary hdone htemp, hf.tree place htemp]
  · have hsettled := h.settled place htemp
    unfold Race.Settled at hsettled
    split at hsettled
    · next i hi =>
      -- one document reaches the place, and it landed there
      obtain ⟨c, hc, hfile⟩ := hsettled
      obtain ⟨d, hd, hreach⟩ := h.reached place i (mem_published_of_newest? hi)
      obtain rfl : c = d := Option.some.inj (hc.symm.trans hd)
      rw [hapart.leaves_iff hc hreach, hfile, Option.some.injEq, Node.file.injEq, eq_comm]
    · next hi =>
      -- no document landed there, so none reaches the place
      have hnone : ∀ c ∈ calls, ¬ t₀.Reaches here c.path place := by
        intro c hc hreach
        obtain ⟨i, hi'⟩ := List.mem_iff_getElem?.1 hc
        obtain ⟨goal, hgoal, hland⟩ := h.exists_landed hdone hi'
        obtain rfl := hreach.unique hland
        obtain ⟨j, hj⟩ := exists_newest?_of_mem hgoal
        rw [hi] at hj
        cases hj
      rw [leaves_iff_of_not_reaches hnone]
      rcases hsettled with hsame | ⟨hbare, hdir⟩
      · rw [hsame]
      · rw [hbare, hdir]
        simp

end Traced

end Disk

end Docsmith
