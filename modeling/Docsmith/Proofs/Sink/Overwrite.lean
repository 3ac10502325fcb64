import Docsmith.Proofs.Sink.Custody
/-!
# Sinks — overwriting at once

Writers that overwrite, in whatever order they take their steps and whatever
steps fail: `overwrite_atomic` says that at every moment a place has what it
had at the start or the whole of a document that was renamed there, that a
write that fails changes no file, that no temporary file is left once all
writers rest, and that the last document renamed to a place is the one that
stands there. The disk may have links; a document replaces a link that it is
renamed to.
-/


namespace Docsmith

namespace Disk

open Config (Collision)

open FileTree

variable {policy : Collision} {here : Place} {t₀ : FileTree} {calls : List Call} {i : Nat}
variable {events : List Event} {place : Place} {c : Call}

/-- The `i`-th document was renamed to its path while that led to the
place. -/
def Lands (policy : Collision) (here : Place) (t₀ : FileTree) (calls : List Call)
    (events : List Event) (i : Nat) (place : Place) : Prop :=
  ∃ before e after c, events = before ++ e :: after ∧ e.writer = i ∧ calls[i]? = some c ∧
    (race policy here t₀ calls before).tree.landing here c.path = .ok place

/-- What overwriting writers do to the disk. A place is temporary if its last
name is `.name.token.tmp` with the token of one of the writes. -/
structure Atomic (here : Place) (t₀ : FileTree) (calls : List Call) (events : List Event) :
    Prop where
  /-- A place has what it had at the start or the whole of a document that
  was renamed there; where nothing was, a directory may have been made. -/
  whole : ∀ place, ¬ IsTemporary calls place →
    (race .overwrite here t₀ calls events).tree.get? place = t₀.get? place ∨
    t₀.get? place = none ∧
      (race .overwrite here t₀ calls events).tree.get? place = some .directory ∨
    ∃ i c, calls[i]? = some c ∧ Lands .overwrite here t₀ calls events i place ∧
      (race .overwrite here t₀ calls events).tree.get? place = some (.file c.bytes)
  /-- No step of a writer that fails changes a file; at most it makes
  directories where nothing was. -/
  framed : ∀ before e after f, events = before ++ e :: after →
    (race .overwrite here t₀ calls events).result? e.writer = some (.error f) →
    ∀ place, ¬ IsTemporary calls place →
      (race .overwrite here t₀ calls (before ++ [e])).tree.get? place =
          (race .overwrite here t₀ calls before).tree.get? place ∨
        (race .overwrite here t₀ calls before).tree.get? place = none ∧
          (race .overwrite here t₀ calls (before ++ [e])).tree.get? place = some .directory
  /-- Once all writers rest, no temporary file is left but those that could
  not be removed. -/
  clean : (race .overwrite here t₀ calls events).IsOver →
    ∀ i, i ∉ (race .overwrite here t₀ calls events).stuck → ∀ place, Owns calls i place →
      (race .overwrite here t₀ calls events).tree.get? place = none
  /-- A writer that succeeds answers with its path; its document was renamed
  to a place, and there stands the last document that was. -/
  last : ∀ i p, (race .overwrite here t₀ calls events).result? i = some (.ok p) →
    ∃ c place, calls[i]? = some c ∧ p = c.path ∧ ¬ IsTemporary calls place ∧
      Lands .overwrite here t₀ calls events i place ∧
      ∃ j c', (race .overwrite here t₀ calls events).newest? place = some j ∧
        calls[j]? = some c' ∧
        (race .overwrite here t₀ calls events).tree.get? place = some (.file c'.bytes)

/-- A document that is published landed, overwriting, where its path led. -/
theorem lands_of_mem_published (hc : t₀.IsClosed) (hb : t₀.get? here = some .directory)
    (hf : Fresh t₀ calls)
    (h : (place, i) ∈ (race .overwrite here t₀ calls events).published) :
    Lands .overwrite here t₀ calls events i place := by
  obtain ⟨before, e, after, he, hi, w, target, hw, hp, hl⟩ := exists_of_mem_published h
  obtain ⟨c, hready⟩ := (InCustody.run .overwrite hc hb hf before).ready hf hw
  have htarget := hready.serves.phase
  rw [hp] at htarget
  rw [htarget.eq_of_overwrite] at hl
  exact ⟨before, e, after, c, he, hi, hready.call, hl⟩

/-- A step of a writer that fails in the end publishes nothing. -/
theorem not_landed_of_failed {before after : List Event} {e : Event} {f : Failure}
    (h : (race policy here t₀ calls (before ++ e :: after)).result? e.writer = some (.error f))
    (place : Place) :
    (place, e.writer) ∉ (race policy here t₀ calls (before ++ [e])).published := by
  intro hp
  have hend : (place, e.writer) ∈ (race policy here t₀ calls (before ++ e :: after)).published := by
    have hsplit : before ++ e :: after = before ++ [e] ++ after := by simp
    rw [hsplit, race, Race.run, List.foldl_append]
    exact Race.run_published hp after
  obtain ⟨w, target, hw, hdone⟩ := (Ledger.run t₀ calls _).rested place e.writer hend
  obtain ⟨w', hw', hfailed⟩ := Race.result?_eq_some.1 h
  rw [hw, Option.some.injEq] at hw'
  rw [hw', hfailed] at hdone
  cases hdone

/-- **Overwriting is atomic and framed**, whatever the order of the steps and
whichever of them fail. -/
theorem overwrite_atomic (hc : t₀.IsClosed) (hb : t₀.get? here = some .directory)
    (hf : Fresh t₀ calls) (events : List Event) : Atomic here t₀ calls events := by
  have hcustody := InCustody.run .overwrite hc hb hf events
  refine ⟨fun place hp => ?_, fun before e after f he hfailed place hp => ?_,
    fun hover i hi place hown => ?_, fun i p hresult => ?_⟩
  · -- a place is settled at every moment, not only at the end
    have hsettled := hcustody.settled place hp
    unfold Race.Settled at hsettled
    split at hsettled
    · next j hj =>
      obtain ⟨c, hcall, hfile⟩ := hsettled
      exact .inr (.inr ⟨j, c, hcall,
        lands_of_mem_published hc hb hf (mem_published_of_newest? hj), hfile⟩)
    · exact hsettled.imp_right .inl
  · subst he
    -- a step of a writer that fails lands nothing, and nothing else changes a file
    have hnot := not_landed_of_failed hfailed
    rw [Race.race_concat] at hnot ⊢
    rcases Race.step_cases .overwrite here (race .overwrite here t₀ calls before) e with
      hstep | ⟨w, w', d, note, hw, ht, hstep⟩
    · exact .inl (by rw [hstep])
    · have hbefore := InCustody.run .overwrite hc hb hf before
      obtain ⟨c, hready⟩ := hbefore.ready hf hw
      have heffect := ht.effect hready hf (hbefore.tidy e.writer w hw)
      have helse := heffect.elsewhere place hp
      rw [hstep] at hnot ⊢
      cases note with
      | landed goal => exact absurd (Race.mem_published_after.2 (.inl ⟨rfl, rfl⟩)) (hnot goal)
      | _ => exact helse
  · have ⟨c, _, hcall, _⟩ := hown
    exact hcustody.vacant_of_rests hover hcall hi place hown
  · obtain ⟨w, hw, hdone⟩ := Race.result?_eq_some.1 hresult
    obtain ⟨c, hready⟩ := hcustody.ready hf hw
    have htarget := hready.serves.phase
    rw [hdone] at htarget
    rcases (Ledger.run t₀ calls events).answered i w p hw hdone with ⟨place, hplace⟩ | h
    · obtain ⟨j, hj⟩ := exists_newest?_of_mem hplace
      have hfree := hcustody.lasting place i hplace
      have hsettled := hcustody.settled place hfree
      rw [Race.Settled, hj] at hsettled
      obtain ⟨c', hcall', hfile⟩ := hsettled
      exact ⟨c, place, hready.call, htarget.eq_of_overwrite, hfree,
        lands_of_mem_published hc hb hf hplace, j, c', hj, hcall', hfile⟩
    · cases h

/-- A disk with one document in a directory. -/
def sharedTree : FileTree :=
  ⟨[(["d"], .directory), (["d", "x"], .file "old".toUTF8)]⟩

/-- Two writes to the document and one below it, where no directory can be
made. -/
def sharedCalls : List Call :=
  [("d/x", "first"), ("d/x", "second"), ("d/x/y", "third")].zipIdx.map fun ((path, content), n) =>
    ⟨path, content, nextToken ⟨sharedTree, [], n⟩⟩

/-- The two writers overtake each other, a step is refused half way, and the
third writer fails. -/
def sharedEvents : List Event :=
  [⟨0, .carried⟩, ⟨1, .carried⟩, ⟨1, .carried⟩, ⟨0, .carried⟩, ⟨2, .carried⟩, ⟨0, .carried⟩,
    ⟨1, .refused .notDirectory none none⟩, ⟨1, .carried⟩]

/-- Two writers of one document and one that fails. -/
theorem overwrite_atomic_shared : sharedTree.IsClosed ∧
    sharedTree.get? [] = some .directory ∧ Fresh sharedTree sharedCalls ∧
    Atomic [] sharedTree sharedCalls sharedEvents := by
  have hc : sharedTree.IsClosed := .of_nodes (by decide +kernel)
  have hb : sharedTree.get? [] = some .directory := rfl
  have hf : Fresh sharedTree sharedCalls :=
    .of_short (by decide +kernel) (by decide +kernel) (by decide +kernel) (by decide +kernel)
  exact ⟨hc, hb, hf, overwrite_atomic hc hb hf sharedEvents⟩

/-- The first document stands alone in the directory. -/
example : (race .overwrite [] sharedTree sharedCalls sharedEvents).tree.nodes =
    [(["d"], .directory), (["d", "x"], .file "first".toUTF8)] := by
  decide +kernel

end Disk

end Docsmith
