import Docsmith.Proofs.Path.Child
import Docsmith.Proofs.Sink.Ledger
import Docsmith.Proofs.Sink.Temporary
import Mathlib.Logic.Relation
/-!
# Sinks — the files of a writer

All files that a writer touches stand in the directory of the path that it
was started for: the paths that it tries, its temporary file and the path
that it answers with. This holds under every policy, whatever the disk is
like at each step and whichever steps are refused (`Becomes.isChild`). The
tokens of a disk's own writes are such as temporary names are made of
(`isToken_nextToken`).
-/


namespace Docsmith.Disk

open Config (Collision)
open Docsmith.Path Text

variable {policy : Collision} {here : Place} {directory path target token : String} {w w' : Writer}

/-! ## Tokens -/

theorem length_digitGroup (n skipped count : Nat) :
    (digitGroup n skipped count).toList.length = count := by
  simp [digitGroup]

theorem mem_digitGroup {n skipped count : Nat} {c : Char}
    (h : c ∈ (digitGroup n skipped count).toList) : c.isDigit ∨ ('a' ≤ c ∧ c ≤ 'f') := by
  have hdigit : ∀ k < 16, (Nat.digitChar k).isDigit ∨
      ('a' ≤ Nat.digitChar k ∧ Nat.digitChar k ≤ 'f') := by decide
  rw [digitGroup, String.toList_ofList] at h
  obtain ⟨i, -, rfl⟩ := List.mem_map.1 h
  exact hdigit _ (Nat.mod_lt _ (by decide))

/-- The number of a write makes a token. -/
theorem isToken_nextToken (d : Disk) : IsToken d.nextToken := by
  have htext : d.nextToken.toList = (digitGroup d.begun 24 8).toList ++ '-' ::
      ((digitGroup d.begun 20 4).toList ++ '-' :: ((digitGroup d.begun 16 4).toList ++ '-' ::
        ((digitGroup d.begun 12 4).toList ++ '-' :: (digitGroup d.begun 0 12).toList))) := by
    simp [nextToken]
  unfold IsToken
  rw [htext]
  refine ⟨?_, fun c hc => ?_⟩
  · simp only [List.length_append, List.length_cons, length_digitGroup]
  · simp only [List.mem_append, List.mem_cons] at hc
    rcases hc with hc | rfl | hc | rfl | hc | rfl | hc | rfl | hc
    all_goals first
      | exact (mem_digitGroup hc).imp_right .inl
      | exact .inr (.inr rfl)

/-! ## What a writer touches -/

/-- Some steps of a writer, with any fates and on whatever disk it finds at each
of them. -/
def Writer.Becomes (policy : Collision) (here : Place) : Writer → Writer → Prop :=
  Relation.ReflTransGen fun w w' => ∃ d fate, (w.meet policy here d fate).1 = w'

/-- The files that a writer's next steps are about, and the path it has answered. -/
def Writer.files (w : Writer) : List String :=
  match w.phase with
  | .look n | .reserve n => [candidate w.path n]
  | .prepare target | .stage target | .publish target | .discard target _ =>
    [target, w.temporary target]
  | .done (.ok target) => [target]
  | .done (.error _) => []

/-- The directory of a child, as a writer makes it. -/
theorem route_folder (h : IsChild directory path) : route (folder path) = route directory := by
  obtain ⟨name, -, hroute⟩ := h
  obtain ⟨above, habove, hbefore⟩ := route_parent? hroute nofun
  rw [folder, habove]
  dsimp only
  split_ifs with hempty
  · obtain rfl : above = "" := by simpa using hempty
    rw [← hbefore]
    decide +kernel
  · exact hbefore

theorem isChild_candidate (h : IsChild directory path) (n : Nat) :
    IsChild directory (candidate path n) := by
  unfold candidate
  split_ifs
  · exact h
  · exact h.suffixed n

theorem isFileName_temporaryName (ht : IsToken token) (target : String) :
    IsFileName (temporaryName token target) := by
  have hcarries := (carries_temporaryName token target).length_lt ht
  refine ⟨?_, ?_, ?_, slash_not_mem_temporaryName ht target⟩
  all_goals
    intro heq
    rw [heq] at hcarries
    exact absurd hcarries (by decide)

/-- A document's temporary file stands beside it. -/
theorem isChild_temporary (ht : IsToken token) (h : IsChild directory target) :
    IsChild directory (temporary token target) := by
  refine ⟨_, isFileName_temporaryName ht target, ?_⟩
  rw [← route_folder h]
  exact route_name (isFileName_temporaryName ht target) (folder target)

theorem Writer.Becomes.serves {c : Call} (h : Writer.Becomes policy here w w')
    (hs : w.Serves policy c) : w'.Serves policy c := by
  induction h with
  | refl => exact hs
  | tail _ hstep ih =>
    obtain ⟨d, fate, rfl⟩ := hstep
    exact (meet_turn fate).serves ih

/-- **The files of a writer stand in the directory of its path**, under every policy
and whatever happens on the way. -/
theorem Writer.Becomes.isChild {content : String} (hchild : IsChild directory path)
    (ht : IsToken token) (h : Writer.Becomes policy here (.start policy path content token) w) :
    ∀ file ∈ w.files, IsChild directory file := by
  obtain ⟨hpath, -, htoken, hphase⟩ := h.serves (Writer.Serves.start policy ⟨path, content, token⟩)
  dsimp only at hpath htoken hphase
  -- whatever the phase is about is one of the paths that are tried
  have htried : ∀ target, Tries policy path target → IsChild directory target := by
    rintro target ⟨n, rfl, -⟩
    exact isChild_candidate hchild n
  have hboth : ∀ target, Tries policy path target →
      ∀ file ∈ [target, w.temporary target], IsChild directory file := by
    intro target htries file hfile
    simp only [List.mem_cons, List.not_mem_nil, or_false] at hfile
    rcases hfile with rfl | rfl
    · exact htried _ htries
    · rw [Writer.temporary, htoken]
      exact isChild_temporary ht (htried _ htries)
  have hfits : ∀ phase, w.phase = phase → phase.Fits policy path := fun phase hp => hp ▸ hphase
  unfold Writer.files
  split
  · intro file hfile
    rw [List.mem_singleton.1 hfile, hpath]
    exact isChild_candidate hchild _
  · intro file hfile
    rw [List.mem_singleton.1 hfile, hpath]
    exact isChild_candidate hchild _
  · next target hp => exact hboth target (hfits _ hp)
  · next target hp => exact hboth target (hfits _ hp)
  · next target hp => exact hboth target (hfits _ hp)
  · next target f hp => exact hboth target (hfits _ hp)
  · next target hp =>
    intro file hfile
    rw [List.mem_singleton.1 hfile]
    exact htried target (hfits _ hp)
  · exact nofun

/-! ## A writer that runs -/

/-- A writer that does not rest takes its next step. -/
theorem Writer.run_succ (h : w.result? = none) (count : Nat) (d : Disk) :
    w.run policy here (count + 1) d =
      (w.step policy here d).1.run policy here count (w.step policy here d).2 := by
  rw [Writer.run, h]
  rfl

/-- A writer that rests stays as it is. -/
theorem Writer.run_of_done {result : Except Failure String} (h : w.result? = some result)
    (count : Nat) (d : Disk) : w.run policy here count d = (w, d) := by
  cases count with
  | zero => rfl
  | succ count =>
    rw [Writer.run, h]
    rfl

/-- A writer that runs takes some steps. -/
theorem Writer.becomes_run (policy : Collision) (here : Place) (count : Nat) (w : Writer) (d : Disk) :
    Writer.Becomes policy here w (w.run policy here count d).1 := by
  induction count generalizing w d with
  | zero => exact .refl
  | succ count ih =>
    rw [Writer.run]
    split
    · exact .refl
    · exact .head ⟨d, .carried, rfl⟩ (ih _ _)

/-- **The path that the disk answers with** stands in the directory of the one that
was asked for. -/
theorem isChild_of_write {content answer : String} {d : Disk} (hchild : IsChild directory path)
    (h : (write policy here path content d).1 = .ok answer) : IsChild directory answer := by
  have hbecomes := Writer.becomes_run policy here d.patience
    (.start policy path content d.nextToken) d
  unfold write at h
  dsimp only at h
  cases hresult :
      ((Writer.start policy path content d.nextToken).run policy here d.patience d).1.result? with
  | none =>
    rw [hresult] at h
    cases h
  | some result =>
    rw [hresult] at h
    obtain rfl : result = .ok answer := h
    refine hbecomes.isChild hchild d.isToken_nextToken answer ?_
    rw [Writer.files, Writer.result?_eq_some.1 hresult]
    exact List.mem_singleton_self _

end Docsmith.Disk
