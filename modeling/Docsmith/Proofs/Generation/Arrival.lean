import Docsmith.Generation.Run
import Docsmith.Proofs.Model.Line
import Mathlib.Data.List.Nodup
import Mathlib.Data.List.Pairwise
/-!
# Generation — answers put back in order

Answers arrive in any order and are put back in two ways. For the pages of
the elements there is a slot for each element and each purpose, and an
answer goes to the slot it is for (`fill_eq`). For the page of unit tests
the answers are sorted by the numbers of their elements (`sections_eq`).
Either way the texts are those of the requests in the order of the line,
which is what a stage gets whose answers come at the times of a timeline
(`Timeline.answers_eq`).
-/


namespace Docsmith.Generation

open Document Model

variable {reply : Call → Except Failure String} {arrivals : List Arrival}

/-! ## By index and purpose -/

namespace ElementPages

/-- The texts of an element once an answer is put into its slot. -/
def put (texts : Texts) (a : Arrival) : Texts :=
  match a.purpose with
  | .documentation => { texts with documentation := a.text }
  | _ => { texts with examples := a.text }

/-- The texts of some elements, with every answer in its slot. -/
def fill (count : Nat) (arrivals : List Arrival) : List Texts :=
  arrivals.foldl (fun texts a => texts.modify a.index (put · a)) (List.replicate count {})

/-- Two requests for an element with its number. -/
def entries (backends : List Config.Backend) (e : Element × Nat) : List (Nat × Request) :=
  [(e.2, ⟨some backends, e.1, .documentation⟩), (e.2, ⟨some backends, e.1, .usageExamples⟩)]

/-- The requests for the elements of all pages, with their numbers. -/
def line (backends : List Config.Backend) (groups : List Group) : List (Nat × Request) :=
  (elements groups).zipIdx.flatMap (entries backends)

/-- What the models write about an element. -/
def textsOf (backends : List Config.Backend) (reply : Call → Except Failure String) (e : Element) :
    Texts :=
  ⟨Request.run ⟨some backends, e, .documentation⟩ reply,
    Request.run ⟨some backends, e, .usageExamples⟩ reply⟩

theorem pairs_requests (backends : List Config.Backend) (groups : List Group) :
    pairs ((requests backends groups).map (·.run reply)) =
      (elements groups).map (textsOf backends reply) := by
  unfold requests
  induction elements groups with
  | nil => rfl
  | cons e elements ih =>
    rw [List.flatMap_cons, List.map_append]
    exact congrArg (textsOf backends reply e :: ·) ih

/-- Slots filled in the order of the line, behind those of elements before. -/
theorem foldl_entries (backends : List Config.Backend) (elements : List Element)
    (done : List Texts) :
    (((elements.zipIdx done.length).flatMap (entries backends)).map (answered reply)).foldl
        (fun texts a => texts.modify a.index (put · a))
        (done ++ List.replicate elements.length ({} : Texts)) =
      done ++ elements.map (textsOf backends reply) := by
  induction elements generalizing done with
  | nil => rfl
  | cons e elements ih =>
    have hmodify : ∀ (first : Texts) rest f, (done ++ first :: rest).modify done.length f =
        done ++ f first :: rest := by
      intro first rest f
      rw [List.modify_eq_take_cons_drop (by simp)]
      simp
    have hnext := ih (done ++ [textsOf backends reply e])
    rw [List.length_append, List.length_singleton, List.append_assoc, List.append_assoc] at hnext
    rw [List.length_cons, List.replicate_succ, List.zipIdx_cons, List.flatMap_cons, List.map_append,
      List.foldl_append, List.map_cons]
    have hfirst : ((entries backends (e, done.length)).map (answered reply)).foldl
        (fun texts a => texts.modify a.index (put · a))
        (done ++ ({} : Texts) :: List.replicate elements.length {}) =
        done ++ textsOf backends reply e :: List.replicate elements.length {} := by
      simp only [entries, List.map_cons, List.map_nil, List.foldl_cons, List.foldl_nil, answered,
        hmodify]
      rfl
    rw [hfirst]
    exact hnext

/-- Two answers of the line go to different slots or are the same. -/
theorem put_comm {backends : List Config.Backend} {groups : List Group} {a b : Arrival}
    (ha : a ∈ (line backends groups).map (answered reply))
    (hb : b ∈ (line backends groups).map (answered reply)) (texts : List Texts) :
    (texts.modify a.index (put · a)).modify b.index (put · b) =
      (texts.modify b.index (put · b)).modify a.index (put · a) := by
  by_cases hindex : a.index = b.index
  · -- one number stands for one element, so the purposes tell the answers apart
    have hentry : ∀ c ∈ (line backends groups).map (answered reply), ∃ e,
        (elements groups)[c.index]? = some e ∧
          (c = ⟨c.index, .documentation, (textsOf backends reply e).documentation⟩ ∨
            c = ⟨c.index, .usageExamples, (textsOf backends reply e).examples⟩) := by
      intro c hc
      obtain ⟨entry, hentry, rfl⟩ := List.mem_map.1 hc
      obtain ⟨⟨e, i⟩, he, hin⟩ := List.mem_flatMap.1 hentry
      have hat := List.mem_zipIdx_iff_getElem?.1 he
      simp only [entries, List.mem_cons, List.not_mem_nil, or_false] at hin
      rcases hin with rfl | rfl
      · exact ⟨e, hat, .inl rfl⟩
      · exact ⟨e, hat, .inr rfl⟩
    obtain ⟨e, he, hea⟩ := hentry a ha
    obtain ⟨f, hf, hfb⟩ := hentry b hb
    obtain rfl : e = f := by
      rw [hindex, hf, Option.some.injEq] at he
      exact he.symm
    rw [hindex] at hea ⊢
    rw [List.modify_modify_eq, List.modify_modify_eq]
    congr 1
    funext slot
    rcases hea with rfl | rfl <;> rcases hfb with hfb | hfb <;> rw [hfb] <;> rfl
  · exact List.modify_modify_ne _ _ texts hindex

/-- **Slots have their texts**, in whatever order the answers arrive. -/
theorem fill_eq {backends : List Config.Backend} {groups : List Group}
    (h : arrivals.Perm ((line backends groups).map (answered reply))) :
    fill (elements groups).length arrivals =
      pairs ((requests backends groups).map (·.run reply)) := by
  have hordered := h.foldl_eq'
    (f := fun (texts : List Texts) (a : Arrival) => texts.modify a.index (put · a))
    (fun a ha b hb texts => put_comm (h.mem_iff.1 ha) (h.mem_iff.1 hb) texts)
    (List.replicate (elements groups).length {})
  rw [fill, hordered, pairs_requests]
  exact foldl_entries backends (elements groups) []

end ElementPages

/-! ## By sorting -/

namespace UnitTests

/-- The requests for the targets, with their numbers. -/
def line (backends : List Config.Backend) (a : Analysis) : List (Nat × Request) :=
  (targets a).zipIdx.map fun (e, i) => (i, ⟨some backends, e, .unitTests⟩)

/-- The targets with their answers, in the order of the targets. -/
def sections (targets : List Element) (arrivals : List Arrival) : List (Element × String) :=
  (arrivals.mergeSort fun a b => a.index ≤ b.index).filterMap fun a =>
    targets[a.index]?.map fun e => (e, a.text)

/-- **Sorting brings the answers back** into the order of the line. -/
theorem mergeSort_eq {backends : List Config.Backend} {a : Analysis}
    (h : arrivals.Perm ((line backends a).map (answered reply))) :
    arrivals.mergeSort (fun a b => a.index ≤ b.index) = (line backends a).map (answered reply) := by
  have hindices : ((line backends a).map (answered reply)).map (·.index) =
      List.range' 0 (targets a).length := by
    rw [line, List.map_map, List.map_map, ← List.zipIdx_map_snd 0]
    rfl
  have hsorted : ((line backends a).map (answered reply)).Pairwise fun a b => a.index < b.index := by
    have hrange := List.pairwise_lt_range' (s := 0) (n := (targets a).length)
    rw [← hindices, List.pairwise_map] at hrange
    exact hrange
  have hperm := (List.mergeSort_perm arrivals fun a b => a.index ≤ b.index).trans h
  have hpairs : (arrivals.mergeSort fun a b => a.index ≤ b.index).Pairwise
      fun a b => decide (a.index ≤ b.index) = true :=
    List.pairwise_mergeSort (fun a b c => by simpa using Nat.le_trans)
      (fun a b => by simpa using Nat.le_total _ _) arrivals
  refine hperm.eq_of_pairwise (fun x y hx hy hle hge => ?_) (hpairs.imp of_decide_eq_true)
    (hsorted.imp Nat.le_of_lt)
  · -- an index stands in the line once
    have hnodup : (((line backends a).map (answered reply)).map (·.index)).Nodup := by
      rw [hindices]
      exact List.nodup_range'
    exact List.inj_on_of_nodup_map hnodup (hperm.mem_iff.1 hx) hy (Nat.le_antisymm hle hge)

/-- **Each target has its answer**, in whatever order the answers arrive. -/
theorem sections_eq {backends : List Config.Backend} {a : Analysis}
    (h : arrivals.Perm ((line backends a).map (answered reply))) :
    sections (targets a) arrivals =
      (targets a).zip ((requests backends a).map (·.run reply)) := by
  have hfound : ∀ x ∈ (targets a).zipIdx,
      ((targets a)[x.2]?.map fun e =>
        (e, Request.run ⟨some backends, x.1, .unitTests⟩ reply)) =
      some (x.1, Request.run ⟨some backends, x.1, .unitTests⟩ reply) := by
    intro x hx
    rw [List.mem_zipIdx_iff_getElem?.1 hx]
    rfl
  have hzip : (targets a).zipIdx.map (fun x =>
      (x.1, Request.run ⟨some backends, x.1, .unitTests⟩ reply)) =
      (targets a).zip ((requests backends a).map (·.run reply)) := by
    have hfst : (targets a).zipIdx.map Prod.fst = targets a := List.zipIdx_map_fst 0 _
    rw [requests, List.map_map, ← List.map_prod_left_eq_zip]
    nth_rewrite 2 [← hfst]
    rw [List.map_map]
    rfl
  rw [sections, mergeSort_eq h, line, List.map_map, List.filterMap_map, ← hzip,
    ← List.filterMap_eq_map]
  exact List.filterMap_congr hfound

end UnitTests

end Docsmith.Generation
