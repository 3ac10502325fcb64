import Docsmith.Generation.Run
import Docsmith.Proofs.Sink.Log
/-!
# Diagrams — what private elements reveal

Nothing that a diagram shows, and nothing that happens while diagrams are
made, depends on a private element. Two analyses *show the same*
(`ShowsSame`) if they hold the same elements that are not private, in the
same order; the private ones may differ in number, in text and in place.
Such analyses have the same views (`ShowsSame.views_eq`), and everything
after the views is made from them alone, so the texts, the requests to a
sink and the result are the same too (`ShowsSame.build_eq`). An analysis
shows the same as what is left of it when its private elements are deleted
(`build_withoutPrivate`).
-/


namespace Docsmith.Diagram

variable {σ : Type} {a b : Analysis} {c e : Element} {v : View} {vs : List View}

/-- The analysis with every private element deleted, whatever it declares. -/
def withoutPrivate (a : Analysis) : Analysis :=
  { a with elements := a.elements.filter isVisible }

/-- Two analyses hold the same elements that are not private. -/
def ShowsSame (a b : Analysis) : Prop :=
  a.elements.filter isVisible = b.elements.filter isVisible

/-- Deleting what is private deletes nothing that is shown. -/
theorem showsSame_withoutPrivate (a : Analysis) : ShowsSame (withoutPrivate a) a := by
  unfold ShowsSame withoutPrivate
  simp only [List.filter_filter, Bool.and_self]

/-! ## What is read of an analysis -/

/-- The classes that are shown are found among the elements that are. -/
theorem classes_filter_isVisible (a : Analysis) :
    a.classes.filter isVisible = (a.elements.filter isVisible).filter (·.kind == .type) :=
  List.filter_comm ..

/-- So are the members that a class shows. -/
theorem members_filter_isVisible (a : Analysis) (c : Element) :
    (a.elements.filter fun e => e.isMemberOf c && isVisible e) =
      (a.elements.filter isVisible).filter (·.isMemberOf c) := by
  rw [List.filter_filter]

/-- What a class shows are its own members, and none of them is private. -/
theorem mem_members_ofClass :
    e ∈ (View.ofClass a c).members ↔
      e ∈ a.elements ∧ e.isMemberOf c = true ∧ isVisible e = true := by
  simp only [View.ofClass, View.members, List.mem_append, List.mem_filter, Bool.and_eq_true]
  constructor
  · rintro (⟨he, -⟩ | ⟨he, -⟩) <;> exact he
  · intro he
    -- a member is shown as a field or as a method
    by_cases hkind : e.kind = .field
    · exact .inl ⟨he, beq_iff_eq.2 hkind⟩
    · exact .inr ⟨he, bne_iff_ne.2 hkind⟩

namespace ShowsSame

/-- The classes to be shown are the same. -/
theorem classes_eq (h : ShowsSame a b) : a.classes.filter isVisible = b.classes.filter isVisible := by
  rw [classes_filter_isVisible, classes_filter_isVisible, h]

/-- **A class shows the same members**, of whichever analysis it is read. -/
theorem ofClass_eq (h : ShowsSame a b) (c : Element) : View.ofClass a c = View.ofClass b c := by
  have hmembers := members_filter_isVisible a c
  rw [h, ← members_filter_isVisible b c] at hmembers
  simp only [View.ofClass, hmembers]

/-- **The views are the same**, and so is the class that makes them unusable
if there is one. -/
theorem views_eq (h : ShowsSame a b) : views a = views b := by
  have hviews : View.ofClass a = View.ofClass b := funext h.ofClass_eq
  unfold views
  simp only [h.classes_eq, hviews]

/-- **Making diagrams is the same program**: it asks the sink for the same
directory and the same documents, and has the same result. -/
theorem build_eq (h : ShowsSame a b) (sink : Sink σ) (f : Format) (n : Naming)
    (directory generatedOn : String) :
    build sink f n directory generatedOn a = build sink f n directory generatedOn b := by
  funext s
  unfold build
  rw [h.views_eq]

end ShowsSame

/-! ## What is shown -/

/-- No view has a private member. -/
theorem isVisible_member (h : views a = .ok vs) (hv : v ∈ vs) (he : e ∈ v.members) :
    isVisible e = true := by
  unfold views at h
  dsimp only at h
  split at h
  · cases h
  · cases h
    obtain ⟨c, -, rfl⟩ := List.mem_map.1 hv
    exact (mem_members_ofClass.1 he).2.2

/-- **Private elements do not interfere with diagrams.** An analysis and the
same analysis without its private elements have the same views, the same
uses among them and the same texts. Whatever the sink and the state that it
is in, making the diagrams leaves the same state behind, writes documents at
the same paths in the same order, and has the same result. -/
theorem build_withoutPrivate (sink : Sink σ) (f : Format) (n : Naming)
    (directory generatedOn : String) (a : Analysis) (log : List Sink.Act) (s : σ) :
    views (withoutPrivate a) = views a ∧
    (views (withoutPrivate a)).map Uses.ofViews = (views a).map Uses.ofViews ∧
    ((views (withoutPrivate a)).map fun vs =>
        vs.map fun v => f.render v (Uses.ofViews vs) generatedOn) =
      ((views a).map fun vs => vs.map fun v => f.render v (Uses.ofViews vs) generatedOn) ∧
    build sink f n directory generatedOn (withoutPrivate a) s =
      build sink f n directory generatedOn a s ∧
    Sink.written (build sink.logged f n directory generatedOn (withoutPrivate a) (log, s)).2.1 =
      Sink.written (build sink.logged f n directory generatedOn a (log, s)).2.1 := by
  have hshows := showsSame_withoutPrivate a
  have hviews := hshows.views_eq
  refine ⟨hviews, ?_, ?_, ?_, ?_⟩
  · rw [hviews]
  · rw [hviews]
  · rw [hshows.build_eq]
  · rw [hshows.build_eq]

/-- A private class without a qualified name is no obstacle; one that is not
private is. -/
example :
    views ⟨"p", [⟨.type, "A", "", "A.java", 1, "private class A", "", [], []⟩]⟩ = .ok [] ∧
    (views ⟨"p", [⟨.type, "A", "", "A.java", 1, "class A", "", [], []⟩]⟩).isOk = false := by
  decide +kernel

end Docsmith.Diagram

namespace Docsmith.Generation.Job

open Docsmith.Diagram

variable {σ : Type}

/-- **The stage of the diagrams** sees no private element either: over all
formats that are switched on it leaves the same state and tells the same. -/
theorem writeDiagrams_withoutPrivate (j : Job) (sink : Sink σ) :
    writeDiagrams { j with analysis := withoutPrivate j.analysis } sink = j.writeDiagrams sink := by
  have hbuild : ∀ formats s, buildDiagrams { j with analysis := withoutPrivate j.analysis } sink
      formats s = j.buildDiagrams sink formats s := by
    intro formats
    induction formats with
    | nil => intro s; rfl
    | cons f formats ih =>
      intro s
      simp only [buildDiagrams, (showsSame_withoutPrivate j.analysis).build_eq, ih]
      rfl
  funext s
  unfold writeDiagrams
  rw [hbuild]
  rfl

end Docsmith.Generation.Job
