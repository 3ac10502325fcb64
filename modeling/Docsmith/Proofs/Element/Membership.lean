import Docsmith.Proofs.Diagram.Privacy
import Docsmith.Proofs.Document.Grouping
import Docsmith.Proofs.Element.Ownership
/-!
# Elements — members of a class

An element is a member of the class one level above it: what stands in front of the last
dot of its qualified name is the qualified name of the class, so the class's qualified
name, a dot and one name without a dot make up its own (`isMemberOf_iff_under`). An
element's classes thus share their qualified name, and none of them is nested in another
one. Diagrams and documents both go by that. A diagram shows the group of a class without
what is private (`ofClass_eq_shown`), and the views are what is shown of all groups
(`views_eq_shown`).
-/


namespace Docsmith

namespace Element

variable {e c d : Element}

/-- **A member is called by its class, a dot and a name without one.** -/
theorem isMemberOf_iff_under : e.isMemberOf c = true ↔
    e.kind ≠ .type ∧ e.file = c.file ∧ c.qualifiedName ≠ "" ∧
      ∃ name : String, '.' ∉ name.toList ∧ e.qualifiedName = c.qualifiedName ++ "." ++ name := by
  rw [isMemberOf_iff, owner?_eq_some_iff]

/-- The class is declared in the body of the other one, at any depth. -/
def IsNestedIn (d c : Element) : Prop :=
  ∃ more, d.qualifiedName = c.qualifiedName ++ "." ++ more

theorem IsNestedIn.qualifiedName_ne (h : d.IsNestedIn c) : c.qualifiedName ≠ d.qualifiedName := by
  obtain ⟨more, hmore⟩ := h
  intro hsame
  have hlength := congrArg String.length (hsame.trans hmore)
  simp only [String.length_append] at hlength
  have hdot : ".".length = 1 := rfl
  omega

end Element

namespace Diagram

open Document Element

variable {a : Analysis} {c : Element}

/-- What a diagram shows of a group: of a class that is not private all that is not. -/
def shown? (g : Group) : Option View :=
  (g.type.filter isVisible).map fun c =>
    ⟨c, g.fields.filter isVisible, g.methods.filter isVisible⟩

/-- **A class's view is its group without what is private.** -/
theorem ofClass_eq_shown (a : Analysis) (c : Element) :
    View.ofClass a c = ⟨c, (Group.ofClass a c).fields.filter isVisible,
      (Group.ofClass a c).methods.filter isVisible⟩ := by
  have hmembers : (a.elements.filter fun e => e.isMemberOf c && isVisible e) =
      (a.elements.filter (·.isMemberOf c)).filter isVisible := by
    rw [members_filter_isVisible, List.filter_comm]
  simp only [View.ofClass, Group.ofClass, hmembers, View.mk.injEq, true_and]
  exact ⟨List.filter_comm _ _ _, List.filter_comm _ _ _⟩

/-- What has no class is not shown. -/
theorem filterMap_shown?_of_none {g : Group} (isEmpty : Bool) (h : g.type = none) :
    (if isEmpty then [] else [g]).filterMap shown? = [] := by
  cases isEmpty with
  | true => rfl
  | false => simp [shown?, h]

/-- **What is shown of all groups** are the views of the classes that are not private. -/
theorem filterMap_shown? (a : Analysis) :
    (Group.ofAnalysis a).filterMap shown? = (a.classes.filter isVisible).map (View.ofClass a) := by
  have hclass : shown? ∘ Group.ofClass a =
      fun c => if isVisible c then (some ∘ View.ofClass a) c else none := by
    funext c
    rw [Function.comp_apply, Function.comp_apply, shown?, ofClass_eq_shown]
    cases hvisible : isVisible c <;> simp [Group.ofClass, hvisible]
  rw [Group.ofAnalysis, List.filterMap_append, List.filterMap_append,
    filterMap_shown?_of_none _ rfl, filterMap_shown?_of_none _ rfl, List.append_nil,
    List.append_nil, List.filterMap_map, hclass, ← List.filterMap_filter, List.filterMap_eq_map]

/-- No class that is not private has a blank qualified name. -/
def HasUsableNames (a : Analysis) : Prop :=
  ∀ c ∈ a.classes, isVisible c = true → Text.isBlankText c.qualifiedName.toList = false

instance (a : Analysis) : Decidable (HasUsableNames a) :=
  inferInstanceAs (Decidable (∀ c ∈ a.classes, _))

/-- **Diagrams show the groups of documents without what is private.** -/
theorem views_eq_shown (h : HasUsableNames a) :
    views a = .ok ((Group.ofAnalysis a).filterMap shown?) := by
  have hnone : ((a.classes.filter isVisible).find? fun c =>
      Text.isBlankText c.qualifiedName.toList) = none := by
    refine List.find?_eq_none.2 fun c hc => ?_
    obtain ⟨hclass, hvisible⟩ := List.mem_filter.1 hc
    simp [h c hclass hvisible]
  simp only [views, hnone, filterMap_shown?]

/-- Otherwise there is no view at all: the first such class is named. -/
theorem views_of_not_hasUsableNames (h : ¬ HasUsableNames a) :
    ∃ c ∈ a.classes, isVisible c = true ∧ Text.isBlankText c.qualifiedName.toList = true ∧
      views a = .error (.diagram ("Class " ++ c.name ++ " in " ++ c.file ++
        " has no qualified name")) := by
  cases hbad : (a.classes.filter isVisible).find? fun c =>
      Text.isBlankText c.qualifiedName.toList with
  | none =>
    refine absurd (fun c hc hvisible => ?_) h
    simpa using List.find?_eq_none.1 hbad c (List.mem_filter.2 ⟨hc, hvisible⟩)
  | some bad =>
    obtain ⟨hclass, hvisible⟩ := List.mem_filter.1 (List.mem_of_find?_eq_some hbad)
    have hblank : Text.isBlankText bad.qualifiedName.toList = true := by
      simpa using List.find?_some hbad
    refine ⟨bad, hclass, hvisible, hblank, ?_⟩
    simp only [views, hbad]

/-- **Membership means exactly one level down.** A method or field is a member of a class
exactly if it stands in the same file and is called by the class's qualified name, which
is not empty, a dot and a name without one. So its classes share their qualified name and
none is nested in another. Diagrams and documents give every class the same members, up to
the private ones: the views are the groups of the classes that are not private, without
what is private in them, and there are views unless such a class has a blank name. -/
theorem membership_one_level :
    (∀ e c : Element, e.isMemberOf c = true ↔
      e.kind ≠ .type ∧ e.file = c.file ∧ c.qualifiedName ≠ "" ∧
        ∃ name : String, '.' ∉ name.toList ∧ e.qualifiedName = c.qualifiedName ++ "." ++ name) ∧
    (∀ e c d : Element, e.isMemberOf c = true → e.isMemberOf d = true →
      c.qualifiedName = d.qualifiedName ∧ ¬ d.IsNestedIn c) ∧
    ∀ a : Analysis,
      (∀ c ∈ a.classes, Group.ofClass a c ∈ Group.ofAnalysis a ∧
        View.ofClass a c = ⟨c, (Group.ofClass a c).fields.filter isVisible,
          (Group.ofClass a c).methods.filter isVisible⟩) ∧
      (HasUsableNames a → views a = .ok ((Group.ofAnalysis a).filterMap shown?)) ∧
      (¬ HasUsableNames a → ∃ c ∈ a.classes, isVisible c = true ∧
        Text.isBlankText c.qualifiedName.toList = true ∧
        views a = .error (.diagram ("Class " ++ c.name ++ " in " ++ c.file ++
          " has no qualified name"))) := by
  refine ⟨fun e c => isMemberOf_iff_under, fun e c d hc hd => ?_, fun a =>
    ⟨fun c hc => ⟨?_, ofClass_eq_shown a c⟩, views_eq_shown, views_of_not_hasUsableNames⟩⟩
  · have hsame := (same_of_isMemberOf hc hd).2
    exact ⟨hsame, fun hnested => hnested.qualifiedName_ne hsame⟩
  · have hgroup := List.mem_map_of_mem (f := Group.ofClass a) hc
    exact List.mem_append_left _ (List.mem_append_left _ hgroup)

/-- A class. -/
def shop : Element :=
  ⟨.type, "Shop", "app.Shop", "Shop.java", 1, "public class Shop", "", [], []⟩

/-- A method of the class. -/
def opening : Element :=
  ⟨.method, "open", "app.Shop.open", "Shop.java", 3, "public void open()", "", [], []⟩

/-- A class that is nested in it. -/
def door : Element :=
  ⟨.type, "Door", "app.Shop.Door", "Shop.java", 4, "static class Door", "", [], []⟩

/-- The two classes, with a private field and a method of each. -/
def nestedShop : Analysis :=
  ⟨"shop",
    [shop, ⟨.field, "till", "app.Shop.till", "Shop.java", 2, "private int till", "", [], []⟩,
      opening, door,
      ⟨.method, "shut", "app.Shop.Door.shut", "Shop.java", 5, "void shut()", "", [], []⟩]⟩

/-- A method of the outer class is none of the inner one, and the views are what is shown
of the groups. -/
theorem membership_one_level_shop :
    opening.isMemberOf shop = true ∧ door.IsNestedIn shop ∧ opening.isMemberOf door = false ∧
    HasUsableNames nestedShop ∧
    views nestedShop = .ok ((Group.ofAnalysis nestedShop).filterMap shown?) ∧
    ((Group.ofAnalysis nestedShop).map fun g => g.elements.map (·.name)) =
      [["Shop", "till", "open"], ["Door", "shut"]] ∧
    ((views nestedShop).toOption.map fun vs => vs.map fun v => v.members.map (·.name)) =
      some [["open"], ["shut"]] := by
  obtain ⟨-, hclasses, hgroups⟩ := membership_one_level
  have hmember : opening.isMemberOf shop = true := by decide +kernel
  have hnested : door.IsNestedIn shop := ⟨"Door", rfl⟩
  have husable : HasUsableNames nestedShop := by decide +kernel
  refine ⟨hmember, hnested, ?_, husable, (hgroups nestedShop).2.1 husable, by decide +kernel,
    by decide +kernel⟩
  exact Bool.eq_false_iff.2 fun hinner => (hclasses _ _ _ hmember hinner).2 hnested

/-- Dots count one by one: a name may be empty, and a class may end with a dot. -/
example :
    let member (qualifiedName : String) : Element :=
      ⟨.method, "m", qualifiedName, "a.py", 1, "def m()", "", [], []⟩
    let class? (qualifiedName : String) : Element :=
      ⟨.type, "C", qualifiedName, "a.py", 1, "class C", "", [], []⟩
    (member "C.").isMemberOf (class? "C") = true ∧
      (member "C..m").isMemberOf (class? "C.") = true ∧
      (member "C..m").isMemberOf (class? "C") = false ∧
      (member ".m").isMemberOf (class? "") = false := by
  decide +kernel

end Diagram

end Docsmith
