import Docsmith.Document.ElementPage
import Docsmith.Model.Request
import Mathlib.Data.List.Zip
/-!
# Documents — the outline of a page

The elements of all pages stand in one line, and the texts come in the order of that line. An
element that stands on two pages stands in the line twice, so what a page shows is told by
elements with their places (`Occurrence`). A page is a list of parts, each about one
occurrence or about none. With the texts of the places from the group's first one on, the
page shows the parts of the group's outline (`render_eq`), and these are the class first,
then the fields, then the methods, each with its own texts (`shows_outline`).
-/


namespace Docsmith.Document.ElementPage

open Model

/-- An element with its place in the line of the elements of all pages. -/
abbrev Occurrence := Element × Nat

/-- What the models wrote about an occurrence. -/
def shown (R : Occurrence → Purpose → String) (o : Occurrence) : Texts :=
  ⟨R o .documentation, R o .usageExamples⟩

/-- A part of a page. -/
inductive Part where
  /-- What a class's page starts with. -/
  | type (o : Occurrence)
  /-- What a page without a class starts with. -/
  | untyped (title : String)
  /-- The table of contents. -/
  | contents (members : List Element)
  /-- The heading of the fields or of the methods. -/
  | heading (title : String)
  /-- The section of a member. -/
  | member (o : Occurrence)

namespace Part

/-- A part's text. -/
def text (R : Occurrence → Purpose → String) : Part → String
  | .type o => "# " ++ o.1.kind.icon ++ " " ++ o.1.name ++ "\n\n> **Package:** `" ++
      o.1.owner?.getD "(default package)" ++ "`\n\n---\n\n## Class Documentation\n\n" ++
      trimmed (R o .documentation) ++ "\n\n---\n\n## Class Usage Examples\n\n" ++
      trimmed (R o .usageExamples) ++ "\n\n---\n\n## Class Signature\n\n" ++ fenced o.1
  | .untyped title =>
      "# " ++ title ++ "\n\nElements that are not declared inside a class.\n\n---\n\n"
  | .contents members =>
      "## Table of Contents\n\n" ++ String.join (members.map contentsLine) ++ "\n---\n\n"
  | .heading title => "## " ++ title ++ "\n\n"
  | .member o => "### " ++ o.1.name ++ "\n\n**Documentation:**\n\n" ++
      trimmed (R o .documentation) ++ "\n\n**Usage Examples:**\n\n" ++
      trimmed (R o .usageExamples) ++ "\n\n**Signature:**\n\n" ++ fenced o.1 ++ "---\n\n"

/-- The occurrence that the part is about. -/
def occurrence? : Part → Option Occurrence
  | .type o => some o
  | .member o => some o
  | _ => none

/-- The member whose section the part is. -/
def member? : Part → Option Occurrence
  | .member o => some o
  | _ => none

/-- The members that the part lists as contents. -/
def contents? : Part → Option (List Element)
  | .contents members => some members
  | _ => none

end Part

/-! ## Outlines -/

/-- The sections of some members under a heading. -/
def sectionParts (title : String) (members : List Occurrence) : List Part :=
  if members.isEmpty then [] else .heading title :: members.map .member

/-- What the page of a group starts with, whose class, if it has one, stands in a place. -/
def headerParts (g : Group) (place : Nat) : List Part :=
  match g.type with
  | some c => .type (c, place) ::
      if g.fields.isEmpty && g.methods.isEmpty then [] else [.contents (g.fields ++ g.methods)]
  | none => [.untyped (if g.methods.isEmpty then "Standalone Fields" else "Standalone Methods")]

/-- The parts of the page of a group whose elements stand from a place on. -/
def outline (g : Group) (first : Nat) : List Part :=
  let fields := first + g.type.toList.length
  headerParts g first ++ sectionParts "Fields" (g.fields.zipIdx fields) ++
    sectionParts "Methods" (g.methods.zipIdx (fields + g.fields.length))

/-- The parts of a page about the group's elements, which stand in the line from a place on:
every one of them once and in order, first the class, if there is one, then sections for all
fields and all methods. The page of a class with members has one table of contents, which
lists those that have sections. -/
structure Shows (g : Group) (first : Nat) (parts : List Part) : Prop where
  occurrences : parts.filterMap Part.occurrence? = g.elements.zipIdx first
  head : ∀ c, g.type = some c → parts.head? = some (.type (c, first))
  members : parts.filterMap Part.member? =
    (g.fields ++ g.methods).zipIdx (first + g.type.toList.length)
  contents : parts.filterMap Part.contents? = if g.type = none ∨ g.fields ++ g.methods = [] then []
    else [(parts.filterMap Part.member?).map (·.1)]

/-! ## What outlines have -/

/-- A reading of the parts that skips headings reads the sections of some members one by one. -/
theorem filterMap_sectionParts {α : Type} {f : Part → Option α} (title : String)
    (members : List Occurrence) (hheading : f (.heading title) = none) :
    (sectionParts title members).filterMap f = members.filterMap fun o => f (.member o) := by
  unfold sectionParts
  split_ifs with hnone
  · rw [List.isEmpty_iff.1 hnone]
    rfl
  · rw [List.filterMap_cons_none hheading, List.filterMap_map]
    rfl

/-- A reading of the parts reads an outline's header, its fields and its methods. -/
theorem filterMap_outline {α : Type} {f : Part → Option α} (g : Group) (first : Nat)
    (hheading : ∀ title, f (.heading title) = none) :
    (outline g first).filterMap f = (headerParts g first).filterMap f ++
      ((g.fields ++ g.methods).zipIdx (first + g.type.toList.length)).filterMap
        fun o => f (.member o) := by
  rw [outline, List.filterMap_append, List.filterMap_append,
    filterMap_sectionParts _ _ (hheading _), filterMap_sectionParts _ _ (hheading _),
    List.append_assoc, ← List.filterMap_append, ← List.zipIdx_append]

/-- An outline has a section for each member. -/
theorem filterMap_member?_outline (g : Group) (first : Nat) :
    (outline g first).filterMap Part.member? =
      (g.fields ++ g.methods).zipIdx (first + g.type.toList.length) := by
  have hheader : (headerParts g first).filterMap Part.member? = [] := by
    unfold headerParts
    split
    · split_ifs <;> rfl
    · rfl
  rw [filterMap_outline g first fun _ => rfl, hheader, List.nil_append]
  exact List.filterMap_some

/-- **An outline shows its group**, each element once and in order. -/
theorem shows_outline (g : Group) (first : Nat) : Shows g first (outline g first) where
  occurrences := by
    have hheader : (headerParts g first).filterMap Part.occurrence? =
        g.type.toList.zipIdx first := by
      unfold headerParts
      cases g.type with
      | none => rfl
      | some c => dsimp only; split_ifs <;> rfl
    have hmembers : ((g.fields ++ g.methods).zipIdx (first + g.type.toList.length)).filterMap
        (fun o => Part.occurrence? (.member o)) =
        (g.fields ++ g.methods).zipIdx (first + g.type.toList.length) := List.filterMap_some
    rw [filterMap_outline g first fun _ => rfl, hheader, hmembers, ← List.zipIdx_append,
      Group.elements, List.append_assoc]
  head := by
    intro c hc
    rw [outline, headerParts, hc]
    rfl
  members := filterMap_member?_outline g first
  contents := by
    -- the contents stand in the header only, and list what has sections
    have hmembers : ((g.fields ++ g.methods).zipIdx (first + g.type.toList.length)).filterMap
        (fun o => Part.contents? (.member o)) = [] := List.filterMap_eq_nil_iff.2 fun _ _ => rfl
    have hlisted : ((outline g first).filterMap Part.member?).map (·.1) = g.fields ++ g.methods := by
      rw [filterMap_member?_outline]
      exact List.zipIdx_map_fst _ _
    rw [filterMap_outline g first fun _ => rfl, hmembers, List.append_nil, hlisted]
    unfold headerParts
    cases hc : g.type with
    | none => rfl
    | some c =>
      simp only [reduceCtorEq, false_or, List.append_eq_nil_iff, Bool.and_eq_true,
        List.isEmpty_iff]
      split_ifs <;> rfl

/-! ## What pages show -/

variable {R : Occurrence → Purpose → String}

/-- The texts of some members, taken off by pairs, are those of their places. -/
theorem zip_shown (members : List Element) (place : Nat) :
    (members.zip ((members.zipIdx place).map (shown R))).map (fun (e, t) => memberSection e t) =
      (members.zipIdx place).map fun o => Part.text R (.member o) := by
  induction members generalizing place with
  | nil => rfl
  | cons e members ih =>
    rw [List.zipIdx_cons, List.map_cons, List.zip_cons_cons, List.map_cons, ih, List.map_cons]
    rfl

theorem memberSections_eq (title : String) (members : List Element) (place : Nat) :
    memberSections title members ((members.zipIdx place).map (shown R)) =
      String.join ((sectionParts title (members.zipIdx place)).map (Part.text R)) := by
  unfold memberSections sectionParts
  rw [zip_shown]
  cases members with
  | nil => rfl
  | cons e members =>
    rw [List.zipIdx_cons, List.isEmpty_cons, List.isEmpty_cons, if_neg Bool.false_ne_true,
      if_neg Bool.false_ne_true, List.map_cons (f := Part.text R), String.join_cons, List.map_map]
    rfl

theorem classHeader_eq (g : Group) (c : Element) (place : Nat) (hc : g.type = some c) :
    classHeader c (shown R (c, place)) g =
      String.join ((headerParts g place).map (Part.text R)) := by
  unfold headerParts classHeader
  rw [hc]
  dsimp only
  split_ifs with hnone
  · rw [List.map_cons, String.join_cons]
    rfl
  · rw [List.map_cons, String.join_cons, List.map_cons, String.join_cons, List.map_nil,
      String.join_nil, String.append_empty]
    rfl

theorem standaloneHeader_eq (g : Group) (place : Nat) (hc : g.type = none) :
    standaloneHeader g = String.join ((headerParts g place).map (Part.text R)) := by
  unfold headerParts standaloneHeader
  rw [hc]
  dsimp only
  rw [List.map_cons, String.join_cons, List.map_nil, String.join_nil, String.append_empty]
  rfl

/-- **A page shows its outline**, given the texts of its elements' places. -/
theorem render_eq (g : Group) (first : Nat) :
    render g ((g.elements.zipIdx first).map (shown R)) =
      String.join ((outline g first).map (Part.text R)) := by
  -- the texts of the members, behind that of the class
  have hfields : ∀ place, (((g.fields ++ g.methods).zipIdx place).map (shown R)).take
      g.fields.length = (g.fields.zipIdx place).map (shown R) := by
    intro place
    rw [List.zipIdx_append, List.map_append]
    exact List.take_left' (by simp)
  have hmethods : ∀ place, (((g.fields ++ g.methods).zipIdx place).map (shown R)).drop
      g.fields.length = (g.methods.zipIdx (place + g.fields.length)).map (shown R) := by
    intro place
    rw [List.zipIdx_append, List.map_append]
    exact List.drop_left' (by simp)
  have helements : g.elements = g.type.toList ++ (g.fields ++ g.methods) :=
    List.append_assoc _ _ _
  unfold render outline
  rw [helements]
  cases hc : g.type with
  | none =>
    dsimp only [Option.toList_none]
    rw [List.nil_append, hfields, hmethods, memberSections_eq, memberSections_eq,
      standaloneHeader_eq g first hc, List.map_append, List.map_append, String.join_append,
      String.join_append]
    rfl
  | some c =>
    dsimp only [Option.toList_some]
    rw [List.singleton_append, List.zipIdx_cons, List.map_cons, List.head?_cons, List.drop_one,
      List.tail_cons, Option.getD_some, hfields, hmethods, memberSections_eq, memberSections_eq,
      classHeader_eq g c first hc, List.map_append, List.map_append, String.join_append,
      String.join_append]
    rfl

end Docsmith.Document.ElementPage
