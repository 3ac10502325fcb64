import Docsmith.Analysis
import Docsmith.Proofs.Source.JavaLines
import Docsmith.Proofs.Source.JavaSyntax
import Docsmith.Proofs.Source.PythonLines
import Docsmith.Proofs.Source.PythonSyntax
import Docsmith.Source
/-!
# Sources — owners of elements

Whichever of the readers a source's elements come from, each one is sound, and
they are in order (`inOrder_elements`): in Java every method and field has an
owner, in Python whatever is qualified has one, and in either the owner is the
qualified name of a class of the source that stands before the element
(`ownership_closed`).
-/


namespace Docsmith.Source

variable {path content : String} {before after : List Element} {e : Element}

/-- The element needs no owner: in Java a class, elsewhere what is called by its
name alone. -/
def IsFree (language : Language) (e : Element) : Prop :=
  match language with
  | .java => e.kind = .type
  | _ => e.qualifiedName = e.name

/-- **The elements of a source are in order**, whichever reader they come
from. -/
theorem inOrder_elements (path content : String) :
    InOrder path (Text.lines content.toList).length (IsFree (Language.ofPath path)) []
      (elements path content) := by
  unfold elements
  cases hlanguage : Language.ofPath path with
  | java =>
    simp only [Syntax.read]
    split
    · exact .nil
    · split
      · next hread => exact Java.inOrder_of_read hread
      · simp only [Lines.read, hlanguage]
        exact Lines.Java.inOrder_read _ _
  | python =>
    simp only [Syntax.read]
    split
    · exact .nil
    · split
      · next hread => exact Python.inOrder_of_read hread
      · simp only [Lines.read, hlanguage]
        exact Lines.Python.inOrder_read _ _
  | unknown => exact .nil

/-- **In Java no method or field comes without its class.** -/
theorem exists_class_of_mem (hjava : Language.ofPath path = .java) (he : e ∈ elements path content)
    (hkind : e.kind ≠ .type) :
    ∃ c ∈ elements path content, c.kind = .type ∧ e.isMemberOf c = true ∧
      Analysis.isNamed c = true := by
  have horder := inOrder_elements path content
  obtain ⟨before, after, hsplit⟩ := List.append_of_mem he
  rw [hjava, hsplit] at horder
  obtain ⟨c, hc, hclass, hfile, howner⟩ := horder.exists_owner hkind
  have hmem : c ∈ before ++ e :: after := List.mem_append_left _ hc
  refine ⟨c, hsplit ▸ hmem, hclass, ?_, ?_⟩
  · simp [Element.isMemberOf, howner, hkind, hfile]
  · simp [Analysis.isNamed, (horder.isSound c hmem).named.notBlank]

/-- The element is to have an owner: it is a method or field in Java, or it has
one in Python. -/
def NeedsOwner (language : Language) (e : Element) : Prop :=
  match language with
  | .java => e.kind ≠ .type
  | _ => e.owner?.isSome = true

/-- **Ownership is closed in a source.** Every element has the path of the
source, a line of it, a simple name that ends its qualified name, and a
signature of one line; and whatever is to have an owner stands behind a class
of the same file that is called as the owner is. -/
theorem ownership_closed (path content : String) :
    (∀ e ∈ elements path content, e.IsSound path (Text.lines content.toList).length) ∧
    ∀ before e after, elements path content = before ++ e :: after →
      NeedsOwner (Language.ofPath path) e →
      ∃ c ∈ before, c.kind = .type ∧ c.file = e.file ∧ e.owner? = some c.qualifiedName := by
  have horder := inOrder_elements path content
  refine ⟨horder.isSound, fun before e after hsplit hneeds => ?_⟩
  rw [hsplit] at horder
  refine horder.exists_owner fun hfree => ?_
  have halone : e.qualifiedName = e.name → e.owner? = none := fun hq =>
    Element.owner?_of_qualifiedName hq
      (horder.isSound e (List.mem_append_right _ List.mem_cons_self)).named
  cases hlanguage : Language.ofPath path with
  | java =>
    rw [hlanguage] at hneeds hfree
    exact hneeds hfree
  | python | unknown =>
    rw [hlanguage] at hneeds hfree
    have hsome : e.owner?.isSome = true := hneeds
    rw [halone hfree] at hsome
    cases hsome

/-- A field behind its class. -/
theorem ownership_closed_field :
    ∃ before e after, elements "A.java" "class A \x7b int x; \x7d" = before ++ e :: after ∧
      NeedsOwner (Language.ofPath "A.java") e ∧
      ∃ c ∈ before, c.kind = .type ∧ c.file = e.file ∧ e.owner? = some c.qualifiedName := by
  let type : Element :=
    { kind := .type, name := "A", qualifiedName := "A", file := "A.java", line := 1
      signature := "class A" }
  let field : Element :=
    { kind := .field, name := "x", qualifiedName := "A.x", file := "A.java", line := 1
      signature := "int x" }
  have hsplit : elements "A.java" "class A \x7b int x; \x7d" = [type] ++ field :: [] := by
    decide +kernel
  have hneeds : NeedsOwner (Language.ofPath "A.java") field := by
    have hjava : Language.ofPath "A.java" = .java := by decide +kernel
    rw [hjava]
    exact nofun
  exact ⟨[type], field, [], hsplit, hneeds,
    (ownership_closed "A.java" "class A \x7b int x; \x7d").2 _ _ _ hsplit hneeds⟩

end Docsmith.Source
