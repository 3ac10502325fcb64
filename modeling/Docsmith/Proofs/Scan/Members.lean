import Docsmith.Document.Group
import Docsmith.Proofs.Source.Elements
import Docsmith.Scan.Project
import Mathlib.Tactic.ByContra
/-!
# Scans — members and the classes they are shown with

Both readers of Java give every method and field with a class of its own
(`exists_class_of_mem`), but the filter of private declarations is asked about
each element alone. A scan that includes what is private finds every class
of a member; one that does not keeps a member that is not private even where
all its classes are (`member_keeps_class_iff`). Such a member is listed as
declared outside of any class, which it is not (`member_loses_class`).
-/


namespace Docsmith

open Document

namespace Document.Group

variable {a : Analysis} {e c : Element}

/-- An element with a class among the analysis's classes is not listed as
one without. -/
theorem not_mem_standalone (he : e ∈ a.elements) (hc : c ∈ a.classes)
    (hmember : e.isMemberOf c = true) (kind : Element.Kind) : e ∉ standalone a kind := by
  intro hstandalone
  have hid : e.id ∈ attached a :=
    List.mem_flatMap.2 ⟨c, hc, List.mem_map.2 ⟨e, List.mem_filter.2 ⟨he, hmember⟩, rfl⟩⟩
  simp [standalone, hid] at hstandalone

end Document.Group

namespace Scan

variable {t : FileTree} {here : Place} {root : String} {s : Config.Sources} {a : Analysis}
variable {e : Element}

/-- The elements of all sources that a scan reads. -/
def found (t : FileTree) (here : Place) (root : String) (s : Config.Sources) : List Element :=
  (sourceFiles t here root (.ofSources s)).flatMap (elementsOf t here)

/-- What a scan finds is kept if it has a name and may be shown. -/
theorem mem_project (h : project t here root s = .ok a) :
    e ∈ a.elements ↔ e ∈ found t here root s ∧ e.visibility.isKept s.includePrivate = true ∧
      Analysis.isNamed e = true := by
  unfold project at h
  split_ifs at h
  cases h
  simp only [Analysis.ofElements, List.mem_filter, List.mem_mergeSort, found, and_assoc]

/-- So are its classes. -/
theorem mem_classes_project (h : project t here root s = .ok a) :
    e ∈ a.classes ↔ (e ∈ found t here root s ∧ e.kind = .type ∧ Analysis.isNamed e = true) ∧
      e.visibility.isKept s.includePrivate = true := by
  simp only [Analysis.classes, Analysis.ofKind, List.mem_filter, mem_project h, beq_iff_eq]
  constructor
  · rintro ⟨⟨hfound, hshown, hnamed⟩, hkind⟩
    exact ⟨⟨hfound, hkind, hnamed⟩, hshown⟩
  · rintro ⟨⟨hfound, hkind, hnamed⟩, hshown⟩
    exact ⟨⟨hfound, hshown, hnamed⟩, hkind⟩

/-- A project that can be scanned can be scanned with all that is private. -/
theorem exists_project_full (h : project t here root s = .ok a) :
    ∃ full, project t here root { s with includePrivate := true } = .ok full := by
  unfold project at h ⊢
  split_ifs at h ⊢
  exact ⟨_, rfl⟩

/-- A project all of whose sources are in Java. -/
def IsJava (t : FileTree) (here : Place) (root : String) (s : Config.Sources) : Prop :=
  ∀ file ∈ sourceFiles t here root (.ofSources s), file.language = .java

/-- The language of a source is told by its path. -/
theorem language_of_mem_sourceFiles {filter : Filter} {file : SourceFile}
    (h : file ∈ sourceFiles t here root filter) : file.language = Language.ofPath file.path := by
  obtain ⟨path, -, hsome⟩ := List.mem_filterMap.1 h
  obtain ⟨content, -, hadmits⟩ := Option.bind_eq_some_iff.1 hsome
  split_ifs at hadmits
  cases hadmits
  rfl

/-- **What is found in a project is found with its class.** -/
theorem exists_class_of_found (hjava : IsJava t here root s) (he : e ∈ found t here root s)
    (hkind : e.kind ≠ .type) :
    ∃ c ∈ found t here root s, c.kind = .type ∧ e.isMemberOf c = true ∧
      Analysis.isNamed c = true := by
  obtain ⟨file, hfile, hin⟩ := List.mem_flatMap.1 he
  have hpath : Language.ofPath file.path = .java := by
    rw [← language_of_mem_sourceFiles hfile]
    exact hjava file hfile
  obtain ⟨c, hc, hck, hmember, hnamed⟩ : ∃ c ∈ elementsOf t here file,
      c.kind = .type ∧ e.isMemberOf c = true ∧ Analysis.isNamed c = true := by
    unfold elementsOf at hin ⊢
    split at hin
    · exact Source.exists_class_of_mem hpath hin hkind
    · cases hin
  exact ⟨c, List.mem_flatMap.2 ⟨file, hfile, hc⟩, hck, hmember, hnamed⟩

/-- **A member keeps its class exactly if one of its classes may be shown.**
Every method and field in the analysis of a project in Java is declared
directly in a class of the project, which a scan with all that is private
finds. The analysis itself holds a class of the member's exactly if the
filter passes one; so it always does where what is private is included, and
only a member whose classes are all private is listed without a class. -/
theorem member_keeps_class_iff (h : project t here root s = .ok a)
    (hjava : IsJava t here root s) (he : e ∈ a.elements) (hkind : e.kind ≠ .type) :
    ∃ full, project t here root { s with includePrivate := true } = .ok full ∧
      (∃ c ∈ full.classes, e.isMemberOf c = true) ∧
      ((∃ c ∈ a.classes, e.isMemberOf c = true) ↔
        ∃ c ∈ full.classes, e.isMemberOf c = true ∧
          c.visibility.isKept s.includePrivate = true) ∧
      (s.includePrivate = true → ∃ c ∈ a.classes, e.isMemberOf c = true) ∧
      (e ∈ Group.standalone a e.kind → s.includePrivate = false ∧
        ∀ c ∈ full.classes, e.isMemberOf c = true → c.visibility = .isPrivate) := by
  obtain ⟨full, hfull⟩ := exists_project_full h
  have hclasses : ∀ {c}, c ∈ full.classes ↔
      c ∈ found t here root s ∧ c.kind = .type ∧ Analysis.isNamed c = true := by
    intro c
    rw [mem_classes_project hfull]
    exact and_iff_left rfl
  have hkept : ∀ {c}, c ∈ a.classes ↔
      c ∈ full.classes ∧ c.visibility.isKept s.includePrivate = true := by
    intro c
    rw [mem_classes_project h, hclasses]
  have hiff : (∃ c ∈ a.classes, e.isMemberOf c = true) ↔
      ∃ c ∈ full.classes, e.isMemberOf c = true ∧
        c.visibility.isKept s.includePrivate = true := by
    constructor
    · rintro ⟨c, hc, hmember⟩
      exact ⟨c, (hkept.1 hc).1, hmember, (hkept.1 hc).2⟩
    · rintro ⟨c, hc, hmember, hshown⟩
      exact ⟨c, hkept.2 ⟨hc, hshown⟩, hmember⟩
  have hdeclared : ∃ c ∈ full.classes, e.isMemberOf c = true := by
    obtain ⟨c, hc, hck, hmember, hnamed⟩ :=
      exists_class_of_found hjava ((mem_project h).1 he).1 hkind
    exact ⟨c, hclasses.2 ⟨hc, hck, hnamed⟩, hmember⟩
  have hall : s.includePrivate = true → ∃ c ∈ a.classes, e.isMemberOf c = true := by
    intro hinclude
    obtain ⟨c, hc, hmember⟩ := hdeclared
    exact hiff.2 ⟨c, hc, hmember, by simp [Visibility.isKept, hinclude]⟩
  refine ⟨full, hfull, hdeclared, hiff, hall, fun hstandalone => ?_⟩
  -- a class in the analysis would have attached the member to it
  have hnone : ∀ c ∈ a.classes, e.isMemberOf c ≠ true := fun c hc hmember =>
    Group.not_mem_standalone he hc hmember e.kind hstandalone
  constructor
  · by_contra hinclude
    obtain ⟨c, hc, hmember⟩ := hall (by simpa using hinclude)
    exact hnone c hc hmember
  · intro c hc hmember
    by_contra hvisible
    refine hnone c (hkept.2 ⟨hc, ?_⟩) hmember
    simp [Visibility.isKept, hvisible]

/-! ## A member that loses its class -/

/-- A project of one source: in a public class, a private one with a public
method. -/
def secretTree : FileTree :=
  ⟨[(["A.java"],
    .file ("public class Outer \x7b private static class Secret " ++
      "\x7b public void leak() \x7b\x7d \x7d \x7d").toUTF8)]⟩

/-- The class that may be shown. -/
def secretOuter : Element where
  kind := .type
  name := "Outer"
  qualifiedName := "Outer"
  file := "./A.java"
  line := 1
  signature := "public class Outer"

/-- The method of the class that may not. -/
def secretLeak : Element where
  kind := .method
  name := "leak"
  qualifiedName := "Outer.Secret.leak"
  file := "./A.java"
  line := 1
  signature := "public void leak()"

theorem project_secretTree :
    project secretTree [] "." {} = .ok ⟨".", [secretOuter, secretLeak]⟩ := by
  have hkept : ((sourceFiles secretTree [] "." (.ofSources {})).flatMap
      (elementsOf secretTree [])).filter (fun e => e.visibility.isKept false) =
      [secretOuter, secretLeak] := by
    decide +kernel
  have hsorted : [secretOuter, secretLeak].mergeSort (fun a b => a.file ≤ b.file) =
      [secretOuter, secretLeak] :=
    List.mergeSort_of_pairwise (by decide)
  unfold project
  rw [if_neg (by decide +kernel)]
  dsimp only
  rw [hkept, hsorted]
  rfl

/-- The method is declared in a class, and listed without one because that
class is private. -/
theorem member_keeps_class_iff_secret :
    project secretTree [] "." {} = .ok ⟨".", [secretOuter, secretLeak]⟩ ∧
    IsJava secretTree [] "." {} ∧
    secretLeak ∈ [secretOuter, secretLeak] ∧ secretLeak.kind ≠ .type ∧
    ∃ full, project secretTree [] "." { includePrivate := true } = .ok full ∧
      (∃ c ∈ full.classes, secretLeak.isMemberOf c = true) ∧
      ∀ c ∈ full.classes, secretLeak.isMemberOf c = true → c.visibility = .isPrivate := by
  have hjava : IsJava secretTree [] "." {} := by
    unfold IsJava
    decide +kernel
  have hmem : secretLeak ∈ [secretOuter, secretLeak] := List.mem_cons_of_mem _ List.mem_cons_self
  obtain ⟨full, hfull, hdeclared, -, -, hlisted⟩ :=
    member_keeps_class_iff project_secretTree hjava hmem nofun
  have hstandalone : secretLeak ∈ Group.standalone ⟨".", [secretOuter, secretLeak]⟩ .method := by
    decide +kernel
  exact ⟨project_secretTree, hjava, hmem, nofun, full, hfull, hdeclared, (hlisted hstandalone).2⟩

/-- **A member can lose its class.** Not every method and field of a scanned
project in Java is a member of a class in the analysis, and one that is
declared in a class can be listed as declared in none. -/
theorem member_loses_class :
    ¬ ∀ (t : FileTree) (here : Place) (root : String) (s : Config.Sources) (a : Analysis),
      IsJava t here root s → project t here root s = .ok a →
      (∀ e ∈ a.elements, e.kind ≠ .type → ∃ c ∈ a.classes, e.isMemberOf c = true) ∧
      ∀ g ∈ Group.ofAnalysis a, g.type ≠ none := by
  intro hall
  have hjava : IsJava secretTree [] "." {} := by
    unfold IsJava
    decide +kernel
  obtain ⟨hmembers, -⟩ := hall secretTree [] "." {} _ hjava project_secretTree
  revert hmembers
  decide +kernel

end Scan

end Docsmith
