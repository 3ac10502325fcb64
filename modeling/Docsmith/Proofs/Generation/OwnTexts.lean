import Docsmith.Proofs.Document.Outline
import Docsmith.Proofs.Generation.Handover
import Docsmith.Sink.Memory
/-!
# Generation — every page shows its own texts

The elements of all pages stand in one line and each of them is asked about twice. The
answers, put back in the order of the line and taken off in pairs, are one text for each
purpose and each place (`pairs_asked`). A group's elements stand in the line without a gap,
from its first place on (`exists_append_of_mem_numbered`), so its part of the texts is that
of its own elements (`slice_shown`), and the parts of all groups are all texts one after the
other (`flatMap_slice`). An element that stands on two pages has a place for each, and
nothing of this depends on the places having different elements.
-/


namespace Docsmith.Generation.ElementPages

open Document Document.ElementPage Model Sink

variable {σ : Type} {R : Occurrence → Purpose → String} {groups : List Group} {first : Nat}
variable {p : Group × Nat}

/-! ## Places -/

/-- The groups with the places of their first elements, where that of the first group is
given. -/
def numbered : Nat → List Group → List (Group × Nat)
  | _, [] => []
  | first, g :: groups => (g, first) :: numbered (first + g.elements.length) groups

/-- A group's part of the texts. -/
def slice (texts : List Texts) (p : Group × Nat) : List Texts :=
  (texts.drop p.2).take p.1.elements.length

/-- A group's elements stand in the line one after the other, from its place on. -/
theorem exists_append_of_mem_numbered (h : p ∈ numbered first groups) :
    ∃ before after, elements groups = before ++ (p.1.elements ++ after) ∧
      p.2 = first + before.length := by
  induction groups generalizing first with
  | nil => cases h
  | cons g groups ih =>
    rcases List.mem_cons.1 h with rfl | hmem
    · exact ⟨[], elements groups, rfl, rfl⟩
    · -- what stands before it are the first group's elements and those between
      obtain ⟨before, after, helements, hplace⟩ := ih hmem
      refine ⟨g.elements ++ before, after, ?_, ?_⟩
      · rw [List.append_assoc, ← helements]
        rfl
      · rw [hplace, List.length_append]
        omega

/-- The places of the elements of all groups are those of the line. -/
theorem flatMap_numbered (first : Nat) (groups : List Group) :
    (numbered first groups).flatMap (fun p => p.1.elements.zipIdx p.2) =
      (elements groups).zipIdx first := by
  induction groups generalizing first with
  | nil => rfl
  | cons g groups ih =>
    have helements : elements (g :: groups) = g.elements ++ elements groups := rfl
    rw [numbered, List.flatMap_cons, ih, helements, List.zipIdx_append]

/-- The parts of the groups are what stands in the texts for them, without a gap. -/
theorem flatMap_slice (first : Nat) (groups : List Group) (texts : List Texts) :
    (numbered first groups).flatMap (slice texts) =
      (texts.drop first).take (elements groups).length := by
  induction groups generalizing first with
  | nil => exact (List.take_zero).symm
  | cons g groups ih =>
    have helements : elements (g :: groups) = g.elements ++ elements groups := rfl
    rw [numbered, List.flatMap_cons, ih, helements, List.length_append, List.take_add,
      List.drop_drop]
    rfl

/-- The pages take the groups' parts of the texts. -/
theorem drafts_eq (directory : String) (first : Nat) (groups : List Group) (texts : List Texts) :
    drafts directory groups (texts.drop first) = (numbered first groups).map fun p =>
      ⟨Path.join directory p.1.fileName, ElementPage.render p.1 (slice texts p)⟩ := by
  induction groups generalizing first with
  | nil => rfl
  | cons g groups ih =>
    rw [drafts, numbered, List.map_cons, ← ih, List.drop_drop]
    rfl

/-! ## Texts -/

/-- What is asked about the elements of all pages, in the order of the line. -/
def asked (groups : List Group) : List (Occurrence × Purpose) :=
  (elements groups).zipIdx.flatMap fun o => [(o, .documentation), (o, .usageExamples)]

/-- The requests are for what is asked. -/
theorem requests_eq (backends : List Config.Backend) (groups : List Group) :
    requests backends groups = (asked groups).map fun x => ⟨some backends, x.1.1, x.2⟩ := by
  have hfst : (elements groups).zipIdx.map (·.1) = elements groups := List.zipIdx_map_fst 0 _
  unfold requests asked
  nth_rewrite 1 [← hfst]
  rw [List.flatMap_map, List.map_flatMap]
  rfl

/-- Answers in pairs are the texts of their places. -/
theorem pairs_asked (R : Occurrence → Purpose → String) (groups : List Group) :
    pairs ((asked groups).map fun x => R x.1 x.2) = (elements groups).zipIdx.map (shown R) := by
  unfold asked
  induction (elements groups).zipIdx with
  | nil => rfl
  | cons o rest ih =>
    rw [List.flatMap_cons, List.map_append, List.map_cons]
    exact congrArg (shown R o :: ·) ih

/-- **A group's part of the texts** is that of its elements in their places. -/
theorem slice_shown (h : p ∈ numbered 0 groups) :
    slice ((elements groups).zipIdx.map (shown R)) p =
      (p.1.elements.zipIdx p.2).map (shown R) := by
  obtain ⟨before, after, helements, hplace⟩ := exists_append_of_mem_numbered h
  rw [Nat.zero_add] at hplace
  -- the texts are those before, its own and those behind, and so are the places
  rw [slice, helements, List.zipIdx_append, List.zipIdx_append, List.map_append, List.map_append,
    Nat.zero_add, hplace, List.drop_left' (by simp), List.take_left' (by simp)]

/-! ## Pages -/

/-- The pages of some groups show the texts of their own elements. Each group has a part of
the texts, which are there; these parts are all texts, one after the other. A page shows its
outline with the texts of its elements' places, and every place of the line is on one page. -/
structure OwnTexts (R : Occurrence → Purpose → String) (directory : String)
    (groups : List Group) (texts : List Texts) : Prop where
  inBounds : ∀ p ∈ numbered 0 groups, p.2 + p.1.elements.length ≤ texts.length
  consecutive : (numbered 0 groups).flatMap (slice texts) = texts
  drafts : drafts directory groups texts = (numbered 0 groups).map fun p =>
    ⟨Path.join directory p.1.fileName, ElementPage.render p.1 (slice texts p)⟩
  content : ∀ p ∈ numbered 0 groups, ElementPage.render p.1 (slice texts p) =
    String.join ((outline p.1 p.2).map (Part.text R))
  shows : ∀ p ∈ numbered 0 groups, Shows p.1 p.2 (outline p.1 p.2)
  once : (numbered 0 groups).flatMap (fun p => (outline p.1 p.2).filterMap Part.occurrence?) =
    (elements groups).zipIdx

/-- The texts of the places are shown by the pages. -/
theorem ownTexts (R : Occurrence → Purpose → String) (directory : String) (groups : List Group) :
    OwnTexts R directory groups ((elements groups).zipIdx.map (shown R)) where
  inBounds := by
    intro p hp
    obtain ⟨before, after, helements, hplace⟩ := exists_append_of_mem_numbered hp
    have hlength := congrArg List.length helements
    rw [List.length_append, List.length_append] at hlength
    rw [List.length_map, List.length_zipIdx]
    omega
  consecutive := by
    rw [flatMap_slice, List.drop_zero]
    exact List.take_of_length_le (by simp)
  drafts := drafts_eq directory 0 groups _
  content := by
    intro p hp
    rw [slice_shown hp, render_eq]
  shows := fun p _ => shows_outline p.1 p.2
  once := by
    simp only [(shows_outline _ _).occurrences]
    exact flatMap_numbered 0 groups

/-- The pages of a run do so, where what the models answer does not depend on the place. -/
theorem ownTexts_job (j : Job) :
    OwnTexts (fun o purpose => Request.run ⟨some j.config.backends, o.1, purpose⟩ j.reply)
      (Path.join j.output.directory elementsDirectory) (Group.ofAnalysis j.analysis)
      ((elements (Group.ofAnalysis j.analysis)).map (textsOf j.config.backends j.reply)) := by
  have hfst : (elements (Group.ofAnalysis j.analysis)).zipIdx.map (·.1) =
      elements (Group.ofAnalysis j.analysis) := List.zipIdx_map_fst 0 _
  rw [← hfst, List.map_map]
  exact ownTexts _ _ _

/-- **Every page shows its own texts.** Whatever the models answer about each place and each
purpose, and in whatever order the answers arrive, the pages of an analysis show the texts of
their own elements, and these pages are handed over, each once, on any sink. -/
theorem pages_show_own_texts (sink : Sink σ) (directory : String)
    (backends : List Config.Backend) (a : Analysis) (R : Occurrence → Purpose → String)
    {arrivals : List (Nat × String)} (h : arrivals.Perm
      (((asked (Group.ofAnalysis a)).map fun x => R x.1 x.2).zipIdx.map Prod.swap)) :
    let groups := Group.ofAnalysis a
    let answers := Timeline.putBack (requests backends groups).length arrivals
    requests backends groups = (asked groups).map (fun x => ⟨some backends, x.1.1, x.2⟩) ∧
      OwnTexts R directory groups (pairs answers) ∧
      sink.Transcribed (write sink directory groups answers)
        (write sink.recorded directory groups answers) fun deeds _ =>
          ∃ results, results.length = groups.length ∧
            deeds = List.zipWith .wrote (drafts directory groups (pairs answers)) results := by
  intro groups answers
  have hrequests := requests_eq backends groups
  -- in whatever order they arrive, the answers stand in the order of the line
  have hanswers : answers = (asked groups).map fun x => R x.1 x.2 := by
    have hlength : (requests backends groups).length =
        ((asked groups).map fun x => R x.1 x.2).length := by
      rw [hrequests, List.length_map, List.length_map]
    dsimp only [answers]
    rw [hlength]
    exact Timeline.putBack_eq h
  refine ⟨hrequests, ?_, (write_transcribed sink directory groups answers).imp ?_⟩
  · rw [hanswers, pairs_asked]
    exact ownTexts R directory groups
  · intro deeds result hdone
    cases hdone with
    | well hlength _ => exact ⟨_, hlength, rfl⟩
    | ill hlength _ => exact ⟨_, hlength, rfl⟩

/-- Two classes of one name, whose members belong to both, and a method without a class. -/
def twins : Analysis :=
  ⟨"shop",
    [⟨.type, "Cart", "Cart", "shop/cart.py", 1, "class Cart", "", [], []⟩,
      ⟨.field, "items", "Cart.items", "shop/cart.py", 2, "items = []", "", [], []⟩,
      ⟨.type, "Cart", "Cart", "shop/cart.py", 5, "class Cart", "", [], []⟩,
      ⟨.method, "add", "Cart.add", "shop/cart.py", 6, "def add(self)", "", [], []⟩,
      ⟨.method, "run", "run", "shop/cart.py", 9, "def run()", "", [], []⟩]⟩

/-- A text that tells the place and the purpose. -/
def placeText (o : Occurrence) (purpose : Purpose) : String :=
  (if purpose = .documentation then "text " else "example ") ++ toString o.2

/-- The last answer arrives first, and each of the members shows the texts of its own place on
the page of the first class and on that of the second. -/
theorem pages_show_own_texts_twins :
    let groups := Group.ofAnalysis twins
    let arrivals := (((asked groups).map fun x => placeText x.1 x.2).zipIdx.map Prod.swap).reverse
    let texts := pairs (Timeline.putBack 14 arrivals)
    arrivals.head? = some (13, "example 6") ∧
      (numbered 0 groups).map (fun p => (p.1.elements.map (·.name), p.2)) =
        [(["Cart", "items", "add"], 0), (["Cart", "items", "add"], 3), (["run"], 6)] ∧
      texts = [⟨"text 0", "example 0"⟩, ⟨"text 1", "example 1"⟩, ⟨"text 2", "example 2"⟩,
        ⟨"text 3", "example 3"⟩, ⟨"text 4", "example 4"⟩, ⟨"text 5", "example 5"⟩,
        ⟨"text 6", "example 6"⟩] ∧
      OwnTexts placeText "docs" groups texts := by
  intro groups arrivals texts
  have hshown := (pages_show_own_texts (Sink.memory [] []) "docs" [] twins placeText
    (List.reverse_perm _)).2.1
  have hlength : (requests [] groups).length = 14 := by decide +kernel
  rw [hlength] at hshown
  exact ⟨by decide +kernel, by decide +kernel, by decide +kernel, hshown⟩

end Docsmith.Generation.ElementPages
