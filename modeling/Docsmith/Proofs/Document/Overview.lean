import Docsmith.Document.Overview
import Docsmith.Proofs.Document.Grouping
import Docsmith.Proofs.Ordered
/-!
# Documents — what the overview lists

The elements of an analysis fall into groups by file and into groups by kind:
each group holds what has its key, in the order of the analysis, no group is
empty, and their keys ascend (`IsPartition`). The overview parts the elements by
file and each file's elements by kind, so its reference has one entry for each
element, under its file and its kind (`reference_eq`), and the numbers that it
shows are those of the groups. Its links lead to the groups that the first
classes have documents for (`links_eq`).
-/


namespace Docsmith

/-! ## Groups under keys -/

/-- The groups of some items under their keys, which ascend: each group holds the
items that have its key, as they stand among all of them, and some item has it.
So the items of all groups are the items, and each stands in one group. -/
structure IsPartition {α κ : Type} [DecidableEq α] [DecidableEq κ] (before : κ → κ → Prop)
    (key : α → κ) (items : List α) (groups : List (κ × List α)) : Prop where
  ascending : groups.Pairwise fun g h => before g.1 h.1
  members : ∀ g ∈ groups, g.2 = items.filter (key · = g.1)
  inhabited : ∀ g ∈ groups, g.2 ≠ []
  perm : (groups.flatMap (·.2)).Perm items
  once : ∀ x ∈ items, groups.countP (fun g => x ∈ g.2) = 1

section Partition

variable {α κ : Type} [DecidableEq α] [DecidableEq κ] {before : κ → κ → Prop} {key : α → κ}
variable {items : List α} {keys : List κ}

/-- **Items are parted under keys that ascend** and are the keys of the items. -/
theorem isPartition_map (hirrefl : ∀ k, ¬ before k k) (hkeys : keys.Pairwise before)
    (hmem : ∀ k, k ∈ keys ↔ ∃ x ∈ items, key x = k) :
    IsPartition before key items (keys.map fun k => (k, items.filter (key · = k))) := by
  -- no item stands under two keys, and each stands under one
  have hapart : keys.Pairwise fun k l => ∀ x, decide (key x = k) = true →
      decide (key x = l) = false := by
    refine hkeys.imp ?_
    intro k l hlt x hk
    rw [decide_eq_false_iff_not, of_decide_eq_true hk]
    rintro rfl
    exact hirrefl k hlt
  have hall : (items.filter fun x => keys.any fun k => decide (key x = k)) = items := by
    refine List.filter_eq_self.2 fun x hx => ?_
    exact List.any_eq_true.2 ⟨key x, (hmem _).2 ⟨x, hx, rfl⟩, decide_eq_true rfl⟩
  constructor
  · rwa [List.pairwise_map]
  · intro g hg
    obtain ⟨k, -, rfl⟩ := List.mem_map.1 hg
    rfl
  · intro g hg
    obtain ⟨k, hk, rfl⟩ := List.mem_map.1 hg
    obtain ⟨x, hx, hkey⟩ := (hmem k).1 hk
    exact List.ne_nil_of_mem (List.mem_filter.2 ⟨hx, decide_eq_true hkey⟩)
  · have hperm : (items.filter fun x => keys.any fun k => decide (key x = k)).Perm
        (keys.flatMap fun k => items.filter (key · = k)) := perm_flatMap_filter hapart
    rw [hall] at hperm
    rw [List.flatMap_map]
    exact hperm.symm
  · intro x hx
    rw [List.countP_map]
    refine countP_mem_eq_one (f := fun k => items.filter (key · = k)) ?_ ?_
    · refine hapart.imp ?_
      intro k l hnot y hk hl
      have hkey := hnot y (List.mem_filter.1 hk).2
      rw [(List.mem_filter.1 hl).2] at hkey
      cases hkey
    · exact ⟨key x, (hmem _).2 ⟨x, hx, rfl⟩, List.mem_filter.2 ⟨hx, decide_eq_true rfl⟩⟩

end Partition

/-- One kind stands before another in the order of kinds: classes, methods,
fields. -/
def Element.Kind.IsBefore (k l : Kind) : Prop :=
  all.idxOf k < all.idxOf l

instance (k l : Element.Kind) : Decidable (k.IsBefore l) :=
  inferInstanceAs (Decidable (_ < _))

namespace Analysis

/-! ## Files and kinds -/

/-- The files of some elements, ascending. -/
theorem files_foldl (elements : List Element) : ∀ files : List String, files.Pairwise (· < ·) →
    (elements.foldl (fun keys e => Ordered.insertKey e.file keys) files).Pairwise (· < ·) ∧
      ∀ file, file ∈ elements.foldl (fun keys e => Ordered.insertKey e.file keys) files ↔
        file ∈ files ∨ ∃ e ∈ elements, e.file = file := by
  induction elements with
  | nil => exact fun files h => ⟨h, by simp⟩
  | cons e elements ih =>
    intro files h
    obtain ⟨hascending, hmem⟩ := ih _ (Ordered.pairwise_insertKey h e.file)
    refine ⟨hascending, fun file => ?_⟩
    rw [List.foldl_cons, hmem, Ordered.mem_insertKey, List.exists_mem_cons_iff,
      or_comm (a := file = _), or_assoc, eq_comm (a := file)]

/-- **The elements by file.** -/
theorem isPartition_byFile (a : Analysis) :
    IsPartition (· < ·) Element.file a.elements a.byFile := by
  obtain ⟨hascending, hmem⟩ := files_foldl a.elements [] List.Pairwise.nil
  have hfiles : ∀ file, file ∈ a.files ↔ ∃ e ∈ a.elements, e.file = file := by
    intro file
    rw [files, hmem]
    simp
  exact isPartition_map String.lt_irrefl hascending hfiles

/-- Elements by kind, without the kinds that none of them has. -/
def kindGroups (elements : List Element) : List (Element.Kind × List Element) :=
  (Element.Kind.all.map fun kind => (kind, elements.filter (·.kind == kind))).filter (!·.2.isEmpty)

/-- **Some elements by kind.** -/
theorem isPartition_kindGroups (elements : List Element) :
    IsPartition Element.Kind.IsBefore Element.kind elements (kindGroups elements) := by
  have hgroups : kindGroups elements =
      (Element.Kind.all.filter fun kind => !(elements.filter (·.kind == kind)).isEmpty).map
        fun kind => (kind, elements.filter (·.kind = kind)) := by
    rw [kindGroups, List.filter_map]
    rfl
  have hascending : Element.Kind.all.Pairwise Element.Kind.IsBefore := by decide
  rw [hgroups]
  refine isPartition_map (fun kind => Nat.lt_irrefl _) (hascending.filter _) fun kind => ?_
  have hall : kind ∈ Element.Kind.all := by cases kind <;> decide
  rw [List.mem_filter, and_iff_right hall, Bool.not_eq_true', List.isEmpty_eq_false_iff_exists_mem]
  simp only [List.mem_filter, beq_iff_eq]

theorem isPartition_byKind (a : Analysis) :
    IsPartition Element.Kind.IsBefore Element.kind a.elements a.byKind :=
  isPartition_kindGroups a.elements

/-! ## Numbers -/

/-- **Every element is a class, a method or a field.** -/
theorem counts_add (a : Analysis) :
    a.counts.classes + a.counts.methods + a.counts.fields = a.counts.total := by
  have hkinds : ∀ elements : List Element,
      (elements.filter (·.kind == .type)).length + (elements.filter (·.kind == .method)).length +
        (elements.filter (·.kind == .field)).length = elements.length := by
    intro elements
    induction elements with
    | nil => rfl
    | cons e elements ih =>
      cases hkind : e.kind <;> simp [hkind] <;> omega
  exact hkinds a.elements

/-- The numbers are those of the elements of each kind and of the groups by file. -/
theorem counts_eq (a : Analysis) : a.counts =
    { total := a.elements.length
      classes := a.elements.countP (·.kind = .type)
      methods := a.elements.countP (·.kind = .method)
      fields := a.elements.countP (·.kind = .field)
      files := a.byFile.length } := by
  have hkind : ∀ kind, (a.ofKind kind).length = a.elements.countP (·.kind = kind) :=
    fun kind => List.countP_eq_length_filter.symm
  have hfiles : a.byFile.length = a.files.length := List.length_map _
  rw [counts, classes, methods, fields, hkind, hkind, hkind, hfiles]

end Analysis

namespace Document.Overview

/-! ## The numbers shown -/

/-- **The numbers are told in one line, and in a table.** -/
theorem statistics_eq (c : Analysis.Counts) : statistics c = "## Project Statistics\n\n" ++
    ("Analysis Summary: " ++ toString c.total ++ " total elements (" ++ toString c.classes ++
      " classes, " ++ toString c.methods ++ " methods, " ++ toString c.fields ++
      " fields) across " ++ toString c.files ++ " files\n\n") ++
    "| Element Type | Count |\n|--------------|-------|\n" ++
    ("| Classes | " ++ toString c.classes ++ " |\n") ++
    ("| Methods | " ++ toString c.methods ++ " |\n") ++
    ("| Fields | " ++ toString c.fields ++ " |\n") ++
    ("| Files | " ++ toString c.files ++ " |\n\n") := by
  -- the definition puts these texts together from parts
  have hclasses : ("| Classes | " : String) = "| " ++ "Classes" ++ " | " := rfl
  have hmethods : ("| Methods | " : String) = "| " ++ "Methods" ++ " | " := rfl
  have hfields : ("| Fields | " : String) = "| " ++ "Fields" ++ " | " := rfl
  have hfiles : ("| Files | " : String) = "| " ++ "Files" ++ " | " := rfl
  have hsummary : (" files\n\n" : String) = " files" ++ "\n\n" := rfl
  have hhead : ("| Element Type | Count |\n|--------------|-------|\n" : String) =
      "| Element Type | Count |\n" ++ "|--------------|-------|\n" := rfl
  have hbreak : ("\n\n| Element Type | Count |\n" : String) =
      "\n\n" ++ "| Element Type | Count |\n" := rfl
  have hlast : (" |\n\n" : String) = " |\n" ++ "\n" := rfl
  unfold statistics Analysis.Counts.summary
  simp only [hclasses, hmethods, hfields, hfiles, hsummary, hhead, hbreak, hlast,
    String.append_assoc]

/-! ## The reference -/

/-- A file with its elements by kind. -/
abbrev Listing := String × List (Element.Kind × List Element)

/-- A file's heading, and under it for each kind a heading and an entry for each element. -/
def Listing.text (project : String) (l : Listing) : String :=
  "### " ++ shownPath project l.1 ++ "\n\n" ++ String.join (l.2.map fun group =>
    "#### " ++ group.1.icon ++ " " ++ group.1.description ++ "\n\n" ++
      String.join (group.2.map fun e =>
        "- **" ++ e.name ++ "** - `" ++ e.signature ++ "`\n") ++ "\n")

/-- The listings of the files of an analysis: one for each file, which parts the file's elements
by kind. -/
def AreListings (a : Analysis) (listings : List Listing) : Prop :=
  List.Forall₂ (fun file l => l.1 = file.1 ∧
    IsPartition Element.Kind.IsBefore Element.kind file.2 l.2) a.byFile listings

/-- What has no text may be left out of a join. -/
theorem join_map_filter {α : Type} (p : α → Bool) (text : α → String) (xs : List α)
    (h : ∀ x ∈ xs, p x = false → text x = "") :
    String.join (xs.map text) = String.join ((xs.filter p).map text) := by
  induction xs with
  | nil => rfl
  | cons x xs ih =>
    obtain ⟨hx, hxs⟩ := List.forall_mem_cons.1 h
    rw [List.map_cons, String.join_cons, ih hxs]
    cases hp : p x with
    | true => rw [List.filter_cons_of_pos hp, List.map_cons, String.join_cons]
    | false => rw [List.filter_cons_of_neg (by simp [hp]), hx hp, String.empty_append]

/-- The listings of all files. -/
def listings (a : Analysis) : List Listing :=
  a.byFile.map fun file => (file.1, Analysis.kindGroups file.2)

theorem areListings (a : Analysis) : AreListings a (listings a) := by
  rw [AreListings, listings, List.forall₂_map_right_iff, List.forall₂_same]
  exact fun file _ => ⟨rfl, Analysis.isPartition_kindGroups file.2⟩

/-- A kind's section is empty where no element is of the kind. -/
theorem kindSection_eq (elements : List Element) (kind : Element.Kind) :
    kindSection elements kind = if (elements.filter (·.kind == kind)).isEmpty then ""
      else "#### " ++ kind.icon ++ " " ++ kind.description ++ "\n\n" ++
        String.join ((elements.filter (·.kind == kind)).map entry) ++ "\n" := by
  unfold kindSection
  cases elements.filter (·.kind == kind) <;> rfl

/-- **A file's section is its listing.** -/
theorem fileSection_eq (project : String) (file : String × List Element) :
    fileSection project file = Listing.text project (file.1, Analysis.kindGroups file.2) := by
  let isFound (kind : Element.Kind) : Bool := !(file.2.filter (·.kind == kind)).isEmpty
  have hempty : ∀ kind ∈ Element.Kind.all, isFound kind = false → kindSection file.2 kind = "" := by
    intro kind _ hkind
    rw [kindSection_eq, if_pos (by simpa [isFound] using hkind)]
  have hfound : ∀ kind ∈ Element.Kind.all.filter isFound, kindSection file.2 kind =
      "#### " ++ kind.icon ++ " " ++ kind.description ++ "\n\n" ++
        String.join ((file.2.filter (·.kind == kind)).map entry) ++ "\n" := by
    intro kind hkind
    have hsome := (List.mem_filter.1 hkind).2
    rw [kindSection_eq, if_neg (by simpa [isFound] using hsome)]
  rw [fileSection, join_map_filter isFound _ _ hempty, List.map_congr_left hfound, Listing.text,
    Analysis.kindGroups, List.filter_map, List.map_map]
  rfl

/-- **The reference lists every file**, or says that there are none. -/
theorem reference_eq (a : Analysis) : reference a = "## API Reference\n\n" ++
    if a.elements.isEmpty then "*No code elements found.*\n\n"
    else String.join ((listings a).map (Listing.text a.project)) := by
  have hsections : a.byFile.map (fileSection a.project) =
      (listings a).map (Listing.text a.project) := by
    rw [listings, List.map_map]
    exact List.map_congr_left fun file _ => fileSection_eq a.project file
  unfold reference
  rw [hsections]

/-- The entries of all listings are the elements of all files. -/
theorem perm_entries_of_forall₂ {files : List (String × List Element)} {listings : List Listing}
    (h : List.Forall₂ (fun file l => l.1 = file.1 ∧
      IsPartition Element.Kind.IsBefore Element.kind file.2 l.2) files listings) :
    (listings.flatMap fun l => l.2.flatMap (·.2)).Perm (files.flatMap (·.2)) := by
  induction h with
  | nil => rfl
  | cons hfile _ ih =>
    rw [List.flatMap_cons, List.flatMap_cons]
    exact hfile.2.perm.append ih

/-- **Each element has one entry.** -/
theorem AreListings.perm {a : Analysis} {listings : List Listing} (h : AreListings a listings) :
    (listings.flatMap fun l => l.2.flatMap (·.2)).Perm a.elements :=
  (perm_entries_of_forall₂ h).trans a.isPartition_byFile.perm

/-! ## The links -/

/-- The groups lead the groups of the analysis and are those of its first classes, five of
them or all. -/
structure AreLinked (a : Analysis) (linked : List Group) : Prop where
  leading : linked <+: Group.ofAnalysis a
  own : List.Forall₂ (fun c g => g.type = some c) (a.classes.take 5) linked
  length : linked.length = min 5 a.classes.length

/-- A link for each of some classes to the document of its group. -/
def linksText (classes : List Element) (linked : List Group) : String :=
  if classes.isEmpty then "" else
    "### Quick Links\n\n" ++ String.join (List.zipWith (fun c g =>
      "- [" ++ c.name ++ "](" ++ elementsDirectory ++ "/" ++ g.fileName ++ ")\n") classes linked) ++
        "\n"

theorem areLinked (a : Analysis) : AreLinked a ((a.classes.take 5).map (Group.ofClass a)) where
  leading := by
    rw [Group.ofAnalysis, List.append_assoc]
    exact (List.IsPrefix.map _ (List.take_prefix 5 a.classes)).trans (List.prefix_append _ _)
  own := by
    rw [List.forall₂_map_right_iff, List.forall₂_same]
    exact fun c _ => rfl
  length := by rw [List.length_map, List.length_take]

/-- **The links lead to the documents of the first classes.** -/
theorem links_eq (a : Analysis) : links a = "## Usage Examples\n\n" ++
    "Detailed usage examples can be found in the individual element documentation files.\n\n" ++
    linksText (a.classes.take 5) ((a.classes.take 5).map (Group.ofClass a)) := by
  have hlines : ∀ classes : List Element, List.zipWith (fun c g =>
      "- [" ++ c.name ++ "](" ++ elementsDirectory ++ "/" ++ g.fileName ++ ")\n") classes
        (classes.map (Group.ofClass a)) = classes.map link := by
    intro classes
    rw [List.zipWith_map_right, List.zipWith_self]
    rfl
  unfold links linksText quickLinks
  rw [hlines]
  cases a.classes.take 5 <;> rfl

/-! ## The overview -/

/-- **The overview lists every element once, and its numbers agree.** The elements of an
analysis are parted by file and by kind, its classes, methods and fields are all of them, and
it has as many files as there are groups by file. The overview shows these numbers; its
reference has a listing for each file, in their order, which parts the file's elements by
kind, so each element has one entry; and its links lead to the documents of the groups of the
first classes. -/
theorem overview_agrees (a : Analysis) (generatedOn : String) :
    IsPartition (· < ·) Element.file a.elements a.byFile ∧
    IsPartition Element.Kind.IsBefore Element.kind a.elements a.byKind ∧
    a.counts.classes + a.counts.methods + a.counts.fields = a.counts.total ∧
    a.counts =
      { total := a.elements.length
        classes := a.elements.countP (·.kind = .type)
        methods := a.elements.countP (·.kind = .method)
        fields := a.elements.countP (·.kind = .field)
        files := a.byFile.length } ∧
    ∃ listings linked, AreListings a listings ∧
      (listings.flatMap fun l => l.2.flatMap (·.2)).Perm a.elements ∧ AreLinked a linked ∧
      render a generatedOn =
        "# " ++ a.projectName ++ " - Code Documentation\n\nGenerated on: " ++ generatedOn ++
          "\n\nThis documentation was automatically generated using AI-powered code analysis.\n\n" ++
        ("## Project Statistics\n\n" ++
          ("Analysis Summary: " ++ toString a.counts.total ++ " total elements (" ++
            toString a.counts.classes ++ " classes, " ++ toString a.counts.methods ++
            " methods, " ++ toString a.counts.fields ++ " fields) across " ++
            toString a.counts.files ++ " files\n\n") ++
          "| Element Type | Count |\n|--------------|-------|\n" ++
          ("| Classes | " ++ toString a.counts.classes ++ " |\n") ++
          ("| Methods | " ++ toString a.counts.methods ++ " |\n") ++
          ("| Fields | " ++ toString a.counts.fields ++ " |\n") ++
          ("| Files | " ++ toString a.counts.files ++ " |\n\n")) ++
        ("## API Reference\n\n" ++ if a.elements.isEmpty then "*No code elements found.*\n\n"
          else String.join (listings.map (Listing.text a.project))) ++
        ("## Usage Examples\n\n" ++
          "Detailed usage examples can be found in the individual element documentation files.\n\n" ++
          linksText (a.classes.take 5) linked) := by
  refine ⟨a.isPartition_byFile, a.isPartition_byKind, a.counts_add, a.counts_eq, listings a, _,
    areListings a, (areListings a).perm, areLinked a, ?_⟩
  rw [render, statistics_eq, reference_eq, links_eq]

end Document.Overview

end Docsmith
