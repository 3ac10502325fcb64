import Docsmith.Proofs.Diagram.Uses
import Mathlib.Data.Finset.Card
import Mathlib.Data.Set.Card
/-!
# Diagrams — uses are mentions

Whether one class uses another can be told without the graph: some class of the one
qualified name has a member that mentions the name of some class of the other
(`Mentions`). The graph has an edge in exactly these cases, whatever the order of the
views and whichever of them share a name (`uses_are_mentions`).

A graph in order is told by its names and by what each class uses
(`IsOrdered.eq_of_targets_eq`), so the order of the views matters for nothing but the
names of classes that share a qualified name.
-/


namespace Docsmith.Diagram.Uses

variable {views others : List View} {u : Uses} {v w : View} {source target : String}

/-- A class of the one qualified name has a member that mentions a class of the other
one; the qualified names are different, and so are the simple ones. -/
def Mentions (views : List View) (source target : String) : Prop :=
  source ≠ target ∧ ∃ v ∈ views, ∃ w ∈ views,
    v.type.qualifiedName = source ∧ w.type.qualifiedName = target ∧
      v.type.name ≠ w.type.name ∧ ∃ m ∈ v.members,
        Text.containsWord (m.signature ++ " " ++ " ".intercalate m.parameters) w.type.name = true

theorem isUse_iff : isUse v w = true ↔
    v.type.qualifiedName ≠ w.type.qualifiedName ∧ v.type.name ≠ w.type.name ∧ ∃ m ∈ v.members,
      Text.containsWord (m.signature ++ " " ++ " ".intercalate m.parameters) w.type.name = true := by
  simp only [isUse, mentions, Bool.and_eq_true, bne_iff_ne, List.any_eq_true, and_assoc, ne_comm]

theorem hasEdge_iff_mem : u.hasEdge source target = true ↔ target ∈ u.targets source := by
  rw [hasEdge, List.contains_iff_mem]

/-- **An edge is a mention.** -/
theorem hasEdge_ofViews_iff :
    (ofViews views).hasEdge source target = true ↔ Mentions views source target := by
  rw [hasEdge_iff_mem, mem_targets_ofViews]
  constructor
  · rintro ⟨v, hv, w, hw, huse, rfl, rfl⟩
    obtain ⟨hqualified, hname, hmember⟩ := isUse_iff.1 huse
    exact ⟨hqualified, v, hv, w, hw, rfl, rfl, hname, hmember⟩
  · rintro ⟨hqualified, v, hv, w, hw, rfl, rfl, hname, hmember⟩
    exact ⟨v, hv, w, hw, isUse_iff.2 ⟨hqualified, hname, hmember⟩, rfl, rfl⟩

/-- A mention does not ask for the order of the views. -/
theorem mentions_perm (h : views.Perm others) :
    Mentions views source target ↔ Mentions others source target := by
  simp only [Mentions, h.mem_iff]

namespace IsOrdered

/-- Two graphs of one form are the same if their classes have the same names and use the
same classes. -/
theorem eq_of_targets_eq {u' : Uses} (h : u.IsOrdered) (h' : u'.IsOrdered)
    (hnames : u.names = u'.names) (htargets : ∀ source, u.targets source = u'.targets source) :
    u = u' := by
  have hedges : u.edges = u'.edges := by
    refine Ordered.eq_of_find?_eq h.sources h'.sources fun source => ?_
    rw [h.find?_edges, h'.find?_edges, htargets]
  obtain ⟨names, edges⟩ := u
  obtain ⟨names', edges'⟩ := u'
  obtain rfl : names = names' := hnames
  obtain rfl : edges = edges' := hedges
  rfl

end IsOrdered

/-! ## The number of edges -/

/-- The edges of a graph, class by class. -/
def edgeList (u : Uses) : List (String × String) :=
  u.edges.flatMap fun entry => entry.2.map (entry.1, ·)

theorem length_edgeList (u : Uses) : u.edgeList.length = u.edgeCount := by
  have hfold : ∀ (edges : List (String × List String)) (n : Nat),
      edges.foldl (fun n entry => n + entry.2.length) n =
        n + (edges.flatMap fun entry => entry.2.map (entry.1, ·)).length := by
    intro edges
    induction edges with
    | nil => intro n; rfl
    | cons entry edges ih =>
      intro n
      rw [List.foldl_cons, ih, List.flatMap_cons, List.length_append, List.length_map]
      omega
  have hcount := hfold u.edges 0
  rw [Nat.zero_add] at hcount
  exact hcount.symm

namespace IsOrdered

theorem mem_edgeList (h : u.IsOrdered) :
    (source, target) ∈ u.edgeList ↔ u.hasEdge source target = true := by
  rw [hasEdge_iff_mem, edgeList, List.mem_flatMap]
  constructor
  · rintro ⟨⟨name, targets⟩, hentry, hmem⟩
    obtain ⟨other, hother, heq⟩ := List.mem_map.1 hmem
    cases heq
    have hfind := (Ordered.find?_eq_some h.sources.hasDistinctKeys).2 hentry
    rw [Uses.targets, hfind]
    exact hother
  · intro hmem
    have hentry := h.mem_edges (List.ne_nil_of_mem hmem)
    exact ⟨_, hentry, List.mem_map.2 ⟨target, hmem, rfl⟩⟩

/-- No edge stands twice: its class stands once, and so does the other one there. -/
theorem nodup_edgeList (h : u.IsOrdered) : u.edgeList.Nodup := by
  refine List.nodup_flatMap.2 ⟨?_, ?_⟩
  · intro entry hentry
    have hnodup : entry.2.Nodup := by
      refine List.Pairwise.imp ?_ (h.used entry hentry).2
      intro name other hlt heq
      exact String.lt_irrefl _ (heq ▸ hlt)
    exact hnodup.map fun name other heq => (Prod.mk.inj heq).2
  · refine List.Pairwise.imp ?_ h.sources
    intro entry other hlt use huse huse'
    obtain ⟨_, _, rfl⟩ := List.mem_map.1 huse
    obtain ⟨_, _, heq⟩ := List.mem_map.1 huse'
    exact String.lt_irrefl _ ((congrArg Prod.fst heq) ▸ hlt)

/-- **The edges are counted** each once. -/
theorem encard_edges (h : u.IsOrdered) :
    {use : String × String | u.hasEdge use.1 use.2 = true}.encard = u.edgeCount := by
  have hset : {use : String × String | u.hasEdge use.1 use.2 = true} = ↑u.edgeList.toFinset := by
    ext ⟨source, target⟩
    rw [Set.mem_ofPred_eq, Finset.mem_coe, List.mem_toFinset, h.mem_edgeList]
  rw [hset, Set.encard_coe_eq_coe_finsetCard, List.toFinset_card_of_nodup h.nodup_edgeList,
    length_edgeList]

end IsOrdered

/-! ## The order of the views -/

/-- The classes that a class uses do not depend on the order of the views. -/
theorem targets_perm (h : views.Perm others) (source : String) :
    (ofViews others).targets source = (ofViews views).targets source := by
  have hmem : ∀ target, target ∈ (ofViews others).targets source ↔
      target ∈ (ofViews views).targets source := by
    intro target
    rw [← hasEdge_iff_mem, ← hasEdge_iff_mem, hasEdge_ofViews_iff, hasEdge_ofViews_iff,
      mentions_perm h]
  have hperm := (List.perm_ext_iff_of_nodup (nodup_targets others source)
    (nodup_targets views source)).2 hmem
  refine hperm.eq_of_pairwise ?_ (pairwise_targets others source) (pairwise_targets views source)
  intro name other _ _ hlt hgt
  exact absurd (String.lt_trans hlt hgt) (String.lt_irrefl name)

/-- Nor do their names, if no two classes share a qualified name. -/
theorem names_perm (h : views.Perm others)
    (hdistinct : (views.map (·.type.qualifiedName)).Nodup) :
    (ofViews others).names = (ofViews views).names := by
  rw [names_ofViews, names_ofViews]
  have hkeys : Ordered.HasDistinctKeys
      (views.map fun v => (v.type.qualifiedName, v.type.name)) := by
    unfold Ordered.HasDistinctKeys
    rw [List.pairwise_map]
    exact List.pairwise_map.1 hdistinct
  exact (Ordered.ofList_perm hkeys (h.map _)).symm

/-- A graph whose edges are told by its nodes: they join nodes, none joins a node with
itself, each node has its edges listed once in the order of the other ends, and all of
them are counted. -/
structure IsWellFormed (u : Uses) : Prop where
  joins_nodes : ∀ source target, u.hasEdge source target = true →
    (∃ name, (source, name) ∈ u.names) ∧ ∃ name, (target, name) ∈ u.names
  irreflexive : ∀ source, u.hasEdge source source = false
  listed : ∀ source, ∃ targets : List String, targets.Pairwise (· < ·) ∧
    (∀ target, target ∈ targets ↔ u.hasEdge source target = true) ∧
    List.Forall₂ (fun target name => (target, name) ∈ u.names) targets (u.namesUsed source)
  counted : {use : String × String | u.hasEdge use.1 use.2 = true}.encard = u.edgeCount

/-- Every class of the run is a node. -/
theorem exists_mem_names (hv : v ∈ views) :
    ∃ name, (v.type.qualifiedName, name) ∈ (ofViews views).names := by
  obtain ⟨name, hname⟩ := Option.ne_none_iff_exists'.1 (find?_names_ne_none hv)
  exact ⟨name, find?_names_eq_some.1 hname⟩

theorem isWellFormed_ofViews (views : List View) : (ofViews views).IsWellFormed where
  joins_nodes := by
    intro source target hedge
    obtain ⟨-, v, hv, w, hw, rfl, rfl, -⟩ := hasEdge_ofViews_iff.1 hedge
    exact ⟨exists_mem_names hv, exists_mem_names hw⟩
  irreflexive := by
    intro source
    refine Bool.eq_false_iff.2 fun hedge => ?_
    exact (hasEdge_ofViews_iff.1 hedge).1 rfl
  listed := by
    intro source
    exact ⟨(ofViews views).targets source, pairwise_targets views source,
      fun target => hasEdge_iff_mem.symm, namesUsed_listed views source⟩
  counted := (isOrdered_ofViews views).encard_edges

/-- **The uses among classes are exactly their mentions**, for every list of views, and
make a well-formed graph. Its edges do not depend on the order of the views; neither does
anything else of the graph if no two classes share a qualified name. -/
theorem uses_are_mentions (views : List View) :
    (∀ source target, (ofViews views).hasEdge source target = true ↔
      Mentions views source target) ∧
    (ofViews views).IsWellFormed ∧
    ∀ others, views.Perm others →
      (∀ source target, (ofViews others).hasEdge source target =
        (ofViews views).hasEdge source target) ∧
      ((views.map (·.type.qualifiedName)).Nodup → ofViews others = ofViews views) := by
  refine ⟨fun source target => hasEdge_ofViews_iff, isWellFormed_ofViews views, ?_⟩
  intro others hperm
  constructor
  · intro source target
    rw [hasEdge, hasEdge, targets_perm hperm]
  · intro hdistinct
    exact (isOrdered_ofViews others).eq_of_targets_eq (isOrdered_ofViews views)
      (names_perm hperm hdistinct) (targets_perm hperm)

/-- The view of a class with one method. -/
def viewOf (name method : String) : View :=
  ⟨⟨.type, name, "shop." ++ name, "Shop.java", 1, "class " ++ name, "", [], []⟩, [],
    [⟨.method, "m", "shop." ++ name ++ ".m", "Shop.java", 2, method, "", [], []⟩]⟩

/-- Two classes that mention each other. -/
def mutualViews : List View :=
  [viewOf "Cart" "void m(Item item)", viewOf "Item" "Cart m()"]

/-- They use each other, whichever comes first. -/
theorem uses_are_mentions_mutual :
    mutualViews.Perm mutualViews.reverse ∧
      (mutualViews.map (·.type.qualifiedName)).Nodup ∧
      Mentions mutualViews "shop.Cart" "shop.Item" ∧
      Mentions mutualViews "shop.Item" "shop.Cart" ∧
      ofViews mutualViews.reverse = ofViews mutualViews ∧
      (ofViews mutualViews.reverse).edgeCount = 2 := by
  have hperm : mutualViews.Perm mutualViews.reverse := (List.reverse_perm mutualViews).symm
  have hdistinct : (mutualViews.map (·.type.qualifiedName)).Nodup := by decide +kernel
  obtain ⟨hedge, -, horder⟩ := uses_are_mentions mutualViews
  have hforth := (hedge "shop.Cart" "shop.Item").1 (by decide +kernel)
  have hback := (hedge "shop.Item" "shop.Cart").1 (by decide +kernel)
  exact ⟨hperm, hdistinct, hforth, hback, (horder _ hperm).2 hdistinct, by decide +kernel⟩

end Docsmith.Diagram.Uses
