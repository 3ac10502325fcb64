import Docsmith.Diagram.Uses
import Docsmith.Proofs.Ordered
import Mathlib.Data.List.Forall2
import Mathlib.Tactic.Tauto
/-!
# Diagrams — the classes that a class uses

The uses of a class are a set of qualified names in ascending order
(`pairwise_targets`): those of the classes that its members mention
(`mem_targets_ofViews`). Each of them belongs to a class of the run, so looking up
the simple names loses none (`namesUsed_ofViews`).
-/


namespace Docsmith.Diagram.Uses

variable {views : List View} {u : Uses} {source target : String}

/-- The uses among the classes of the views, as pairs of qualified names: the class that
uses and the one that is used. -/
def pairs (views : List View) : List (String × String) :=
  views.flatMap fun s =>
    (views.filter (isUse s)).map fun t => (s.type.qualifiedName, t.type.qualifiedName)

theorem mem_pairs : (source, target) ∈ pairs views ↔
    ∃ s ∈ views, ∃ t ∈ views, isUse s t = true ∧ s.type.qualifiedName = source ∧
      t.type.qualifiedName = target := by
  simp [pairs, and_assoc]

/-- The uses are made by adding the pairs one by one. -/
theorem ofViews_eq_foldl (views : List View) :
    ofViews views = (pairs views).foldl (fun u use => u.addEdge use.1 use.2)
      ⟨Ordered.ofList (views.map fun v => (v.type.qualifiedName, v.type.name)), []⟩ := by
  simp only [ofViews, pairs, List.foldl_flatMap, List.foldl_map]

/-! ## One use more -/

theorem targets_addEdge (u : Uses) (s t source : String) :
    (u.addEdge s t).targets source =
      if source = s then Ordered.insertKey t (u.targets s) else u.targets source := by
  simp only [targets, addEdge, Ordered.find?_insert]
  split_ifs <;> rfl

/-! ## All uses -/

theorem names_foldl_addEdge (uses : List (String × String)) (u : Uses) :
    (uses.foldl (fun u use => u.addEdge use.1 use.2) u).names = u.names := by
  induction uses generalizing u with
  | nil => rfl
  | cons use uses ih => exact ih _

/-- What a class uses after some pairs are added: what it used, and what they say. -/
theorem mem_targets_foldl_addEdge {uses : List (String × String)} {u : Uses} :
    target ∈ (uses.foldl (fun u use => u.addEdge use.1 use.2) u).targets source ↔
      (source, target) ∈ uses ∨ target ∈ u.targets source := by
  induction uses generalizing u with
  | nil => simp
  | cons use uses ih =>
    obtain ⟨s, t⟩ := use
    have htargets := targets_addEdge u s t source
    rw [List.foldl_cons, ih, htargets, List.mem_cons, Prod.mk.injEq]
    -- only the class that the pair starts from has another one to use
    by_cases hsource : source = s
    · subst hsource
      rw [if_pos rfl, Ordered.mem_insertKey]
      tauto
    · rw [if_neg hsource]
      tauto

/-- **A class uses the classes that its members mention.** -/
theorem mem_targets_ofViews : target ∈ (ofViews views).targets source ↔
    ∃ s ∈ views, ∃ t ∈ views, isUse s t = true ∧ s.type.qualifiedName = source ∧
      t.type.qualifiedName = target := by
  rw [ofViews_eq_foldl, mem_targets_foldl_addEdge, ← mem_pairs]
  exact or_iff_left List.not_mem_nil

/-! ## The form of a graph

Edges are added one by one, so what the graph looks like is an invariant of `addEdge`.
-/

/-- The classes that use others stand in ascending order, and each of them has some that
it uses, in ascending order as well. -/
structure IsOrdered (u : Uses) : Prop where
  sources : Ordered.IsAscending u.edges
  used : ∀ entry ∈ u.edges, entry.2 ≠ [] ∧ entry.2.Pairwise (· < ·)

namespace IsOrdered

/-- What a class uses is what stands under its name, if anything does. -/
theorem find?_edges (h : u.IsOrdered) (source : String) :
    Ordered.find? source u.edges =
      if u.targets source = [] then none else some (u.targets source) := by
  cases hfind : Ordered.find? source u.edges with
  | none => rw [targets, hfind, Option.getD_none, if_pos rfl]
  | some targets =>
    have hentry := (Ordered.find?_eq_some h.sources.hasDistinctKeys).1 hfind
    rw [Uses.targets, hfind, Option.getD_some, if_neg (h.used _ hentry).1]

theorem mem_edges (h : u.IsOrdered) (hsome : u.targets source ≠ []) :
    (source, u.targets source) ∈ u.edges := by
  have hfind := h.find?_edges source
  rw [if_neg hsome] at hfind
  exact (Ordered.find?_eq_some h.sources.hasDistinctKeys).1 hfind

theorem pairwise_targets (h : u.IsOrdered) (source : String) :
    (u.targets source).Pairwise (· < ·) := by
  by_cases hnone : u.targets source = []
  · rw [hnone]
    exact List.Pairwise.nil
  · exact (h.used _ (h.mem_edges hnone)).2

/-- **One edge more** keeps the form. -/
theorem addEdge (h : u.IsOrdered) (source target : String) :
    (u.addEdge source target).IsOrdered where
  sources := Ordered.isAscending_insert h.sources source _
  used := by
    intro entry hentry
    rcases Ordered.mem_insert hentry with rfl | hentry
    · -- the class that the edge starts from has the other one beside those it had
      have htarget : target ∈ Ordered.insertKey target (u.targets source) :=
        Ordered.mem_insertKey.2 (.inl rfl)
      exact ⟨List.ne_nil_of_mem htarget, Ordered.pairwise_insertKey (h.pairwise_targets source) _⟩
    · exact h.used entry hentry

theorem foldl_addEdge (h : u.IsOrdered) (uses : List (String × String)) :
    (uses.foldl (fun u use => u.addEdge use.1 use.2) u).IsOrdered := by
  induction uses generalizing u with
  | nil => exact h
  | cons use uses ih => exact ih (h.addEdge use.1 use.2)

end IsOrdered

theorem isOrdered_ofViews (views : List View) : (ofViews views).IsOrdered := by
  rw [ofViews_eq_foldl]
  have hstart : IsOrdered
      ⟨Ordered.ofList (views.map fun v => (v.type.qualifiedName, v.type.name)), []⟩ :=
    ⟨List.Pairwise.nil, fun entry hentry => absurd hentry List.not_mem_nil⟩
  exact hstart.foldl_addEdge _

/-- **Each of them stands once**, in ascending order. -/
theorem pairwise_targets (views : List View) (source : String) :
    ((ofViews views).targets source).Pairwise (· < ·) :=
  (isOrdered_ofViews views).pairwise_targets source

theorem nodup_targets (views : List View) (source : String) :
    ((ofViews views).targets source).Nodup := by
  refine List.Pairwise.imp ?_ (pairwise_targets views source)
  intro target other hlt heq
  rw [heq] at hlt
  exact String.lt_irrefl _ hlt

/-! ## Names -/

theorem names_ofViews (views : List View) : (ofViews views).names =
    Ordered.ofList (views.map fun v => (v.type.qualifiedName, v.type.name)) := by
  rw [ofViews_eq_foldl, names_foldl_addEdge]

/-- The name found under a qualified name is the one that stands there. -/
theorem find?_names_eq_some {name : String} :
    Ordered.find? target (ofViews views).names = some name ↔
      (target, name) ∈ (ofViews views).names := by
  rw [names_ofViews]
  exact Ordered.find?_eq_some (Ordered.isAscending_ofList _).hasDistinctKeys

/-- It is that of a class of the run. -/
theorem exists_of_mem_names {name : String} (h : (target, name) ∈ (ofViews views).names) :
    ∃ v ∈ views, v.type.qualifiedName = target ∧ v.type.name = name := by
  rw [names_ofViews] at h
  obtain ⟨v, hv, he⟩ := List.mem_map.1 (Ordered.mem_ofList h)
  cases he
  exact ⟨v, hv, rfl, rfl⟩

/-- Every class of the run has a name there. -/
theorem find?_names_ne_none {v : View} (hv : v ∈ views) :
    Ordered.find? v.type.qualifiedName (ofViews views).names ≠ none := by
  rw [names_ofViews]
  have hentry := List.mem_map_of_mem (f := fun v => (v.type.qualifiedName, v.type.name)) hv
  exact Ordered.find?_ofList_ne_none hentry

/-- Looking up loses nothing where everything is found. -/
theorem forall₂_filterMap {α β : Type} {f : α → Option β} {xs : List α}
    (h : ∀ x ∈ xs, f x ≠ none) : List.Forall₂ (fun x y => f x = some y) xs (xs.filterMap f) := by
  induction xs with
  | nil => exact .nil
  | cons x xs ih =>
    obtain ⟨hx, hxs⟩ := List.forall_mem_cons.1 h
    obtain ⟨y, hy⟩ := Option.ne_none_iff_exists'.1 hx
    rw [List.filterMap_cons_some hy]
    exact .cons hy (ih hxs)

/-- **Each class that is used shows up by its name.** -/
theorem namesUsed_listed (views : List View) (source : String) :
    List.Forall₂ (fun target name => (target, name) ∈ (ofViews views).names)
      ((ofViews views).targets source) ((ofViews views).namesUsed source) := by
  have hfound : ∀ target ∈ (ofViews views).targets source,
      Ordered.find? target (ofViews views).names ≠ none := by
    intro target htarget
    obtain ⟨-, -, t, ht, -, -, rfl⟩ := mem_targets_ofViews.1 htarget
    exact find?_names_ne_none ht
  exact (forall₂_filterMap hfound).imp fun _ _ h => find?_names_eq_some.1 h

theorem namesUsed_ofViews (views : List View) (source : String) :
    List.Forall₂
      (fun target name => ∃ v ∈ views, v.type.qualifiedName = target ∧ v.type.name = name)
      ((ofViews views).targets source) ((ofViews views).namesUsed source) :=
  (namesUsed_listed views source).imp fun _ _ h => exists_of_mem_names h

end Docsmith.Diagram.Uses
