import Docsmith.FileTree.Basic
import Mathlib.Tactic.SplitIfs
/-!
# File trees — the table

A tree is read through `get?`, and `insert` and `erase` change what `get?`
says of one place (`get?_insert`, `get?_erase`). A tree is closed when
whatever stands somewhere stands in a directory; that is all that is asked
of the file system a run starts on. A tree keeps another one when its
directories and files are still there and its links are, or have made way
for a file.
-/


namespace Docsmith.FileTree

variable {t u v : FileTree} {place other : Place} {node : Node}

@[simp] theorem get?_nil : t.get? [] = some .directory := rfl

theorem get?_of_ne_nil (h : place ≠ []) :
    t.get? place = (t.nodes.find? (·.1 == place)).map (·.2) := by
  rw [get?, if_neg (by simpa using h)]

theorem find?_insertNode (nodes : List (Place × Node)) :
    ((insertNode place node nodes).find? (·.1 == other)).map (·.2) =
      if other = place then some node else (nodes.find? (·.1 == other)).map (·.2) := by
  induction nodes with
  | nil =>
    by_cases h : place = other
    · simp [insertNode, h]
    · simp [insertNode, h, Ne.symm h]
  | cons entry nodes ih =>
    obtain ⟨key, old⟩ := entry
    rw [insertNode]
    split_ifs with hk ho hlt ho ho
    · simp [ho]
    · simp [← hk, Ne.symm ho]
    · simp [ho]
    · simp [Ne.symm ho]
    · subst ho
      rw [List.find?_cons_of_neg (by simpa using Ne.symm hk), ih, if_pos rfl]
    · rw [List.find?_cons, List.find?_cons]
      cases hko : key == other with
      | true => rfl
      | false => simpa [ho] using ih

/-- **Something put at a place stands there**, and nothing else changes. -/
theorem get?_insert (h : place ≠ []) (node : Node) (other : Place) :
    (t.insert place node).get? other = if other = place then some node else t.get? other := by
  by_cases ho : other = []
  · subst ho
    rw [if_neg (Ne.symm h), get?_nil, get?_nil]
  · rw [get?_of_ne_nil ho, get?_of_ne_nil ho]
    exact find?_insertNode t.nodes

/-- **A place that is cleared is empty**, and nothing else changes. -/
theorem get?_erase (h : place ≠ []) (other : Place) :
    (t.erase place).get? other = if other = place then none else t.get? other := by
  by_cases ho : other = []
  · subst ho
    rw [if_neg (Ne.symm h), get?_nil, get?_nil]
  · rw [get?_of_ne_nil ho, get?_of_ne_nil ho, erase, List.find?_filter]
    split_ifs with he
    · subst he
      rw [List.find?_eq_none.2 fun entry _ => by simp]
      rfl
    · congr 2
      funext entry
      by_cases hk : entry.1 = other <;> simp [hk, he]

theorem get?_insert_self (h : place ≠ []) : (t.insert place node).get? place = some node := by
  rw [get?_insert h, if_pos rfl]

theorem get?_insert_of_ne (h : place ≠ []) (ho : other ≠ place) :
    (t.insert place node).get? other = t.get? other := by
  rw [get?_insert h, if_neg ho]

theorem get?_erase_self (h : place ≠ []) : (t.erase place).get? place = none := by
  rw [get?_erase h, if_pos rfl]

theorem get?_erase_of_ne (h : place ≠ []) (ho : other ≠ place) :
    (t.erase place).get? other = t.get? other := by
  rw [get?_erase h, if_neg ho]

/-! ## Closed trees -/

/-- Whatever stands at a place stands in a directory. -/
def IsClosed (t : FileTree) : Prop :=
  ∀ place name node, t.get? (place ++ [name]) = some node → t.get? place = some .directory

/-- No links stand in the tree. -/
def HasNoLinks (t : FileTree) : Prop :=
  ∀ place target, t.get? place ≠ some (.link target)

/-- The directories of one tree stand in another one too, and so do its
links or files in place of them. -/
structure Keeps (t u : FileTree) : Prop where
  directory : ∀ place, t.get? place = some .directory → u.get? place = some .directory
  link : ∀ place target, t.get? place = some (.link target) →
    u.get? place = some (.link target) ∨ ∃ content, u.get? place = some (.file content)

namespace IsClosed

/-- A tree is closed if every place it lists has its directory. -/
theorem of_nodes (h : ∀ entry ∈ t.nodes, t.get? entry.1.dropLast = some .directory) :
    t.IsClosed := by
  intro place name node hn
  rw [get?_of_ne_nil (by simp), Option.map_eq_some_iff] at hn
  obtain ⟨entry, hfind, -⟩ := hn
  have hplace : entry.1 = place ++ [name] := by simpa using List.find?_some hfind
  have habove := h entry (List.mem_of_find?_eq_some hfind)
  rwa [hplace, List.dropLast_concat] at habove

/-- What is above a directory is a directory. -/
theorem dropLast (h : t.IsClosed) (hd : t.get? place = some .directory) :
    t.get? place.dropLast = some .directory := by
  rcases List.eq_nil_or_concat place with rfl | ⟨above, name, rfl⟩
  · rfl
  · rw [List.concat_eq_append] at hd ⊢
    rw [List.dropLast_concat]
    exact h above name _ hd

/-- Nothing stands below what is no directory. -/
theorem get?_below (h : t.IsClosed) (hd : t.get? place ≠ some .directory) (name : String) :
    t.get? (place ++ [name]) = none := by
  cases hn : t.get? (place ++ [name]) with
  | none => rfl
  | some node => exact absurd (h place name node hn) hd

/-- A directory may get something new, or something else for what is no
directory. -/
theorem insert {name : String} (h : t.IsClosed) (hd : t.get? place = some .directory)
    (hn : t.get? (place ++ [name]) ≠ some .directory) (node : Node) :
    (t.insert (place ++ [name]) node).IsClosed := by
  intro above below found hf
  rw [get?_insert (by simp)] at hf ⊢
  have habove : t.get? above = some .directory := by
    split_ifs at hf with he
    · obtain ⟨rfl, -⟩ := List.append_inj' he rfl
      exact hd
    · exact h above below found hf
  have hother : above ≠ place ++ [name] := fun he => hn (by rw [← he]; exact habove)
  rw [if_neg hother, habove]

/-- Clearing a place that is no directory leaves the tree closed. -/
theorem erase (h : t.IsClosed) (hne : place ≠ []) (hn : t.get? place ≠ some .directory) :
    (t.erase place).IsClosed := by
  intro above below found hf
  rw [get?_erase hne] at hf ⊢
  split_ifs at hf with he
  have habove : t.get? above = some .directory := h above below found hf
  have hother : above ≠ place := fun he => hn (by rw [← he]; exact habove)
  rw [if_neg hother, habove]

end IsClosed

end Docsmith.FileTree
