import Docsmith.Ordered
import Mathlib.Tactic.SplitIfs
/-!
# Ordered tables — what a table holds

A table in ascending order is told by what is found under its keys
(`eq_of_find?_eq`), so the order in which entries of different keys were put in
does not matter (`ofList_perm`), and a table in order is its own
(`ofList_of_isAscending`).
-/


namespace Docsmith.Ordered

variable {α β : Type} {key name : String} {value : α} {table entries : List (String × α)}

/-- The keys stand in strictly ascending order. -/
def IsAscending (table : List (String × α)) : Prop :=
  table.Pairwise (·.1 < ·.1)

instance (table : List (String × α)) : Decidable (IsAscending table) :=
  inferInstanceAs (Decidable (List.Pairwise _ table))

/-- No key stands twice. -/
def HasDistinctKeys (entries : List (String × α)) : Prop :=
  entries.Pairwise (·.1 ≠ ·.1)

instance (entries : List (String × α)) : Decidable (HasDistinctKeys entries) :=
  inferInstanceAs (Decidable (List.Pairwise _ entries))

theorem IsAscending.hasDistinctKeys (h : IsAscending table) : HasDistinctKeys table := by
  refine List.Pairwise.imp ?_ h
  intro entry other hlt heq
  rw [heq] at hlt
  exact String.lt_irrefl _ hlt

/-! ## What is found -/

theorem find?_insert (key name : String) (value : α) (table : List (String × α)) :
    find? name (insert key value table) = if name = key then some value else find? name table := by
  induction table with
  | nil => rfl
  | cons entry rest ih =>
    obtain ⟨other, old⟩ := entry
    rw [insert]
    by_cases hlt : key < other
    · rw [if_pos hlt, find?]
    by_cases heq : key = other
    · subst heq
      rw [if_neg hlt, if_pos rfl, find?, find?]
      split_ifs <;> rfl
    · rw [if_neg hlt, if_neg heq, find?, find?, ih]
      by_cases hother : name = other
      · have hname : name ≠ key := fun hname => heq (hname.symm.trans hother)
        rw [if_pos hother, if_pos hother, if_neg hname]
      · rw [if_neg hother, if_neg hother]

theorem find?_map (f : α → β) (name : String) (table : List (String × α)) :
    find? name (table.map fun entry => (entry.1, f entry.2)) = (find? name table).map f := by
  induction table with
  | nil => rfl
  | cons entry rest ih =>
    rw [List.map_cons, find?, find?, ih]
    split_ifs <;> rfl

theorem find?_eq_none : find? name table = none ↔ ∀ entry ∈ table, name ≠ entry.1 := by
  induction table with
  | nil => simp [find?]
  | cons entry rest ih =>
    obtain ⟨other, old⟩ := entry
    rw [find?, List.forall_mem_cons]
    split_ifs with h
    · simp [h]
    · rw [ih]
      simp [h]

/-- Where no key stands twice, what is found under a key is what stands there. -/
theorem find?_eq_some (h : HasDistinctKeys entries) :
    find? name entries = some value ↔ (name, value) ∈ entries := by
  induction entries with
  | nil => simp [find?]
  | cons entry rest ih =>
    obtain ⟨other, old⟩ := entry
    obtain ⟨hhead, htail⟩ := List.pairwise_cons.1 h
    rw [find?, List.mem_cons]
    split_ifs with hname
    · subst hname
      have hnot : (name, value) ∉ rest := fun hmem => hhead _ hmem rfl
      simp [hnot, eq_comm]
    · rw [ih htail]
      simp [hname]

theorem find?_perm (h : HasDistinctKeys entries) (hperm : entries.Perm table) (name : String) :
    find? name entries = find? name table := by
  have htable : HasDistinctKeys table := hperm.pairwise h fun h => Ne.symm h
  refine Option.ext fun value => ?_
  rw [find?_eq_some h, find?_eq_some htable, hperm.mem_iff]

/-- Entries put into a table hide what was there. -/
theorem find?_foldl_insert (h : HasDistinctKeys entries) (name : String) :
    ∀ table, find? name (entries.foldl (fun table (key, value) => insert key value table) table) =
      (find? name entries).or (find? name table) := by
  induction entries with
  | nil => exact fun table => rfl
  | cons entry rest ih =>
    obtain ⟨key, value⟩ := entry
    obtain ⟨hhead, htail⟩ := List.pairwise_cons.1 h
    intro table
    rw [List.foldl_cons, ih htail, find?_insert, find?]
    split_ifs with hname
    · subst hname
      rw [find?_eq_none.2 hhead]
      rfl
    · rfl

theorem find?_ofList (h : HasDistinctKeys entries) (name : String) :
    find? name (ofList entries) = find? name entries := by
  rw [ofList, find?_foldl_insert h, find?, Option.or_none]

/-! ## Order -/

theorem mem_insert {entry : String × α} (h : entry ∈ insert key value table) :
    entry = (key, value) ∨ entry ∈ table := by
  induction table with
  | nil => exact .inl (List.mem_singleton.1 h)
  | cons other rest ih =>
    rw [insert] at h
    split_ifs at h with hlt heq
    · exact List.mem_cons.1 h
    · exact (List.mem_cons.1 h).imp_right (List.mem_cons_of_mem other)
    · rcases List.mem_cons.1 h with rfl | h
      · exact .inr List.mem_cons_self
      · exact (ih h).imp_right (List.mem_cons_of_mem other)

/-- A table has no other entries than those that it is made of. -/
theorem mem_ofList {entry : String × α} (h : entry ∈ ofList entries) : entry ∈ entries := by
  have hfold : ∀ table : List (String × α), entry ∈
      entries.foldl (fun table (key, value) => insert key value table) table →
        entry ∈ entries ∨ entry ∈ table := by
    clear h
    induction entries with
    | nil => exact fun table h => .inr h
    | cons first entries ih =>
      intro table h
      rcases ih _ h with h | h
      · exact .inl (List.mem_cons_of_mem _ h)
      · rcases mem_insert h with rfl | h
        · exact .inl List.mem_cons_self
        · exact .inr h
  exact (hfold [] h).resolve_right List.not_mem_nil

theorem isAscending_insert (h : IsAscending table) (key : String) (value : α) :
    IsAscending (insert key value table) := by
  induction table with
  | nil => exact List.pairwise_singleton _ _
  | cons entry rest ih =>
    obtain ⟨other, old⟩ := entry
    obtain ⟨hhead, htail⟩ := List.pairwise_cons.1 h
    rw [insert]
    split_ifs with hlt heq
    · refine List.pairwise_cons.2 ⟨List.forall_mem_cons.2 ⟨hlt, fun entry hentry => ?_⟩, h⟩
      exact String.lt_trans hlt (hhead entry hentry)
    · exact List.pairwise_cons.2 ⟨heq ▸ hhead, htail⟩
    · refine List.pairwise_cons.2 ⟨fun entry hentry => ?_, ih htail⟩
      rcases mem_insert hentry with rfl | hentry
      · exact Std.lt_of_le_of_ne (String.not_lt.1 hlt) (Ne.symm heq)
      · exact hhead entry hentry

theorem isAscending_ofList (entries : List (String × α)) : IsAscending (ofList entries) := by
  have hfold : ∀ table : List (String × α), IsAscending table → IsAscending
      (entries.foldl (fun table (key, value) => insert key value table) table) := by
    induction entries with
    | nil => exact fun table h => h
    | cons entry rest ih => exact fun table h => ih _ (isAscending_insert h entry.1 entry.2)
  exact hfold [] List.Pairwise.nil

/-- Nothing is found of what comes before a table in order. -/
theorem find?_of_forall_lt (h : ∀ entry ∈ table, name < entry.1) : find? name table = none := by
  refine find?_eq_none.2 fun entry hentry heq => ?_
  exact String.lt_irrefl _ (heq ▸ h entry hentry)

/-- The first key of a table in order is not found in another one that starts
later. -/
theorem not_lt_of_find?_eq {rest more : List (String × α)} {item : α}
    (hother : IsAscending ((name, item) :: more))
    (hfind : find? key ((key, value) :: rest) = find? key ((name, item) :: more)) :
    ¬ key < name := by
  intro hlt
  have hnone : find? key ((name, item) :: more) = none :=
    find?_of_forall_lt <| List.forall_mem_cons.2
      ⟨hlt, fun entry hentry => String.lt_trans hlt ((List.pairwise_cons.1 hother).1 entry hentry)⟩
  rw [hnone, find?, if_pos rfl] at hfind
  cases hfind

/-- **A table in order is told by what is found in it**, by induction on both. -/
theorem eq_of_find?_eq {other : List (String × α)} (h : IsAscending table)
    (hother : IsAscending other) (hfind : ∀ name, find? name table = find? name other) :
    table = other := by
  induction table generalizing other with
  | nil =>
    cases other with
    | nil => rfl
    | cons entry rest =>
      have := hfind entry.1
      rw [find?, find?, if_pos rfl] at this
      cases this
  | cons entry rest ih =>
    obtain ⟨key, value⟩ := entry
    obtain ⟨hhead, htail⟩ := List.pairwise_cons.1 h
    cases other with
    | nil =>
      have := hfind key
      rw [find?, find?, if_pos rfl] at this
      cases this
    | cons entry more =>
      obtain ⟨name, item⟩ := entry
      obtain ⟨hfirst, hmore⟩ := List.pairwise_cons.1 hother
      have hkey : key = name := String.le_antisymm
        (String.not_lt.1 (not_lt_of_find?_eq h (hfind name).symm))
        (String.not_lt.1 (not_lt_of_find?_eq hother (hfind key)))
      subst hkey
      have hvalue := hfind key
      rw [find?, find?, if_pos rfl, if_pos rfl] at hvalue
      rw [Option.some.inj hvalue, ih htail hmore fun name => ?_]
      by_cases hname : name = key
      · rw [hname, find?_of_forall_lt hhead, find?_of_forall_lt hfirst]
      · have := hfind name
        rwa [find?, find?, if_neg hname, if_neg hname] at this

/-- The order of entries with different keys does not matter. -/
theorem ofList_perm (h : HasDistinctKeys entries) (hperm : entries.Perm table) :
    ofList entries = ofList table := by
  have htable : HasDistinctKeys table := hperm.pairwise h fun h => Ne.symm h
  refine eq_of_find?_eq (isAscending_ofList _) (isAscending_ofList _) fun name => ?_
  rw [find?_ofList h, find?_ofList htable, find?_perm h hperm]

theorem ofList_of_isAscending (h : IsAscending table) : ofList table = table :=
  eq_of_find?_eq (isAscending_ofList _) h fun name => find?_ofList h.hasDistinctKeys name

/-- What an entry is put in under is found. -/
theorem find?_ofList_ne_none {entry : String × α} (h : entry ∈ entries) :
    find? entry.1 (ofList entries) ≠ none := by
  have hfold : ∀ table : List (String × α),
      entry ∈ entries ∨ find? entry.1 table ≠ none → find? entry.1
        (entries.foldl (fun table (key, value) => insert key value table) table) ≠ none := by
    clear h
    induction entries with
    | nil => exact fun table h => h.resolve_left List.not_mem_nil
    | cons first entries ih =>
      refine fun table h => ih _ ?_
      rw [find?_insert]
      rcases h with h | h
      · rcases List.mem_cons.1 h with rfl | h
        · exact .inr (by simp)
        · exact .inl h
      · refine .inr ?_
        split_ifs
        · exact Option.some_ne_none _
        · exact h
  exact hfold [] (.inl h)

/-! ## Lists of keys -/

theorem mem_insertKey {keys : List String} :
    name ∈ insertKey key keys ↔ name = key ∨ name ∈ keys := by
  induction keys with
  | nil => simp [insertKey]
  | cons other rest ih =>
    rw [insertKey]
    split_ifs with hlt heq
    · rw [List.mem_cons]
    · rw [heq, List.mem_cons, or_self_left]
    · rw [List.mem_cons, ih, List.mem_cons]
      exact or_left_comm

theorem pairwise_insertKey {keys : List String} (h : keys.Pairwise (· < ·)) (key : String) :
    (insertKey key keys).Pairwise (· < ·) := by
  induction keys with
  | nil => exact List.pairwise_singleton _ _
  | cons other rest ih =>
    obtain ⟨hhead, htail⟩ := List.pairwise_cons.1 h
    rw [insertKey]
    split_ifs with hlt heq
    · refine List.pairwise_cons.2 ⟨List.forall_mem_cons.2 ⟨hlt, fun name hname => ?_⟩, h⟩
      exact String.lt_trans hlt (hhead name hname)
    · exact h
    · refine List.pairwise_cons.2 ⟨fun name hname => ?_, ih htail⟩
      rcases mem_insertKey.1 hname with rfl | hname
      · exact Std.lt_of_le_of_ne (String.not_lt.1 hlt) (Ne.symm heq)
      · exact hhead name hname

end Docsmith.Ordered
