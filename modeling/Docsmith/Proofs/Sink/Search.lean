import Docsmith.Proofs.FileTree.Spelling
import Docsmith.Proofs.Sink.Beside
import Mathlib.Data.List.Perm.Subperm
import Mathlib.Data.Nat.Find
/-!
# Sinks — the search for a free name

A writer that numbers its document tries the path itself and then the path with a number,
one after the other, and takes the first one at which nothing stands and that is not
reserved. Each number makes another name in the same directory, so a disk has one for
every path: there are only as many names as entries and reserved paths (`exists_isFree`).
The search comes to its end there and reserves that path and no other
(`search_finds_first`).
-/


namespace Docsmith

namespace FileTree

variable {t : FileTree} {links : Nat} {here directory : Place} {rest : List String}
variable {name home : String} {spot : Spot}

/-- What a path leads to stands in the tree, or a link to it does, under the last name of
the path. -/
theorem Leads.exists_entry (h : t.Leads true links directory rest spot)
    (hlast : rest.getLast? = some name) (hdot : name ≠ ".") (hdots : name ≠ "..")
    (hpresent : ∀ place, spot ≠ .missing place) : ∃ place, t.get? (place ++ [name]) ≠ none := by
  -- the last of two pieces or more is the last one behind the first
  have hbehind : ∀ {piece : String} {more : List String}, more ≠ [] →
      (piece :: more).getLast? = some name → more.getLast? = some name := by
    intro piece more hmore hpiece
    rwa [List.getLast?_cons_of_ne_nil hmore] at hpiece
  induction h with
  | stop => cases hlast
  | @stay _ _ rest _ _ ih =>
    cases rest with
    | nil => exact absurd (Option.some.inj hlast).symm hdot
    | cons piece more => exact ih (hbehind (List.cons_ne_nil _ _) hlast) hpresent
  | @climb _ _ rest _ _ ih =>
    cases rest with
    | nil => exact absurd (Option.some.inj hlast).symm hdots
    | cons piece more => exact ih (hbehind (List.cons_ne_nil _ _) hlast) hpresent
  | @enter _ directory piece rest _ _ hg _ ih =>
    cases rest with
    | nil =>
      obtain rfl : piece = name := Option.some.inj hlast
      exact ⟨directory, by simp [hg]⟩
    | cons next more => exact ih (hbehind (List.cons_ne_nil _ _) hlast) hpresent
  | @file _ directory piece _ _ hg =>
    obtain rfl : piece = name := Option.some.inj hlast
    exact ⟨directory, by simp [hg]⟩
  | missing => exact absurd rfl (hpresent _)
  | link _ _ hthrough => cases hthrough
  | @jump _ directory piece target rest _ _ hg _ _ _ ih =>
    cases rest with
    | nil =>
      obtain rfl : piece = name := Option.some.inj hlast
      exact ⟨directory, by simp [hg]⟩
    | cons next more =>
      refine ih ?_ hpresent
      rw [List.getLast?_append_of_ne_nil _ (List.cons_ne_nil _ _)]
      exact hbehind (List.cons_ne_nil _ _) hlast

/-- **Where something is present, an entry has its name.** -/
theorem mem_names_of_isPresent (hname : Path.IsFileName name)
    (h : t.isPresent here (Path.join home name) = true) :
    name ∈ t.nodes.filterMap (·.1.getLast?) := by
  have hlast : (pieces (Path.join home name)).getLast? = some name := by
    rw [pieces_join hname.no_slash hname.ne_empty, List.getLast?_concat]
  obtain ⟨place, hplace⟩ : ∃ place, t.get? (place ++ [name]) ≠ none := by
    unfold isPresent resolve trace at h
    split_ifs at h
    split at h
    · next hfollow =>
      exact (leads_of_follow_eq hfollow).exists_entry hlast hname.ne_dot hname.ne_dotdot nofun
    · next hfollow =>
      exact (leads_of_follow_eq hfollow).exists_entry hlast hname.ne_dot hname.ne_dotdot nofun
    · cases h
  rw [get?_of_ne_nil (by simp), ne_eq, Option.map_eq_none_iff] at hplace
  obtain ⟨⟨other, node⟩, hfound⟩ := Option.ne_none_iff_exists'.1 hplace
  refine List.mem_filterMap.2 ⟨_, List.mem_of_find?_eq_some hfound, ?_⟩
  have hother : other = place ++ [name] := by simpa using List.find?_some hfound
  rw [hother, List.getLast?_concat]

end FileTree

namespace Disk

open FileTree

variable {here : Place} {d e : Disk} {path name content token : String} {n m k : Nat}

/-! ## Candidates -/

/-- Nothing stands at the candidate with a number, and it is not reserved. -/
structure IsFree (here : Place) (d : Disk) (path : String) (n : Nat) : Prop where
  absent : d.tree.isPresent here (candidate path n) = false
  unreserved : key (candidate path n) ∉ d.reserved

instance (here : Place) (d : Disk) (path : String) (n : Nat) : Decidable (IsFree here d path n) :=
  decidable_of_iff (_ ∧ _) ⟨fun h => ⟨h.1, h.2⟩, fun h => ⟨h.absent, h.unreserved⟩⟩

/-- The last component, as a name. -/
def lastName? (components : List Path.Component) : Option String :=
  match components.getLast? with
  | some (.name s) => some (String.ofList s)
  | _ => none

/-- The names of the entries and of the reserved paths. -/
def takenNames (d : Disk) : List String :=
  d.tree.nodes.filterMap (·.1.getLast?) ++ d.reserved.filterMap lastName?

theorem length_takenNames_le (d : Disk) :
    d.takenNames.length ≤ d.tree.nodes.length + d.reserved.length := by
  rw [takenNames, List.length_append]
  exact Nat.add_le_add (List.length_filterMap_le ..) (List.length_filterMap_le ..)

theorem candidate_succ (path : String) (n : Nat) :
    candidate path (n + 1) = Path.suffixed path (n + 1) :=
  if_neg (Nat.succ_ne_zero n)

/-- A numbered candidate that is not free has a taken name. -/
theorem numbered_mem_takenNames (hfile : Path.fileName? path = some name)
    (h : ¬ IsFree here d path (n + 1)) : Path.numbered path (n + 1) ∈ d.takenNames := by
  have hname := Path.isFileName_numbered path (n + 1)
  by_cases hpresent : d.tree.isPresent here (candidate path (n + 1)) = true
  · rw [candidate_succ, Path.suffixed_eq, Path.withFileName, hfile, Option.isSome_some,
      if_pos rfl] at hpresent
    exact List.mem_append_left _ (mem_names_of_isPresent hname hpresent)
  · have hreserved : key (candidate path (n + 1)) ∈ d.reserved := by
      by_contra hnot
      exact h ⟨Bool.eq_false_iff.2 hpresent, hnot⟩
    refine List.mem_append_right _ (List.mem_filterMap.2 ⟨_, hreserved, ?_⟩)
    rw [lastName?, key, candidate_succ, Path.components_suffixed hfile, List.getLast?_concat]
    exact congrArg some String.ofList_toList

/-- **A free candidate is found** before there are more numbers than taken names. -/
theorem exists_isFree (here : Place) (d : Disk) (hfile : Path.fileName? path = some name) :
    ∃ n ≤ d.tree.nodes.length + d.reserved.length + 1, IsFree here d path n := by
  by_contra hnone
  have htaken : ∀ n ≤ d.tree.nodes.length + d.reserved.length + 1, ¬ IsFree here d path n :=
    fun n hn hfree => hnone ⟨n, hn, hfree⟩
  -- as many numbers as there may be taken names, and one more, would all have a taken name
  let names := (List.range (d.tree.nodes.length + d.reserved.length + 1)).map fun i =>
    Path.numbered path (i + 1)
  have hnodup : names.Nodup := List.nodup_range.map fun i j heq =>
    Nat.succ.inj ((Path.numbered_inj hfile).1 heq)
  have hsubset : names ⊆ d.takenNames := by
    intro other hother
    obtain ⟨i, hi, rfl⟩ := List.mem_map.1 hother
    exact numbered_mem_takenNames hfile (htaken (i + 1) (by have := List.mem_range.1 hi; omega))
  have hlength := (List.subperm_of_subset hnodup hsubset).length_le
  have hbound := length_takenNames_le d
  simp only [names, List.length_map, List.length_range] at hlength
  omega

/-! ## The steps of a search -/

/-- The writer looks for a target. -/
def Phase.IsSearch : Phase → Prop
  | .look _ | .reserve _ => True
  | _ => False

/-- For some steps the writer looks for a target and leaves the disk as it is; then it
goes on as another writer, on another disk. -/
structure Seeks (here : Place) (w : Writer) (d : Disk) (steps : Nat) (w' : Writer) (e : Disk) :
    Prop where
  meanwhile : ∀ j < steps, (w.run .suffix here j d).1.phase.IsSearch ∧
    (w.run .suffix here j d).2 = d
  goesOn : ∀ more, w.run .suffix here (steps + more) d = w'.run .suffix here more e

theorem result?_of_isSearch {w : Writer} (h : w.phase.IsSearch) : w.result? = none := by
  unfold Writer.result?
  split
  · next hphase =>
    rw [hphase] at h
    exact h.elim
  · rfl

/-- The last step of a search. -/
theorem Seeks.last {w w' : Writer} (h : w.phase.IsSearch)
    (hstep : w.step .suffix here d = (w', e)) : Seeks here w d 1 w' e where
  meanwhile j hj := by
    obtain rfl : j = 0 := by omega
    exact ⟨h, rfl⟩
  goesOn more := by rw [Nat.add_comm, Writer.run_succ (result?_of_isSearch h), hstep]

/-- A step before others. -/
theorem Seeks.next {w w₁ w' : Writer} {steps : Nat} (h : w.phase.IsSearch)
    (hstep : w.step .suffix here d = (w₁, d)) (hrest : Seeks here w₁ d steps w' e) :
    Seeks here w d (steps + 1) w' e where
  meanwhile j hj := by
    cases j with
    | zero => exact ⟨h, rfl⟩
    | succ j =>
      rw [Writer.run_succ (result?_of_isSearch h), hstep]
      exact hrest.meanwhile j (by omega)
  goesOn more := by
    rw [Nat.add_right_comm, Writer.run_succ (result?_of_isSearch h), hstep]
    exact hrest.goesOn more

/-- **A free candidate is reserved**, in two steps. -/
theorem seeks_free (hfree : IsFree here d path n) :
    Seeks here ⟨path, content, token, .look n⟩ d 2
      ⟨path, content, token, .prepare (candidate path n)⟩
      { d with reserved := key (candidate path n) :: d.reserved } := by
  have hlook : (⟨path, content, token, .look n⟩ : Writer).step .suffix here d =
      (⟨path, content, token, .reserve n⟩, d) := by
    simp [Writer.step, hfree.absent]
  have hreserve : (⟨path, content, token, .reserve n⟩ : Writer).step .suffix here d =
      (⟨path, content, token, .prepare (candidate path n)⟩,
        { d with reserved := key (candidate path n) :: d.reserved }) := by
    have hnot : d.reserved.contains (Path.components (candidate path n).toList) = false := by
      simpa [key] using hfree.unreserved
    simp only [Writer.step, hnot]
    rfl
  exact .next trivial hlook (.last trivial hreserve)

/-- **One that is not free is passed over**, in one step or two. -/
theorem seeks_taken {w' : Writer} {steps : Nat} (htaken : ¬ IsFree here d path n)
    (h : Seeks here ⟨path, content, token, .look (n + 1)⟩ d steps w' e) :
    ∃ more ≤ 2, Seeks here ⟨path, content, token, .look n⟩ d (steps + more) w' e := by
  by_cases hpresent : d.tree.isPresent here (candidate path n) = true
  · have hlook : (⟨path, content, token, .look n⟩ : Writer).step .suffix here d =
        (⟨path, content, token, .look (n + 1)⟩, d) := by
      simp [Writer.step, Writer.pass, hpresent]
    exact ⟨1, by omega, .next trivial hlook h⟩
  · have hlook : (⟨path, content, token, .look n⟩ : Writer).step .suffix here d =
        (⟨path, content, token, .reserve n⟩, d) := by
      simp [Writer.step, hpresent]
    -- nothing stands there, so the candidate is not free because it is reserved
    have hmem : d.reserved.contains (Path.components (candidate path n).toList) = true := by
      by_contra hnot
      exact htaken ⟨Bool.eq_false_iff.2 hpresent, by simpa [key] using hnot⟩
    have hreserve : (⟨path, content, token, .reserve n⟩ : Writer).step .suffix here d =
        (⟨path, content, token, .look (n + 1)⟩, d) := by
      simp only [Writer.step, hmem]
      rfl
    exact ⟨2, by omega, .next trivial hlook (.next trivial hreserve h)⟩

/-- **The search ends at the first free candidate**: by induction on how far that is. -/
theorem exists_seeks (content token : String) (hfree : IsFree here d path (n + k))
    (htaken : ∀ m, n ≤ m → m < n + k → ¬ IsFree here d path m) :
    ∃ steps ≤ 2 * (k + 1), Seeks here ⟨path, content, token, .look n⟩ d steps
      ⟨path, content, token, .prepare (candidate path (n + k))⟩
      { d with reserved := key (candidate path (n + k)) :: d.reserved } := by
  induction k generalizing n with
  | zero => exact ⟨2, by omega, seeks_free hfree⟩
  | succ k ih =>
    have hnext : n + 1 + k = n + (k + 1) := by omega
    obtain ⟨steps, hsteps, hseeks⟩ := ih (n := n + 1) (hnext ▸ hfree) fun m hm hlt =>
      htaken m (by omega) (by omega)
    obtain ⟨more, hmore, hall⟩ := seeks_taken (htaken n (Nat.le_refl n) (by omega)) hseeks
    rw [hnext] at hall
    exact ⟨steps + more, by omega, hall⟩

/-! ## The steps of a write -/

/-- How many steps a writer has left at most, once it has its target. -/
def Phase.remaining : Phase → Nat
  | .look _ | .reserve _ => 5
  | .prepare _ => 4
  | .stage _ => 3
  | .publish _ => 2
  | .discard _ _ => 1
  | .done _ => 0

/-- A writer with a target comes nearer to its rest. -/
theorem remaining_step {w : Writer} (hrest : w.result? = none) (h : w.phase.remaining < 5)
    (here : Place) (d : Disk) : (w.step .suffix here d).1.phase.remaining < w.phase.remaining := by
  obtain ⟨path, content, token, phase⟩ := w
  cases phase with
  | look n => exact absurd h (Nat.lt_irrefl 5)
  | reserve n => exact absurd h (Nat.lt_irrefl 5)
  | done result => cases hrest
  -- a step that is done leads to the next phase or to a rest, one that is refused to an end
  | prepare target =>
    dsimp only [Writer.step]
    split
    · exact Nat.lt_succ_self 3
    · exact Nat.succ_pos 3
  | stage target =>
    dsimp only [Writer.step]
    split
    · exact Nat.lt_succ_self 2
    · exact (by decide : 1 < 3)
  | publish target =>
    dsimp only [Writer.step]
    split
    · exact Nat.succ_pos 1
    · exact Nat.lt_succ_self 1
  | discard target f =>
    dsimp only [Writer.step]
    split <;> exact Nat.succ_pos 0

/-- **A writer with a target rests** after so many steps. -/
theorem rests_of_remaining {w : Writer} {count : Nat} (hcount : w.phase.remaining ≤ count)
    (h : w.phase.remaining < 5) (d : Disk) :
    (w.run .suffix here count d).1.result?.isSome = true := by
  induction count generalizing w d with
  | zero =>
    obtain ⟨path, content, token, phase⟩ := w
    cases phase with
    | done result => rfl
    | _ => exact absurd hcount (by simp [Phase.remaining])
  | succ count ih =>
    cases hresult : w.result? with
    | some result => rw [Writer.run_of_done hresult, hresult, Option.isSome_some]
    | none =>
      have hstep := remaining_step hresult h here d
      rw [Writer.run_succ hresult]
      exact ih (by omega) (by omega) _

/-! ## The search as a whole -/

/-- The search of a write ends at the first free candidate, reserves its path and no
other, and leaves steps enough for the write to come to its rest. -/
structure FindsFirst (here : Place) (d : Disk) (path content token : String) : Prop where
  first : ∃ n, IsFree here d path n ∧ (∀ m < n, ¬ IsFree here d path m) ∧
    ∃ steps ≤ 2 * (n + 1), Seeks here (.start .suffix path content token) d steps
      ⟨path, content, token, .prepare (candidate path n)⟩
      { d with reserved := key (candidate path n) :: d.reserved }
  rests : ((Writer.start .suffix path content token).run .suffix here d.patience d).1.result?.isSome
    = true

/-- **The search of a numbered write finds the first free name.** It changes nothing on its
way to the path itself or to the path with the least number, as no other one before is
free, and it ends on every disk. A number makes another path in the same directory, with
the number behind the stem and the same extension. -/
theorem search_finds_first (here : Place) (d : Disk) (content token : String)
    (hfile : Path.fileName? path = some name) :
    FindsFirst here d path content token ∧ ∀ n, Path.Numbers path name n := by
  have hexists : ∃ n, IsFree here d path n :=
    (exists_isFree here d hfile).imp fun _ => And.right
  obtain ⟨n, hfree, hleast⟩ : ∃ n, IsFree here d path n ∧ ∀ m < n, ¬ IsFree here d path m :=
    ⟨Nat.find hexists, Nat.find_spec hexists, fun _ => Nat.find_min hexists⟩
  -- the search starts at the path itself, which is the candidate with the number zero
  obtain ⟨steps, hsteps, hseeks⟩ := exists_seeks content token (n := 0)
    (k := n) (by rwa [Nat.zero_add]) fun m _ hm => hleast m (by omega)
  rw [Nat.zero_add] at hseeks
  refine ⟨⟨⟨n, hfree, hleast, steps, hsteps, hseeks⟩, ?_⟩, Path.numbers_suffixed hfile⟩
  -- two steps for each candidate and four for the rest are within the patience of the disk
  obtain ⟨bound, hbound, hthere⟩ := exists_isFree here d hfile
  have hfirst : n ≤ bound := Nat.le_of_not_lt fun hlt => hleast bound hlt hthere
  obtain ⟨more, hmore⟩ : ∃ more, d.patience = steps + (more + 4) :=
    ⟨d.patience - steps - 4, by unfold patience; omega⟩
  have hgoes := hseeks.goesOn (more + 4)
  have hstart : Writer.start .suffix path content token = ⟨path, content, token, .look 0⟩ := rfl
  rw [hmore, hstart, hgoes]
  refine rests_of_remaining ?_ ?_ _
  · exact Nat.le_add_left 4 more
  · exact Nat.lt_succ_self 4

/-- The document and the one with the first number are there, and the second number is
reserved. -/
def takenDisk : Disk where
  tree := ⟨[(["d"], .directory), (["d", "x.md"], .file "old".toUTF8),
    (["d", "x_1.md"], .file "older".toUTF8)]⟩
  reserved := [key "d/x_2.md"]

/-- Three candidates are taken. -/
theorem search_finds_first_taken : Path.fileName? "d/x.md" = some "x.md" ∧
    FindsFirst [] takenDisk "d/x.md" "new" takenDisk.nextToken ∧
      ∀ n, Path.Numbers "d/x.md" "x.md" n := by
  have hfile : Path.fileName? "d/x.md" = some "x.md" := by decide +kernel
  exact ⟨hfile, search_finds_first [] takenDisk "new" takenDisk.nextToken hfile⟩

/-- The document gets the third number. -/
example : (takenDisk.write .suffix [] "d/x.md" "new").2.tree.nodes =
    [(["d"], .directory), (["d", "x.md"], .file "old".toUTF8),
      (["d", "x_1.md"], .file "older".toUTF8), (["d", "x_3.md"], .file "new".toUTF8)] := by
  decide +kernel

end Disk

end Docsmith
