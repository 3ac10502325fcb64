import Docsmith.Proofs.FileTree.Staging
/-!
# File trees — without links

Where no links stand, a path leads nowhere but to the place it spells
(`place_eq_spelt`), and what it leads to is there for good as directories
and files are added (`isPresent_later`). The one way in which a path may
come to lead to a file that it did not lead to before is up out of a
directory that was not there yet: such a path climbs
(`isPresent_or_climbs`). With links a path can come to lead to one place only
(`Reaches.unique`).
-/


namespace Docsmith.FileTree

variable {temp : Place → Prop} {t u : FileTree} {through : Bool} {links : Nat}
variable {here directory place : Place} {path : String} {rest : List String} {spot : Spot}
variable {content : ByteArray}

/-- Where pieces lead from a directory by their spelling alone. -/
def byName : Place → List String → Place
  | directory, [] => directory
  | directory, piece :: rest =>
    if piece = "." then byName directory rest
    else if piece = ".." then byName directory.dropLast rest
    else byName (directory ++ [piece]) rest

/-- The place that a path spells. -/
def spelt (here : Place) (path : String) : Place :=
  byName (start here path) (pieces path)

theorem byName_dot (directory : Place) (rest : List String) :
    byName directory ("." :: rest) = byName directory rest := by
  rw [byName, if_pos rfl]

theorem byName_dotdot (directory : Place) (rest : List String) :
    byName directory (".." :: rest) = byName directory.dropLast rest := by
  rw [byName, if_neg (by decide), if_pos rfl]

theorem byName_cons {piece : String} (h : IsName piece) (directory : Place) (rest : List String) :
    byName directory (piece :: rest) = byName (directory ++ [piece]) rest := by
  rw [byName, if_neg h.1, if_neg h.2.1]

theorem HasNoLinks.of_nodes (h : ∀ entry ∈ t.nodes, ∀ target, entry.2 ≠ .link target) :
    t.HasNoLinks := by
  intro place target hg
  by_cases hne : place = []
  · subst hne
    cases hg
  rw [get?_of_ne_nil hne, Option.map_eq_some_iff] at hg
  obtain ⟨entry, hfind, hlink⟩ := hg
  exact h entry (List.mem_of_find?_eq_some hfind) target hlink

theorem HasNoLinks.later (h : t.HasNoLinks) (hl : t.Later temp u) : u.HasNoLinks :=
  fun place target hu => h place target (hl.old place target hu)

/-- **Without links a way leads where it spells.** -/
theorem Leads.place_eq_byName (h : t.Leads through links directory rest spot) (hl : t.HasNoLinks) :
    spot.place = byName directory rest := by
  induction h with
  | stop => rfl
  | stay _ ih => rw [byName_dot, ih]
  | climb _ ih => rw [byName_dotdot, ih]
  | enter hn _ _ ih => rw [byName_cons hn, ih]
  | file hn _ => rw [byName_cons hn]; rfl
  | missing hn _ => rw [byName_cons hn]; rfl
  | link _ hg _ => exact absurd hg (hl _ _)
  | jump _ hg _ _ _ _ => exact absurd hg (hl _ _)

theorem place_eq_spelt (hl : t.HasNoLinks) (h : t.locate here path = .ok spot) :
    spot.place = spelt here path :=
  (trace_eq_ok_iff.1 h).2.place_eq_byName hl

/-- Without links it does not matter whether the last one is gone through. -/
theorem locate_of_resolve (hl : t.HasNoLinks) (h : t.resolve here path = .ok spot) :
    t.locate here path = .ok spot := by
  obtain ⟨hne, hw⟩ := trace_eq_ok_iff.1 h
  exact trace_eq_ok_iff.2 ⟨hne, hw.toStop fun name _ above target => hl (above ++ [name]) target⟩

theorem resolve_of_locate (hs : ∀ place target, spot ≠ .link place target)
    (h : t.locate here path = .ok spot) : t.resolve here path = .ok spot := by
  obtain ⟨hne, hw⟩ := trace_eq_ok_iff.1 h
  exact trace_eq_ok_iff.2 ⟨hne, hw.toThrough hs⟩

theorem isPresent_iff : t.isPresent here path = true ↔
    ∃ spot, t.resolve here path = .ok spot ∧ spot.node?.isSome ∧
      ∀ place target, spot ≠ .link place target := by
  rw [isPresent]
  constructor
  · intro h
    split at h
    · next hr => exact ⟨_, hr, rfl, by simp⟩
    · next hr => exact ⟨_, hr, rfl, by simp⟩
    · cases h
  · rintro ⟨spot, hr, hn, hs⟩
    rw [hr]
    cases spot with
    | directory => rfl
    | file => rfl
    | link place target => exact absurd rfl (hs place target)
    | missing => cases hn

/-- Without links none is gone through. -/
theorem HasNoLinks.not_crosses (h : t.HasNoLinks) : ¬ t.Crosses here path := by
  rintro ⟨place, target, e, hlocate, -⟩
  exact h place target ((trace_eq_ok_iff.1 hlocate).2.get?_place trivial)

/-- A way to an entry leads to the file that stands there later. -/
theorem resolve_later (hl : t.HasNoLinks) (hlater : t.Later temp u)
    (h : t.locate here path = .ok spot)
    (hf : spot.IsEntry → u.get? spot.place = some (.file content)) :
    u.resolve here path = .ok (spot.filled content) := by
  obtain ⟨hne, hw⟩ := trace_eq_ok_iff.1 h
  rcases hw.survives hlater.toKeeps hf with hu | ⟨-, place, target, ht, -⟩
  · refine resolve_of_locate (fun place target => ?_) (trace_eq_ok_iff.2 ⟨hne, hu⟩)
    cases spot <;> simp [Spot.filled]
  · exact absurd ht (hl place target)

/-- **What is there stays there**, if its path has no temporary name. -/
theorem isPresent_later (hc : t.IsClosed) (hb : t.get? here = some .directory) (hl : t.HasNoLinks)
    (hlater : t.Later temp u)
    (hfree : ∀ name ∈ pieces path, IsName name → ∀ above, ¬ temp (above ++ [name]))
    (h : t.isPresent here path = true) : u.isPresent here path = true := by
  obtain ⟨spot, hr, hn, hs⟩ := isPresent_iff.1 h
  have hlocate := locate_of_resolve hl hr
  have hw := (trace_eq_ok_iff.1 hlocate).2
  -- a directory stays one; a file may have other content, but it is a file
  have hthere : ∃ content, spot.IsEntry → u.get? spot.place = some (.file content) := by
    cases spot with
    | directory place => exact ⟨.empty, fun h => h.elim⟩
    | file place old =>
      obtain ⟨above, name, hp, -, hname, hlast⟩ := hw.entry trivial hc (get?_start hb _)
      have hold : t.get? place = some (.file old) := hw.get?_place trivial
      obtain rfl : place = above ++ [name] := hp
      obtain ⟨content, hu⟩ :=
        hlater.file _ old (hfree name (List.mem_of_getLast? hlast) hname above) hold
      exact ⟨content, fun _ => hu⟩
    | link place target => exact absurd rfl (hs place target)
    | missing place => cases hn
  obtain ⟨content, hu⟩ := hthere
  refine isPresent_iff.2 ⟨_, resolve_later hl hlater hlocate hu, ?_, fun place target => ?_⟩
  · cases spot with
    | missing place => cases hn
    | _ => rfl
  · cases spot <;> simp [Spot.filled]

/-! ## Climbing -/

/-- The path goes up from what is no directory. -/
def Climbs (t : FileTree) (here : Place) (path : String) : Prop :=
  ∃ before after, pieces path = before ++ ".." :: after ∧
    ∀ place, ¬ t.Leads false 40 (start here path) before (.directory place)

/-- Below what is no directory nothing stands. -/
theorem get?_byName_eq_none (hc : t.IsClosed) (hd : t.get? directory = none)
    (hrest : ".." ∉ rest) : t.get? (byName directory rest) = none := by
  induction rest generalizing directory with
  | nil => exact hd
  | cons piece rest ih =>
    have hne : ".." ≠ piece := fun he => hrest (by simp [he])
    have hrest' : ".." ∉ rest := fun he => hrest (by simp [he])
    rw [byName]
    split_ifs with hdot hdots
    · exact ih hd hrest'
    · exact absurd hdots.symm hne
    · exact ih (hc.get?_below (by rw [hd]; simp) piece) hrest'

/-- A way in a later tree, seen from the tree before: it led to the same file
already, or it climbs. -/
theorem Leads.before_or_climbs (h : u.Leads false links directory rest spot) (hu : u.HasNoLinks)
    (hc : t.IsClosed) (hl : t.HasNoLinks) (hsame : ∀ place content,
      t.get? place = some (.file content) → u.get? place ≠ some .directory)
    (hd : t.get? directory = some .directory) (hs : spot.IsEntry)
    (hf : t.get? spot.place = some (.file content)) :
    t.Leads false links directory rest (.file spot.place content) ∨
      ∃ before after, rest = before ++ ".." :: after ∧
        ∀ place, ¬ t.Leads false links directory before (.directory place) := by
  induction h with
  | stop => exact hs.elim
  | stay _ ih =>
    rcases ih hd hs hf with h | ⟨before, after, rfl, hb⟩
    · exact .inl (.stay h)
    · refine .inr ⟨"." :: before, after, rfl, fun place hp => hb place ?_⟩
      rwa [← follow_eq_ok_iff, follow_dot, follow_eq_ok_iff] at hp
  | climb _ ih =>
    rcases ih (hc.dropLast hd) hs hf with h | ⟨before, after, rfl, hb⟩
    · exact .inl (.climb h)
    · refine .inr ⟨".." :: before, after, rfl, fun place hp => hb place ?_⟩
      rwa [← follow_eq_ok_iff, follow_dotdot, follow_eq_ok_iff] at hp
  | @enter links directory piece rest spot hn hg hway ih =>
    by_cases hg' : t.get? (directory ++ [piece]) = some .directory
    · rcases ih hg' hs hf with h | ⟨before, after, rfl, hb⟩
      · exact .inl (.enter hn hg' h)
      · refine .inr ⟨piece :: before, after, rfl, fun place hp => hb place ?_⟩
        rwa [← follow_eq_ok_iff, follow_directory hn hg', follow_eq_ok_iff] at hp
    · -- the directory is new, so the way back to an old file goes up from it
      have hnone : t.get? (directory ++ [piece]) = none := by
        cases hold : t.get? (directory ++ [piece]) with
        | none => rfl
        | some node =>
          cases node with
          | directory => exact absurd hold hg'
          | file old => exact absurd hg (hsame _ old hold)
          | link target => exact absurd hold (hl _ _)
      by_cases hrest : ".." ∈ rest
      · obtain ⟨before, after, rfl⟩ := List.append_of_mem hrest
        refine .inr ⟨piece :: before, after, rfl, fun place hp => ?_⟩
        have hfollow := hp.follow_eq
        rw [follow_missing hn hnone] at hfollow
        split_ifs at hfollow
        cases hfollow
      · rw [hway.place_eq_byName hu, get?_byName_eq_none hc hnone hrest] at hf
        cases hf
  | file hn _ => exact .inl (.file hn hf)
  | missing hn _ => exact .inl (.file hn hf)
  | link _ hg _ => exact absurd hg (hu _ _)
  | jump _ hg _ _ _ _ => exact absurd hg (hu _ _)

/-- **A path to an old file led to it before, or it climbs.** -/
theorem isPresent_or_climbs (hc : t.IsClosed) (hb : t.get? here = some .directory)
    (hl : t.HasNoLinks) (hu : u.HasNoLinks) (hsame : ∀ place content,
      t.get? place = some (.file content) → u.get? place ≠ some .directory)
    (h : u.locate here path = .ok spot) (hs : spot.IsEntry)
    (hf : t.get? spot.place = some (.file content)) :
    t.isPresent here path = true ∨ t.Climbs here path := by
  obtain ⟨hne, hw⟩ := trace_eq_ok_iff.1 h
  rcases hw.before_or_climbs hu hc hl hsame (get?_start hb _) hs hf with ht | hclimbs
  · have hresolve := resolve_of_locate (by simp) (trace_eq_ok_iff.2 ⟨hne, ht⟩)
    exact .inl (isPresent_iff.2 ⟨_, hresolve, rfl, by simp⟩)
  · exact .inr hclimbs

/-! ## Where a path can come to lead

Writers at work only add to a tree: directories, files, and files in the
place of links. A path may lead a document nowhere at first and somewhere
once directories are there. But it can come to lead to one place only
(`Reaches.unique`): two trees that have grown from one differ in what a
path meets, not in where its links go. So the place that a document gets
is known before anything is written. Without links it is the place that
the path spells (`Reaches.eq_spelt`).
-/

variable {v : FileTree} {goal : Place} {piece : String} {links' : Nat} {spot' : Spot}

/-- The tree has grown from another one. -/
abbrev GrownFrom (u t : FileTree) : Prop :=
  t.Later (fun _ => False) u

/-- The path leads a document to the place in some tree that has grown from
this one. -/
def Reaches (t : FileTree) (here : Place) (path : String) (place : Place) : Prop :=
  ∃ u : FileTree, u.GrownFrom t ∧ u.IsClosed ∧ u.get? here = some .directory ∧
    u.landing here path = .ok place

/-- What writers do to a tree without temporary files lets it grow. -/
theorem Later.grownFrom (h : t.Later temp u) (hvacant : ∀ place, temp place → t.get? place = none) :
    u.GrownFrom t where
  toKeeps := h.toKeeps
  file place content _ hp := by
    refine h.file place content (fun ht => ?_) hp
    rw [hvacant place ht] at hp
    cases hp
  old := h.old

/-! ## One place at most -/

/-- A link of one tree that has grown from another is a link or a file in
every such tree. -/
theorem GrownFrom.link_cases {target : String} (hu : u.GrownFrom t) (hv : v.GrownFrom t)
    (h : u.get? place = some (.link target)) :
    v.get? place = some (.link target) ∨ ∃ content, v.get? place = some (.file content) :=
  hv.link place target (hu.old place target h)

/-- A piece that is a name stands for an entry: what a way does there is
decided by what the tree has. -/
theorem Leads.of_name (h : u.Leads false links directory (piece :: rest) spot) (hn : IsName piece) :
    (u.get? (directory ++ [piece]) = some .directory ∧
        u.Leads false links (directory ++ [piece]) rest spot) ∨
      (rest = [] ∧ spot.place = directory ++ [piece] ∧
        u.get? (directory ++ [piece]) ≠ some .directory) ∨
      ∃ links' target, rest ≠ [] ∧ u.get? (directory ++ [piece]) = some (.link target) ∧
        u.Leads false links' (start directory target) (pieces target ++ rest) spot := by
  cases h with
  | stay => exact absurd rfl hn.1
  | climb => exact absurd rfl hn.2.1
  | enter _ hg h => exact .inl ⟨hg, h⟩
  | file _ hg => exact .inr (.inl ⟨rfl, rfl, by rw [hg]; simp⟩)
  | missing _ hg => exact .inr (.inl ⟨rfl, rfl, by rw [hg]; simp⟩)
  | link _ hg _ => exact .inr (.inl ⟨rfl, rfl, by rw [hg]; simp⟩)
  | jump _ hg hr _ h => exact .inr (.inr ⟨_, _, hr.resolve_right (by simp), hg, h⟩)

/-- A way of no pieces ends in a directory. -/
theorem Leads.not_isEntry_nil (h : u.Leads false links directory [] spot) : ¬ spot.IsEntry := by
  cases h
  exact id

/-- **Two ways of the same pieces** end at the same entry, in trees that have
grown from one. -/
theorem Leads.place_unique (h : u.Leads false links directory rest spot) (hu : u.GrownFrom t)
    (hv : v.GrownFrom t) (h' : v.Leads false links' directory rest spot') (hs : spot.IsEntry)
    (hs' : spot'.IsEntry) : spot.place = spot'.place := by
  induction h generalizing links' with
  | stop => exact hs.elim
  | stay _ ih =>
    rw [← follow_eq_ok_iff, follow_dot, follow_eq_ok_iff] at h'
    exact ih h' hs
  | climb _ ih =>
    rw [← follow_eq_ok_iff, follow_dotdot, follow_eq_ok_iff] at h'
    exact ih h' hs
  | enter hn hg h ih =>
    rcases h'.of_name hn with ⟨-, h'⟩ | ⟨rfl, -, -⟩ | ⟨_, target, -, hlink, -⟩
    · exact ih h' hs
    · exact absurd hs h.not_isEntry_nil
    · -- a directory of one tree is no link of the other
      rcases hv.link_cases hu hlink with hother | ⟨content, hother⟩
      · rw [hg] at hother
        cases hother
      · rw [hg] at hother
        cases hother
  | file hn _ | missing hn _ | link hn _ _ =>
    rcases h'.of_name hn with ⟨-, h'⟩ | ⟨-, hplace, -⟩ | ⟨_, _, hne, -, -⟩
    · exact absurd hs' h'.not_isEntry_nil
    · exact hplace.symm
    · exact absurd rfl hne
  | jump hn hg hr _ _ ih =>
    rcases h'.of_name hn with ⟨hdir, -⟩ | ⟨rfl, -, -⟩ | ⟨_, target', -, hlink, h'⟩
    · rcases hu.link_cases hv hg with hother | ⟨content, hother⟩
      · rw [hdir] at hother
        cases hother
      · rw [hdir] at hother
        cases hother
    · exact absurd rfl (hr.resolve_right (by simp))
    · rcases hu.link_cases hv hg with hother | ⟨content, hother⟩
      · rw [hlink] at hother
        cases hother
        exact ih h' hs
      · rw [hlink] at hother
        cases hother

theorem leads_of_landing (h : t.landing here path = .ok place) :
    ∃ spot, t.Leads false 40 (start here path) (pieces path) spot ∧ spot.IsEntry ∧
      spot.place = place := by
  obtain ⟨-, spot, hl, hs, hp⟩ := landing_eq_ok h
  exact ⟨spot, (trace_eq_ok_iff.1 hl).2, hs, hp⟩

/-- **A path can come to lead to one place only.** -/
theorem Reaches.unique (h : t.Reaches here path place) (h' : t.Reaches here path goal) :
    place = goal := by
  obtain ⟨u, hu, -, -, hl⟩ := h
  obtain ⟨v, hv, -, -, hl'⟩ := h'
  obtain ⟨spot, hw, hs, rfl⟩ := leads_of_landing hl
  obtain ⟨spot', hw', hs', rfl⟩ := leads_of_landing hl'
  exact hw.place_unique hu hv hw' hs hs'

/-- The place has the last name of the path. -/
theorem Reaches.getLast? (h : t.Reaches here path place) :
    ∃ name ∈ pieces path, IsName name ∧ place.getLast? = some name := by
  obtain ⟨u, -, hc, hb, hl⟩ := h
  obtain ⟨spot, hw, hs, rfl⟩ := leads_of_landing hl
  obtain ⟨above, name, hp, -, hn, hlast⟩ := hw.entry hs hc (get?_start hb _)
  exact ⟨name, List.mem_of_getLast? hlast, hn, by rw [hp, List.getLast?_concat]⟩

/-- **Without links a path leads where it spells**, however the tree grows. -/
theorem Reaches.eq_spelt (h : t.Reaches here path place) (hl : t.HasNoLinks) :
    place = spelt here path := by
  obtain ⟨u, hu, -, -, hlanding⟩ := h
  obtain ⟨spot, hw, -, rfl⟩ := leads_of_landing hlanding
  exact hw.place_eq_byName (hl.later hu)

end Docsmith.FileTree
