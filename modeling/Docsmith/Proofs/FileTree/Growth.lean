import Docsmith.Proofs.FileTree.Spelling
import Docsmith.Proofs.FileTree.Trail
/-!
# File trees — what a change does

What each change of a tree does to its places. Making directories only adds
directories, under names of the path (`makeDirectories_adds`); writing,
renaming and removing act on the places that the paths lead to.
-/


namespace Docsmith.FileTree

variable {t u v : FileTree} {here place goal : Place} {path source target : String}
variable {through : Bool} {spot : Spot} {content : ByteArray} {allowed : String → Prop}

/-! ## Trees that grow -/

theorem trace_eq_ok_iff : t.trace through here path = .ok spot ↔
    path.isEmpty = false ∧ t.Leads through 40 (start here path) (pieces path) spot := by
  rw [trace, ← follow_eq_ok_iff]
  cases path.isEmpty <;> simp

/-- A tree with more directories, under allowed names. -/
structure Adds (allowed : String → Prop) (t u : FileTree) : Prop where
  kept : ∀ place node, t.get? place = some node → u.get? place = some node
  added : ∀ place node, u.get? place = some node → t.get? place = some node ∨
    node = .directory ∧ t.get? place = none ∧ ∀ name ∈ place.getLast?, allowed name
  closed : t.IsClosed → u.IsClosed

namespace Adds

theorem refl (allowed : String → Prop) (t : FileTree) : Adds allowed t t :=
  ⟨fun _ _ h => h, fun _ _ h => .inl h, id⟩

theorem trans (htu : Adds allowed t u) (huv : Adds allowed u v) : Adds allowed t v where
  kept place node h := huv.kept place node (htu.kept place node h)
  added place node h := by
    rcases huv.added place node h with h | ⟨rfl, hu, hn⟩
    · exact htu.added place node h
    · refine .inr ⟨rfl, ?_, hn⟩
      cases ht : t.get? place with
      | none => rfl
      | some old => rw [htu.kept place old ht] at hu; cases hu
  closed h := huv.closed (htu.closed h)

theorem keeps (h : Adds allowed t u) : t.Keeps u :=
  ⟨fun place hp => h.kept place _ hp, fun place _ hp => .inl (h.kept place _ hp)⟩

end Adds

/-! ## Making directories -/

theorem makeDirectory_adds (hc : t.IsClosed) (hh : t.get? here = some .directory)
    (ha : ∀ name ∈ pieces path, IsName name → allowed name)
    (h : t.makeDirectory here path = .ok u) : Adds allowed t u := by
  rw [makeDirectory] at h
  split at h
  · next place hl =>
    cases h
    have hw := (trace_eq_ok_iff.1 hl).2
    have hnone : t.get? place = none := hw.get?_place trivial
    obtain ⟨above, name, hp, hd, hname, hlast⟩ := hw.entry trivial hc (get?_start hh _)
    obtain rfl : place = above ++ [name] := hp
    have hin : allowed name := by
      rcases mem_pieces_of_dropSlashes (List.mem_of_getLast? hlast) with rfl | hm
      · exact absurd rfl hname.1
      · exact ha name hm hname
    refine ⟨fun other node ho => ?_, fun other node ho => ?_, fun hc => ?_⟩
    · rw [get?_insert (by simp), if_neg fun he => by simp [he, hnone] at ho, ho]
    · rw [get?_insert (by simp)] at ho
      split_ifs at ho with he
      · cases ho
        subst he
        exact .inr ⟨rfl, hnone, by simpa using hin⟩
      · exact .inl ho
    · exact hc.insert hd (by rw [hnone]; simp) _
  · cases h
  · cases h

theorem haveDirectory_adds (hc : t.IsClosed) (hh : t.get? here = some .directory)
    (ha : ∀ name ∈ pieces path, IsName name → allowed name) :
    Adds allowed t (t.haveDirectory here path).2 := by
  rw [haveDirectory]
  split
  · next made h => exact makeDirectory_adds hc hh ha h
  · split <;> exact .refl allowed t

theorem makeUpTo_adds (depth : Nat) (hc : t.IsClosed) (hh : t.get? here = some .directory)
    (ha : ∀ name ∈ pieces path, IsName name → allowed name) :
    Adds allowed t (makeUpTo depth t here path).2 := by
  induction depth generalizing path with
  | zero => exact haveDirectory_adds hc hh ha
  | succ depth ih =>
    rw [makeUpTo]
    split
    · exact .refl allowed t
    split
    · next made h => exact makeDirectory_adds hc hh ha h
    · split
      · exact .refl allowed t
      · next above habove =>
        have hup : Adds allowed t (makeUpTo depth t here above).2 := by
          refine ih fun name hm hname => ?_
          rcases mem_pieces_of_parent? habove hm with rfl | hm
          · exact absurd rfl hname.1
          · exact ha name hm hname
        split
        · next u hu =>
          rw [hu] at hup
          exact hup.trans (haveDirectory_adds (hup.closed hc) (hup.kept _ _ hh) ha)
        · next e u hu => rwa [hu] at hup
    · split <;> exact .refl allowed t

/-- **Making directories adds directories and nothing else**, under names
of the path. -/
theorem makeDirectories_adds (hc : t.IsClosed) (hh : t.get? here = some .directory)
    (ha : ∀ name ∈ pieces path, IsName name → allowed name) :
    Adds allowed t (t.makeDirectories here path).2 :=
  makeUpTo_adds (path.length + 1) hc hh ha

/-! ## Writing, renaming, removing -/

/-- Writing fills a file or a missing entry. -/
theorem writeFile_eq_ok (h : t.writeFile here path content = .ok u) :
    ∃ spot, t.resolve here path = .ok spot ∧ spot.IsEntry ∧
      (∀ place target, spot ≠ .link place target) ∧ u = t.insert spot.place (.file content) := by
  rw [writeFile] at h
  split at h
  · next place old hr => cases h; exact ⟨_, hr, trivial, by simp, rfl⟩
  · next place hr => cases h; exact ⟨_, hr, trivial, by simp, rfl⟩
  all_goals cases h

/-- A renamed file lands on an entry that the new path names as it is. -/
theorem landing_eq_ok (h : t.landing here path = .ok goal) :
    dropSlashes path = path ∧ ∃ spot, t.locate here path = .ok spot ∧ spot.IsEntry ∧
      spot.place = goal := by
  rw [landing] at h
  split at h
  · cases h
  · next spot hl =>
    split_ifs at h with _ hbare
    have hsame : dropSlashes path = path := by simpa using hbare
    rw [hsame] at hl
    refine ⟨hsame, spot, hl, ?_⟩
    split at h
    · cases h
    · cases h
    all_goals cases h; exact ⟨trivial, rfl⟩

/-- **Renaming moves a file to where the new path lands.** -/
theorem renameFile_eq_ok (h : t.renameFile here source target = .ok u) :
    ∃ place content goal, t.locate here source = .ok (.file place content) ∧
      t.landing here target = .ok goal ∧ u = (t.erase place).insert goal (.file content) := by
  rw [renameFile] at h
  split at h
  · cases h
  · next place content hs =>
    split at h
    · next goal hl => cases h; exact ⟨place, content, goal, hs, hl, rfl⟩
    · cases h
  · cases h
  · cases h

/-- Removing clears an entry that is a file or a link. -/
theorem removeFile_eq_ok (h : t.removeFile here path = .ok u) :
    ∃ spot, t.locate here path = .ok spot ∧ spot.IsEntry ∧ (∀ place, spot ≠ .missing place) ∧
      u = t.erase spot.place := by
  rw [removeFile] at h
  split at h
  · next hl => cases h; exact ⟨_, hl, trivial, by simp, rfl⟩
  · next hl => cases h; exact ⟨_, hl, trivial, by simp, rfl⟩
  all_goals cases h

/-! ## Replacing what a path names

A file is put where a path leads. Afterwards the path leads to the file,
unless it goes through the very link that the file replaces
(`isPresent_replaced`): of such a path nothing is left. Whether it does is
seen from the tree without that link, in which the path leads nowhere.
-/

variable {links : Nat} {directory : Place} {rest : List String}

/-- The tree has a file at a place and otherwise the directories and links of
another one. -/
structure Replaces (goal : Place) (content : ByteArray) (t u : FileTree) : Prop where
  directory : ∀ place, t.get? place = some .directory → place ≠ goal →
    u.get? place = some .directory
  link : ∀ place target, t.get? place = some (.link target) → place ≠ goal →
    u.get? place = some (.link target)
  goal : u.get? goal = some (.file content)

/-- **A way and what replaces its end.** Either the way leads to the new file
and without the old entry to nothing there, or it goes through the entry: it
breaks off at the new file and without the entry as well. -/
theorem Leads.replaced (h : t.Leads false links directory rest spot) (hs : spot.IsEntry)
    (hr : t.Replaces spot.place content u) :
    u.Leads true links directory rest (.file spot.place content) ∧
        (t.erase spot.place).Leads false links directory rest (.missing spot.place) ∨
      (∃ target, t.get? spot.place = some (.link target)) ∧
        (∃ e, u.follow true links directory rest = .error e) ∧
        ∃ e, (t.erase spot.place).follow false links directory rest = .error e := by
  have hne := h.place_ne_nil hs
  -- the two trees differ from the first one only at the end of the way, so each step is
  -- repeated in both until a link on the way is that very end
  induction h with
  | stop => exact hs.elim
  | stay _ ih =>
    rcases ih hs hr hne with ⟨hu, ht⟩ | ⟨hlink, ⟨e, hu⟩, e', ht⟩
    · exact .inl ⟨.stay hu, .stay ht⟩
    · exact .inr ⟨hlink, ⟨e, by rw [follow_dot, hu]⟩, e', by rw [follow_dot, ht]⟩
  | climb _ ih =>
    rcases ih hs hr hne with ⟨hu, ht⟩ | ⟨hlink, ⟨e, hu⟩, e', ht⟩
    · exact .inl ⟨.climb hu, .climb ht⟩
    · exact .inr ⟨hlink, ⟨e, by rw [follow_dotdot, hu]⟩, e', by rw [follow_dotdot, ht]⟩
  | @enter links directory piece rest spot hn hg hway ih =>
    have hother : directory ++ [piece] ≠ spot.place := fun he =>
      hway.get?_ne_directory hs (he ▸ hg)
    have hgu := hr.directory _ hg hother
    have hgt : (t.erase spot.place).get? (directory ++ [piece]) = some .directory := by
      rw [get?_erase_of_ne hne hother, hg]
    rcases ih hs hr hne with ⟨hu, ht⟩ | ⟨hlink, ⟨e, hu⟩, e', ht⟩
    · exact .inl ⟨.enter hn hgu hu, .enter hn hgt ht⟩
    · exact .inr ⟨hlink, ⟨e, by rw [follow_directory hn hgu, hu]⟩,
        e', by rw [follow_directory hn hgt, ht]⟩
  | file hn _ | missing hn _ | link hn _ _ =>
    exact .inl ⟨.file hn hr.goal, .missing hn (get?_erase_self hne)⟩
  | @jump links directory piece target rest spot hn hg hlast ht hway ih =>
    by_cases he : directory ++ [piece] = spot.place
    · -- the way goes through the entry itself
      rw [he] at hg
      obtain ⟨next, rest, rfl⟩ := List.exists_cons_of_ne_nil (hlast.resolve_right Bool.false_ne_true)
      have hgu : u.get? (directory ++ [piece]) = some (.file content) := by rw [he, hr.goal]
      have hgt : (t.erase spot.place).get? (directory ++ [piece]) = none := by
        rw [he, get?_erase_self hne]
      refine .inr ⟨⟨target, hg⟩, ⟨.notDirectory, ?_⟩, .notFound, ?_⟩
      · rw [follow_file hn hgu]
        rfl
      · rw [follow_missing hn hgt]
        rfl
    · have hgu := hr.link _ _ hg he
      have hgt : (t.erase spot.place).get? (directory ++ [piece]) = some (.link target) := by
        rw [get?_erase_of_ne hne he, hg]
      have hgo : rest ≠ [] := hlast.resolve_right Bool.false_ne_true
      rcases ih hs hr hne with ⟨hu, ht'⟩ | ⟨hlink, ⟨e, hu⟩, e', ht'⟩
      · exact .inl ⟨.jump hn hgu (.inl hgo) ht hu, .jump hn hgt (.inl hgo) ht ht'⟩
      · refine .inr ⟨hlink, ⟨e, ?_⟩, e', ?_⟩
        · rw [follow_jump hn hgu (.inl hgo)]
          simp only [ht]
          exact hu
        · rw [follow_jump hn hgt (.inl hgo)]
          simp only [ht]
          exact ht'

/-- The path goes through the link that it leads to. -/
def Crosses (t : FileTree) (here : Place) (path : String) : Prop :=
  ∃ place target e, t.locate here path = .ok (.link place target) ∧
    (t.erase place).locate here path = .error e

/-- **The path leads to what replaces its end**, unless it crosses. -/
theorem isPresent_replaced (h : t.locate here path = .ok spot) (hs : spot.IsEntry)
    (hr : t.Replaces spot.place content u) :
    u.isPresent here path = false ↔ t.Crosses here path := by
  obtain ⟨hne, hw⟩ := trace_eq_ok_iff.1 h
  have hresolve : u.resolve here path = u.follow true 40 (start here path) (pieces path) := by
    rw [resolve, trace, hne]
    rfl
  have hlocate : ∀ v : FileTree,
      v.locate here path = v.follow false 40 (start here path) (pieces path) := by
    intro v
    rw [locate, trace, hne]
    rfl
  rcases hw.replaced hs hr with ⟨hu, ht⟩ | ⟨⟨target, hlink⟩, ⟨e, hu⟩, e', ht⟩
  · rw [isPresent, hresolve, hu.follow_eq]
    refine iff_of_false (by simp) ?_
    rintro ⟨place, target, e, hplace, herror⟩
    rw [h] at hplace
    cases hplace
    rw [hlocate] at herror
    cases ht.follow_eq.symm.trans herror
  · rw [isPresent, hresolve, hu]
    refine iff_of_true rfl ⟨spot.place, target, e', ?_, by rw [hlocate, ht]⟩
    rw [h]
    rw [hw.get?_place hs] at hlink
    cases spot with
    | link place old =>
      cases hlink
      rfl
    | _ => cases hlink

/-- A renamed file replaces what was at its goal. -/
theorem replaces_of_renameFile {source target : String}
    (h : t.renameFile here source target = .ok u) (hl : t.landing here target = .ok goal) :
    ∃ spot content, t.locate here target = .ok spot ∧ spot.IsEntry ∧ spot.place = goal ∧
      t.Replaces goal content u := by
  obtain ⟨place, content, goal', hsource, hl', rfl⟩ := renameFile_eq_ok h
  obtain rfl : goal' = goal := by
    rw [hl] at hl'
    cases hl'
    rfl
  obtain ⟨-, spot, hlocate, hentry, hspot⟩ := landing_eq_ok hl
  have hplace := (trace_eq_ok_iff.1 hsource).2
  have hplaceNe : place ≠ [] := hplace.place_ne_nil trivial
  have hfile : t.get? place = some (.file content) := hplace.get?_place trivial
  have hgoalNe : goal' ≠ [] := hspot ▸ (trace_eq_ok_iff.1 hlocate).2.place_ne_nil hentry
  refine ⟨spot, content, hlocate, hentry, hspot, fun other ho hne => ?_, fun other old ho hne => ?_,
    get?_insert_self hgoalNe⟩
  · have hother : other ≠ place := by
      rintro rfl
      rw [hfile] at ho
      cases ho
    rw [get?_insert_of_ne hgoalNe hne, get?_erase_of_ne hplaceNe hother, ho]
  · have hother : other ≠ place := by
      rintro rfl
      rw [hfile] at ho
      cases ho
    rw [get?_insert_of_ne hgoalNe hne, get?_erase_of_ne hplaceNe hother, ho]

end Docsmith.FileTree
