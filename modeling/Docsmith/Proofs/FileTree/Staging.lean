import Docsmith.Proofs.FileTree.Growth
/-!
# File trees — temporary files

Some places are temporary and some of those are a writer's own. What a
writer does to a tree leaves the temporary places of the others alone, takes
no directory away, replaces a link by a file at most, and makes no link
(`Moves`). A writer has either nothing on its own places or one file that
its temporary path led to when it was written (`Staged`). As the tree only
moves on in this way, that path still leads to the file, or it breaks off
at a file put in the place of a link; it never finds the file gone
(`Staged.locate`).
-/


namespace Docsmith.FileTree

variable {temp own : Place → Prop} {t u v : FileTree} {here place goal : Place} {path target : String}
variable {content part : ByteArray} {allowed : String → Prop}

/-- A tree some steps of writers later. -/
structure Later (temp : Place → Prop) (t u : FileTree) : Prop extends t.Keeps u where
  file : ∀ place content, ¬ temp place → t.get? place = some (.file content) →
    ∃ content, u.get? place = some (.file content)
  old : ∀ place target, u.get? place = some (.link target) → t.get? place = some (.link target)

/-- A tree one step of a writer later. -/
structure Moves (temp own : Place → Prop) (t u : FileTree) : Prop extends t.Later temp u where
  others : ∀ place, temp place → ¬ own place → u.get? place = t.get? place
  closed : t.IsClosed → u.IsClosed

/-- No link stands at a temporary place. -/
def LinksApart (temp : Place → Prop) (t : FileTree) : Prop :=
  ∀ place target, t.get? place = some (.link target) → ¬ temp place

/-- Nothing stands at a writer's own places. -/
def Vacant (own : Place → Prop) (t : FileTree) : Prop :=
  ∀ place, own place → t.get? place = none

/-- One file stands at a writer's own places, and its path led there when
the file was not there yet. -/
def Staged (temp own : Place → Prop) (here : Place) (path : String) (content : ByteArray)
    (t : FileTree) : Prop :=
  ∃ place, own place ∧ t.get? place = some (.file content) ∧
    (∀ other, own other → other ≠ place → t.get? other = none) ∧
    ∃ u : FileTree, u.locate here path = .ok (.missing place) ∧ u.LinksApart temp ∧
      u.Later temp t

theorem Later.refl (temp : Place → Prop) (t : FileTree) : t.Later temp t :=
  ⟨⟨fun _ h => h, fun _ _ h => .inl h⟩, fun _ content _ h => ⟨content, h⟩, fun _ _ h => h⟩

theorem Later.trans (hl : t.LinksApart temp) (htu : t.Later temp u) (huv : u.Later temp v) :
    t.Later temp v where
  directory place h := huv.directory place (htu.directory place h)
  link place target h := by
    rcases htu.link place target h with hu | ⟨content, hu⟩
    · exact huv.link place target hu
    · exact .inr (huv.file place content (hl place target h) hu)
  file place content hp h := by
    obtain ⟨content, hu⟩ := htu.file place content hp h
    exact huv.file place content hp hu
  old place target h := htu.old place target (huv.old place target h)

theorem LinksApart.later (hl : t.LinksApart temp) (h : t.Later temp u) : u.LinksApart temp :=
  fun place target hu => hl place target (h.old place target hu)

theorem Moves.refl (temp own : Place → Prop) (t : FileTree) : t.Moves temp own t :=
  ⟨.refl temp t, fun _ _ _ => rfl, id⟩

/-! ## Making directories -/

/-- New directories under other names are a move of any writer. -/
theorem Adds.moves (h : Adds allowed t u)
    (ha : ∀ place, ∀ name ∈ place.getLast?, allowed name → ¬ temp place) :
    t.Moves temp own u := by
  refine ⟨⟨h.keeps, fun place content _ hp => ⟨content, h.kept place _ hp⟩,
    fun place target hu => ?_⟩, fun place hp _ => ?_, h.closed⟩
  · rcases h.added place _ hu with ht | ⟨hne, -⟩
    · exact ht
    · cases hne
  · cases ht : t.get? place with
    | some node => exact h.kept place node ht
    | none =>
      cases hu : u.get? place with
      | none => rfl
      | some node =>
        rcases h.added place node hu with ht' | ⟨-, -, hn⟩
        · rw [ht] at ht'
          cases ht'
        · have hne : place ≠ [] := by
            rintro rfl
            cases ht
          have hl := List.getLast?_eq_some_getLast hne
          exact absurd hp (ha place _ hl (hn _ hl))

/-- Elsewhere a directory may be new, and nothing else. -/
theorem Adds.get?_eq_or (h : Adds allowed t u) (place : Place) :
    u.get? place = t.get? place ∨ t.get? place = none ∧ u.get? place = some .directory := by
  cases hu : u.get? place with
  | none =>
    cases ht : t.get? place with
    | none => exact .inl rfl
    | some node => rw [h.kept place node ht] at hu; cases hu
  | some node =>
    rcases h.added place node hu with ht | ⟨rfl, ht, -⟩
    · exact .inl ht.symm
    · exact .inr ⟨ht, rfl⟩

/-! ## One place changes -/

/-- A place that is no directory and has nothing or a file gets a file. -/
theorem insert_moves (hne : place ≠ []) (hown : temp place → own place)
    (hdir : t.get? place ≠ some .directory)
    (hc : t.IsClosed → (t.insert place (.file content)).IsClosed) :
    t.Moves temp own (t.insert place (.file content)) := by
  refine ⟨⟨⟨fun other h => ?_, fun other target h => ?_⟩, fun other old _ h => ?_,
    fun other target h => ?_⟩, fun other ht ho => ?_, hc⟩
  · have ho : other ≠ place := fun he => hdir (he ▸ h)
    rw [get?_insert_of_ne hne ho, h]
  · by_cases ho : other = place
    · subst ho
      exact .inr ⟨content, get?_insert_self hne⟩
    · exact .inl (by rw [get?_insert_of_ne hne ho, h])
  · by_cases ho : other = place
    · subst ho
      exact ⟨content, get?_insert_self hne⟩
    · exact ⟨old, by rw [get?_insert_of_ne hne ho, h]⟩
  · by_cases ho : other = place
    · subst ho
      rw [get?_insert_self hne] at h
      cases h
    · rwa [get?_insert_of_ne hne ho] at h
  · have hne' : other ≠ place := fun he => ho (he ▸ hown (he ▸ ht))
    rw [get?_insert_of_ne hne hne']

/-- A file at an own place is taken away. -/
theorem erase_moves (hne : place ≠ []) (htemp : temp place) (hown : own place)
    (hfile : t.get? place = some (.file content)) : t.Moves temp own (t.erase place) := by
  have hfree : ∀ other node, t.get? other = some node → node ≠ .file content → other ≠ place := by
    rintro other node h hn rfl
    exact hn (Option.some.inj (h.symm.trans hfile))
  refine ⟨⟨⟨fun other h => ?_, fun other target h => ?_⟩, fun other old hp h => ?_,
    fun other target h => ?_⟩, fun other _ ho => ?_, fun hc => hc.erase hne (by rw [hfile]; simp)⟩
  · rw [get?_erase_of_ne hne (hfree other _ h (by simp)), h]
  · exact .inl (by rw [get?_erase_of_ne hne (hfree other _ h (by simp)), h])
  · have ho : other ≠ place := fun he => hp (he ▸ htemp)
    exact ⟨old, by rw [get?_erase_of_ne hne ho, h]⟩
  · by_cases ho : other = place
    · subst ho
      rw [get?_erase_self hne] at h
      cases h
    · rwa [get?_erase_of_ne hne ho] at h
  · have hne' : other ≠ place := fun he => ho (he ▸ hown)
    rw [get?_erase_of_ne hne hne']

/-- A file at an own place is moved to a place in a directory that is not
temporary. -/
theorem rename_moves {above : Place} {name : String} (hl : t.LinksApart temp) (htemp : temp place)
    (hown : own place) (hfile : t.get? place = some (.file content))
    (ha : t.get? above = some .directory) (hfree : ¬ temp (above ++ [name]))
    (hdir : t.get? (above ++ [name]) ≠ some .directory) :
    t.Moves temp own ((t.erase place).insert (above ++ [name]) (.file content)) := by
  have hplace : place ≠ [] := by
    rintro rfl
    cases hfile
  have hne : above ++ [name] ≠ place := fun he => hfree (he ▸ htemp)
  have hfirst : t.Moves temp own (t.erase place) := erase_moves hplace htemp hown hfile
  have hdirErased : (t.erase place).get? (above ++ [name]) ≠ some .directory := by
    rwa [get?_erase_of_ne hplace hne]
  have hsecond : (t.erase place).Moves temp own
      ((t.erase place).insert (above ++ [name]) (.file content)) := by
    refine insert_moves (by simp) (fun ht => absurd ht hfree) hdirErased fun hc => ?_
    exact hc.insert (hfirst.directory _ ha) hdirErased _
  refine ⟨hfirst.toLater.trans hl hsecond.toLater, fun other ht hn => ?_,
    fun hc => hsecond.closed (hfirst.closed hc)⟩
  rw [hsecond.others other ht hn, hfirst.others other ht hn]

/-! ## A writer's own files -/

/-- What another writer does leaves a writer's places vacant. -/
theorem Vacant.moves {other : Place → Prop} (h : t.Vacant own) (hm : t.Moves temp other u)
    (hown : ∀ place, own place → temp place ∧ ¬ other place) : u.Vacant own :=
  fun place hp => (hm.others place (hown place hp).1 (hown place hp).2).trans (h place hp)

/-- And it leaves a staged file where it is. -/
theorem Staged.moves {other : Place → Prop} (h : t.Staged temp own here path content)
    (hm : t.Moves temp other u) (hown : ∀ place, own place → temp place ∧ ¬ other place) :
    u.Staged temp own here path content := by
  obtain ⟨place, hp, hfile, honly, before, hlocate, hl, hlater⟩ := h
  have hsame : ∀ place, own place → u.get? place = t.get? place :=
    fun place hp => hm.others place (hown place hp).1 (hown place hp).2
  exact ⟨place, hp, (hsame place hp).trans hfile,
    fun other ho hne => (hsame other ho).trans (honly other ho hne),
    before, hlocate, hl, hlater.trans hl hm.toLater⟩

/-- **The path of a staged file leads to it**, or it breaks off at a file. -/
theorem Staged.locate (h : t.Staged temp own here path content) :
    (∃ place, own place ∧ t.get? place = some (.file content) ∧
      (∀ other, own other → other ≠ place → t.get? other = none) ∧
      t.locate here path = .ok (.file place content)) ∨
      t.locate here path = .error .notDirectory := by
  obtain ⟨place, hp, hfile, honly, before, hlocate, hl, hlater⟩ := h
  obtain ⟨hne, hw⟩ := trace_eq_ok_iff.1 hlocate
  -- the way is that of the earlier tree, in which the file was not there yet
  rcases hw.survives hlater.toKeeps (fun _ => hfile) with hu | ⟨hu, -⟩
  · exact .inl ⟨place, hp, hfile, honly, trace_eq_ok_iff.2 ⟨hne, hu⟩⟩
  · refine .inr ?_
    rw [FileTree.locate, trace, hne]
    exact hu

/-- Where there is no temporary file to remove, the own places are vacant. -/
theorem vacant_of_removeFile
    (hs : t.Vacant own ∨ ∃ part, t.Staged temp own here path part)
    (h : t.removeFile here path = .error .notFound) : t.Vacant own := by
  rcases hs with hv | ⟨part, hs⟩
  · exact hv
  · rw [FileTree.removeFile] at h
    rcases hs.locate with ⟨place, -, -, -, hl⟩ | hl
    · rw [hl] at h
      cases h
    · rw [hl] at h
      cases h

/-- The temporary path of a writer: what it leads to is the writer's own. -/
structure OwnPath (temp own : Place → Prop) (t : FileTree) (here : Place) (path : String) : Prop where
  closed : t.IsClosed
  base : t.get? here = some .directory
  links : t.LinksApart temp
  mine : ∀ name ∈ (pieces path).getLast?, ∀ directory, own (directory ++ [name])
  passing : ∀ place, own place → temp place

namespace OwnPath

/-- An entry that the path names stands at an own place, in a directory. -/
theorem entry {spot : Spot} (ho : OwnPath temp own t here path)
    (h : t.Leads false 40 (start here path) (pieces path) spot) (hs : spot.IsEntry) :
    ∃ above name, spot.place = above ++ [name] ∧ t.get? above = some .directory ∧
      own (above ++ [name]) := by
  obtain ⟨above, name, hp, ha, -, hl⟩ := h.entry hs ho.closed (get?_start ho.base _)
  exact ⟨above, name, hp, ha, ho.mine name hl above⟩

/-- Going through the last link makes no difference: it is no link. -/
theorem locate_of_resolve {spot : Spot} (ho : OwnPath temp own t here path)
    (h : t.resolve here path = .ok spot) : t.locate here path = .ok spot := by
  obtain ⟨hne, hw⟩ := trace_eq_ok_iff.1 h
  refine trace_eq_ok_iff.2 ⟨hne, hw.toStop fun name hn above target hg => ?_⟩
  exact ho.links _ _ hg (ho.passing _ (ho.mine name hn above))

/-- **Writing a temporary file** from vacant places. -/
theorem writeFile (ho : OwnPath temp own t here path) (hv : t.Vacant own)
    (h : t.writeFile here path content = .ok u) : t.Moves temp own u ∧
      u.Staged temp own here path content ∧ ∀ place, ¬ temp place → u.get? place = t.get? place := by
  obtain ⟨spot, hr, hs, -, rfl⟩ := writeFile_eq_ok h
  have hlocate := ho.locate_of_resolve hr
  obtain ⟨-, hw⟩ := trace_eq_ok_iff.1 hlocate
  obtain ⟨above, name, hp, ha, hown⟩ := ho.entry hw hs
  have hnone : t.get? (above ++ [name]) = none := hv _ hown
  -- the own places are vacant, so the file is a new one and no other is written over
  have hmissing : spot = .missing (above ++ [name]) := by
    rw [← hp] at hnone ⊢
    exact hw.eq_missing hs hnone
  subst hmissing
  have hne : above ++ [name] ≠ [] := by simp
  have hm : t.Moves temp own (t.insert (above ++ [name]) (.file content)) :=
    insert_moves (by simp) (fun _ => hown) (by rw [hnone]; simp)
      fun hc => hc.insert ha (by rw [hnone]; simp) _
  refine ⟨hm, ⟨_, hown, get?_insert_self hne, fun other hoo hother => ?_, t, hlocate,
    ho.links, hm.toLater⟩, fun place hp => ?_⟩
  · rw [Spot.place, get?_insert_of_ne hne hother]
    exact hv other hoo
  · have hother : place ≠ above ++ [name] := fun he => hp (he ▸ ho.passing _ hown)
    rw [Spot.place, get?_insert_of_ne hne hother]

/-- **Renaming a temporary file** leaves the own places vacant, and the
document stands where the new path lands. -/
theorem renameFile (ho : OwnPath temp own t here path) (hs : t.Staged temp own here path content)
    (hgoal : ∀ name ∈ pieces target, IsName name → ∀ above, ¬ temp (above ++ [name]))
    (h : t.renameFile here path target = .ok u) (hl : t.landing here target = .ok goal) :
    t.Moves temp own u ∧ u.Vacant own ∧ ¬ temp goal ∧ u.get? goal = some (.file content) ∧
      ∀ place, ¬ temp place → place ≠ goal → u.get? place = t.get? place := by
  obtain ⟨place, found, goal', hfound, hl', rfl⟩ := renameFile_eq_ok h
  obtain rfl : goal' = goal := by
    rw [hl] at hl'
    cases hl'
    rfl
  obtain ⟨-, spot, hlocate, hentry, hspot⟩ := landing_eq_ok hl
  have hw := (trace_eq_ok_iff.1 hlocate).2
  obtain ⟨above, name, hp, ha, hname, hlast⟩ := hw.entry hentry ho.closed (get?_start ho.base _)
  rw [hspot] at hp
  subst hp
  have hnotTemp : ¬ temp (above ++ [name]) := hgoal name (List.mem_of_getLast? hlast) hname above
  have hnotDir : t.get? (above ++ [name]) ≠ some .directory := hspot ▸ hw.get?_ne_directory hentry
  -- what is renamed is the staged file, or the way to it breaks off and nothing is
  rcases hs.locate with ⟨other, hown, hfile, honly, hmine⟩ | hbroken
  · rw [hmine] at hfound
    cases hfound
    have hplace : place ≠ [] := by
      rintro rfl
      cases hfile
    have hne : above ++ [name] ≠ place := fun he => hnotTemp (he ▸ ho.passing _ hown)
    have hgoalNe : above ++ [name] ≠ [] := by simp
    refine ⟨rename_moves ho.links (ho.passing _ hown) hown hfile ha hnotTemp hnotDir,
      fun other hoo => ?_, hnotTemp, get?_insert_self hgoalNe, fun other hn hne' => ?_⟩
    · have hother : other ≠ above ++ [name] := fun he => hnotTemp (he ▸ ho.passing _ hoo)
      rw [get?_insert_of_ne hgoalNe hother]
      by_cases he : other = place
      · subst he
        exact get?_erase_self hplace
      · rw [get?_erase_of_ne hplace he]
        exact honly other hoo he
    · have hother : other ≠ place := fun he => hn (he ▸ ho.passing _ hown)
      rw [get?_insert_of_ne hgoalNe hne', get?_erase_of_ne hplace hother]
  · rw [hbroken] at hfound
    cases hfound

/-- **Removing a temporary file** leaves the own places vacant. -/
theorem removeFile (ho : OwnPath temp own t here path)
    (hs : t.Vacant own ∨ ∃ part, t.Staged temp own here path part)
    (h : t.removeFile here path = .ok u) :
    t.Moves temp own u ∧ u.Vacant own ∧ ∀ place, ¬ temp place → u.get? place = t.get? place := by
  obtain ⟨spot, hlocate, hentry, hthere, rfl⟩ := removeFile_eq_ok h
  obtain ⟨-, hw⟩ := trace_eq_ok_iff.1 hlocate
  obtain ⟨above, name, hp, -, hown⟩ := ho.entry hw hentry
  rcases hs with hv | ⟨part, hs⟩
  · have hmissing := hw.eq_missing hentry (by rw [hp]; exact hv _ hown)
    exact absurd hmissing (hthere spot.place)
  · rcases hs.locate with ⟨mine, hmine, hfile, honly, hl⟩ | hbroken
    · rw [hl] at hlocate
      cases hlocate
      have hne : mine ≠ [] := by
        rintro rfl
        cases hfile
      refine ⟨erase_moves hne (ho.passing _ hmine) hmine hfile, fun other hoo => ?_,
        fun other hn => ?_⟩
      · by_cases he : other = mine
        · subst he
          exact get?_erase_self hne
        · rw [Spot.place, get?_erase_of_ne hne he]
          exact honly other hoo he
      · have hother : other ≠ mine := fun he => hn (he ▸ ho.passing _ hmine)
        rw [Spot.place, get?_erase_of_ne hne hother]
    · rw [hbroken] at hlocate
      cases hlocate

end OwnPath

end Docsmith.FileTree
