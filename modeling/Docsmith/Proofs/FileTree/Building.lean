import Docsmith.Proofs.FileTree.Way
import Docsmith.Proofs.Text.Trim
/-!
# File trees — making the directories on a way

Making a directory with all those above it succeeds exactly if the places on
the way admit directories, where no link stands on the way
(`makeDirectories_eq_ok_iff`). Nothing but directories on the way is made,
and after a success they all stand (`Built`). So whether it succeeds depends
on the files on the way alone, and not on the directories that others make.

There is one exception. A path that ends in a dot asks for a directory that
is there: it is not made, and only what is above it is. Such a directory has
to be found.
-/


namespace Docsmith.FileTree

open Docsmith.Path Text

variable {t u v : FileTree} {here directory place : Place} {path above : String}
variable {before rest : List String} {text : List Char}

/-! ## Slashes and dots at the end -/

/-- The last piece that is not empty is a dot. -/
def EndsInDot (path : String) : Prop :=
  (names path).getLast? = some "."

instance (path : String) : Decidable (EndsInDot path) :=
  inferInstanceAs (Decidable (_ = _))

/-- The pieces that are not empty. -/
def filled (text : List Char) : List (List Char) :=
  (splitChar '/' text).filter (!·.isEmpty)

theorem names_eq_filled (path : String) : names path = (filled path.toList).map String.ofList := by
  have hempty : (fun piece : List Char => !(String.ofList piece).isEmpty) = (!·.isEmpty) := by
    funext piece
    cases piece <;> simp
  rw [names, filled, List.filter_map]
  exact congrArg (fun p => ((splitChar '/' path.toList).filter p).map String.ofList) hempty

/-- Slashes at the end make no piece that is not empty. -/
theorem filled_append {slashes : List Char} (h : ∀ c ∈ slashes, c = '/') (text : List Char) :
    filled (text ++ slashes) = filled text := by
  have hnothing : ∀ more : List Char, (∀ c ∈ more, c = '/') → filled more = [] := by
    intro more hmore
    induction more with
    | nil => rfl
    | cons c more ih =>
      obtain rfl := hmore c List.mem_cons_self
      have hsplit : splitChar '/' ('/' :: more) = [] :: splitChar '/' more :=
        splitChar_append_cons '/' [] more
      rw [filled, hsplit]
      exact ih fun c hc => hmore c (List.mem_cons_of_mem _ hc)
  cases slashes with
  | nil => rw [List.append_nil]
  | cons c more =>
    obtain rfl := h c List.mem_cons_self
    have hmore := hnothing more fun c hc => h c (List.mem_cons_of_mem _ hc)
    rw [filled, splitChar_append_cons, List.filter_append, ← filled, ← filled, hmore,
      List.append_nil]

/-- The last piece of a text that does not end in a slash is not empty. -/
theorem getLast?_splitChar (h : ∀ c ∈ text.getLast?, c ≠ '/') (hne : text ≠ []) :
    (splitChar '/' text).getLast? ≠ some [] := by
  induction text with
  | nil => exact absurd rfl hne
  | cons c text ih =>
    by_cases htext : text = []
    · subst htext
      have hc : c ≠ '/' := h c rfl
      rw [splitChar_of_not_mem (by simpa using Ne.symm hc)]
      simp
    · have hlast : ∀ d ∈ text.getLast?, d ≠ '/' := fun d hd =>
        h d (List.mem_getLast?_cons hd)
      obtain ⟨piece, more, hmore⟩ := List.exists_cons_of_ne_nil (splitChar_ne_nil '/' text)
      have hrest := ih hlast htext
      rw [hmore] at hrest
      by_cases hslash : (c == '/') = true
      · have hsplit : splitChar '/' (c :: text) = [] :: splitChar '/' text :=
          splitBy_cons_of_pos hslash
        rwa [hsplit, hmore, List.getLast?_cons_cons]
      · rw [splitChar, splitBy_cons_of_neg (by simpa using hslash) hmore]
        cases more with
        | nil => simp
        | cons next more =>
          rw [List.getLast?_cons_cons] at hrest ⊢
          exact hrest

theorem dropSlashes_eq (path : String) : dropSlashes path =
    if Text.dropAllEnd '/' path.toList = [] then path
    else String.ofList (Text.dropAllEnd '/' path.toList) := by
  unfold dropSlashes
  split
  · next hkept => rw [if_pos hkept]
  · next hkept => rw [if_neg hkept]

/-- **The pieces of a path without the slashes at its end** are those that are not
empty; a path of slashes alone is the root. -/
theorem pieces_dropSlashes (path : String) : names (dropSlashes path) = names path ∧
    (pieces (dropSlashes path) = names path ∨
      names path = [] ∧ pieces (dropSlashes path) = ["."]) := by
  obtain ⟨count, hsplit⟩ := Text.exists_append_dropAllEnd '/' path.toList
  have hend : ∀ c ∈ (Text.dropAllEnd '/' path.toList).getLast?, c ≠ '/' := by
    rintro c hc rfl
    exact Text.getLast?_dropAllEnd_ne '/' path.toList hc
  rw [dropSlashes_eq]
  generalize Text.dropAllEnd '/' path.toList = kept at hsplit hend ⊢
  have hfilled : filled path.toList = filled kept := by
    rw [hsplit]
    exact filled_append (fun c hc => List.eq_of_mem_replicate hc) kept
  split_ifs with hkept
  · have hnone : filled path.toList = [] := by
      rw [hfilled, hkept]
      rfl
    have hnames : names path = [] := by
      rw [names_eq_filled, hnone]
      rfl
    refine ⟨rfl, .inr ⟨hnames, ?_⟩⟩
    -- nothing but slashes: the last piece is empty
    obtain ⟨last, hlast⟩ := Option.ne_none_iff_exists'.1
      (mt List.getLast?_eq_none_iff.1 (splitChar_ne_nil '/' path.toList))
    obtain rfl : last = [] := by
      by_contra hne
      have hmem : last ∈ filled path.toList :=
        List.mem_filter.2 ⟨List.mem_of_getLast? hlast, by simpa using hne⟩
      rw [hnone] at hmem
      cases hmem
    have hempty : (((splitChar '/' path.toList).map String.ofList).getLast? == some "") = true := by
      rw [List.getLast?_map, hlast]
      rfl
    rw [pieces, hempty, if_pos rfl]
    exact congrArg (· ++ ["."]) hnames
  · have hnames : names (String.ofList kept) = names path := by
      rw [names_eq_filled, names_eq_filled, hfilled, String.toList_ofList]
    refine ⟨hnames, .inl ?_⟩
    have hlast : (((splitChar '/' (String.ofList kept).toList).map String.ofList).getLast? ==
        some "") = false := by
      rw [String.toList_ofList, List.getLast?_map, beq_eq_false_iff_ne]
      intro h
      obtain ⟨last, hlast, hempty⟩ := Option.map_eq_some_iff.1 h
      obtain rfl : last = [] := by simpa using hempty
      exact getLast?_splitChar hend hkept hlast
    rw [← hnames, pieces, hlast, if_neg Bool.false_ne_true, List.append_nil, names]

theorem steps_dropSlashes (path : String) : steps (dropSlashes path) = steps path := by
  rw [steps_eq_names, steps_eq_names, (pieces_dropSlashes path).1]

theorem start_dropSlashes (here : Place) (path : String) :
    start here (dropSlashes path) = start here path := by
  obtain ⟨count, hsplit⟩ := Text.exists_append_dropAllEnd '/' path.toList
  rw [dropSlashes_eq]
  generalize Text.dropAllEnd '/' path.toList = kept at hsplit ⊢
  split_ifs with hkept
  · rfl
  · obtain ⟨c, more, rfl⟩ := List.exists_cons_of_ne_nil hkept
    rw [start, start, hsplit, String.toList_ofList]
    rfl

theorem dropSlashes_ne_empty (h : path ≠ "") : dropSlashes path ≠ "" := by
  rw [dropSlashes_eq]
  split_ifs with hkept
  · exact h
  · exact fun hempty => hkept (by simpa using hempty)

/-- They make no difference to the way. -/
theorem way_dropSlashes (here : Place) (path : String) :
    passes (start here path) (pieces (dropSlashes path)) = way here path := by
  rw [← start_dropSlashes here path]
  exact (way_eq_steps here (dropSlashes path)).trans
    (by rw [steps_dropSlashes, start_dropSlashes, ← way_eq_steps])

/-! ## The path above -/

theorem names_ofList_join {list : List (List Char)} (h : ∀ piece ∈ list, '/' ∉ piece) :
    names (String.ofList (Text.join ['/'] list)) =
      (list.filter (!·.isEmpty)).map String.ofList := by
  rw [names_eq_filled, String.toList_ofList, filled]
  by_cases hlist : list = []
  · subst hlist
    rfl
  · rw [splitChar_join hlist h]

/-- Pieces that end in one that counts do not end in a dot. -/
theorem getLast?_filter_ne_dot {list : List (List Char)} (hne : dropLastPiece list ≠ []) :
    (((dropLastPiece list).filter (!·.isEmpty)).map String.ofList).getLast? ≠ some "." := by
  obtain ⟨last, hlast⟩ := Option.ne_none_iff_exists'.1 (mt List.getLast?_eq_none_iff.1 hne)
  have hcounts : ofPiece? last ≠ none := ofPiece?_of_getLast? hlast
  obtain ⟨init, hinit⟩ := List.getLast?_eq_some_iff.1 hlast
  have hempty : last ≠ [] := by
    rintro rfl
    exact hcounts rfl
  rw [hinit, List.filter_append, List.filter_cons_of_pos (by simpa using hempty), List.filter_nil,
    List.map_append, List.map_singleton, List.getLast?_concat]
  intro hdot
  obtain rfl : last = ['.'] := by simpa using congrArg String.toList (Option.some.inj hdot)
  exact hcounts rfl

/-- **The path above ends in no dot**, unless it makes no step. -/
theorem steps_eq_nil_of_parent? (h : parent? path = some above) (hdot : EndsInDot above) :
    steps above = [] := by
  have hslash : ∀ piece ∈ splitChar '/' path.toList, '/' ∉ piece := fun piece hp =>
    not_mem_of_mem_splitChar hp
  have hcut : ∀ {list : List (List Char)}, (∀ piece ∈ list, '/' ∉ piece) →
      ∀ piece ∈ dropLastPiece list, '/' ∉ piece := fun hlist piece hp =>
    hlist piece ((prefix_dropLastPiece _).subset hp)
  unfold EndsInDot at hdot
  rw [steps_eq_names]
  unfold parent? at h
  split at h
  · next below hs =>
    rw [hs] at hslash
    have hbelow : ∀ piece ∈ below, '/' ∉ piece := fun piece hp =>
      hslash piece (List.mem_cons_of_mem _ hp)
    split_ifs at h with hnone hempty
    · obtain rfl := Option.some.inj h
      decide +kernel
    · obtain rfl := Option.some.inj h
      have hne : dropLastPiece below ≠ [] := fun hnil => hempty (List.isEmpty_iff.2 hnil)
      rw [names_ofList_join (List.forall_mem_cons.2 ⟨by simp, hcut hbelow⟩)] at hdot
      exact absurd hdot (getLast?_filter_ne_dot hne)
  · next below hs =>
    rw [hs] at hslash
    have hbelow : ∀ piece ∈ below, '/' ∉ piece := fun piece hp =>
      hslash piece (List.mem_cons_of_mem _ hp)
    split_ifs at h with hnone
    · obtain rfl := Option.some.inj h
      decide +kernel
    · obtain rfl := Option.some.inj h
      rw [names_ofList_join (List.forall_mem_cons.2 ⟨by decide, hcut hbelow⟩),
        List.filter_cons_of_pos rfl, List.map_cons] at hdot ⊢
      cases hmore : ((dropLastPiece below).filter (!·.isEmpty)).map String.ofList with
      | nil => rfl
      | cons next more =>
        have hne : dropLastPiece below ≠ [] := by
          intro hnil
          rw [hnil] at hmore
          cases hmore
        have hlast := getLast?_filter_ne_dot hne
        rw [hmore] at hdot hlast
        rw [List.getLast?_cons_cons] at hdot
        exact absurd hdot hlast
  · obtain rfl := Option.some.inj h
    by_cases hnil : dropLastPiece (splitChar '/' path.toList) = []
    · rw [hnil]
      decide +kernel
    · rw [names_ofList_join (hcut hslash)] at hdot
      exact absurd hdot (getLast?_filter_ne_dot hnil)

/-- **The path above makes all steps but the last.** -/
theorem exists_parent? (h : steps path ≠ []) : ∃ above, parent? path = some above ∧
    steps above = (steps path).dropLast ∧ ∀ here, start here above = start here path := by
  rcases List.eq_nil_or_concat (route path) with hnil | ⟨before, c, hroute⟩
  · rw [steps_eq_route, hnil] at h
    exact absurd rfl h
  · rw [List.concat_eq_append] at hroute
    have hnames : ∀ rest : List (List Char), .root ∉ rest.filterMap ofPiece? := by
      intro rest hmem
      obtain ⟨piece, -, hpiece⟩ := List.mem_filterMap.1 hmem
      unfold ofPiece? at hpiece
      split at hpiece <;> cases hpiece
    -- the root is on the route only where the route begins
    have hroot : c ≠ .root := by
      rintro rfl
      have hpieces : (splitChar '/' path.toList).filterMap ofPiece? = [] := by
        rcases List.eq_nil_or_concat ((splitChar '/' path.toList).filterMap ofPiece?) with
          hnil | ⟨init, last, hinit⟩
        · exact hnil
        · rw [route_eq, hinit, List.concat_eq_append, ← List.append_assoc] at hroute
          obtain ⟨-, hlast⟩ := List.append_inj' hroute rfl
          obtain rfl := (List.cons.inj hlast).1
          have hmem := hnames (splitChar '/' path.toList)
          rw [hinit, List.concat_eq_append] at hmem
          exact absurd (List.mem_append_right _ (List.mem_singleton_self _)) hmem
      rw [steps_eq_route, route_eq, hpieces, List.append_nil] at h
      refine h ?_
      unfold rooted
      split <;> rfl
    have hcurrent : c ≠ .current := by
      have hmem : c ∈ route path := hroute ▸ List.mem_append_right _ (List.mem_singleton_self _)
      simpa using (List.mem_filter.1 hmem).2
    obtain ⟨step, hstep⟩ : ∃ step, stepOf? c = some step := by
      cases c with
      | root => exact absurd rfl hroot
      | current => exact absurd rfl hcurrent
      | parent => exact ⟨_, rfl⟩
      | name s => exact ⟨_, rfl⟩
    obtain ⟨above, habove, hbefore⟩ := route_parent? hroute hroot
    refine ⟨above, habove, ?_, fun here => ?_⟩
    · rw [steps_eq_route, steps_eq_route, hbefore, hroute, List.filterMap_append,
        List.filterMap_cons_some hstep, List.filterMap_nil, List.dropLast_concat]
    · rw [start_eq_route, start_eq_route, hbefore, hroute]
      cases before with
      | nil => simp [hroot]
      | cons first more => rfl

/-! ## Making one directory -/

/-- What comes of making a directory at the end of a way: it is there, it is made, something
above it is missing, or something is in its way. -/
inductive Attempt (t : FileTree) (directory : Place) (pieces : List String) :
    Except Error FileTree → Prop
  | there : (∀ place ∈ passes directory pieces, t.Stands place) →
      Attempt t directory pieces (.error .exists)
  | made {before : List String} {name : String} : pieces = before ++ [name] → IsName name →
      (∀ place ∈ passes directory before, t.Stands place) →
      t.get? (byName directory before ++ [name]) = none →
      Attempt t directory pieces (.ok (t.insert (byName directory before ++ [name]) .directory))
  | gap {before after : List String} {name : String} : pieces = before ++ name :: after →
      after ≠ [] → IsName name → (∀ place ∈ passes directory before, t.Stands place) →
      t.get? (byName directory before ++ [name]) = none →
      Attempt t directory pieces (.error .notFound)
  | blocked {place : Place} {e : Error} : place ∈ passes directory pieces → ¬ t.Admits place →
      e ≠ .notFound → Attempt t directory pieces (.error e)

/-- **An attempt at making a directory** comes to one of these. -/
theorem attempt_makeDirectory (hne : path ≠ "")
    (hlinks : ∀ place ∈ way here path, ∀ target, t.get? place ≠ some (.link target)) :
    t.Attempt (start here path) (pieces (dropSlashes path)) (t.makeDirectory here path) := by
  have hway := way_dropSlashes here path
  have hlocate : t.locate here (dropSlashes path) =
      t.follow false 40 (start here path) (pieces (dropSlashes path)) := by
    rw [locate, trace, if_neg (by simpa using dropSlashes_ne_empty hne), start_dropSlashes]
  rw [← hway] at hlinks
  unfold makeDirectory
  rw [hlocate]
  generalize pieces (dropSlashes path) = list at hlinks ⊢
  rcases exists_gap t (start here path) list with
    hall | ⟨before, name, after, rfl, hdot, hdots, hbefore, hgap⟩
  · rw [follow_of_stands hall]
    exact .there hall
  · have hmem : byName (start here path) before ++ [name] ∈
        passes (start here path) (before ++ name :: after) := mem_passes_gap hdot hdots
    rw [follow_append hbefore]
    cases hfits : fits name with
    | false =>
      rw [follow_long hdot hdots hfits]
      refine .blocked hmem (fun hadmits => ?_) (by simp)
      have hfit := hadmits.2 name (by simp)
      rw [hfits] at hfit
      cases hfit
    | true =>
      have hname : IsName name := ⟨hdot, hdots, hfits⟩
      cases hget : t.get? (byName (start here path) before ++ [name]) with
      | none =>
        rw [follow_missing hname hget]
        cases after with
        | nil => exact .made rfl hname hbefore hget
        | cons next after => exact .gap rfl (List.cons_ne_nil _ _) hname hbefore hget
      | some node =>
        cases node with
        | directory =>
          refine absurd ⟨hget, fun other hother => ?_⟩ hgap
          obtain rfl : name = other := by simpa using hother
          exact hfits
        | link target => exact absurd hget (hlinks _ hmem target)
        | file content =>
          have hadmits : ¬ t.Admits (byName (start here path) before ++ [name]) := by
            rintro ⟨hnone | hdirectory, -⟩
            · rw [hget] at hnone
              cases hnone
            · rw [hget] at hdirectory
              cases hdirectory
          rw [follow_file hname hget]
          cases after with
          | nil => exact .blocked hmem hadmits (by simp)
          | cons next after => exact .blocked hmem hadmits (by simp)

/-- Some of the places are directories now at which nothing stood; else nothing is new. -/
def Gains (places : List Place) (t u : FileTree) : Prop :=
  ∀ place, u.get? place = t.get? place ∨
    t.get? place = none ∧ u.get? place = some .directory ∧ place ∈ places

namespace Gains

variable {places more : List Place}

theorem refl (places : List Place) (t : FileTree) : Gains places t t :=
  fun _ => .inl rfl

theorem mono (h : Gains places t u) (hsub : ∀ place ∈ places, place ∈ more) : Gains more t u :=
  fun place => (h place).imp_right fun ⟨hnone, hdirectory, hp⟩ => ⟨hnone, hdirectory, hsub place hp⟩

theorem trans (h : Gains places t u) (h' : Gains places u v) : Gains places t v := by
  intro place
  rcases h' place with hsame | ⟨hnone, hdirectory, hp⟩
  · rw [hsame]
    exact h place
  · rcases h place with hsame | ⟨-, hthere, -⟩
    · exact .inr ⟨hsame.symm.trans hnone, hdirectory, hp⟩
    · rw [hnone] at hthere
      cases hthere

/-- What stands stays. -/
theorem kept (h : Gains places t u) {node : Node} (hnode : t.get? place = some node) :
    u.get? place = some node := by
  rcases h place with hsame | ⟨hnone, -, -⟩
  · rw [hsame, hnode]
  · rw [hnone] at hnode
    cases hnode

/-- Directories apart, everything is as it was. -/
theorem get?_iff (h : Gains places t u) {node : Node} (hne : node ≠ .directory) :
    u.get? place = some node ↔ t.get? place = some node := by
  refine ⟨fun hnode => ?_, h.kept⟩
  rcases h place with hsame | ⟨-, hdirectory, -⟩
  · rw [← hsame, hnode]
  · rw [hnode] at hdirectory
    exact absurd (Option.some.inj hdirectory) hne

theorem noLink (h : Gains places t u) (hlinks : ∀ target, t.get? place ≠ some (.link target))
    (target : String) : u.get? place ≠ some (.link target) := fun hlink =>
  hlinks target ((h.get?_iff (by simp)).1 hlink)

/-- A place that admits a directory does so afterwards, and did so before. -/
theorem admits_iff (h : Gains places t u) : u.Admits place ↔ t.Admits place := by
  rcases h place with hsame | ⟨hnone, hdirectory, -⟩
  · rw [Admits, Admits, hsame]
  · rw [Admits, Admits, hnone, hdirectory]
    simp

end Gains

/-- What is left when directories are made: new ones stand on the way only, all of them
do if it succeeds, and it does if the places on the way admit them. -/
structure Built (t : FileTree) (here : Place) (path : String) (result : Except Error Unit)
    (u : FileTree) : Prop where
  gains : Gains (way here path) t u
  stands : result = .ok () → ∀ place ∈ way here path, u.Stands place
  possible : (EndsInDot path → t.get? (spelt here path) = some .directory) →
    (∀ place ∈ way here path, t.Admits place) → result = .ok ()

namespace Built

variable {result : Except Error Unit}

/-- Nothing is done where the directories are there. -/
theorem refl_of_stands (h : ∀ place ∈ way here path, t.Stands place) :
    Built t here path (.ok ()) t :=
  ⟨.refl _ t, fun _ => h, fun _ _ => rfl⟩

/-- **It succeeds exactly if the places on the way admit directories.** -/
theorem eq_ok_iff (h : Built t here path result u)
    (hfound : EndsInDot path → t.get? (spelt here path) = some .directory) :
    result = .ok () ↔ ∀ place ∈ way here path, t.Admits place :=
  ⟨fun hok place hp => h.gains.admits_iff.1 (h.stands hok place hp).admits, h.possible hfound⟩

end Built

/-! ## Making all directories -/

/-- The directory is there or is made, unless what is above it is missing. -/
theorem built_haveDirectory (hne : path ≠ "")
    (hlinks : ∀ place ∈ way here path, ∀ target, t.get? place ≠ some (.link target))
    (habove : t.makeDirectory here path ≠ .error .notFound) :
    Built t here path (t.haveDirectory here path).1 (t.haveDirectory here path).2 := by
  have hattempt := attempt_makeDirectory hne hlinks
  have hway := way_dropSlashes here path
  unfold haveDirectory
  generalize t.makeDirectory here path = made at hattempt habove
  cases hattempt with
  | there hall =>
    rw [hway] at hall
    dsimp only
    rw [if_pos ((isDirectory_iff hne hlinks).2 hall)]
    exact .refl_of_stands hall
  | @made before name hsplit hname hbefore hnone =>
    have hplaces : way here path =
        passes (start here path) before ++ [byName (start here path) before ++ [name]] := by
      rw [← hway, hsplit, passes_append, passes, if_neg hname.1, if_neg hname.2.1, passes]
    have hgoal : byName (start here path) before ++ [name] ≠ [] := by simp
    refine ⟨fun place => ?_, fun _ place hp => ?_, fun _ _ => rfl⟩
    · rw [get?_insert hgoal]
      split_ifs with heq
      · subst heq
        exact .inr ⟨hnone, rfl, hplaces ▸ List.mem_append_right _ (List.mem_singleton_self _)⟩
      · exact .inl rfl
    · rw [hplaces, List.mem_append, List.mem_singleton] at hp
      rcases hp with hp | rfl
      · obtain ⟨hdirectory, hfits⟩ := hbefore place hp
        refine ⟨?_, hfits⟩
        rw [get?_insert hgoal]
        split_ifs
        · rfl
        · exact hdirectory
      · refine ⟨get?_insert_self hgoal, fun other hother => ?_⟩
        obtain rfl : name = other := by simpa using hother
        exact hname.2.2
  | gap => exact absurd rfl habove
  | @blocked place e hp hblocked hcause =>
    rw [hway] at hp
    have hno : ¬ t.isDirectory here path = true := fun h =>
      hblocked ((isDirectory_iff hne hlinks).1 h place hp).admits
    dsimp only
    rw [if_neg hno]
    exact ⟨.refl _ t, by simp, fun _ hadmits => absurd (hadmits place hp) hblocked⟩

/-- If something above is missing, it is missing on the way. -/
theorem exists_missing_of_notFound (hne : path ≠ "")
    (hlinks : ∀ place ∈ way here path, ∀ target, t.get? place ≠ some (.link target))
    (h : t.makeDirectory here path = .error .notFound) :
    ∃ place ∈ way here path, t.get? place = none := by
  have hattempt := attempt_makeDirectory hne hlinks
  rw [h] at hattempt
  cases hattempt with
  | gap hsplit _ hname _ hnone =>
    refine ⟨_, ?_, hnone⟩
    rw [← way_dropSlashes, hsplit]
    exact mem_passes_gap hname.1 hname.2.1
  | blocked _ _ hcause => exact absurd rfl hcause

/-- Where the directories above stand, only a path that ends in a dot asks for one that has to
be found. -/
theorem endsInDot_of_notFound (hne : path ≠ "")
    (hlinks : ∀ place ∈ way here path, ∀ target, t.get? place ≠ some (.link target))
    (hup : ∀ place ∈ passes (start here path) (steps path).dropLast, t.Stands place)
    (h : t.makeDirectory here path = .error .notFound) :
    EndsInDot path ∧ t.get? (spelt here path) = none := by
  have hattempt := attempt_makeDirectory hne hlinks
  rw [h] at hattempt
  cases hattempt with
  | @gap before after name hsplit hafter hname hbefore hnone =>
    have hsteps : steps path = before.filter (· != ".") ++ name :: after.filter (· != ".") := by
      have hfilter : steps path = (pieces (dropSlashes path)).filter (· != ".") :=
        (steps_dropSlashes path).symm
      rw [hfilter, hsplit, List.filter_append, List.filter_cons_of_pos (by simpa using hname.1)]
    -- a step behind the name would mean that a directory of the name stands
    have hdots : after.filter (· != ".") = [] := by
      by_contra hmore
      have hinit : (steps path).dropLast =
          before.filter (· != ".") ++ name :: (after.filter (· != ".")).dropLast := by
        rw [hsteps, List.dropLast_append_of_ne_nil (List.cons_ne_nil _ _),
          List.dropLast_cons_of_ne_nil hmore]
      have hmem : byName (start here path) (before.filter (· != ".")) ++ [name] ∈
          passes (start here path) (steps path).dropLast := by
        rw [hinit]
        exact mem_passes_gap hname.1 hname.2.1
      rw [byName_filter] at hmem
      have hstands := (hup _ hmem).1
      rw [hnone] at hstands
      cases hstands
    refine ⟨?_, ?_⟩
    · obtain ⟨last, hlast⟩ := Option.ne_none_iff_exists'.1 (mt List.getLast?_eq_none_iff.1 hafter)
      obtain rfl : last = "." := by
        by_contra hne
        have hmem : last ∈ after.filter (· != ".") :=
          List.mem_filter.2 ⟨List.mem_of_getLast? hlast, by simpa using hne⟩
        rw [hdots] at hmem
        cases hmem
      rcases (pieces_dropSlashes path).2 with hpieces | ⟨-, hpieces⟩
      · rw [EndsInDot, ← hpieces, hsplit, List.getLast?_append_of_ne_nil _ (List.cons_ne_nil _ _),
          List.getLast?_cons, hlast]
        rfl
      · rw [hpieces] at hsplit
        cases before with
        | nil => exact absurd (List.cons.inj hsplit).1.symm hname.1
        | cons first before => simp at hsplit
    · rw [spelt_eq_steps, hsteps, hdots, byName_append, byName_filter, byName_cons hname]
      exact hnone
  | blocked _ _ hcause => exact absurd rfl hcause

/-- Below directories that stand, the last one is made or found. -/
theorem built_below (hne : path ≠ "")
    (hlinks : ∀ place ∈ way here path, ∀ target, t.get? place ≠ some (.link target))
    (hgains : Gains (way here path) t u)
    (hup : ∀ place ∈ passes (start here path) (steps path).dropLast, u.Stands place) :
    Built t here path (u.haveDirectory here path).1 (u.haveDirectory here path).2 := by
  have hlinks' : ∀ place ∈ way here path, ∀ target, u.get? place ≠ some (.link target) :=
    fun place hp => hgains.noLink (hlinks place hp)
  by_cases hagain : u.makeDirectory here path = .error .notFound
  · obtain ⟨hdot, hnone⟩ := endsInDot_of_notFound hne hlinks' hup hagain
    have hno : ¬ u.isDirectory here path = true := by
      intro hdirectory
      obtain ⟨place, hp, hnone⟩ := exists_missing_of_notFound hne hlinks' hagain
      have hthere := ((isDirectory_iff hne hlinks').1 hdirectory place hp).1
      rw [hnone] at hthere
      cases hthere
    rw [haveDirectory, hagain]
    dsimp only
    rw [if_neg hno]
    -- the directory is missing, so it was not there to be found
    refine ⟨hgains, by simp, fun hfound _ => ?_⟩
    rw [hgains.kept (hfound hdot)] at hnone
    cases hnone
  · have hlast := built_haveDirectory hne hlinks' hagain
    refine ⟨hgains.trans hlast.gains, hlast.stands, fun hfound hadmits => ?_⟩
    have hfound' := fun hdot => hgains.kept (hfound hdot)
    exact hlast.possible hfound' fun place hp => hgains.admits_iff.2 (hadmits place hp)

/-- **What is left when directories are made.** The induction is on the number of steps: a
directory that is missing is made once those above it are. -/
theorem built_makeUpTo (hb : t.get? here = some .directory) {depth : Nat}
    (hdepth : (steps path).length < depth)
    (hlinks : ∀ place ∈ way here path, ∀ target, t.get? place ≠ some (.link target)) :
    Built t here path (makeUpTo depth t here path).1 (makeUpTo depth t here path).2 := by
  induction depth generalizing path with
  | zero => exact absurd hdepth (Nat.not_lt_zero _)
  | succ depth ih =>
    unfold makeUpTo
    by_cases hne : path = ""
    · subst hne
      have hnothing : way here "" = [] := rfl
      exact .refl_of_stands (by simp [hnothing])
    rw [if_neg (by simpa using hne)]
    have hhave := fun h => built_haveDirectory hne hlinks h
    unfold haveDirectory at hhave
    split
    · next made hmade =>
      rw [hmade] at hhave
      exact hhave nofun
    · next hmissing =>
      -- something above is missing, so there is something above
      have hsteps : steps path ≠ [] := by
        intro hnil
        obtain ⟨place, hp, -⟩ := exists_missing_of_notFound hne hlinks hmissing
        rw [way_eq_steps, hnil] at hp
        cases hp
      obtain ⟨above, habove, hinit, hstart⟩ := exists_parent? hsteps
      have hways : way here above = passes (start here path) (steps path).dropLast := by
        rw [way_eq_steps, hinit, hstart]
      have hsub : ∀ place ∈ way here above, place ∈ way here path := by
        intro place hp
        rw [way_eq_steps, ← List.dropLast_append_getLast hsteps, passes_append, ← hways]
        exact List.mem_append_left _ hp
      have hshort : (steps above).length < depth := by
        rw [hinit, List.length_dropLast]
        have hpos := List.length_pos_iff.2 hsteps
        omega
      have hup := ih hshort fun place hp => hlinks place (hsub place hp)
      have hfoundAbove : EndsInDot above → t.get? (spelt here above) = some .directory := by
        intro hdot
        rw [spelt_eq_steps, steps_eq_nil_of_parent? habove hdot]
        exact get?_start hb above
      rw [habove]
      dsimp only
      generalize makeUpTo depth t here above = out at hup ⊢
      obtain ⟨result, u⟩ := out
      have hgains : Gains (way here path) t u := hup.gains.mono hsub
      cases result with
      | error e =>
        refine ⟨hgains, nofun, fun _ hadmits => ?_⟩
        exact absurd (hup.possible hfoundAbove fun place hp => hadmits place (hsub place hp)) nofun
      | ok _ =>
        have hstands := hup.stands rfl
        rw [hways] at hstands
        exact built_below hne hlinks hgains hstands
    · next e hcause herror =>
      rw [herror] at hhave
      have hbuilt := hhave fun h => hcause (Except.error.inj h)
      dsimp only at hbuilt
      exact hbuilt

/-- **Making directories makes those on the way**, and it succeeds exactly if the places
on the way admit them. -/
theorem built_makeDirectories (hb : t.get? here = some .directory)
    (hlinks : ∀ place ∈ way here path, ∀ target, t.get? place ≠ some (.link target)) :
    Built t here path (t.makeDirectories here path).1 (t.makeDirectories here path).2 :=
  built_makeUpTo hb (Nat.lt_succ_of_le (length_steps_le path)) hlinks

theorem makeDirectories_eq_ok_iff (hb : t.get? here = some .directory)
    (hlinks : ∀ place ∈ way here path, ∀ target, t.get? place ≠ some (.link target))
    (hfound : EndsInDot path → t.get? (spelt here path) = some .directory) :
    (t.makeDirectories here path).1 = .ok () ↔ ∀ place ∈ way here path, t.Admits place :=
  (built_makeDirectories hb hlinks).eq_ok_iff hfound

end Docsmith.FileTree
