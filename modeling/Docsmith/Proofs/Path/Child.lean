import Docsmith.Proofs.Path.Name
import Mathlib.Data.List.Infix
/-!
# Paths — children of a directory

A path is a *child* of a directory if it names something right in it, in
whatever way the two are spelt: its components are those of the directory
and one name, where a `.` at the start of a path counts for nothing. The
path above is spelt anew, but it has all components but the last one
(`components_parent?`), so another file name in place of a child's own gives
a child of the same directory (`IsChild.withFileName`).
-/


namespace Docsmith.Path

open Text

variable {directory path name : String} {pieces : List (List Char)}

/-- The components that a path goes through. -/
def route (path : String) : List Component :=
  (components path.toList).filter (· != .current)

/-- The path is that of something right in the directory. -/
def IsChild (directory path : String) : Prop :=
  ∃ name, IsFileName name ∧ route path = route directory ++ [.name name.toList]

/-! ## Routes -/

/-- The root, if the pieces are those of an absolute path. -/
def rooted : List (List Char) → List Component
  | [] :: _ :: _ => [.root]
  | _ => []

/-- No piece stands for the directory that a path starts from. -/
theorem ne_current_of_mem {c : Component} (h : c ∈ pieces.filterMap ofPiece?) : c ≠ .current := by
  obtain ⟨piece, -, hpiece⟩ := List.mem_filterMap.1 h
  unfold ofPiece? at hpiece
  split at hpiece <;> cases hpiece <;> simp

/-- Of the pieces only the root and those that count are on the route. -/
theorem filter_components (pieces : List (List Char)) :
    (leading pieces ++ pieces.filterMap ofPiece?).filter (· != .current) =
      rooted pieces ++ pieces.filterMap ofPiece? := by
  have hpieces : (pieces.filterMap ofPiece?).filter (· != .current) = pieces.filterMap ofPiece? :=
    List.filter_eq_self.2 fun c hc => by simpa using ne_current_of_mem hc
  rw [List.filter_append, hpieces]
  congr 1
  unfold leading rooted
  split <;> split <;> simp_all

theorem route_eq (path : String) : route path =
    rooted (splitChar '/' path.toList) ++ (splitChar '/' path.toList).filterMap ofPiece? := by
  rw [route, components_eq, filter_components]

/-- The route of a name in a directory. -/
theorem route_name (h : IsFileName name) (directory : String) :
    route (join directory name) = route directory ++ [.name name.toList] := by
  rw [route, components_join h, List.filter_append]
  rfl

/-- A name in a directory is a child of it. -/
theorem isChild_join (h : IsFileName name) (directory : String) :
    IsChild directory (join directory name) :=
  ⟨name, h, route_name h directory⟩

/-! ## Without the last piece that counts -/

theorem isSilent_iff {piece : List Char} : isSilent piece = true ↔ ofPiece? piece = none := by
  unfold isSilent ofPiece?
  split <;> simp_all

theorem prefix_trimPieces (pieces : List (List Char)) : trimPieces pieces <+: pieces := by
  rw [trimPieces, ← List.reverse_suffix, List.reverse_reverse]
  exact List.dropWhile_suffix _

/-- Silent pieces at the end are not on the route. -/
theorem filterMap_trimPieces (pieces : List (List Char)) :
    (trimPieces pieces).filterMap ofPiece? = pieces.filterMap ofPiece? := by
  have hreverse : ∀ rest : List (List Char),
      (rest.dropWhile isSilent).filterMap ofPiece? = rest.filterMap ofPiece? := by
    intro rest
    induction rest with
    | nil => rfl
    | cons piece rest ih =>
      by_cases hs : isSilent piece = true
      · rw [List.dropWhile_cons_of_pos hs, ih, List.filterMap_cons_none (isSilent_iff.1 hs)]
      · rw [List.dropWhile_cons_of_neg hs]
  rw [trimPieces, List.filterMap_reverse, hreverse, ← List.filterMap_reverse, List.reverse_reverse]

/-- After them the last piece counts. -/
theorem ofPiece?_of_getLast? {last : List Char} (h : (trimPieces pieces).getLast? = some last) :
    ofPiece? last ≠ none := by
  intro hnone
  rw [trimPieces, List.getLast?_reverse] at h
  have hhead := List.head?_dropWhile_not isSilent pieces.reverse
  rw [h] at hhead
  exact absurd (isSilent_iff.2 hnone) (Bool.not_eq_true _ ▸ hhead)

/-- **Without the last piece that counts**, the route is without its last
component. -/
theorem filterMap_dropLastPiece (pieces : List (List Char)) :
    (dropLastPiece pieces).filterMap ofPiece? = (pieces.filterMap ofPiece?).dropLast := by
  rw [dropLastPiece, filterMap_trimPieces, ← filterMap_trimPieces pieces]
  rcases List.eq_nil_or_concat (trimPieces pieces) with hnil | ⟨init, last, hinit⟩
  · rw [hnil]
    rfl
  · rw [List.concat_eq_append] at hinit
    obtain ⟨c, hc⟩ := Option.ne_none_iff_exists'.1
      (ofPiece?_of_getLast? (hinit ▸ List.getLast?_concat))
    rw [hinit, List.dropLast_concat, List.filterMap_append, List.filterMap_cons_some hc,
      List.filterMap_nil, List.dropLast_concat]

theorem prefix_dropLastPiece (pieces : List (List Char)) : dropLastPiece pieces <+: pieces :=
  (prefix_trimPieces _).trans ((List.dropLast_prefix _).trans (prefix_trimPieces _))

/-! ## The path above -/

/-- A route is all but its end and the end. -/
theorem before_eq {first rest before : List Component} {c : Component}
    (h : first ++ rest = before ++ [c]) (hfirst : c ∉ first) :
    rest ≠ [] ∧ before = first ++ rest.dropLast := by
  rcases List.eq_nil_or_concat rest with rfl | ⟨init, last, rfl⟩
  · rw [List.append_nil] at h
    exact absurd (h ▸ List.mem_append_right _ (List.mem_singleton_self _)) hfirst
  · rw [List.concat_eq_append, ← List.append_assoc] at h
    obtain ⟨hbefore, -⟩ := List.append_inj' h rfl
    rw [List.concat_eq_append, List.dropLast_concat]
    exact ⟨List.append_ne_nil_of_right_ne_nil _ (List.cons_ne_nil _ _), hbefore.symm⟩

theorem trimPieces_ne_nil (h : pieces.filterMap ofPiece? ≠ []) : trimPieces pieces ≠ [] := by
  intro hnil
  rw [← filterMap_trimPieces, hnil] at h
  exact h rfl

/-- The components of a path made of pieces. -/
theorem components_pieces (hne : pieces ≠ []) (hslash : ∀ piece ∈ pieces, '/' ∉ piece) :
    components (String.ofList (Text.join ['/'] pieces)).toList =
      leading pieces ++ pieces.filterMap ofPiece? := by
  rw [components_eq, String.toList_ofList, splitChar_join hne hslash]

/-- **The path above** has all components but the last one. -/
theorem components_parent? {before : List Component} {c : Component}
    (h : components path.toList = before ++ [c]) (hroot : c ≠ .root) (hcurrent : c ≠ .current) :
    ∃ above, parent? path = some above ∧ components above.toList = before := by
  have hslash : ∀ piece ∈ splitChar '/' path.toList, '/' ∉ piece := fun piece hp =>
    not_mem_of_mem_splitChar hp
  rw [components_eq] at h
  unfold parent?
  split
  · next below hs =>
    rw [hs] at h hslash
    have hbelow : below ≠ [] := by
      rintro rfl
      exact absurd (h : [] = _).symm (List.append_ne_nil_of_right_ne_nil _ (List.cons_ne_nil _ _))
    obtain ⟨piece, rest, hcons⟩ := List.exists_cons_of_ne_nil hbelow
    have hlead : leading ([] :: below) = [.root] := by
      rw [hcons]
      rfl
    rw [hlead, List.filterMap_cons_none rfl] at h
    obtain ⟨hsome, rfl⟩ := before_eq h (by simpa using hroot)
    rw [if_neg (by simpa using trimPieces_ne_nil hsome)]
    split_ifs with hempty
    · have hnil : (below.filterMap ofPiece?).dropLast = [] := by
        rw [← filterMap_dropLastPiece, List.isEmpty_iff.1 hempty]
        rfl
      rw [hnil]
      exact ⟨"/", rfl, by decide +kernel⟩
    · refine ⟨_, rfl, ?_⟩
      obtain ⟨first, kept, hkept⟩ := List.exists_cons_of_ne_nil
        (fun hnil => hempty (List.isEmpty_iff.2 hnil) : dropLastPiece below ≠ [])
      have hsub : ∀ piece ∈ [] :: dropLastPiece below, '/' ∉ piece := fun piece hp =>
        hslash piece (((List.prefix_cons_inj _).2 (prefix_dropLastPiece below)).subset hp)
      rw [components_pieces (List.cons_ne_nil _ _) hsub, List.filterMap_cons_none rfl,
        filterMap_dropLastPiece, hkept]
      rfl
  · next below hs =>
    rw [hs] at h hslash
    have hlead : ∀ more : List (List Char), leading (['.'] :: more) = [.current] := fun _ => rfl
    rw [hlead, List.filterMap_cons_none rfl] at h
    obtain ⟨hsome, rfl⟩ := before_eq h (by simpa using hcurrent)
    rw [if_neg (by simpa using trimPieces_ne_nil hsome)]
    refine ⟨_, rfl, ?_⟩
    have hsub : ∀ piece ∈ ['.'] :: dropLastPiece below, '/' ∉ piece := fun piece hp =>
      hslash piece (((List.prefix_cons_inj _).2 (prefix_dropLastPiece below)).subset hp)
    rw [components_pieces (List.cons_ne_nil _ _) hsub, hlead, List.filterMap_cons_none rfl,
      filterMap_dropLastPiece]
  · next hempty hdot =>
    have hlead : ∀ list, list <+: splitChar '/' path.toList → leading list = [] := by
      intro list hprefix
      obtain ⟨rest, hrest⟩ := hprefix
      unfold leading
      split
      · exact absurd hrest.symm (hempty _)
      · exact absurd hrest.symm (hdot _)
      · rfl
    rw [hlead _ (List.prefix_refl _)] at h
    obtain ⟨hsome, rfl⟩ := before_eq h List.not_mem_nil
    refine ⟨_, rfl, ?_⟩
    rw [List.nil_append, ← filterMap_dropLastPiece]
    by_cases hnil : dropLastPiece (splitChar '/' path.toList) = []
    · rw [hnil]
      decide +kernel
    · rw [components_pieces hnil fun piece hp => hslash piece ((prefix_dropLastPiece _).subset hp),
        hlead _ (prefix_dropLastPiece _), List.nil_append]

/-- A path that ends in the directory that it starts from has no other component. -/
theorem components_eq_current (h : (components path.toList).getLast? = some .current) :
    components path.toList = [.current] := by
  rw [components_eq, List.getLast?_append, Option.or_eq_some_iff] at h
  rcases h with h | ⟨hnone, h⟩
  · exact absurd rfl (ne_current_of_mem (List.mem_of_getLast? h))
  · rw [components_eq, List.getLast?_eq_none_iff.1 hnone, List.append_nil]
    revert h
    unfold leading
    split <;> simp

/-- **And its route is without the last component.** -/
theorem route_parent? {before : List Component} {c : Component}
    (h : route path = before ++ [c]) (hc : c ≠ .root) :
    ∃ above, parent? path = some above ∧ route above = before := by
  rcases List.eq_nil_or_concat (components path.toList) with hnil | ⟨init, d, hinit⟩
  · rw [route, hnil] at h
    exact absurd h.symm (List.append_ne_nil_of_right_ne_nil _ (List.cons_ne_nil _ _))
  rw [List.concat_eq_append] at hinit
  by_cases hcurrent : d = .current
  · have hall := components_eq_current (hcurrent ▸ hinit ▸ List.getLast?_concat)
    rw [route, hall] at h
    exact absurd h.symm (List.append_ne_nil_of_right_ne_nil _ (List.cons_ne_nil _ _))
  · rw [route, hinit, List.filter_append, List.filter_cons_of_pos (by simpa using hcurrent),
      List.filter_nil] at h
    obtain ⟨hbefore, hd⟩ := List.append_inj' h rfl
    obtain rfl : d = c := by simpa using hd
    obtain ⟨above, habove, hcomponents⟩ := components_parent? hinit hc hcurrent
    exact ⟨above, habove, by rw [route, hcomponents, hbefore]⟩

/-- A route that ends in a name is that of a path with this file name. -/
theorem fileName?_of_route {before : List Component} (h : route path = before ++ [.name name.toList]) :
    fileName? path = some name := by
  have hlast := congrArg List.getLast? h
  rw [List.getLast?_concat, route_eq, List.getLast?_append] at hlast
  have hname : ((splitChar '/' path.toList).filterMap ofPiece?).getLast? =
      some (.name name.toList) := by
    have hrooted : (rooted (splitChar '/' path.toList)).getLast? ≠ some (.name name.toList) := by
      unfold rooted
      split <;> simp
    rcases Option.or_eq_some_iff.1 hlast with hlast | ⟨-, hlast⟩
    · exact hlast
    · exact absurd hlast hrooted
  rw [fileName?_eq_some, components_eq, List.getLast?_append, hname]
  rfl

/-! ## Other names in the directory -/

/-- **Another file name takes the place of the last component**, and no other one. -/
theorem components_withFileName {other : String} (h : fileName? path = some name)
    (hother : IsFileName other) : components (withFileName path other).toList =
      (components path.toList).dropLast ++ [.name other.toList] := by
  obtain ⟨before, hbefore⟩ := List.getLast?_eq_some_iff.1 (fileName?_eq_some.1 h)
  obtain ⟨above, habove, hcomponents⟩ := components_parent? hbefore nofun nofun
  rw [withFileName, h, Option.isSome_some, if_pos rfl, habove, Option.getD_some,
    components_join hother, hcomponents, hbefore, List.dropLast_concat]

/-- So does the name with a number. -/
theorem components_suffixed (h : fileName? path = some name) (n : Nat) :
    components (suffixed path n).toList =
      (components path.toList).dropLast ++ [.name (numbered path n).toList] := by
  rw [suffixed_eq, components_withFileName h (isFileName_numbered path n)]

theorem fileName?_suffixed (h : fileName? path = some name) (n : Nat) :
    fileName? (suffixed path n) = some (numbered path n) := by
  rw [fileName?_eq_some, components_suffixed h, List.getLast?_concat]

/-- **The path with a number stands in the same directory.** -/
theorem parent?_suffixed (h : fileName? path = some name) (n : Nat) :
    ∃ above above', parent? path = some above ∧ parent? (suffixed path n) = some above' ∧
      components above'.toList = components above.toList := by
  obtain ⟨before, hbefore⟩ := List.getLast?_eq_some_iff.1 (fileName?_eq_some.1 h)
  have hsuffixed := components_suffixed h n
  rw [hbefore, List.dropLast_concat] at hsuffixed
  obtain ⟨above, habove, hcomponents⟩ := components_parent? hbefore nofun nofun
  obtain ⟨above', habove', hcomponents'⟩ := components_parent? hsuffixed nofun nofun
  exact ⟨above, above', habove, habove', hcomponents'.trans hcomponents.symm⟩

/-- **Paths with other numbers are other paths.** -/
theorem components_suffixed_inj {n m : Nat} (h : fileName? path = some name) :
    components (suffixed path n).toList = components (suffixed path m).toList ↔ n = m := by
  refine ⟨fun heq => ?_, fun heq => heq ▸ rfl⟩
  rw [components_suffixed h, components_suffixed h] at heq
  have hnames := (List.append_inj' heq rfl).2
  exact (numbered_inj h).1 (String.toList_inj.1 (by simpa using hnames))

theorem components_suffixed_ne (h : fileName? path = some name) (n : Nat) :
    components (suffixed path n).toList ≠ components path.toList := by
  intro heq
  have hfile := fileName?_suffixed h n
  rw [fileName?_eq_some, heq, ← fileName?_eq_some, h] at hfile
  exact numbered_ne h n (Option.some.inj hfile).symm

/-- What the path with a number is to the path with a file name. -/
structure Numbers (path name : String) (n : Nat) : Prop where
  directory : ∃ above above', parent? path = some above ∧ parent? (suffixed path n) = some above' ∧
    components above'.toList = components above.toList
  name : (fileName? (suffixed path n)).map splitName =
    some ((splitName name).1 ++ "_" ++ toString n, (splitName name).2)
  extension : extension? (suffixed path n) = extension? path
  other : components (suffixed path n).toList ≠ components path.toList
  alone : ∀ m, components (suffixed path n).toList = components (suffixed path m).toList ↔ n = m

/-- **A number makes another name in the same directory**, each number another one. -/
theorem numbers_suffixed (h : fileName? path = some name) (n : Nat) : Numbers path name n where
  directory := parent?_suffixed h n
  name := by rw [fileName?_suffixed h, Option.map_some, splitName_numbered h]
  extension := by
    rw [extension?, extension?, fileName?_suffixed h, h, Option.bind_some, Option.bind_some,
      splitName_numbered h]
  other := components_suffixed_ne h n
  alone _ := components_suffixed_inj h

/-- Another file name in place of its own leaves a path in its directory. -/
theorem IsChild.withFileName {other : String} (h : IsChild directory path)
    (hother : IsFileName other) : IsChild directory (withFileName path other) := by
  obtain ⟨name, hname, hroute⟩ := h
  obtain ⟨above, habove, hbefore⟩ := route_parent? hroute nofun
  have hfile := fileName?_of_route hroute
  rw [Path.withFileName, hfile, Option.isSome_some, if_pos rfl, habove, Option.getD_some]
  exact ⟨other, hother, by rw [route_name hother, hbefore]⟩

/-- So does a number in it. -/
theorem IsChild.suffixed (h : IsChild directory path) (n : Nat) :
    IsChild directory (suffixed path n) := by
  rw [suffixed_eq]
  exact h.withFileName (isFileName_numbered path n)

end Docsmith.Path
