import Docsmith.Proofs.FileTree.LinkFree
import Docsmith.Proofs.Path.Child
/-!
# File trees — the places on the way

A path names places on its way, and where none of them is a link, what
stands there decides what becomes of the path: it leads to a directory
exactly if directories stand at all of them (`isDirectory_iff`), and else
something is missing or in the way at the first place without one
(`exists_gap`). Paths with one route name the same places in the same order,
however they are spelt (`way_eq_of_route`).
-/


namespace Docsmith.FileTree

open Docsmith.Path Text

variable {t : FileTree} {through : Bool} {links : Nat} {here directory place : Place}
variable {path other piece : String} {before rest : List String} {content : ByteArray}

/-! ## Steps -/

/-- The piece that a component stands for, but for the root and the dot. -/
def stepOf? : Component → Option String
  | .root | .current => none
  | .parent => some ".."
  | .name s => some (String.ofList s)

/-- The pieces of a path that make a difference. -/
def steps (path : String) : List String :=
  (pieces path).filter (· != ".")

/-- A slash at the end makes no step. -/
theorem steps_eq_names (path : String) : steps path = (names path).filter (· != ".") := by
  have hend : (if ((splitChar '/' path.toList).map String.ofList).getLast? == some "" then ["."]
      else ([] : List String)).filter (· != ".") = [] := by
    split <;> rfl
  unfold steps pieces
  rw [List.filter_append, hend, List.append_nil]
  rfl

/-- The steps of a path are those of its route. -/
theorem steps_eq_route (path : String) : steps path = (route path).filterMap stepOf? := by
  have hrooted : (rooted (splitChar '/' path.toList)).filterMap stepOf? = [] := by
    unfold rooted
    split <;> rfl
  have hpiece : ∀ piece : List Char, (ofPiece? piece).bind stepOf? =
      if !(String.ofList piece).isEmpty && (String.ofList piece != ".") then
        some (String.ofList piece) else none := by
    intro piece
    unfold ofPiece?
    split
    · rfl
    · rfl
    · rfl
    · next hempty hdot _ =>
      have hne : String.ofList piece ≠ "" := by simpa using hempty
      have hne' : String.ofList piece ≠ "." := fun h =>
        hdot (by simpa using congrArg String.toList h)
      simp [stepOf?, hne, hne']
  rw [route_eq, List.filterMap_append, hrooted, List.nil_append, List.filterMap_filterMap,
    steps_eq_names, names, List.filter_filter, List.filter_map, ← List.filterMap_eq_map',
    ← List.filterMap_eq_filter, List.filterMap_filterMap]
  refine List.filterMap_congr fun piece _ => ?_
  rw [hpiece]
  simp only [Function.comp_apply, Option.guard]
  split <;> split <;> simp_all

/-- An absolute path is one with the root on its route. -/
theorem start_eq_route (here : Place) (path : String) :
    start here path = if (route path).head? = some .root then [] else here := by
  have hnames : ∀ rest : List (List Char), (rest.filterMap ofPiece?).head? ≠ some .root := by
    intro rest h
    obtain ⟨piece, -, hpiece⟩ := List.mem_filterMap.1 (List.mem_of_head? h)
    unfold ofPiece? at hpiece
    split at hpiece <;> cases hpiece
  rw [route_eq, start]
  cases htext : path.toList with
  | nil => exact if_neg (by decide)
  | cons c text =>
    by_cases hslash : c = '/'
    · subst hslash
      have hsplit : splitChar '/' ('/' :: text) = [] :: splitChar '/' text :=
        splitChar_append_cons '/' [] text
      obtain ⟨first, more, hmore⟩ := List.exists_cons_of_ne_nil (splitChar_ne_nil '/' text)
      rw [hsplit, hmore]
      rfl
    · have hfirst : ∀ below, splitChar '/' (c :: text) ≠ [] :: below := by
        intro below h
        obtain ⟨piece, more, hmore⟩ := List.exists_cons_of_ne_nil (splitChar_ne_nil '/' text)
        unfold splitChar at h hmore
        rw [splitBy_cons_of_neg (by simpa using hslash) hmore] at h
        cases h
      have hrooted : rooted (splitChar '/' (c :: text)) = [] := by
        unfold rooted
        split
        · next h => exact absurd h (hfirst _)
        · rfl
      rw [hrooted, List.nil_append, if_neg (hnames _), if_neg (by simpa using hslash)]

/-- There are no more steps than characters. -/
theorem length_steps_le (path : String) : (steps path).length ≤ path.length := by
  have hpieces : ∀ text : List Char,
      ((splitChar '/' text).filter (!·.isEmpty)).length ≤ text.length := by
    intro text
    induction text with
    | nil => exact Nat.le_refl _
    | cons c text ih =>
      by_cases hslash : (c == '/') = true
      · have hsplit : splitChar '/' (c :: text) = [] :: splitChar '/' text :=
          splitBy_cons_of_pos hslash
        rw [hsplit]
        exact Nat.le_succ_of_le ih
      · obtain ⟨piece, more, hmore⟩ := List.exists_cons_of_ne_nil (splitChar_ne_nil '/' text)
        rw [hmore] at ih
        rw [splitChar, splitBy_cons_of_neg (by simpa using hslash) hmore]
        cases piece with
        | nil => simpa using ih
        | cons d piece => exact Nat.le_succ_of_le (by simpa using ih)
  have hnames : (names path).length = ((splitChar '/' path.toList).filter (!·.isEmpty)).length := by
    have hempty : (fun piece : List Char => !(String.ofList piece).isEmpty) = (!·.isEmpty) := by
      funext piece
      cases piece <;> simp
    rw [names, List.filter_map, List.length_map]
    exact congrArg (fun p => ((splitChar '/' path.toList).filter p).length) hempty
  rw [steps_eq_names]
  refine (List.length_filter_le _ _).trans ?_
  rw [hnames]
  exact hpieces path.toList

/-! ## The places that pieces name -/

/-- The places that pieces name, one after the other. -/
def passes : Place → List String → List Place
  | _, [] => []
  | directory, piece :: rest =>
    if piece = "." then passes directory rest
    else if piece = ".." then passes directory.dropLast rest
    else (directory ++ [piece]) :: passes (directory ++ [piece]) rest

/-- The places that a path names on its way. -/
def way (here : Place) (path : String) : List Place :=
  passes (start here path) (pieces path)

theorem passes_append (directory : Place) (before rest : List String) :
    passes directory (before ++ rest) =
      passes directory before ++ passes (byName directory before) rest := by
  induction before generalizing directory with
  | nil => rfl
  | cons piece before ih =>
    rw [List.cons_append, passes, passes, byName]
    split_ifs
    · exact ih directory
    · exact ih directory.dropLast
    · rw [ih, List.cons_append]

theorem byName_append (directory : Place) (before rest : List String) :
    byName directory (before ++ rest) = byName (byName directory before) rest := by
  induction before generalizing directory with
  | nil => rfl
  | cons piece before ih =>
    rw [List.cons_append, byName, byName]
    split_ifs
    · exact ih directory
    · exact ih directory.dropLast
    · exact ih (directory ++ [piece])

/-- Dots name nothing. -/
theorem passes_filter (directory : Place) (rest : List String) :
    passes directory (rest.filter (· != ".")) = passes directory rest := by
  induction rest generalizing directory with
  | nil => rfl
  | cons piece rest ih =>
    by_cases hdot : piece = "."
    · rw [List.filter_cons_of_neg (by simpa using hdot), passes, if_pos hdot, ih]
    · rw [List.filter_cons_of_pos (by simpa using hdot), passes, passes, if_neg hdot, if_neg hdot,
        ih, ih]

theorem byName_filter (directory : Place) (rest : List String) :
    byName directory (rest.filter (· != ".")) = byName directory rest := by
  induction rest generalizing directory with
  | nil => rfl
  | cons piece rest ih =>
    by_cases hdot : piece = "."
    · rw [List.filter_cons_of_neg (by simpa using hdot), byName, if_pos hdot, ih]
    · rw [List.filter_cons_of_pos (by simpa using hdot), byName, byName, if_neg hdot, if_neg hdot,
        ih, ih]

theorem way_eq_steps (here : Place) (path : String) :
    way here path = passes (start here path) (steps path) :=
  (passes_filter _ _).symm

theorem spelt_eq_steps (here : Place) (path : String) :
    spelt here path = byName (start here path) (steps path) :=
  (byName_filter _ _).symm

/-- **Paths of one route name the same places.** -/
theorem way_eq_of_route (h : route path = route other) (here : Place) :
    way here path = way here other := by
  rw [way_eq_steps, way_eq_steps, steps_eq_route, steps_eq_route, start_eq_route, start_eq_route, h]

theorem spelt_eq_of_route (h : route path = route other) (here : Place) :
    spelt here path = spelt here other := by
  rw [spelt_eq_steps, spelt_eq_steps, steps_eq_route, steps_eq_route, start_eq_route,
    start_eq_route, h]

/-! ## Directories on the way -/

/-- A directory stands at the place, and its name is one that can be asked for. -/
def Stands (t : FileTree) (place : Place) : Prop :=
  t.get? place = some .directory ∧ ∀ name ∈ place.getLast?, fits name = true

/-- A directory stands at the place or could be made there. -/
def Admits (t : FileTree) (place : Place) : Prop :=
  (t.get? place = none ∨ t.get? place = some .directory) ∧ ∀ name ∈ place.getLast?, fits name = true

theorem Stands.admits (h : t.Stands place) : t.Admits place :=
  ⟨.inr h.1, h.2⟩

/-- A name stands for a directory, so that it is entered. -/
theorem Stands.isName (h : t.Stands (directory ++ [piece])) (hdot : piece ≠ ".")
    (hdots : piece ≠ "..") : IsName piece :=
  ⟨hdot, hdots, h.2 piece (by simp)⟩

/-- **Directories are gone through.** -/
theorem follow_append (h : ∀ place ∈ passes directory before, t.Stands place) (rest : List String) :
    t.follow through links directory (before ++ rest) =
      t.follow through links (byName directory before) rest := by
  induction before generalizing directory with
  | nil => rfl
  | cons piece before ih =>
    rw [List.cons_append, byName]
    rw [passes] at h
    split_ifs at h ⊢ with hdot hdots
    · rw [hdot, follow_dot, ih h]
    · rw [hdots, follow_dotdot, ih h]
    · have hfirst := h _ List.mem_cons_self
      rw [follow_directory (hfirst.isName hdot hdots) hfirst.1,
        ih fun place hp => h place (List.mem_cons_of_mem _ hp)]

theorem follow_of_stands (h : ∀ place ∈ passes directory rest, t.Stands place) :
    t.follow through links directory rest = .ok (.directory (byName directory rest)) := by
  have hfollow : t.follow through links directory (rest ++ []) =
      t.follow through links (byName directory rest) [] := follow_append h []
  rwa [List.append_nil, follow_nil] at hfollow

/-- **The first place without a directory**, if there is one. -/
theorem exists_gap (t : FileTree) (directory : Place) (rest : List String) :
    (∀ place ∈ passes directory rest, t.Stands place) ∨
      ∃ before piece after, rest = before ++ piece :: after ∧ piece ≠ "." ∧ piece ≠ ".." ∧
        (∀ place ∈ passes directory before, t.Stands place) ∧
        ¬ t.Stands (byName directory before ++ [piece]) := by
  induction rest generalizing directory with
  | nil => exact .inl nofun
  | cons piece rest ih =>
    by_cases hdot : piece = "."
    · subst hdot
      rcases ih directory with h | ⟨before, next, after, rfl, hne, hne', hbefore, hgap⟩
      · exact .inl (by rwa [passes, if_pos rfl])
      · exact .inr ⟨"." :: before, next, after, rfl, hne, hne', by rwa [passes, if_pos rfl],
          by rwa [byName_dot]⟩
    · by_cases hdots : piece = ".."
      · subst hdots
        rcases ih directory.dropLast with h | ⟨before, next, after, rfl, hne, hne', hbefore, hgap⟩
        · exact .inl (by rwa [passes, if_neg hdot, if_pos rfl])
        · exact .inr ⟨".." :: before, next, after, rfl, hne, hne',
            by rwa [passes, if_neg hdot, if_pos rfl], by rwa [byName_dotdot]⟩
      · by_cases hhere : t.Stands (directory ++ [piece])
        · have hname := hhere.isName hdot hdots
          rcases ih (directory ++ [piece]) with
            h | ⟨before, next, after, rfl, hne, hne', hbefore, hgap⟩
          · refine .inl ?_
            rw [passes, if_neg hdot, if_neg hdots]
            exact List.forall_mem_cons.2 ⟨hhere, h⟩
          · refine .inr ⟨piece :: before, next, after, rfl, hne, hne', ?_,
              by rwa [byName_cons hname]⟩
            rw [passes, if_neg hdot, if_neg hdots]
            exact List.forall_mem_cons.2 ⟨hhere, hbefore⟩
        · exact .inr ⟨[], piece, rest, rfl, hdot, hdots, nofun, hhere⟩

/-- Behind directories the next name is one of the places on the way. -/
theorem mem_passes_gap {after : List String} (hdot : piece ≠ ".") (hdots : piece ≠ "..") :
    byName directory before ++ [piece] ∈ passes directory (before ++ piece :: after) := by
  rw [passes_append, passes, if_neg hdot, if_neg hdots]
  exact List.mem_append_right _ List.mem_cons_self

/-- A way along places without links leads to a directory through directories only. -/
theorem stands_of_leads {spot : Spot} (h : t.Leads through links directory rest spot)
    (hspot : ¬ spot.IsEntry)
    (hlinks : ∀ place ∈ passes directory rest, ∀ target, t.get? place ≠ some (.link target)) :
    ∀ place ∈ passes directory rest, t.Stands place := by
  induction h with
  | stop => exact nofun
  | stay _ ih =>
    rw [passes, if_pos rfl] at hlinks ⊢
    exact ih hspot hlinks
  | climb _ ih =>
    rw [passes, if_neg (by decide), if_pos rfl] at hlinks ⊢
    exact ih hspot hlinks
  | enter hn hg _ ih =>
    rw [passes, if_neg hn.1, if_neg hn.2.1] at hlinks ⊢
    refine List.forall_mem_cons.2 ⟨⟨hg, fun name hname => ?_⟩,
      ih hspot fun place hp => hlinks place (List.mem_cons_of_mem _ hp)⟩
    obtain rfl : _ = name := by simpa using hname
    exact hn.2.2
  | file | missing | link => exact absurd trivial hspot
  | jump hn hg _ _ _ _ =>
    rw [passes, if_neg hn.1, if_neg hn.2.1] at hlinks
    exact absurd hg (hlinks _ List.mem_cons_self _)

/-- **A path along places without links leads to a directory** exactly if directories
stand at all of them. -/
theorem isDirectory_iff (hne : path ≠ "")
    (hlinks : ∀ place ∈ way here path, ∀ target, t.get? place ≠ some (.link target)) :
    t.isDirectory here path = true ↔ ∀ place ∈ way here path, t.Stands place := by
  have hresolve : t.resolve here path = t.follow true 40 (start here path) (pieces path) := by
    rw [resolve, trace, if_neg (by simpa using hne)]
  rw [isDirectory, hresolve]
  constructor
  · intro h
    split at h
    · next hfollow => exact stands_of_leads (follow_eq_ok_iff.1 hfollow) id hlinks
    · cases h
  · intro h
    rw [follow_of_stands h]

end Docsmith.FileTree
