import Docsmith.Path
import Docsmith.Proofs.Text.Split
import Mathlib.Tactic.SplitIfs
/-!
# Paths — names

The components of a directory with a name appended are those of the
directory and the name (`components_join`), whatever slashes and dots the
directory is spelt with. Two such paths have the same components exactly if
the directories do and the names are the same (`components_join_inj`).

A file name is a piece between slashes, so it holds none, and neither does
the name with a number that a second document gets. Such a name is a stem,
an underscore, the digits of the number and, where the name has one, the
extension after a dot (`numbered_toList`).
-/


namespace Docsmith.Path

open Text

/-! ## Appending a name -/

section Appending

variable {directory name other : String}

/-- A text that is the name of something: not empty, without slashes, and
not the directory itself or the one above. -/
structure IsFileName (name : String) : Prop where
  ne_empty : name ≠ ""
  ne_dot : name ≠ "."
  ne_dotdot : name ≠ ".."
  no_slash : '/' ∉ name.toList

instance (name : String) : Decidable (IsFileName name) :=
  decidable_of_iff (name ≠ "" ∧ name ≠ "." ∧ name ≠ ".." ∧ '/' ∉ name.toList)
    ⟨fun ⟨h₁, h₂, h₃, h₄⟩ => ⟨h₁, h₂, h₃, h₄⟩, fun ⟨h₁, h₂, h₃, h₄⟩ => ⟨h₁, h₂, h₃, h₄⟩⟩

theorem IsFileName.ofPiece?_eq (h : IsFileName name) :
    ofPiece? name.toList = some (.name name.toList) := by
  have hdot : name.toList ≠ ['.'] := fun he =>
    h.ne_dot (String.toList_inj.1 (he.trans (by decide)))
  have hdots : name.toList ≠ ['.', '.'] := fun he =>
    h.ne_dotdot (String.toList_inj.1 (he.trans (by decide)))
  have hnil : name.toList ≠ [] := fun he => h.ne_empty (String.toList_eq_nil_iff.1 he)
  unfold ofPiece?
  split
  · next he => exact absurd he hnil
  · next he => exact absurd he hdot
  · next he => exact absurd he hdots
  · rfl

theorem filterMap_name (h : IsFileName name) :
    [name.toList].filterMap ofPiece? = [.name name.toList] := by
  rw [List.filterMap_cons_some h.ofPiece?_eq, List.filterMap_nil]

/-- What the first pieces of a path stand for. -/
def leading : List (List Char) → List Component
  | [] :: _ :: _ => [.root]
  | ['.'] :: _ => [.current]
  | _ => []

theorem leading_of_name (h : IsFileName name) : leading [name.toList] = [] := by
  have hdot : name.toList ≠ ['.'] := fun he =>
    h.ne_dot (String.toList_inj.1 (he.trans (by decide)))
  unfold leading
  split <;> simp_all

theorem components_eq (text : List Char) :
    components text = leading (splitChar '/' text) ++ (splitChar '/' text).filterMap ofPiece? := by
  unfold components leading
  rfl

/-- The last of several pieces does not matter for the first ones. -/
theorem leading_concat_congr {pieces : List (List Char)} (hne : pieces ≠ []) (piece other : List Char) :
    leading (pieces ++ [piece]) = leading (pieces ++ [other]) := by
  match pieces with
  | [] => exact absurd rfl hne
  | [first] =>
    rw [List.singleton_append, List.singleton_append]
    unfold leading
    split <;> split <;> simp_all
  | first :: second :: rest =>
    rw [List.cons_append, List.cons_append, List.cons_append, List.cons_append]
    unfold leading
    split <;> split <;> simp_all

/-- Nor does one after them, if there is more before it than one empty
piece. -/
theorem leading_concat {pieces : List (List Char)} (hne : pieces ≠ []) (hempty : pieces ≠ [[]])
    (piece : List Char) : leading (pieces ++ [piece]) = leading pieces := by
  match pieces with
  | [] => exact absurd rfl hne
  | [[]] => exact absurd rfl hempty
  | [c :: text] =>
    rw [List.singleton_append]
    unfold leading
    split <;> split <;> simp_all
  | first :: second :: rest =>
    rw [List.cons_append, List.cons_append]
    unfold leading
    split <;> split <;> simp_all

/-- A path that starts with no slash is relative. -/
theorem isAbsolute_of_head (h : name.toList.head? ≠ some '/') : isAbsolute name = false := by
  rw [isAbsolute, beq_eq_false_iff_ne]
  exact h

/-- The pieces of a directory with a relative path appended: a slash comes
between them, unless the directory is empty or ends with one. -/
theorem splitChar_join_relative (h : isAbsolute name = false) (directory : String) :
    directory = "" ∧ splitChar '/' (join directory name).toList = splitChar '/' name.toList ∨
      ∃ before ≠ [], splitChar '/' (join directory name).toList =
          before ++ splitChar '/' name.toList ∧
        (splitChar '/' directory.toList = before ++ [[]] ∨
          directory ≠ "" ∧ splitChar '/' directory.toList = before) := by
  rw [join, h, if_neg Bool.false_ne_true]
  split_ifs with hd
  · rcases Bool.or_eq_true _ _ ▸ hd with hd | hd
    · obtain rfl : directory = "" := by simpa using hd
      exact .inl ⟨rfl, by rw [String.empty_append]⟩
    · obtain ⟨before, hb⟩ : ∃ before, directory.toList = before ++ ['/'] :=
        List.getLast?_eq_some_iff.1 (by simpa using hd)
      refine .inr ⟨splitChar '/' before, splitChar_ne_nil _ _, ?_, .inl ?_⟩
      · rw [String.toList_append, hb, List.append_assoc, List.singleton_append,
          splitChar_append_cons]
      · rw [hb, splitChar_append_cons]
        rfl
  · refine .inr ⟨splitChar '/' directory.toList, splitChar_ne_nil _ _, ?_, .inr ⟨?_, rfl⟩⟩
    · rw [String.toList_append, String.toList_append, List.append_assoc,
        show "/".toList ++ name.toList = '/' :: name.toList from rfl, splitChar_append_cons]
    · rintro rfl
      exact hd rfl

/-- With a name appended, it is the last piece. -/
theorem splitChar_join_cases (hs : '/' ∉ name.toList) (directory : String) :
    directory = "" ∧ splitChar '/' (join directory name).toList = [name.toList] ∨
      ∃ before ≠ [], splitChar '/' (join directory name).toList = before ++ [name.toList] ∧
        (splitChar '/' directory.toList = before ++ [[]] ∨
          directory ≠ "" ∧ splitChar '/' directory.toList = before) := by
  have habs : isAbsolute name = false :=
    isAbsolute_of_head fun h => hs (List.mem_of_mem_head? h)
  have hcases := splitChar_join_relative habs directory
  rwa [splitChar_of_not_mem hs] at hcases

/-- **The components of a directory and of a name in it.** -/
theorem components_join (h : IsFileName name) (directory : String) :
    components (join directory name).toList = components directory.toList ++ [.name name.toList] := by
  rw [components_eq, components_eq]
  rcases splitChar_join_cases h.no_slash directory with ⟨rfl, hj⟩ |
    ⟨before, hne, hj, hd | ⟨hdir, hd⟩⟩
  · rw [hj, leading_of_name h, filterMap_name h]
    rfl
  · rw [hj, hd, leading_concat_congr hne name.toList [], List.filterMap_append,
      List.filterMap_append, filterMap_name h, List.append_assoc, List.append_assoc]
    rfl
  · have hempty : before ≠ [[]] := by
      rintro rfl
      exact hdir (String.toList_eq_nil_iff.1 (eq_nil_of_splitBy hd))
    rw [hj, hd, leading_concat hne hempty, List.filterMap_append, filterMap_name h,
      List.append_assoc]

/-- **Names in directories**: the paths have the same components exactly if
the directories have and the names are the same. -/
theorem components_join_inj (h : IsFileName name) (h' : IsFileName other) {directory' : String} :
    components (join directory name).toList = components (join directory' other).toList ↔
      components directory.toList = components directory'.toList ∧ name = other := by
  rw [components_join h, components_join h']
  constructor
  · intro he
    obtain ⟨hd, hn⟩ := List.append_inj' he rfl
    exact ⟨hd, String.toList_inj.1 (by simpa using hn)⟩
  · rintro ⟨hd, rfl⟩
    rw [hd]

end Appending

/-! ## Names and numbers in them -/

section Numbering

variable {path name stem : String} {text : List Char} {n : Nat}

/-- A name among the components is a piece of the path, and it is neither
empty nor made of one or two dots. -/
theorem mem_splitChar_of_name_mem {s : List Char} (h : .name s ∈ components text) :
    s ∈ splitChar '/' text ∧ s ≠ [] ∧ s ≠ ['.'] ∧ s ≠ ['.', '.'] := by
  unfold components at h
  have hm : Component.name s ∈ (splitChar '/' text).filterMap ofPiece? := by
    rcases List.mem_append.1 h with h | h
    · split at h <;> simp at h
    · exact h
  obtain ⟨piece, hp, ho⟩ := List.mem_filterMap.1 hm
  unfold ofPiece? at ho
  split at ho
  · cases ho
  · cases ho
  · cases ho
  · next h1 h2 h3 =>
    cases ho
    exact ⟨hp, h1, h2, h3⟩

/-- A file name is the last component. -/
theorem fileName?_eq_some : fileName? path = some name ↔
    (components path.toList).getLast? = some (.name name.toList) := by
  unfold fileName?
  constructor
  · intro h
    split at h
    · next s hs =>
      cases h
      rw [hs, String.toList_ofList]
    · cases h
  · intro h
    rw [h]
    simp

/-- The file name of a path can be that of something. -/
theorem isFileName_of_fileName? (h : fileName? path = some name) : IsFileName name := by
  obtain ⟨hpiece, hnil, hdot, hdots⟩ :=
    mem_splitChar_of_name_mem (List.mem_of_getLast? (fileName?_eq_some.1 h))
  refine ⟨?_, ?_, ?_, not_mem_of_mem_splitChar hpiece⟩ <;> rintro rfl
  · exact hnil rfl
  · exact hdot (by decide)
  · exact hdots (by decide)

theorem slash_not_mem_fileName (h : fileName? path = some name) : '/' ∉ name.toList :=
  not_mem_of_mem_splitChar
    (mem_splitChar_of_name_mem (List.mem_of_getLast? (fileName?_eq_some.1 h))).1

/-- A name with an extension is its stem, a dot and the extension, which
holds no dot. -/
theorem splitName_some {extension : String} (h : splitName name = (stem, some extension)) :
    name.toList = stem.toList ++ '.' :: extension.toList ∧ '.' ∉ extension.toList := by
  unfold splitName at h
  split_ifs at h
  · cases h
  split at h
  · cases h
  · cases h
  · next before after _ hs =>
    cases h
    simpa using splitLast?_singleton hs

/-- A name without one is its stem. -/
theorem splitName_none (h : splitName name = (stem, none)) : stem = name := by
  unfold splitName at h
  split_ifs at h
  · cases h; rfl
  · split at h <;> cases h <;> rfl

/-- A name whose only dot may be its first character is its stem. -/
theorem splitName_of_tail (h : '.' ∉ name.toList.tail) : splitName name = (name, none) := by
  unfold splitName
  split_ifs
  · rfl
  · split
    · rfl
    · rfl
    · next before after hne hs =>
      obtain ⟨hname, -⟩ := splitLast?_singleton hs
      obtain ⟨c, rest, rfl⟩ := List.exists_cons_of_ne_nil hne
      rw [hname] at h
      simp at h

/-- And a name that is its stem has no other dot. -/
theorem dot_not_mem_tail (h : splitName name = (stem, none)) (hdots : name ≠ "..") :
    '.' ∉ name.toList.tail := by
  unfold splitName at h
  rw [if_neg hdots] at h
  split at h
  · next hs =>
    intro hmem
    obtain ⟨before, after, hname⟩ := List.append_of_mem (List.mem_of_mem_tail hmem)
    exact splitLast?_eq_none.1 hs before after (by simpa using hname)
  · next after hs =>
    obtain ⟨hname, hdot⟩ := splitLast?_singleton hs
    rwa [hname]
  · cases h

/-- A name with a dot behind a stem is cut at its last one. -/
theorem splitName_of_eq_append {front extension : List Char} (hfront : front ≠ [])
    (hdot : '.' ∉ extension) (hdots : name ≠ "..") (h : name.toList = front ++ '.' :: extension) :
    splitName name = (String.ofList front, some (String.ofList extension)) := by
  unfold splitName
  rw [if_neg hdots, h, splitLast?_append_cons _ hdot]
  split
  · next hs => cases hs
  · next hs =>
    cases hs
    exact absurd rfl hfront
  · next hs =>
    cases hs
    rfl

/-! ## Names with a number -/

/-- The file name of a path with a number before its extension. -/
def numbered (path : String) (n : Nat) : String :=
  match ((fileName? path).map splitName).getD ("", none) with
  | (stem, some extension) => stem ++ "_" ++ toString n ++ "." ++ extension
  | (stem, none) => stem ++ "_" ++ toString n

theorem suffixed_eq (path : String) (n : Nat) :
    suffixed path n = withFileName path (numbered path n) := by
  unfold suffixed numbered
  rcases ((fileName? path).map splitName).getD ("", none) with ⟨stem, _ | extension⟩ <;> rfl

/-- The digits of a number. -/
theorem isDigit_of_mem_toString {c : Char} (h : c ∈ (toString n).toList) : c.isDigit = true := by
  rw [Nat.toString_eq_repr, Nat.toList_repr] at h
  exact Nat.isDigit_of_mem_toDigits (by decide) (by decide) h

theorem toList_toString_ne_nil (n : Nat) : (toString n).toList ≠ [] := by
  rw [Nat.toString_eq_repr, Nat.toList_repr]
  exact Nat.toDigits_ne_nil

/-- **A name with a number**: a stem, an underscore, the digits and, if
there is an extension, a dot and the extension. Stem and extension hold no
slash, and the extension no dot. -/
theorem numbered_toList (path : String) (n : Nat) : ∃ stem tail : List Char,
    (numbered path n).toList = stem ++ '_' :: (toString n).toList ++ tail ∧ '/' ∉ stem ∧
      (tail = [] ∨ ∃ extension, tail = '.' :: extension ∧ '.' ∉ extension ∧ '/' ∉ extension) := by
  unfold numbered
  cases hf : fileName? path with
  | none => exact ⟨[], [], by simp, by simp, .inl rfl⟩
  | some name =>
    have hslash := slash_not_mem_fileName hf
    rw [Option.map_some, Option.getD_some]
    rcases hs : splitName name with ⟨stem, _ | extension⟩
    · obtain rfl := splitName_none hs
      exact ⟨stem.toList, [], by simp, hslash, .inl rfl⟩
    · obtain ⟨hname, hdot⟩ := splitName_some hs
      rw [hname] at hslash
      have hparts : '/' ∉ stem.toList ∧ '/' ∉ extension.toList := by simp_all
      exact ⟨stem.toList, '.' :: extension.toList, by simp, hparts.1,
        .inr ⟨extension.toList, rfl, hdot, hparts.2⟩⟩

theorem slash_not_mem_numbered (path : String) (n : Nat) : '/' ∉ (numbered path n).toList := by
  obtain ⟨stem, tail, h, hstem, htail⟩ := numbered_toList path n
  have hdigits : '/' ∉ (toString n).toList := fun hm => by
    have := isDigit_of_mem_toString hm
    exact absurd this (by decide)
  rw [h]
  rcases htail with rfl | ⟨extension, rfl, -, he⟩ <;> simp_all

theorem underscore_mem_numbered (path : String) (n : Nat) : '_' ∈ (numbered path n).toList := by
  obtain ⟨stem, tail, h, -, -⟩ := numbered_toList path n
  rw [h]
  simp

/-- A numbered name is never the directory above. -/
theorem numbered_ne_dotdot (path : String) (n : Nat) : numbered path n ≠ ".." := by
  intro he
  have := underscore_mem_numbered path n
  rw [he] at this
  exact absurd this (by decide)

theorem numbered_ne_empty (path : String) (n : Nat) : numbered path n ≠ "" := by
  intro he
  have := underscore_mem_numbered path n
  rw [he] at this
  exact absurd this (by decide)

theorem isFileName_numbered (path : String) (n : Nat) : IsFileName (numbered path n) where
  ne_empty := numbered_ne_empty path n
  ne_dot he := by
    have hunderscore := underscore_mem_numbered path n
    rw [he] at hunderscore
    exact absurd hunderscore (by decide)
  ne_dotdot := numbered_ne_dotdot path n
  no_slash := slash_not_mem_numbered path n

/-- **A number goes to the end of the stem**, and the extension stays. -/
theorem splitName_numbered (h : fileName? path = some name) (n : Nat) :
    splitName (numbered path n) =
      ((splitName name).1 ++ "_" ++ toString n, (splitName name).2) := by
  have hdots := numbered_ne_dotdot path n
  have hnumbered : numbered path n = match splitName name with
      | (stem, some extension) => stem ++ "_" ++ toString n ++ "." ++ extension
      | (stem, none) => stem ++ "_" ++ toString n := by
    rw [numbered, h]
    rfl
  rw [hnumbered] at hdots ⊢
  have hdigits : '.' ∉ (toString n).toList := fun hmem =>
    absurd (isDigit_of_mem_toString hmem) (by decide)
  rcases hs : splitName name with ⟨stem, _ | extension⟩
  · obtain rfl := splitName_none hs
    have hfile := isFileName_of_fileName? h
    have htail := dot_not_mem_tail hs hfile.ne_dotdot
    obtain ⟨c, rest, hstem⟩ := List.exists_cons_of_ne_nil
      (mt String.toList_eq_nil_iff.1 hfile.ne_empty)
    rw [hstem] at htail
    refine splitName_of_tail ?_
    simp_all
  · obtain ⟨-, hdot⟩ := splitName_some hs
    rw [hs] at hdots
    have hfront : (stem ++ "_" ++ toString n).toList ≠ [] := by simp
    have hcut := splitName_of_eq_append hfront hdot hdots (by simp)
    rwa [String.ofList_toList, String.ofList_toList] at hcut

/-- **The name tells the number.** -/
theorem numbered_inj {m : Nat} (h : fileName? path = some name) :
    numbered path n = numbered path m ↔ n = m := by
  refine ⟨fun heq => ?_, fun heq => heq ▸ rfl⟩
  have hstems := (splitName_numbered h n).symm.trans (heq ▸ splitName_numbered h m)
  have hdigits : Nat.toDigits 10 n = Nat.toDigits 10 m := by
    simpa using congrArg (fun parts => parts.1.toList) hstems
  simpa using congrArg (Nat.ofDigitChars 10 · 0) hdigits

theorem numbered_ne (h : fileName? path = some name) (n : Nat) : numbered path n ≠ name := by
  intro heq
  have hstems := (splitName_numbered h n).symm.trans (congrArg splitName heq)
  have hlength := congrArg (fun parts => parts.1.toList.length) hstems
  simp at hlength

end Numbering

end Docsmith.Path
