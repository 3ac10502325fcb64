import Docsmith.Proofs.Path.Name
import Docsmith.Proofs.Text.Trim
import Docsmith.FileTree.Change
import Docsmith.Sink.Disk
import Mathlib.Tactic.SplitIfs
/-!
# File trees — how paths are spelt

The pieces of a path, and of the paths made from it: one with a name
appended ends in that name (`pieces_join`), and a path above, a directory
of a document and a path without the slashes at its end have no piece that
the path has not, but for `.`, which is the name of nothing.
-/


namespace Docsmith.FileTree

open Text

variable {path directory name : String}

/-- The pieces of a path but for the one that a slash at its end makes. -/
def names (path : String) : List String :=
  ((splitChar '/' path.toList).map String.ofList).filter (!·.isEmpty)

theorem pieces_of_splitChar (before : List (List Char)) (hne : name ≠ "")
    (h : splitChar '/' path.toList = before ++ [name.toList]) :
    pieces path = (before.map String.ofList).filter (!·.isEmpty) ++ [name] := by
  rw [pieces, h]
  simp [hne]

/-- **A name appended to a path is its last piece.** -/
theorem pieces_join (hs : '/' ∉ name.toList) (hne : name ≠ "") (directory : String) :
    pieces (Path.join directory name) = names directory ++ [name] := by
  rcases Path.splitChar_join_cases hs directory with ⟨rfl, hj⟩ | ⟨before, -, hj, hd | ⟨-, hd⟩⟩
  · exact pieces_of_splitChar [] hne hj
  · rw [pieces_of_splitChar before hne hj, names, hd]
    simp
  · rw [pieces_of_splitChar before hne hj, names, hd]

/-! ## Pieces of a path and of what is made from it -/

theorem mem_pieces_of_mem_splitChar (hne : name ≠ "") (h : name.toList ∈ splitChar '/' path.toList) :
    name ∈ pieces path := by
  rw [pieces]
  refine List.mem_append_left _ (List.mem_filter.2 ⟨List.mem_map.2 ⟨_, h, ?_⟩, by simpa using hne⟩)
  exact String.ofList_toList

theorem splitChar_of_mem_pieces (h : name ∈ pieces path) :
    name = "." ∨ name ≠ "" ∧ name.toList ∈ splitChar '/' path.toList := by
  rw [pieces] at h
  rcases List.mem_append.1 h with h | h
  · obtain ⟨hm, hne⟩ := List.mem_filter.1 h
    obtain ⟨piece, hp, rfl⟩ := List.mem_map.1 hm
    exact .inr ⟨by simpa using hne, by simpa using hp⟩
  · split_ifs at h
    · exact .inl (List.mem_singleton.1 h)
    · cases h

/-- A path made of pieces of another one has no piece of its own, but for
the dot. -/
theorem mem_pieces_of_join_subset {list : List (List Char)}
    (hsub : ∀ piece ∈ list, piece ∈ splitChar '/' path.toList)
    (h : name ∈ pieces (String.ofList (Text.join ['/'] list))) : name = "." ∨ name ∈ pieces path := by
  rcases splitChar_of_mem_pieces h with h | ⟨hne, h⟩
  · exact .inl h
  rw [String.toList_ofList] at h
  by_cases hlist : list = []
  · subst hlist
    have : name.toList = [] := by simpa [Text.join, splitChar] using h
    exact absurd (String.toList_eq_nil_iff.1 this) hne
  · rw [splitChar_join hlist fun piece hp => not_mem_of_mem_splitChar (hsub piece hp)] at h
    exact .inr (mem_pieces_of_mem_splitChar hne (hsub _ h))

theorem mem_of_mem_trimPieces {list : List (List Char)} {piece : List Char}
    (h : piece ∈ Path.trimPieces list) : piece ∈ list := by
  rw [Path.trimPieces, List.mem_reverse] at h
  exact List.mem_reverse.1 (List.dropWhile_subset _ h)

theorem mem_of_mem_dropLastPiece {list : List (List Char)} {piece : List Char}
    (h : piece ∈ Path.dropLastPiece list) : piece ∈ list :=
  mem_of_mem_trimPieces (List.dropLast_subset _ (mem_of_mem_trimPieces h))

/-- **The path above has no piece of its own**, but for the dot. -/
theorem mem_pieces_of_parent? {above : String} (h : Path.parent? path = some above)
    (hm : name ∈ pieces above) : name = "." ∨ name ∈ pieces path := by
  have hroot : name ∈ pieces "/" → name = "." := by
    rw [show pieces "/" = ["."] by decide +kernel]
    exact List.mem_singleton.1
  have hempty : name ∈ pieces "" → name = "." := by
    rw [show pieces "" = ["."] by decide +kernel]
    exact List.mem_singleton.1
  -- in every other case the path above is made of pieces of the path
  have hcut : ∀ list : List (List Char), (∀ piece ∈ list, piece ∈ splitChar '/' path.toList) →
      String.ofList (Text.join ['/'] list) = above → name = "." ∨ name ∈ pieces path := by
    rintro list hsub rfl
    exact mem_pieces_of_join_subset hsub hm
  have hcons : ∀ (first : List Char) (below : List (List Char)),
      splitChar '/' path.toList = first :: below →
      ∀ piece ∈ first :: Path.dropLastPiece below, piece ∈ splitChar '/' path.toList := by
    intro first below hs piece hp
    rw [hs]
    exact List.mem_cons.2 ((List.mem_cons.1 hp).imp_right mem_of_mem_dropLastPiece)
  unfold Path.parent? at h
  split at h
  · next below hs =>
    split_ifs at h
    · exact .inl (hroot (by simpa using (Option.some.inj h) ▸ hm))
    · exact hcut _ (hcons [] below hs) (Option.some.inj h)
  · next below hs =>
    split_ifs at h
    · exact .inl (hempty (by simpa using (Option.some.inj h) ▸ hm))
    · exact hcut _ (hcons ['.'] below hs) (Option.some.inj h)
  · exact hcut _ (fun _ => mem_of_mem_dropLastPiece) (Option.some.inj h)

/-- The directory of a document has no piece of its own, but for the dot. -/
theorem mem_pieces_of_folder (h : name ∈ pieces (Disk.folder path)) :
    name = "." ∨ name ∈ pieces path := by
  have hdot : name ∈ pieces "." → name = "." := by
    rw [show pieces "." = ["."] by decide +kernel]
    exact List.mem_singleton.1
  rw [Disk.folder] at h
  split at h
  · next above ha =>
    split_ifs at h
    · exact .inl (hdot h)
    · exact mem_pieces_of_parent? ha h
  · exact .inl (hdot h)

/-- Nor has a path without the slashes at its end. -/
theorem mem_pieces_of_dropSlashes (h : name ∈ pieces (dropSlashes path)) :
    name = "." ∨ name ∈ pieces path := by
  rw [dropSlashes] at h
  split at h
  · exact .inr h
  · next kept hk =>
    rcases splitChar_of_mem_pieces h with h | ⟨hne, h⟩
    · exact .inl h
    refine .inr (mem_pieces_of_mem_splitChar hne ?_)
    rw [String.toList_ofList] at h
    obtain ⟨count, hsplit⟩ := Text.exists_append_dropAllEnd '/' path.toList
    rw [hsplit]
    cases count with
    | zero => rwa [List.replicate_zero, List.append_nil]
    | succ count =>
      rw [List.replicate_succ, splitChar_append_cons]
      exact List.mem_append_left _ h

end Docsmith.FileTree
