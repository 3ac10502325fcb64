import Docsmith.Diagram.PlantUml
import Docsmith.Proofs.Diagram.FileName
import Docsmith.Proofs.Element.Ownership
import Docsmith.Proofs.Text.Layout
import Docsmith.Time.Stamp
/-!
# Diagrams — what is left of free text

A diagram shows of a class or a member its name, and otherwise only texts that are made
from free text or chosen by it: an identifier, a type, a signature or the parameters cut
to fifty characters, a keyword, a mark. Whatever the free text is, the only blanks in
those are spaces (`isSpaced_shorten`, `isSpaced_memberType`), and a text that is cut is
short (`length_shorten_le`). So it is with the stamp of a page (`isSpaced_stamp`).
-/


namespace Docsmith.Diagram

open Docsmith.Text

variable {name text : String} {c : Char}

/-! ## Identifiers -/

theorem isBlank_of_isDigit (h : c.isDigit = true) : isBlank c = false := by
  obtain ⟨hlow, hhigh⟩ := Bool.and_eq_true_iff.1 h
  have hlow : 48 ≤ c.toNat := (of_decide_eq_true hlow : c.val ≥ '0'.val)
  have hhigh : c.toNat ≤ 57 := (of_decide_eq_true hhigh : c.val ≤ '9'.val)
  exact isBlank_of_toNat (by omega) (by omega)

theorem isBlank_of_isPlain (h : isPlain c = true) : isBlank c = false := by
  rcases Bool.or_eq_true_iff.1 h with h | h
  · exact isBlank_of_toNat (toNat_of_isAlpha h).1 (toNat_of_isAlpha h).2
  · exact isBlank_of_isDigit h

theorem isBlank_of_mem_identifier (h : c ∈ (identifier name).toList) : isBlank c = false := by
  rcases mem_identifier h with h | rfl
  · exact isBlank_of_isPlain h
  · rfl

theorem isSpaced_identifier (name : String) : IsSpaced (identifier name) :=
  fun _ hc => .inr (isBlank_of_mem_identifier hc)

theorem space_not_mem_identifier (name : String) : ' ' ∉ (identifier name).toList :=
  fun h => absurd (isBlank_of_mem_identifier h) (by decide)

/-- A name whose identifier starts with a letter or a digit starts with it. -/
theorem head?_eq_of_identifier {rest : List Char} (hc : isPlain c = true)
    (h : (identifier name).toList = c :: rest) : name.toList.head? = some c := by
  rw [identifier, String.toList_map] at h
  obtain ⟨d, more, hname, hd, -⟩ := List.map_eq_cons_iff.1 h
  rw [hname, List.head?_cons, Option.some.injEq]
  split_ifs at hd
  · exact hd
  · rw [← hd] at hc
    exact absurd hc (by decide)

/-! ## Texts that are cut -/

theorem isSpaced_simplify (text : String) : IsSpaced (simplify text) := by
  intro c hc
  rw [simplify, String.toList_ofList] at hc
  exact mem_collapse hc

theorem isSpaced_truncate (h : IsSpaced text) : IsSpaced (truncate text) := by
  unfold truncate
  split_ifs
  · exact h
  · intro c hc
    rw [String.toList_ofList, List.mem_append] at hc
    rcases hc with hc | hc
    · exact h c (List.mem_of_mem_take hc)
    · obtain rfl : c = '.' := by simpa [ellipsis] using hc
      exact .inr (by decide)

theorem length_truncate_le (text : String) : (truncate text).length ≤ maxMember := by
  unfold truncate
  split_ifs with h
  · exact h
  · have hlength : text.toList.length = text.length := String.length_toList
    rw [String.length_ofList, List.length_append, List.length_take, hlength]
    simp only [maxMember, ellipsis, List.length_cons, List.length_nil] at h ⊢
    omega

/-- **The text of a member has no other blanks than spaces.** -/
theorem isSpaced_shorten (text : String) : IsSpaced (shorten text) :=
  isSpaced_truncate (isSpaced_simplify text)

/-- **It is at most fifty characters long.** -/
theorem length_shorten_le (text : String) : (shorten text).length ≤ maxMember :=
  length_truncate_le _

/-! ## Stamps -/

theorem isSpaced_padded (width n : Nat) : IsSpaced (Stamp.padded width n) := by
  refine isSpaced_append.2 ⟨fun c hc => ?_, fun c hc => ?_⟩
  · rw [String.toList_ofList] at hc
    obtain rfl := List.eq_of_mem_replicate hc
    exact .inr (by decide)
  · rw [Nat.toString_eq_repr, Nat.toList_repr] at hc
    exact .inr (isBlank_of_isDigit (Nat.isDigit_of_mem_toDigits (by decide) (by decide) hc))

/-- The stamp of a page has no other blanks than a space. -/
theorem isSpaced_stamp (moment : Stamp) : IsSpaced moment.text := by
  simp only [Stamp.text, Stamp.dateText, Stamp.timeText, isSpaced_append]
  have hpadded := isSpaced_padded
  exact ⟨⟨⟨⟨⟨⟨hpadded _ _, by decide⟩, hpadded _ _⟩, by decide⟩, hpadded _ _⟩, by decide⟩,
    ⟨⟨⟨hpadded _ _, by decide⟩, hpadded _ _⟩, by decide⟩, hpadded _ _⟩

/-! ## Words chosen by free text -/

theorem isSpaced_symbol (v : Visibility) : IsSpaced v.symbol := by
  cases v <;> decide

namespace PlantUml

/-- The words that a class may be introduced with. -/
theorem keyword_mem (c : Element) :
    keyword c ∈ ["interface", "abstract class", "enum", "class"] := by
  unfold keyword
  dsimp only
  split_ifs <;> decide

theorem isSpaced_keyword (c : Element) : IsSpaced (keyword c) := by
  have hall : ∀ word ∈ ["interface", "abstract class", "enum", "class"], IsSpaced word := by decide
  exact hall _ (keyword_mem c)

theorem isSpaced_typeOr {default : String} (h : IsSpaced default) (text : List Char) :
    IsSpaced (typeOr default text) := by
  unfold typeOr
  dsimp only
  split_ifs
  · exact h
  · exact isSpaced_simplify _

/-- A declared type is one word of the signature. -/
theorem isSpaced_declaredType? {name type : String} {signature : List Char}
    (h : declaredType? name signature = some type) : IsSpaced type := by
  unfold declaredType? at h
  dsimp only at h
  split at h
  · cases h
  · next before hbefore =>
    have hmem := (List.dropWhile_sublist _).subset
      (hbefore ▸ List.mem_cons_of_mem _ (List.mem_of_find?_eq_some h))
    -- words are what stands between blanks
    obtain ⟨word, hword, rfl⟩ := List.mem_map.1 (List.mem_reverse.1 hmem)
    intro c hc
    rw [String.toList_ofList] at hc
    exact .inr (forall_of_mem_splitBy (List.mem_filter.1 hword).1 c hc)

/-- **The type of a member has no other blanks than spaces.** -/
theorem isSpaced_memberType (m : Element) : IsSpaced (memberType m) := by
  have hdefault : IsSpaced (if m.kind == .method then "void" else "Object") := by
    split_ifs <;> decide
  unfold memberType
  dsimp only
  split
  · exact isSpaced_typeOr hdefault _
  · split
    · exact isSpaced_typeOr hdefault _
    · cases htype : declaredType? m.name m.signature.toList with
      | none => exact hdefault
      | some type => exact isSpaced_declaredType? htype

end PlantUml

end Docsmith.Diagram
