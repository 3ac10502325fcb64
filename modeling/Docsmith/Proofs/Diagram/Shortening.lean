import Docsmith.Proofs.Diagram.MemberText
import Docsmith.Proofs.Diagram.Qualifiers
/-!
# Diagrams — the text of a member is settled

The text of a member is stripped of type arguments, then of qualifiers, then its blanks
are collapsed, and last it is cut. None of these gives one before it anything new to do: in
what is collapsed nothing is left to strip (`isSettled_simplify`), nor is there where a
name is cut in the middle and dots are put behind it (`IsSettled.truncate`). So to
shorten a text twice is to shorten it once (`shorten_shorten`).
-/


namespace Docsmith.Diagram

open Docsmith.Text Docsmith.Unicode

variable {text : String}

/-- Nothing in the text is left to strip or to collapse. -/
structure IsSettled (text : List Char) : Prop where
  generics : '<' ∉ text
  qualifiers : IsUnqualified false text
  spacing : IsCollapsed text

theorem toList_simplify (text : String) : (simplify text).toList =
    collapse (dropQualifiers false (dropGenerics 0 text.toList)) := by
  rw [simplify, stripQualifiers, stripGenerics, String.toList_ofList, String.toList_ofList,
    String.toList_ofList]

/-- Stripping and collapsing settles a text. -/
theorem isSettled_simplify (text : String) : IsSettled (simplify text).toList where
  generics := by
    rw [toList_simplify]
    refine (collapse_iff ('<' ∉ ·) List.not_mem_nil (fun before c after hc => ?_) _).2 fun h =>
      not_mem_dropGenerics 0 text.toList ((dropQualifiers_sublist _ _).subset h)
    have hangle : c ≠ '<' := ne_of_isBlank hc (by decide)
    simp [hangle.symm]
  qualifiers := by
    rw [toList_simplify]
    refine (collapse_iff _ (isUnqualified_nil false) (fun before c after hc => ?_) _).2
      (isUnqualified_dropQualifiers false _)
    have hdot : c ≠ '.' := ne_of_isBlank hc (by decide)
    exact isUnqualified_append_cons (isIdentChar_of_isBlank hc) (by simp [qualifies_cons, hdot])
  spacing := by
    rw [toList_simplify]
    exact isCollapsed_collapse _

/-- **A settled text stays as it is.** -/
theorem simplify_of_isSettled (h : IsSettled text.toList) : simplify text = text := by
  rw [← String.toList_inj, toList_simplify, dropGenerics_of_not_mem h.generics,
    dropQualifiers_of_isUnqualified h.qualifiers, collapse_eq_self_iff.2 h.spacing]

theorem truncate_of_le (h : text.length ≤ maxMember) : truncate text = text :=
  if_pos h

theorem truncate_of_lt (h : maxMember < text.length) : truncate text =
    String.ofList (text.toList.take (maxMember - ellipsis.length) ++ ellipsis) :=
  if_neg (Nat.not_le.2 h)

/-- **A cut leaves a text settled**, wherever it falls: no identifier follows the dots. -/
theorem IsSettled.truncate (h : IsSettled text.toList) : IsSettled (truncate text).toList := by
  by_cases hlength : text.length ≤ maxMember
  · rwa [truncate_of_le hlength]
  · have hdots : ∀ c ∈ ellipsis, isBlank c = false ∧ startsIdent c = false := by
      intro c hc
      obtain rfl : c = '.' := by simpa [ellipsis] using hc
      exact ⟨by decide, by decide +kernel⟩
    rw [truncate_of_lt (Nat.not_le.1 hlength), String.toList_ofList]
    refine ⟨?_, ?_, h.spacing.take_append _ (fun c hc => (hdots c hc).1) (by decide)⟩
    · rw [List.mem_append, not_or]
      exact ⟨fun hmem => h.generics (List.mem_of_mem_take hmem), by decide⟩
    · have hstart := h.qualifiers
      rw [← List.take_append_drop (maxMember - ellipsis.length) text.toList] at hstart
      exact (isUnqualified_append_cons (by decide +kernel) (by decide +kernel)).2
        ⟨hstart.of_append, isUnqualified_of_forall fun c hc =>
          (hdots c (List.mem_cons_of_mem _ hc)).2⟩

theorem isSettled_shorten (text : String) : IsSettled (shorten text).toList :=
  (isSettled_simplify text).truncate

/-- **To shorten twice is to shorten once.** -/
theorem shorten_shorten (text : String) : shorten (shorten text) = shorten text := by
  rw [shorten, simplify_of_isSettled (isSettled_shorten text),
    truncate_of_le (length_shorten_le text)]

/-- **What the text of a member is.** It is at most fifty characters long and opens no type
arguments; it is one line in single spaces, with no blanks around it; and it stays as it
is if it is shortened again. It is what is left of the free text where that is not too long,
and otherwise the first forty-seven characters of that and three dots. -/
theorem shorten_settled (text : String) :
    (shorten text).length ≤ 50 ∧ '<' ∉ (shorten text).toList ∧
      IsLine isAnyBreak (shorten text) ∧ IsCollapsed (shorten text).toList ∧
      shorten (shorten text) = shorten text ∧
      shorten text =
        if 50 < (simplify text).length then
          String.ofList ((simplify text).toList.take 47 ++ ['.', '.', '.'])
        else simplify text := by
  have hsettled := isSettled_shorten text
  refine ⟨length_shorten_le text, hsettled.generics,
    isLineBreak_isAnyBreak.isLine (isSpaced_shorten text), hsettled.spacing,
    shorten_shorten text, ?_⟩
  by_cases h : 50 < (simplify text).length
  · rw [if_pos h, shorten, truncate_of_lt h]
    rfl
  · rw [if_neg h, shorten, truncate_of_le (Nat.not_lt.1 h)]

/-- Qualifiers go with their dots, and no name is made of what stood around them. -/
example : shorten "1.a.b  x.List<y.Item> f(2.5)" = "1.b List f(2.5)" := by
  decide +kernel

end Docsmith.Diagram
