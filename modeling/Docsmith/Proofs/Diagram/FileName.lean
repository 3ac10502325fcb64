import Docsmith.Diagram.Format
import Docsmith.Document.Group
import Docsmith.Failure
import Docsmith.Proofs.Path.Name
/-!
# Diagrams — names of files

Whatever a class is called, the names of its page and of its diagrams are
names of files: the characters of the class's name that do not suit are
replaced, and the parts around it are checked (`isFileName_fileName`,
`isFileName_classFileName`). Replacing loses the difference between some
names; two classes have the same file exactly if nothing else told them
apart (`fileName_inj`, `classFileName_inj`).
-/


namespace Docsmith.Diagram

open Docsmith.Path

variable {n : Naming} {label value name other default : String}

/-- An affix that is accepted holds allowed characters only. -/
theorem checkAffix_eq_ok (h : checkAffix label value = .ok ()) :
    ∀ c ∈ value.toList, isAffixChar c = true := by
  unfold checkAffix at h
  split_ifs at h
  split at h
  · cases h
  · next hfind =>
    intro c hc
    simpa using List.find?_eq_none.1 hfind c hc

/-- An extension that is accepted is not empty and is all letters and
digits. -/
theorem checkExtension_eq_ok (h : checkExtension value = .ok ()) :
    value ≠ "" ∧ ∀ c ∈ value.toList, isPlain c = true := by
  unfold checkExtension at h
  split_ifs at h with hbad
  simp only [Bool.or_eq_true, not_or, Bool.not_eq_true, Bool.not_eq_false'] at hbad
  obtain ⟨⟨hempty, -⟩, hplain⟩ := hbad
  refine ⟨fun he => ?_, List.all_eq_true.1 hplain⟩
  rw [he] at hempty
  cases hempty

/-- What is known of the parts of a naming that is accepted. -/
structure Naming.IsAllowed (n : Naming) : Prop where
  before : ∀ c ∈ n.before.toList, isAffixChar c = true
  after : ∀ value ∈ n.after, ∀ c ∈ value.toList, isAffixChar c = true
  extension : ∀ value ∈ n.extension, value ≠ "" ∧ ∀ c ∈ value.toList, isPlain c = true

theorem Naming.check_eq_ok (h : n.check = .ok ()) : n.IsAllowed := by
  obtain ⟨before, after, extension⟩ := n
  unfold Naming.check at h
  obtain ⟨_, hb, h⟩ := bind_eq_ok.1 h
  have hafter : (∀ value ∈ after, checkAffix "suffix" value = .ok ()) ∧
      ∀ value ∈ extension, checkExtension value = .ok () := by
    cases after with
    | none =>
      refine ⟨nofun, fun value hv => ?_⟩
      obtain rfl : extension = some value := hv
      exact h
    | some a =>
      obtain ⟨_, ha, h⟩ := bind_eq_ok.1 h
      refine ⟨fun value hv => by cases hv; exact ha, fun value hv => ?_⟩
      obtain rfl : extension = some value := hv
      exact h
  exact ⟨checkAffix_eq_ok hb, fun value hv => checkAffix_eq_ok (hafter.1 value hv),
    fun value hv => checkExtension_eq_ok (hafter.2 value hv)⟩

/-! ## Characters of a name -/

theorem mem_fileStem {c : Char} (h : c ∈ (fileStem name).toList) :
    isPlain c = true ∨ c = '_' ∨ c = '.' := by
  rw [fileStem, String.toList_map, List.mem_map] at h
  obtain ⟨d, -, rfl⟩ := h
  split_ifs with hd
  · simpa [or_assoc] using hd
  · exact .inr (.inl rfl)

theorem mem_identifier {c : Char} (h : c ∈ (identifier name).toList) :
    isPlain c = true ∨ c = '_' := by
  rw [identifier, String.toList_map, List.mem_map] at h
  obtain ⟨d, -, rfl⟩ := h
  split_ifs with hd
  · simpa using hd
  · exact .inr rfl

/-- The extension of a file: not empty, all letters and digits. -/
theorem Naming.IsAllowed.extensionOr (h : n.IsAllowed) (hd : default ≠ "")
    (hplain : ∀ c ∈ default.toList, isPlain c = true) :
    n.extensionOr default ≠ "" ∧ ∀ c ∈ (n.extensionOr default).toList, isPlain c = true := by
  rw [Naming.extensionOr]
  split
  · next extension he =>
    obtain ⟨hne, hall⟩ := h.extension extension he
    split_ifs with hempty
    · exact ⟨hd, hplain⟩
    · exact ⟨hne, hall⟩
  · exact ⟨hd, hplain⟩

/-- **A diagram has the name of a file.** -/
theorem isFileName_fileName (h : n.IsAllowed) (hd : default ≠ "")
    (hplain : ∀ c ∈ default.toList, isPlain c = true) (className : String) :
    IsFileName (n.fileName className default) := by
  obtain ⟨hne, hext⟩ := h.extensionOr hd hplain
  have hafter : ∀ c ∈ n.afterOrDefault.toList, isAffixChar c = true := by
    rw [Naming.afterOrDefault]
    cases ha : n.after with
    | none =>
      have hall : defaultAfter.toList.all isAffixChar = true := by decide
      exact List.all_eq_true.1 hall
    | some after => exact h.after after ha
  have hlast : ∃ c, (n.fileName className default).toList.getLast? = some c ∧ isPlain c = true := by
    have hnil : (n.extensionOr default).toList ≠ [] := fun he => hne (String.toList_eq_nil_iff.1 he)
    have hl := List.getLast?_eq_some_getLast hnil
    refine ⟨_, ?_, hext _ (List.getLast_mem hnil)⟩
    rw [Naming.fileName, String.toList_append, List.getLast?_append, hl]
    rfl
  obtain ⟨c, hc, hplainLast⟩ := hlast
  refine ⟨fun he => ?_, fun he => ?_, fun he => ?_, fun hm => ?_⟩
  · rw [he] at hc
    cases hc
  · rw [he] at hc
    obtain rfl : '.' = c := Option.some.inj hc
    exact absurd hplainLast (by decide)
  · rw [he] at hc
    obtain rfl : '.' = c := Option.some.inj hc
    exact absurd hplainLast (by decide)
  · simp only [Naming.fileName, String.toList_append, List.mem_append] at hm
    rcases hm with (((hm | hm) | hm) | hm) | hm
    · exact absurd (h.before _ hm) (by decide)
    · rcases mem_fileStem hm with h | h | h <;> exact absurd h (by decide)
    · exact absurd (hafter _ hm) (by decide)
    · exact absurd hm (by decide)
    · exact absurd (hext _ hm) (by decide)

/-- **Two diagrams of a format have one file** exactly if the names are the
same once characters are replaced. -/
theorem fileName_inj : n.fileName name default = n.fileName other default ↔
    fileStem name = fileStem other := by
  rw [Naming.fileName, Naming.fileName]
  constructor
  · intro h
    simpa [← String.toList_inj] using h
  · intro h
    rw [h]

theorem isFileName_classFileName (name : String) : IsFileName (Document.classFileName name) := by
  have hhead : (Document.classFileName name).toList.head? = some 'c' := by
    rw [Document.classFileName, String.toList_append, String.toList_append]
    rfl
  refine ⟨fun he => ?_, fun he => ?_, fun he => ?_, fun hm => ?_⟩
  · rw [he] at hhead
    cases hhead
  · rw [he] at hhead
    exact absurd (Option.some.inj hhead) (by decide)
  · rw [he] at hhead
    exact absurd (Option.some.inj hhead) (by decide)
  · simp only [Document.classFileName, String.toList_append, List.mem_append] at hm
    rcases hm with (hm | hm) | hm
    · exact absurd hm (by decide)
    · rcases mem_identifier hm with h | h <;> exact absurd h (by decide)
    · exact absurd hm (by decide)

/-- **Two classes have one page** exactly if their identifiers are the
same. -/
theorem classFileName_inj : Document.classFileName name = Document.classFileName other ↔
    identifier name = identifier other := by
  rw [Document.classFileName, Document.classFileName]
  constructor
  · intro h
    simpa [← String.toList_inj] using h
  · intro h
    rw [h]

end Docsmith.Diagram
