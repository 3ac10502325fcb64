import Docsmith.Proofs.Text.Split
import Mathlib.Data.List.Chain
/-!
# Text — single spaces

Blanks cut a text into its words, so what is to be proved of a text is proved of a
text without blanks and of one in front of which stand a word and a blank
(`cut_induction`). A text in single spaces has the same words as the text it was made
from (`words_collapse`), and a property that blanks cannot give or take away it has
exactly if that text has it (`collapse_iff`). Neither at its ends nor next to one
another does it have blanks (`isCollapsed_collapse`), and a text like that stays as it
is (`collapse_eq_self_iff`).
-/


namespace Docsmith.Text

variable {c : Char} {text word before after : List Char} {pieces : List (List Char)}

/-! ## Blanks -/

/-- All the blanks there are. -/
def blanks : List Char :=
  [' ', '\t', '\n', '\x0b', '\x0c', '\r', '\u0085', '\u00a0', '\u1680', '\u2000', '\u2001',
    '\u2002', '\u2003', '\u2004', '\u2005', '\u2006', '\u2007', '\u2008', '\u2009', '\u200a',
    '\u2028', '\u2029', '\u202f', '\u205f', '\u3000']

theorem mem_blanks_of_isBlank (h : isBlank c = true) : c ∈ blanks := by
  have hrange : ∀ low count : Nat, low ≤ c.toNat → c.toNat < low + count →
      (∀ n ∈ List.range' low count, Char.ofNat n ∈ blanks) → c ∈ blanks :=
    fun low count hlow hhigh hall => by
      rw [← Char.ofNat_toNat c]
      exact hall _ (List.mem_range'_1.2 ⟨hlow, hhigh⟩)
  simp only [isBlank, Bool.or_eq_true, Bool.and_eq_true, beq_iff_eq, decide_eq_true_eq] at h
  rcases h with ((((((((((rfl | ⟨hlow, hhigh⟩) | rfl) | rfl) | rfl) | ⟨hlow, hhigh⟩) | rfl) | rfl) |
    rfl) | rfl) | rfl)
  any_goals decide
  · have hlow : 9 ≤ c.toNat := hlow
    have hhigh : c.toNat ≤ 13 := hhigh
    exact hrange 9 5 hlow (by omega) (by decide)
  · have hlow : 0x2000 ≤ c.toNat := hlow
    have hhigh : c.toNat ≤ 0x200a := hhigh
    exact hrange 0x2000 11 hlow (by omega) (by decide)

theorem ne_of_isBlank {d : Char} (hc : isBlank c = true) (hd : isBlank d = false) : c ≠ d := by
  rintro rfl
  rw [hc] at hd
  cases hd

/-! ## Cutting at the first blank -/

/-- A text has no blanks, or it is a word of such, a blank and a rest. -/
theorem cut_induction {motive : List Char → Prop}
    (whole : ∀ word, (∀ d ∈ word, isBlank d = false) → motive word)
    (cut : ∀ word c rest, (∀ d ∈ word, isBlank d = false) → isBlank c = true → motive rest →
      motive (word ++ c :: rest))
    (text : List Char) : motive text := by
  -- what is read so far without a blank stands in front
  have hfront : ∀ text word : List Char, (∀ d ∈ word, isBlank d = false) →
      motive (word ++ text) := by
    intro text
    induction text with
    | nil =>
      intro word hword
      rw [List.append_nil]
      exact whole word hword
    | cons c text ih =>
      intro word hword
      cases hc : isBlank c with
      | true => exact cut word c text hword hc (ih [] (by simp))
      | false =>
        have hlonger := ih (word ++ [c])
          (List.forall_mem_append.2 ⟨hword, List.forall_mem_singleton.2 hc⟩)
        rwa [List.append_assoc] at hlonger
  exact hfront text [] (by simp)

/-! ## Words -/

/-- A word has characters, and none of them is a blank. -/
theorem of_mem_words (h : word ∈ words text) : word ≠ [] ∧ ∀ c ∈ word, isBlank c = false := by
  obtain ⟨hpiece, hne⟩ := List.mem_filter.1 h
  exact ⟨by simpa using hne, forall_of_mem_splitBy hpiece⟩

/-- Words come back from their join. -/
theorem words_join (h : ∀ piece ∈ pieces, piece ≠ [] ∧ ∀ c ∈ piece, isBlank c = false) :
    words (join [' '] pieces) = pieces := by
  induction pieces with
  | nil => rfl
  | cons piece pieces ih =>
    obtain ⟨⟨hne, hpiece⟩, hpieces⟩ := List.forall_mem_cons.1 h
    cases pieces with
    | nil => rw [join, List.intercalate_singleton, words_of_forall hne hpiece]
    | cons next rest =>
      have hblank : isBlank ' ' = true := by decide
      rw [join, List.intercalate_cons_cons, List.append_assoc, List.singleton_append, ← join,
        words_append_cons _ _ hblank, words_of_forall hne hpiece, ih hpieces]
      rfl

/-- **Single spaces part the same words.** -/
theorem words_collapse (text : List Char) : words (collapse text) = words text :=
  words_join fun _ => of_mem_words

/-- **Words hold the characters that are no blanks**, in the same order. -/
theorem flatten_words (text : List Char) : (words text).flatten = text.filter (!isBlank ·) := by
  have hword : ∀ word, (∀ d ∈ word, isBlank d = false) →
      (words word).flatten = word.filter (!isBlank ·) := by
    intro word hword
    rw [List.filter_eq_self.2 fun d hd => by simp [hword d hd]]
    cases word with
    | nil => rfl
    | cons d word => rw [words_of_forall (List.cons_ne_nil d word) hword, List.flatten_singleton]
  induction text using cut_induction with
  | whole word hwhole => exact hword word hwhole
  | cut word c rest hfront hc ih =>
    rw [words_append_cons _ _ hc, List.flatten_append, hword word hfront, ih, List.filter_append,
      List.filter_cons_of_neg (by simp [hc])]

/-- So does the text in single spaces. -/
theorem filter_collapse (text : List Char) :
    (collapse text).filter (!isBlank ·) = text.filter (!isBlank ·) := by
  rw [← flatten_words, words_collapse, flatten_words]

/-- A property that no blank gives or takes away is one of the words. -/
theorem forall_words_iff (p : List Char → Prop) (hnil : p [])
    (hcut : ∀ before c after, isBlank c = true → (p (before ++ c :: after) ↔ p before ∧ p after))
    (text : List Char) : p text ↔ ∀ word ∈ words text, p word := by
  have hwhole : ∀ word, (∀ d ∈ word, isBlank d = false) →
      (p word ↔ ∀ part ∈ words word, p part) := by
    intro word hword
    cases word with
    | nil => exact iff_of_true hnil (by simp [words])
    | cons d word => rw [words_of_forall (List.cons_ne_nil d word) hword, List.forall_mem_singleton]
  induction text using cut_induction with
  | whole word hword => exact hwhole word hword
  | cut word c rest hword hc ih =>
    rw [hcut word c rest hc, words_append_cons _ _ hc, List.forall_mem_append]
    exact and_congr (hwhole word hword) ih

/-- **It is one of the text in single spaces** exactly if it is one of the text. -/
theorem collapse_iff (p : List Char → Prop) (hnil : p [])
    (hcut : ∀ before c after, isBlank c = true → (p (before ++ c :: after) ↔ p before ∧ p after))
    (text : List Char) : p (collapse text) ↔ p text := by
  rw [forall_words_iff p hnil hcut, words_collapse, ← forall_words_iff p hnil hcut]

/-! ## Texts in single spaces -/

/-- No blank but the space stands in the text, none at its start or end, and no two next
to one another. -/
structure IsCollapsed (text : List Char) : Prop where
  space : ∀ c ∈ text, c = ' ' ∨ isBlank c = false
  first : ∀ c ∈ text.head?, isBlank c = false
  last : ∀ c ∈ text.getLast?, isBlank c = false
  single : List.IsChain (fun c d => isBlank c = false ∨ isBlank d = false) text

namespace IsCollapsed

theorem of_forall (h : ∀ c ∈ text, isBlank c = false) : IsCollapsed text where
  space c hc := .inr (h c hc)
  first c hc := h c (List.mem_of_mem_head? hc)
  last c hc := h c (List.mem_of_getLast? hc)
  single := (List.pairwise_of_forall_mem_list fun c hc _ _ => .inl (h c hc)).isChain

/-- Two such texts with a space between them are one again. -/
theorem append_space (hbefore : IsCollapsed before) (hafter : IsCollapsed after)
    (hb : before ≠ []) (ha : after ≠ []) : IsCollapsed (before ++ ' ' :: after) where
  space := List.forall_mem_append.2
    ⟨hbefore.space, List.forall_mem_cons.2 ⟨.inl rfl, hafter.space⟩⟩
  first c hc := hbefore.first c (by rwa [List.head?_append_of_ne_nil _ hb] at hc)
  last c hc := by
    rw [List.getLast?_append_of_ne_nil _ (List.cons_ne_nil _ _), List.getLast?_cons_of_ne_nil ha]
      at hc
    exact hafter.last c hc
  single := by
    refine List.isChain_append.2 ⟨hbefore.single, ?_, fun c hc _ _ => .inl (hbefore.last c hc)⟩
    exact List.isChain_cons.2 ⟨fun d hd => .inr (hafter.first d hd), hafter.single⟩

/-- The start of such a text is one too with a word put behind it. -/
theorem take_append (h : IsCollapsed text) (n : Nat) (hword : ∀ c ∈ word, isBlank c = false)
    (hne : word ≠ []) : IsCollapsed (text.take n ++ word) where
  space := List.forall_mem_append.2
    ⟨fun c hc => h.space c (List.mem_of_mem_take hc), fun c hc => .inr (hword c hc)⟩
  first c hc := by
    rw [List.head?_append, Option.mem_def, Option.or_eq_some_iff] at hc
    rcases hc with hc | ⟨-, hc⟩
    · rw [List.head?_take] at hc
      split at hc
      · cases hc
      · exact h.first c hc
    · exact hword c (List.mem_of_mem_head? hc)
  last c hc := by
    rw [List.getLast?_append_of_ne_nil _ hne] at hc
    exact hword c (List.mem_of_getLast? hc)
  single := List.isChain_append.2 ⟨h.single.take n, (IsCollapsed.of_forall hword).single,
    fun _ _ d hd => .inr (hword d (List.mem_of_mem_head? hd))⟩

/-- What stands behind a word and a blank is such a text, and not empty; the blank is a
space, and the word is not empty. -/
theorem of_append_cons (hc : isBlank c = true) (h : IsCollapsed (before ++ c :: after)) :
    c = ' ' ∧ before ≠ [] ∧ after ≠ [] ∧ IsCollapsed after := by
  have hnot : isBlank c ≠ false := by simp [hc]
  obtain ⟨-, hchain, -⟩ := List.isChain_append.1 h.single
  obtain ⟨hnext, hafter⟩ := List.isChain_cons.1 hchain
  have hspace : c = ' ' := (h.space c (by simp)).resolve_right hnot
  have hbefore : before ≠ [] := by
    rintro rfl
    exact hnot (h.first c rfl)
  have hne : after ≠ [] := by
    rintro rfl
    exact hnot (h.last c (by simp))
  have hlast : (before ++ c :: after).getLast? = after.getLast? := by
    rw [List.getLast?_append_of_ne_nil _ (List.cons_ne_nil _ _), List.getLast?_cons_of_ne_nil hne]
  refine ⟨hspace, hbefore, hne, ?_, fun d hd => (hnext d hd).resolve_left hnot, ?_, hafter⟩
  · exact fun d hd => h.space d (List.mem_append_right _ (List.mem_cons_of_mem _ hd))
  · exact fun d hd => h.last d (hlast ▸ hd)

end IsCollapsed

/-- **In single spaces** no text has other blanks, outer ones or two in a row. -/
theorem isCollapsed_collapse (text : List Char) : IsCollapsed (collapse text) := by
  have hjoin : ∀ pieces : List (List Char),
      (∀ piece ∈ pieces, piece ≠ [] ∧ ∀ c ∈ piece, isBlank c = false) →
      IsCollapsed (join [' '] pieces) := by
    intro pieces
    induction pieces with
    | nil => exact fun _ => .of_forall (by simp [join])
    | cons piece pieces ih =>
      intro h
      obtain ⟨⟨hne, hpiece⟩, hpieces⟩ := List.forall_mem_cons.1 h
      cases pieces with
      | nil =>
        rw [join, List.intercalate_singleton]
        exact .of_forall hpiece
      | cons next rest =>
        rw [join, List.intercalate_cons_cons, List.append_assoc, List.singleton_append, ← join]
        refine IsCollapsed.append_space (.of_forall hpiece) (ih hpieces) hne fun hnil => ?_
        have hwords := words_join hpieces
        rw [hnil] at hwords
        cases hwords
  exact hjoin _ fun _ => of_mem_words

/-- **Such a text stays as it is.** -/
theorem collapse_of_isCollapsed (h : IsCollapsed text) : collapse text = text := by
  induction text using cut_induction with
  | whole word hword =>
    cases word with
    | nil => rfl
    | cons c word =>
      rw [collapse, words_of_forall (List.cons_ne_nil c word) hword, join,
        List.intercalate_singleton]
  | cut word c rest hword hc ih =>
    obtain ⟨rfl, hne, hrest, hcollapsed⟩ := h.of_append_cons hc
    have ih := ih hcollapsed
    obtain ⟨next, more, hwords⟩ : ∃ next more, words rest = next :: more := by
      refine List.exists_cons_of_ne_nil fun hnil => hrest ?_
      rw [← ih, collapse, hnil]
      rfl
    rw [collapse, hwords] at ih
    rw [collapse, words_append_cons _ _ hc, words_of_forall hne hword, hwords,
      List.singleton_append, join, List.intercalate_cons_cons, ← join, ih]
    simp

theorem collapse_eq_self_iff : collapse text = text ↔ IsCollapsed text :=
  ⟨fun h => h ▸ isCollapsed_collapse text, collapse_of_isCollapsed⟩

end Docsmith.Text
