import Docsmith.Proofs.Text.Spacing
import Docsmith.Proofs.Text.Trim
import Docsmith.Source.Syntax.Token
import Mathlib.Tactic.SplitIfs
/-!
# Text — the lines of a text

A text has a line for every line feed in it and one more for what follows the
last of them, if anything does. So a character stands in a line whose number
is at most that of the lines (`lineCount_lt_length_lines`): there is a line
for each line feed before it and one more. No line holds a line feed, and
neither does a text in single spaces.
-/


namespace Docsmith.Text

variable {c : Char} {text before after line : List Char}

/-! ## Characters that stay -/

theorem mem_of_mem_dropReturn (h : c ∈ dropReturn line) : c ∈ line := by
  unfold dropReturn dropEnd? at h
  cases hr : line.reverse with
  | nil =>
    rw [hr] at h
    exact h
  | cons d rest =>
    rw [hr] at h
    simp only [List.reverse_singleton, dropStart?] at h
    split_ifs at h
    · rw [← List.mem_reverse, hr]
      exact List.mem_cons_of_mem _ (List.mem_reverse.1 h)
    · exact h

/-- What neither starts a word nor goes on in it is not in the word. -/
theorem not_mem_cons_takeWhile {starts goesOn : Char → Bool} {first : Char}
    (hfirst : starts first = true) (hstarts : starts c = false) (hgoesOn : goesOn c = false) :
    c ∉ first :: text.takeWhile goesOn := by
  rw [List.mem_cons, not_or]
  constructor
  · rintro rfl
    rw [hstarts] at hfirst
    cases hfirst
  · intro hmem
    rw [List.all_eq_true.1 List.all_takeWhile _ hmem] at hgoesOn
    cases hgoesOn

/-- Behind the first characters of a sort stands what follows them. -/
theorem drop_length_takeWhile (p : Char → Bool) (text : List Char) :
    text.drop (text.takeWhile p).length = text.dropWhile p :=
  calc text.drop (text.takeWhile p).length
    _ = (text.takeWhile p ++ text.dropWhile p).drop (text.takeWhile p).length := by
      rw [List.takeWhile_append_dropWhile]
    _ = text.dropWhile p := List.drop_left

/-- What is in no text is not in one that may be missing. -/
theorem not_mem_getD_map {α : Type} {text : α → List Char} (h : ∀ a, c ∉ text a) (part : Option α) :
    c ∉ (part.map text).getD [] := by
  cases part with
  | none => exact List.not_mem_nil
  | some a => exact h a

/-- What stands in a join stands in the separator or in a piece. -/
theorem mem_of_mem_join {separator : List Char} {pieces : List (List Char)}
    (h : c ∈ join separator pieces) : c ∈ separator ∨ ∃ piece ∈ pieces, c ∈ piece := by
  induction pieces with
  | nil => cases h
  | cons piece pieces ih =>
    cases pieces with
    | nil =>
      rw [join, List.intercalate_singleton] at h
      exact .inr ⟨piece, List.mem_singleton_self _, h⟩
    | cons next rest =>
      rw [join, List.intercalate_cons_cons, List.mem_append, List.mem_append] at h
      rcases h with (h | h) | h
      · exact .inr ⟨piece, List.mem_cons_self, h⟩
      · exact .inl h
      · rcases ih h with h | ⟨q, hq, hc⟩
        · exact .inl h
        · exact .inr ⟨q, List.mem_cons_of_mem _ hq, hc⟩

/-- No blank but the space stands in a text in single spaces. -/
theorem mem_collapse (h : c ∈ collapse text) : c = ' ' ∨ isBlank c = false :=
  (isCollapsed_collapse text).space c h

/-- **A text in single spaces is one line.** -/
theorem feed_not_mem_collapse (text : List Char) : '\n' ∉ collapse text := by
  intro h
  rcases mem_collapse h with h | h
  · exact absurd h (by decide)
  · exact absurd h (by decide)

/-- **A text in single spaces is trimmed.** -/
theorem trim_collapse (text : List Char) : trim (collapse text) = collapse text :=
  trim_eq_self (isCollapsed_collapse text).first (isCollapsed_collapse text).last

/-! ## Lines -/

/-- A text is cut into one piece more than it has separators. -/
theorem length_splitBy (p : Char → Bool) (text : List Char) :
    (splitBy p text).length = text.countP p + 1 := by
  induction text with
  | nil => rfl
  | cons c text ih =>
    cases h : p c with
    | true => rw [splitBy_cons_of_pos h, List.length_cons, ih, List.countP_cons_of_pos h]
    | false =>
      obtain ⟨piece, rest, ht⟩ := List.exists_cons_of_ne_nil (splitBy_ne_nil p text)
      rw [splitBy_cons_of_neg h ht, List.countP_cons_of_neg (by simp [h]), ← ih, ht]
      rfl

/-- **A line feed ends the lines before it.** -/
theorem lines_append_cons (before after : List Char) :
    lines (before ++ '\n' :: after) = (splitChar '\n' before).map dropReturn ++ lines after := by
  obtain ⟨last, ended, hafter⟩ := List.exists_cons_of_ne_nil
    (mt List.reverse_eq_nil_iff.1 (splitChar_ne_nil '\n' after))
  unfold lines
  rw [splitChar_append_cons, List.reverse_append, hafter]
  simp

theorem lines_of_not_mem (hne : text ≠ []) (h : '\n' ∉ text) : lines text = [text] := by
  unfold lines
  rw [splitChar_of_not_mem h]
  simp [hne]

/-- No line holds a line feed. -/
theorem feed_not_mem_of_mem_lines (h : line ∈ lines text) : '\n' ∉ line := by
  unfold lines at h
  split at h
  · cases h
  · next last ended hpieces =>
    have hpiece : ∀ piece ∈ last :: ended, '\n' ∉ piece := by
      intro piece hmem
      rw [← hpieces, List.mem_reverse] at hmem
      exact not_mem_of_mem_splitChar hmem
    rcases List.mem_append.1 h with h | h
    · obtain ⟨piece, hmem, rfl⟩ := List.mem_map.1 (List.mem_reverse.1 h)
      exact fun hfeed => hpiece piece (List.mem_cons_of_mem _ hmem) (mem_of_mem_dropReturn hfeed)
    · split_ifs at h
      · cases h
      · rw [List.mem_singleton.1 h]
        exact hpiece last List.mem_cons_self

/-- A text that is not empty has a line. -/
theorem lines_ne_nil (hne : text ≠ []) : lines text ≠ [] := by
  by_cases h : '\n' ∈ text
  · obtain ⟨before, after, rfl⟩ := List.append_of_mem h
    rw [lines_append_cons]
    simp [splitChar_ne_nil]
  · rw [lines_of_not_mem hne h]
    exact List.cons_ne_nil _ _

/-- **Every character stands in a line**: there are more lines than line feeds
before it. -/
theorem lineCount_lt_length_lines (before after : List Char) (c : Char) :
    Source.Syntax.lineCount before < (lines (before ++ c :: after)).length := by
  have hlast : ∀ text : List Char, text ≠ [] → 0 < (lines text).length := fun text hne =>
    List.length_pos_iff.2 (lines_ne_nil hne)
  by_cases h : '\n' ∈ before
  · -- the last line feed before the character
    obtain ⟨behind, ahead, hsplit, hbehind⟩ := List.eq_append_cons_of_mem (List.mem_reverse.2 h)
    have hbefore : before = ahead.reverse ++ '\n' :: behind.reverse := by
      rw [← List.reverse_reverse before, hsplit]
      simp
    have hcount : ('\n' :: behind.reverse).countP (· == '\n') = 1 := by
      rw [List.countP_cons, List.countP_eq_zero.2]
      · rfl
      · intro d hd hfeed
        exact hbehind (by rwa [← beq_iff_eq.1 hfeed, ← List.mem_reverse])
    rw [hbefore, List.append_assoc, List.cons_append, lines_append_cons, List.length_append,
      List.length_map, splitChar, length_splitBy, Source.Syntax.lineCount, List.countP_append,
      hcount]
    have := hlast (behind.reverse ++ c :: after) (by simp)
    omega
  · have hcount : Source.Syntax.lineCount before = 0 := by
      rw [Source.Syntax.lineCount, List.countP_eq_zero]
      intro d hd hfeed
      exact h (beq_iff_eq.1 hfeed ▸ hd)
    rw [hcount]
    exact hlast _ (by simp)

end Docsmith.Text
