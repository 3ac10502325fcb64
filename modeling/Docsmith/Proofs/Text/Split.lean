import Docsmith.Text.Basic
/-!
# Text — cutting and joining undo each other

A text is cut at each separator and nothing is lost: what stands before a
separator and what stands after it are cut on their own
(`splitBy_append_cons`), no piece holds a separator, and pieces without one
come back from their join (`splitChar_join`).
-/


namespace Docsmith.Text

variable {p : Char → Bool} {c : Char} {text : List Char}

@[simp] theorem splitBy_nil : splitBy p [] = [[]] := rfl

theorem splitBy_cons_of_pos (h : p c = true) : splitBy p (c :: text) = [] :: splitBy p text := by
  simp [splitBy, h]

/-- There is always a piece. -/
theorem splitBy_ne_nil (p : Char → Bool) (text : List Char) : splitBy p text ≠ [] := by
  cases text with
  | nil => simp
  | cons c text =>
    simp only [splitBy, List.foldr_cons]
    split
    · simp
    · split <;> simp

/-- A character that is no separator joins the first piece after it. -/
theorem splitBy_cons_of_neg {piece : List Char} {rest : List (List Char)} (h : p c = false)
    (ht : splitBy p text = piece :: rest) : splitBy p (c :: text) = (c :: piece) :: rest := by
  unfold splitBy at ht ⊢
  rw [List.foldr_cons, ht]
  simp [h]

/-- **A separator cuts a text in two.** -/
theorem splitBy_append_cons (before after : List Char) (h : p c = true) :
    splitBy p (before ++ c :: after) = splitBy p before ++ splitBy p after := by
  induction before with
  | nil => rw [List.nil_append, splitBy_cons_of_pos h]; rfl
  | cons d before ih =>
    obtain ⟨piece, rest, hb⟩ := List.exists_cons_of_ne_nil (splitBy_ne_nil p before)
    cases hd : p d with
    | true => rw [List.cons_append, splitBy_cons_of_pos hd, splitBy_cons_of_pos hd, ih]; rfl
    | false =>
      rw [splitBy_cons_of_neg hd hb, List.cons_append]
      exact splitBy_cons_of_neg hd (by rw [ih, hb]; rfl)

/-- A text without separators is one piece. -/
theorem splitBy_of_forall (h : ∀ c ∈ text, p c = false) : splitBy p text = [text] := by
  induction text with
  | nil => rfl
  | cons c text ih =>
    exact splitBy_cons_of_neg (h c (by simp)) (ih fun d hd => h d (by simp [hd]))

/-- No piece holds a separator. -/
theorem forall_of_mem_splitBy {piece : List Char} (h : piece ∈ splitBy p text) :
    ∀ c ∈ piece, p c = false := by
  induction text generalizing piece with
  | nil =>
    rw [splitBy_nil, List.mem_singleton] at h
    simp [h]
  | cons d text ih =>
    obtain ⟨first, rest, ht⟩ := List.exists_cons_of_ne_nil (splitBy_ne_nil p text)
    cases hd : p d with
    | true =>
      rw [splitBy_cons_of_pos hd] at h
      rcases List.mem_cons.1 h with rfl | h
      · simp
      · exact ih h
    | false =>
      rw [splitBy_cons_of_neg hd ht] at h
      rcases List.mem_cons.1 h with rfl | h
      · intro c hc
        rcases List.mem_cons.1 hc with rfl | hc
        · exact hd
        · exact ih (by rw [ht]; exact List.mem_cons_self) c hc
      · exact ih (by rw [ht]; exact List.mem_cons_of_mem _ h)

/-! ## At one character -/

theorem splitChar_append_cons (c : Char) (before after : List Char) :
    splitChar c (before ++ c :: after) = splitChar c before ++ splitChar c after :=
  splitBy_append_cons before after (beq_self_eq_true c)

theorem splitChar_of_not_mem (h : c ∉ text) : splitChar c text = [text] :=
  splitBy_of_forall fun d hd => by
    have : d ≠ c := fun e => h (e ▸ hd)
    simpa using this

theorem not_mem_of_mem_splitChar {piece : List Char} (h : piece ∈ splitChar c text) :
    c ∉ piece := by
  intro hc
  have := forall_of_mem_splitBy h c hc
  simp at this

theorem splitChar_ne_nil (c : Char) (text : List Char) : splitChar c text ≠ [] :=
  splitBy_ne_nil _ text

/-- Only the empty text is one empty piece. -/
theorem eq_nil_of_splitBy (h : splitBy p text = [[]]) : text = [] := by
  cases text with
  | nil => rfl
  | cons d text =>
    obtain ⟨piece, rest, ht⟩ := List.exists_cons_of_ne_nil (splitBy_ne_nil p text)
    cases hd : p d with
    | true =>
      rw [splitBy_cons_of_pos hd, List.cons.injEq] at h
      exact absurd h.2 (splitBy_ne_nil _ _)
    | false =>
      rw [splitBy_cons_of_neg hd ht] at h
      cases h

/-- **Pieces come back from their join**, if none holds the separator. -/
theorem splitChar_join {pieces : List (List Char)} (hne : pieces ≠ [])
    (h : ∀ piece ∈ pieces, c ∉ piece) : splitChar c (join [c] pieces) = pieces := by
  induction pieces with
  | nil => exact absurd rfl hne
  | cons piece pieces ih =>
    cases pieces with
    | nil => rw [join, List.intercalate_singleton, splitChar_of_not_mem (h piece (by simp))]
    | cons next rest =>
      have hrest : splitChar c ([c].intercalate (next :: rest)) = next :: rest :=
        ih (by simp) fun q hq => h q (by simp [hq])
      rw [join, List.intercalate_cons_cons, List.append_assoc, List.singleton_append,
        splitChar_append_cons, hrest, splitChar_of_not_mem (h piece (by simp))]
      rfl

/-! ## Starts -/

/-- What is left behind a start of a text makes it up again. -/
theorem dropStart?_eq_some {start rest : List Char} :
    dropStart? start text = some rest ↔ text = start ++ rest := by
  induction start generalizing text with
  | nil => rw [dropStart?, Option.some.injEq, List.nil_append]
  | cons c start ih =>
    cases text with
    | nil => simp [dropStart?]
    | cons d text =>
      rw [dropStart?, List.cons_append, List.cons.injEq, ← ih, eq_comm (a := d)]
      by_cases h : c = d <;> simp [h]

/-- A text ends with another one if that is a suffix of it. -/
theorem endsWith_iff {tail : List Char} : endsWith tail text = true ↔ tail <:+ text := by
  rw [endsWith, dropEnd?, Option.isSome_map, Option.isSome_iff_exists, ← List.reverse_prefix]
  exact exists_congr fun rest => dropStart?_eq_some.trans eq_comm

/-! ## Words -/

/-- A blank parts the words before it from those after it. -/
theorem words_append_cons (before after : List Char) (h : isBlank c = true) :
    words (before ++ c :: after) = words before ++ words after := by
  rw [words, splitBy_append_cons before after h, List.filter_append]
  rfl

/-- A text without blanks is a word. -/
theorem words_of_forall (hne : text ≠ []) (h : ∀ c ∈ text, isBlank c = false) :
    words text = [text] := by
  rw [words, splitBy_of_forall h]
  simpa using hne

/-! ## Cutting once -/

/-- A text is not cut exactly if the needle stands nowhere. -/
theorem splitOnce?_eq_none {needle : List Char} :
    splitOnce? needle text = none ↔ ∀ before after, text ≠ before ++ needle ++ after := by
  induction text with
  | nil => cases needle <;> simp [splitOnce?]
  | cons d text ih =>
    have hsplit : splitOnce? needle (d :: text) = none ↔
        dropStart? needle (d :: text) = none ∧ splitOnce? needle text = none := by
      rw [splitOnce?]
      cases dropStart? needle (d :: text) <;> simp
    rw [hsplit, ih, Option.eq_none_iff_forall_ne_some]
    constructor
    · rintro ⟨hstart, hrest⟩ before after heq
      cases before with
      | nil => exact hstart after (dropStart?_eq_some.2 heq)
      | cons e before =>
        injection heq with _ heq
        exact hrest before after heq
    · refine fun h => ⟨fun rest hrest => h [] rest (dropStart?_eq_some.1 hrest), ?_⟩
      exact fun before after heq => h (d :: before) after (by rw [heq]; rfl)

/-- **Cut at the first place where the needle stands.** -/
theorem splitOnce?_eq_some {needle before after : List Char}
    (h : splitOnce? needle text = some (before, after)) :
    text = before ++ needle ++ after ∧
      ∀ before' after', text = before' ++ needle ++ after' → before.length ≤ before'.length := by
  induction text generalizing before with
  | nil =>
    obtain ⟨hneedle, he⟩ : needle = [] ∧ ([], []) = (before, after) := by
      simpa [splitOnce?] using h
    cases he
    simp [hneedle]
  | cons d text ih =>
    rw [splitOnce?] at h
    cases hstart : dropStart? needle (d :: text) with
    | some rest =>
      rw [hstart] at h
      cases h
      exact ⟨dropStart?_eq_some.1 hstart, fun _ _ _ => Nat.zero_le _⟩
    | none =>
      rw [hstart] at h
      obtain ⟨⟨first, second⟩, hs, he⟩ := Option.map_eq_some_iff.1 h
      cases he
      obtain ⟨heq, hfirst⟩ := ih hs
      refine ⟨by rw [heq]; rfl, fun before' after' heq' => ?_⟩
      cases before' with
      | nil =>
        have hnow : dropStart? needle (d :: text) = some after' := dropStart?_eq_some.2 heq'
        rw [hstart] at hnow
        cases hnow
      | cons e before' =>
        injection heq' with _ heq'
        exact Nat.succ_le_succ (hfirst before' after' heq')

theorem splitLast?_eq_none {needle : List Char} :
    splitLast? needle text = none ↔ ∀ before after, text ≠ before ++ needle ++ after := by
  rw [splitLast?, Option.map_eq_none_iff, splitOnce?_eq_none]
  constructor <;> intro h before after heq
  · exact h after.reverse before.reverse (by rw [heq]; simp)
  · exact h after.reverse before.reverse (by rw [← List.reverse_reverse text, heq]; simp)

/-- **Cut at the last place where the needle stands.** -/
theorem splitLast?_eq_some {needle before after : List Char}
    (h : splitLast? needle text = some (before, after)) :
    text = before ++ needle ++ after ∧
      ∀ before' after', text = before' ++ needle ++ after' → after.length ≤ after'.length := by
  rw [splitLast?, Option.map_eq_some_iff] at h
  obtain ⟨⟨first, second⟩, hs, he⟩ := h
  cases he
  obtain ⟨heq, hfirst⟩ := splitOnce?_eq_some hs
  refine ⟨by rw [← List.reverse_reverse text, heq]; simp, fun before' after' heq' => ?_⟩
  simpa using hfirst after'.reverse before'.reverse (by rw [heq']; simp)

/-- Cut once at a character: the text before the first one and the text
after it. -/
theorem splitOnce?_singleton {before after : List Char}
    (h : splitOnce? [c] text = some (before, after)) :
    text = before ++ c :: after ∧ c ∉ before := by
  induction text generalizing before with
  | nil => cases h
  | cons d text ih =>
    rw [splitOnce?] at h
    by_cases hd : c = d
    · subst hd
      simp only [dropStart?, if_pos, Option.some.injEq, Prod.mk.injEq] at h
      obtain ⟨rfl, rfl⟩ := h
      exact ⟨rfl, List.not_mem_nil⟩
    · simp only [dropStart?, if_neg hd, Option.map_eq_some_iff] at h
      obtain ⟨⟨first, second⟩, hs, he⟩ := h
      cases he
      obtain ⟨rfl, hc⟩ := ih hs
      exact ⟨rfl, by simp [hd, hc]⟩

/-- **Cut at the last one of a character**: what comes after has none. -/
theorem splitLast?_singleton {before after : List Char}
    (h : splitLast? [c] text = some (before, after)) : text = before ++ c :: after ∧ c ∉ after := by
  rw [splitLast?, List.reverse_singleton, Option.map_eq_some_iff] at h
  obtain ⟨⟨first, second⟩, hs, he⟩ := h
  cases he
  obtain ⟨ht, hc⟩ := splitOnce?_singleton hs
  refine ⟨?_, by simpa using hc⟩
  rw [← List.reverse_reverse text, ht]
  simp

/-- A text with the character in it is cut at the first one. -/
theorem splitOnce?_append_cons {before : List Char} (after : List Char) (h : c ∉ before) :
    splitOnce? [c] (before ++ c :: after) = some (before, after) := by
  induction before with
  | nil => simp [splitOnce?, dropStart?]
  | cons d before ih =>
    obtain ⟨hd, hb⟩ := not_or.1 (mt List.mem_cons.2 h)
    rw [List.cons_append, splitOnce?, ih hb]
    simp [dropStart?, hd]

/-- And at the last one. -/
theorem splitLast?_append_cons {after : List Char} (before : List Char) (h : c ∉ after) :
    splitLast? [c] (before ++ c :: after) = some (before, after) := by
  have hreverse : (before ++ c :: after).reverse = after.reverse ++ c :: before.reverse := by simp
  have hafter : c ∉ after.reverse := by simpa using h
  rw [splitLast?, hreverse, List.reverse_singleton, splitOnce?_append_cons _ hafter]
  simp

/-- What stands after the last one of a character, and before it, is
settled by the text. -/
theorem append_cons_inj {before after before' after' : List Char} (h : c ∉ after) (h' : c ∉ after')
    (he : before ++ c :: after = before' ++ c :: after') : before = before' ∧ after = after' := by
  rcases List.append_eq_append_iff.1 he with ⟨more, rfl, hm⟩ | ⟨more, rfl, hm⟩
  all_goals
    cases more with
    | nil => simp_all
    | cons d more => simp_all

end Docsmith.Text
