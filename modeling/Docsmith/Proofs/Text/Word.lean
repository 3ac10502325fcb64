import Docsmith.Proofs.Text.Split
import Docsmith.Text.Word
import Mathlib.Data.List.Basic
/-!
# Text — what a whole-word search finds

A word stands whole in a text where it stands with no identifier character on
either side (`StandsWhole`). The search looks at the occurrences that it comes
upon from the left, each behind the end of the one before (`IsTaken`), and
finds the word if one of these is whole (`containsWord_iff_taken`). An
occurrence that it does not come upon begins inside one that it does
(`taken_or_overlapped`), so nothing is missed of a word that does not begin
again inside itself behind a character that is clear; any other word is missed
in some text (`whole_word_search`).
-/


namespace Docsmith.Text

open Unicode

variable {word text before after gap front : List Char} {c : Char} {clear : Bool}

/-! ## Whole words -/

/-- The character, if there is one, is neither a letter nor a numeral nor an
underscore. -/
def IsClear (c? : Option Char) : Prop :=
  ∀ c ∈ c?, isAlphanumeric c = false ∧ c ≠ '_'

/-- The word stands in the text with nothing or a clear character before and
after it. Occurrences may overlap. -/
def StandsWhole (word text : List Char) : Prop :=
  ∃ before after, text = before ++ word ++ after ∧
    IsClear before.getLast? ∧ IsClear after.head?

theorem isClear_some : IsClear (some c) ↔ isIdentChar c = false := by
  simp [IsClear, isIdentChar]

theorem isClear_none : IsClear none :=
  nofun

theorem startsClear_iff : startsClear text = true ↔ IsClear text.head? := by
  cases text with
  | nil => simp [startsClear, isClear_none]
  | cons c text => simp [startsClear, isClear_some]

/-! ## Occurrences that the search comes upon -/

/-- The word does not stand in front of the place behind `gap` sooner than
there. -/
def IsGap (word gap : List Char) : Prop :=
  ∀ before after, gap ++ word = before ++ word ++ after → after = []

/-- The search for the word comes upon its occurrence behind `before`: it is
the first one of all, or the first one behind the end of another that the
search comes upon. -/
inductive IsTaken (word : List Char) : List Char → Prop where
  | first {gap : List Char} (h : IsGap word gap) : IsTaken word gap
  | next {gap before : List Char} (h : IsGap word gap) (h' : IsTaken word before) :
      IsTaken word (gap ++ word ++ before)

/-- Where the text starts with the word nothing comes sooner. -/
theorem isGap_nil (word : List Char) : IsGap word [] := by
  intro before after h
  have hlength := congrArg List.length h
  simp only [List.length_append, List.length_nil] at hlength
  exact List.length_eq_zero_iff.1 (by omega)

/-- Behind a start of the word there is no gap. -/
theorem IsGap.eq_nil_of_append (h : IsGap word gap) (hstart : gap ++ word ++ after = word ++ text) :
    gap = [] := by
  have hgap : gap ++ word <+: word ++ text := ⟨after, hstart⟩
  have hword : word <+: gap ++ word :=
    List.prefix_of_prefix_length_le (List.prefix_append _ _) hgap (by simp)
  obtain ⟨rest, hrest⟩ := hword
  have hnil := h [] rest hrest.symm
  subst hnil
  have hlength := congrArg List.length hrest
  simp only [List.length_append, List.length_nil] at hlength
  exact List.length_eq_zero_iff.1 (by omega)

/-- A character more in front makes the gap longer, unless the word stands
there. -/
theorem isGap_cons (h : ¬ word <+: c :: gap ++ word) : IsGap word (c :: gap) ↔ IsGap word gap := by
  constructor
  · intro hgap before after heq
    exact hgap (c :: before) after (by simp [heq])
  · intro hgap before after heq
    cases before with
    | nil => exact absurd ⟨after, heq.symm⟩ h
    | cons d before =>
      injection heq with _ heq
      exact hgap before after heq

/-- **Where the text starts with the word, the search takes it** and goes on
behind it. -/
theorem isTaken_of_prefix (h : before ++ word ++ after = word ++ text)
    (htaken : IsTaken word before) : before = [] ∨ ∃ rest, before = word ++ rest ∧ IsTaken word rest := by
  cases htaken with
  | first hgap => exact .inl (hgap.eq_nil_of_append h)
  | @next gap rest hgap hrest =>
    have hstart : gap ++ word ++ (rest ++ word ++ after) = word ++ text := by simpa using h
    obtain rfl := hgap.eq_nil_of_append hstart
    exact .inr ⟨rest, rfl, hrest⟩

/-- **Where it does not, the search goes on behind the first character.** -/
theorem isTaken_cons (h : ¬ word <+: c :: before ++ word ++ after) :
    IsTaken word (c :: before) ↔ IsTaken word before := by
  constructor
  · intro htaken
    generalize hlist : c :: before = list at htaken
    cases htaken with
    | first hgap =>
      subst hlist
      exact .first ((isGap_cons fun hlead => h (hlead.trans (List.prefix_append _ _))).1 hgap)
    | @next gap rest hgap hrest =>
      cases gap with
      | nil => exact absurd ⟨rest ++ word ++ after, by rw [hlist]; simp⟩ h
      | cons d gap =>
        obtain ⟨rfl, rfl⟩ : c = d ∧ before = gap ++ word ++ rest := by simpa using hlist
        have hnot : ¬ word <+: c :: gap ++ word := fun hlead =>
          h (hlead.trans ⟨rest ++ word ++ after, by simp⟩)
        exact .next ((isGap_cons hnot).1 hgap) hrest
  · intro htaken
    cases htaken with
    | first hgap =>
      exact .first ((isGap_cons fun hlead => h (hlead.trans (List.prefix_append _ _))).2 hgap)
    | @next gap rest hgap hrest =>
      have hnot : ¬ word <+: c :: gap ++ word := fun hlead =>
        h (hlead.trans ⟨rest ++ word ++ after, by simp⟩)
      exact .next ((isGap_cons hnot).2 hgap) hrest

/-! ## The search -/

/-- What stands before a place in a text, behind something that is clear or
not. -/
def lastClear (clear : Bool) (text : List Char) : Bool :=
  (text.getLast?.map (!isIdentChar ·)).getD clear

theorem lastClear_cons (clear : Bool) (c : Char) (text : List Char) :
    lastClear clear (c :: text) = lastClear (!isIdentChar c) text := by
  unfold lastClear
  rw [List.getLast?_cons]
  cases text.getLast? <;> rfl

theorem lastClear_append (clear : Bool) (text more : List Char) :
    lastClear clear (text ++ more) = lastClear (lastClear clear text) more := by
  induction text generalizing clear with
  | nil => rfl
  | cons c text ih => rw [List.cons_append, lastClear_cons, ih, ← lastClear_cons clear]

theorem lastClear_iff : lastClear true before = true ↔ IsClear before.getLast? := by
  unfold lastClear
  cases before.getLast? with
  | none => simp [isClear_none]
  | some c => simp [isClear_some]

/-- Characters of an occurrence are passed over. -/
theorem wordFrom_skip (word front text : List Char) (clear : Bool) :
    wordFrom word front.length clear (front ++ text) =
      wordFrom word 0 (lastClear clear front) text := by
  induction front generalizing clear with
  | nil => rfl
  | cons c front ih => rw [List.cons_append, List.length_cons, wordFrom, ih, lastClear_cons]

/-- An occurrence at the start is looked at, and then what stands behind it. -/
theorem wordFrom_append (hword : word ≠ []) (after : List Char) (clear : Bool) :
    wordFrom word 0 clear (word ++ after) =
      (clear && startsClear after || wordFrom word 0 (lastClear clear word) after) := by
  cases word with
  | nil => exact absurd rfl hword
  | cons c word =>
    have hstart : dropStart? (c :: word) (c :: (word ++ after)) = some after :=
      dropStart?_eq_some.2 rfl
    rw [List.cons_append, wordFrom, hstart]
    simp only [List.length_cons, Nat.add_sub_cancel]
    rw [wordFrom_skip, lastClear_cons]

/-- Anywhere else the search goes on with the next character. -/
theorem wordFrom_cons (h : ¬ word <+: c :: text) :
    wordFrom word 0 clear (c :: text) = wordFrom word 0 (!isIdentChar c) text := by
  have hstart : dropStart? word (c :: text) = none := by
    rw [Option.eq_none_iff_forall_ne_some]
    intro rest hrest
    exact h ⟨rest, (dropStart?_eq_some.1 hrest).symm⟩
  rw [wordFrom, hstart]

/-- One of the occurrences that the search comes upon is whole, in a text that stands
behind what is clear or not. -/
def TakesWhole (word : List Char) (clear : Bool) (text : List Char) : Prop :=
  ∃ before after, text = before ++ word ++ after ∧ IsTaken word before ∧
    lastClear clear before = true ∧ startsClear after = true

theorem not_takesWhole_nil (hword : word ≠ []) : ¬ TakesWhole word clear [] := by
  rintro ⟨before, after, heq, -⟩
  simp [hword] at heq

/-- Behind an occurrence at the start the others are those of the rest. -/
theorem takesWhole_append : TakesWhole word clear (word ++ text) ↔
    (clear = true ∧ startsClear text = true) ∨ TakesWhole word (lastClear clear word) text := by
  constructor
  · rintro ⟨before, after, heq, htaken, hbefore, hafter⟩
    rcases isTaken_of_prefix heq.symm htaken with rfl | ⟨more, rfl, hmore⟩
    · obtain rfl : text = after := by simpa using heq
      exact .inl ⟨hbefore, hafter⟩
    · obtain rfl : text = more ++ word ++ after := by simpa using heq
      exact .inr ⟨more, after, rfl, hmore, by rwa [← lastClear_append], hafter⟩
  · rintro (⟨hclear, hafter⟩ | ⟨before, after, rfl, htaken, hbefore, hafter⟩)
    · exact ⟨[], text, by simp, .first (isGap_nil word), hclear, hafter⟩
    · exact ⟨word ++ before, after, by simp, .next (isGap_nil word) htaken,
        by rwa [lastClear_append], hafter⟩

/-- Without one they are those behind the first character. -/
theorem takesWhole_cons (h : ¬ word <+: c :: text) :
    TakesWhole word clear (c :: text) ↔ TakesWhole word (!isIdentChar c) text := by
  constructor
  · rintro ⟨before, after, heq, htaken, hbefore, hafter⟩
    cases before with
    | nil => exact absurd ⟨after, heq.symm⟩ h
    | cons d before =>
      obtain ⟨rfl, rfl⟩ : c = d ∧ text = before ++ word ++ after := by simpa using heq
      exact ⟨before, after, rfl, (isTaken_cons h).1 htaken, by rwa [← lastClear_cons clear], hafter⟩
  · rintro ⟨before, after, rfl, htaken, hbefore, hafter⟩
    exact ⟨c :: before, after, rfl, (isTaken_cons h).2 htaken, by rwa [lastClear_cons], hafter⟩

/-- **The search finds a whole occurrence among those that it comes upon**, by
induction on the text as the search goes through it. -/
theorem wordFrom_iff (hword : word ≠ []) : ∀ (n : Nat) (text : List Char) (clear : Bool),
    text.length ≤ n → (wordFrom word 0 clear text = true ↔ TakesWhole word clear text) := by
  intro n
  induction n with
  | zero =>
    intro text clear hn
    obtain rfl := List.length_eq_zero_iff.1 (Nat.le_zero.1 hn)
    exact iff_of_false (by simp [wordFrom]) (not_takesWhole_nil hword)
  | succ n ih =>
    intro text clear hn
    by_cases hlead : word <+: text
    · obtain ⟨rest, rfl⟩ := hlead
      have hlength := List.length_pos_iff.2 hword
      rw [List.length_append] at hn
      rw [wordFrom_append hword, takesWhole_append, Bool.or_eq_true, Bool.and_eq_true,
        ih rest _ (by omega)]
    · cases text with
      | nil => exact iff_of_false (by simp [wordFrom]) (not_takesWhole_nil hword)
      | cons c rest =>
        rw [wordFrom_cons hlead, takesWhole_cons hlead, ih rest _ (Nat.le_of_succ_le_succ hn)]

/-- So a text contains a word exactly if one of these occurrences is whole. -/
theorem containsWord_iff_taken {text word : String} (hword : word ≠ "") :
    containsWord text word = true ↔ ∃ before after,
      text.toList = before ++ word.toList ++ after ∧ IsTaken word.toList before ∧
        IsClear before.getLast? ∧ IsClear after.head? := by
  have hne : word.toList ≠ [] := by simpa using hword
  have hempty : word.isEmpty = false := by simpa using hword
  rw [containsWord, hempty, Bool.not_false, Bool.true_and,
    wordFrom_iff hne _ _ _ (Nat.le_refl _), TakesWhole]
  simp only [lastClear_iff, startsClear_iff]

/-! ## Occurrences that it does not come upon -/

/-- The word begins again inside itself, behind a character that is clear. -/
def OverlapsClear (word : List Char) : Prop :=
  ∃ front back, word = front ++ back ∧ front ≠ [] ∧ back ≠ [] ∧ back <+: word ∧
    IsClear front.getLast?

/-- A word of identifier characters alone does not. -/
theorem not_overlapsClear_of_forall (h : ∀ c ∈ word, isIdentChar c = true) :
    ¬ OverlapsClear word := by
  rintro ⟨front, back, rfl, hfront, -, -, hclear⟩
  rw [List.getLast?_eq_some_getLast hfront, isClear_some] at hclear
  have hlast := h _ (List.mem_append_left back (List.getLast_mem hfront))
  rw [hclear] at hlast
  cases hlast

/-- There is a first occurrence before any other. -/
theorem exists_isGap (word : List Char) : ∀ (n : Nat) (before : List Char), before.length ≤ n →
    ∃ gap, IsGap word gap ∧ gap ++ word <+: before ++ word := by
  intro n
  induction n with
  | zero =>
    intro before hn
    obtain rfl := List.length_eq_zero_iff.1 (Nat.le_zero.1 hn)
    exact ⟨[], isGap_nil word, List.prefix_rfl⟩
  | succ n ih =>
    intro before hn
    by_cases hgap : IsGap word before
    · exact ⟨before, hgap, List.prefix_rfl⟩
    · simp only [IsGap, not_forall] at hgap
      obtain ⟨sooner, after, heq, hafter⟩ := hgap
      have hlength := congrArg List.length heq
      have hpos := List.length_pos_iff.2 hafter
      simp only [List.length_append] at hlength
      obtain ⟨gap, hgap, hlead⟩ := ih sooner (by omega)
      exact ⟨gap, hgap, hlead.trans ⟨after, heq.symm⟩⟩

/-- A word that stands behind another occurrence's start and before its end
begins again inside itself. -/
theorem exists_back (h : word <+: front ++ word) (hlt : front.length < word.length) :
    ∃ back, word = front ++ back ∧ back ≠ [] ∧ back <+: word := by
  obtain ⟨back, rfl⟩ : front <+: word :=
    List.prefix_of_prefix_length_le (List.prefix_append _ _) h (Nat.le_of_lt hlt)
  refine ⟨back, rfl, ?_, ?_⟩
  · rintro rfl
    simp at hlt
  · exact (List.prefix_append_right_inj front).1 h

/-- **The search comes upon every occurrence, or upon one that it begins
inside.** -/
theorem taken_or_overlapped (hword : word ≠ []) : ∀ (n : Nat) (before : List Char),
    before.length ≤ n → IsTaken word before ∨ ∃ earlier front, before = earlier ++ front ∧
      front ≠ [] ∧ front.length < word.length ∧ word <+: front ++ word := by
  intro n
  induction n with
  | zero =>
    intro before hn
    obtain rfl := List.length_eq_zero_iff.1 (Nat.le_zero.1 hn)
    exact .inl (.first (isGap_nil word))
  | succ n ih =>
    intro before hn
    obtain ⟨gap, hgap, rest, hrest⟩ := exists_isGap word _ before (Nat.le_refl _)
    have hlength := congrArg List.length hrest
    simp only [List.length_append] at hlength
    have hlead : gap <+: before ++ word := (List.prefix_append _ _).trans ⟨rest, hrest⟩
    obtain ⟨front, rfl⟩ : gap <+: before :=
      List.prefix_of_prefix_length_le hlead (List.prefix_append _ _) (by omega)
    have hfront : word <+: front ++ word := by
      refine (List.prefix_append_right_inj gap).1 ⟨rest, ?_⟩
      simpa using hrest
    by_cases hnil : front = []
    · subst hnil
      exact .inl (.first (by rwa [List.append_nil]))
    by_cases hlt : front.length < word.length
    · exact .inr ⟨gap, front, rfl, hnil, hlt, hfront⟩
    -- the first occurrence ends before this one
    obtain ⟨behind, rfl⟩ : word <+: front :=
      List.prefix_of_prefix_length_le hfront (List.prefix_append _ _) (by omega)
    have hpos := List.length_pos_iff.2 hword
    simp only [List.length_append] at hn
    rcases ih behind (by omega) with htaken | ⟨earlier, front, rfl, hoverlap⟩
    · exact .inl (by simpa using IsTaken.next hgap htaken)
    · exact .inr ⟨gap ++ word ++ earlier, front, by simp, hoverlap⟩

/-- A word that does not is found wherever it stands whole. -/
theorem containsWord_of_standsWhole {text word : String} (hword : word ≠ "")
    (hoverlap : ¬ OverlapsClear word.toList) (h : StandsWhole word.toList text.toList) :
    containsWord text word = true := by
  have hne : word.toList ≠ [] := by simpa using hword
  obtain ⟨before, after, heq, hbefore, hafter⟩ := h
  rw [containsWord_iff_taken hword]
  rcases taken_or_overlapped hne _ before (Nat.le_refl _) with
    htaken | ⟨earlier, front, rfl, hne, hlt, hfront⟩
  · exact ⟨before, after, heq, htaken, hbefore, hafter⟩
  · -- it would begin inside another one, behind what is clear
    obtain ⟨back, hback⟩ := exists_back hfront hlt
    rw [List.getLast?_append_of_ne_nil _ hne] at hbefore
    exact absurd ⟨front, back, hback.1, hne, hback.2.1, hback.2.2, hbefore⟩ hoverlap

/-- No text that starts with some character of words starts with this word. -/
theorem exists_other_start (hword : word ≠ []) :
    ∃ c, isIdentChar c = true ∧ ∀ rest, ¬ word <+: c :: rest := by
  obtain ⟨d, more, rfl⟩ := List.exists_cons_of_ne_nil hword
  by_cases h : d = 'a'
  · refine ⟨'b', by decide +kernel, fun rest hlead => ?_⟩
    rw [List.cons_prefix_cons, h] at hlead
    exact absurd hlead.1 (by decide)
  · refine ⟨'a', by decide +kernel, fun rest hlead => ?_⟩
    exact h (List.cons_prefix_cons.1 hlead).1

/-- **A word that does is missed** behind its own start and a character that
belongs to words: the search takes the occurrence in front, which is not
whole. -/
theorem exists_missed {word : String} (h : OverlapsClear word.toList) :
    ∃ text, StandsWhole word.toList text.toList ∧ containsWord text word = false := by
  obtain ⟨front, back, hsplit, hfront, hback, ⟨rest, hrest⟩, hclear⟩ := h
  have hne : word.toList ≠ [] := by
    rw [hsplit]
    exact List.append_ne_nil_of_left_ne_nil hfront back
  obtain ⟨c, hc, hstart⟩ := exists_other_start hne
  have htext : front ++ word.toList = word.toList ++ rest := by
    rw [← hrest, ← List.append_assoc, ← hsplit, hrest]
  have hlength : rest.length < word.toList.length := by
    have hlong := congrArg List.length hrest
    have hpos := List.length_pos_iff.2 hback
    simp only [List.length_append] at hlong
    omega
  refine ⟨String.ofList (c :: (front ++ word.toList)), ?_, ?_⟩
  · refine ⟨c :: front, [], by simp, ?_, isClear_none⟩
    rwa [List.getLast?_cons_of_ne_nil hfront]
  · rw [Bool.eq_false_iff, Ne, containsWord_iff_taken (by simpa using hne), String.toList_ofList,
      htext]
    rintro ⟨before, after, heq, htaken, hbefore, -⟩
    cases before with
    | nil => exact hstart _ ⟨after, heq.symm⟩
    | cons d before =>
      obtain ⟨hd, hrest⟩ : c = d ∧ word.toList ++ rest = before ++ word.toList ++ after := by
        simpa using heq
      subst hd
      have hbehind := (isTaken_cons (hstart (before ++ word.toList ++ after))).1 htaken
      rcases isTaken_of_prefix hrest.symm hbehind with rfl | ⟨more, rfl, -⟩
      · -- a character that belongs to words stands before the first occurrence
        have hnot : isIdentChar c = false := isClear_some.1 hbefore
        rw [hc] at hnot
        cases hnot
      · -- and there is no room for another one
        have hlong := congrArg List.length hrest
        simp only [List.length_append] at hlong
        omega

/-- **What a whole-word search finds.** A text contains a word exactly if one of
the occurrences that the search comes upon from the left, each behind the end
of the one before, is whole. So whatever is found stands whole, and whatever
stands whole is found exactly of the words that do not begin again inside
themselves behind a clear character. -/
theorem whole_word_search (word : String) (hword : word ≠ "") :
    (∀ text, containsWord text word = true ↔ ∃ before after,
      text.toList = before ++ word.toList ++ after ∧ IsTaken word.toList before ∧
        IsClear before.getLast? ∧ IsClear after.head?) ∧
    (∀ text, containsWord text word = true → StandsWhole word.toList text.toList) ∧
    ((∀ text, StandsWhole word.toList text.toList → containsWord text word = true) ↔
      ¬ OverlapsClear word.toList) := by
  refine ⟨fun text => containsWord_iff_taken hword, fun text hfound => ?_, ?_⟩
  · obtain ⟨before, after, heq, -, hclear⟩ := (containsWord_iff_taken hword).1 hfound
    exact ⟨before, after, heq, hclear⟩
  · constructor
    · intro hall hoverlap
      obtain ⟨text, hwhole, hmissed⟩ := exists_missed hoverlap
      rw [hall text hwhole] at hmissed
      cases hmissed
    · exact fun hoverlap text => containsWord_of_standsWhole hword hoverlap

/-- An identifier is found exactly where it stands whole. -/
theorem whole_word_search_order : "Order" ≠ "" ∧
    ∀ text, containsWord text "Order" = true ↔ StandsWhole "Order".toList text.toList := by
  have hword : "Order" ≠ "" := by decide
  obtain ⟨-, hsound, hcomplete⟩ := whole_word_search "Order" hword
  refine ⟨hword, fun text => ⟨hsound text, hcomplete.2 ?_ text⟩⟩
  exact not_overlapsClear_of_forall (List.all_eq_true.1 (by decide +kernel))

/-- The name of a nested class of its own name begins again inside itself. The
search takes the occurrence behind the `B` and misses the one at the end. -/
theorem overlapping_word_missed :
    StandsWhole "A$A".toList "BA$A$A".toList ∧ containsWord "BA$A$A" "A$A" = false := by
  refine ⟨⟨"BA$".toList, [], by decide +kernel, ?_, isClear_none⟩, by decide +kernel⟩
  have hlast : "BA$".toList.getLast? = some '$' := by decide +kernel
  rw [hlast, isClear_some]
  decide +kernel

end Docsmith.Text
