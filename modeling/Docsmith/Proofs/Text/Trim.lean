import Docsmith.Text.Basic
import Mathlib.Data.List.TakeWhile
/-!
# Text — trimming

A text is what is left without the characters of a sort at its end, and such
characters (`exists_append_dropEndWhile`). Blanks around a text are trimmed, however
many there are, and nothing else is (`trim_append_blanks`, `trim_eq_self`).
-/


namespace Docsmith.Text

variable {p : Char → Bool} {c : Char} {text before line word blanks rest : List Char}

/-! ## At the start -/

theorem forall_mem_head?_cons (hc : p c = false) (rest : List Char) :
    ∀ d ∈ (c :: rest).head?, p d = false := by
  simpa using hc

/-- The characters of a sort at the start of a text end where others follow it. -/
theorem takeWhile_append (hrest : ∀ c ∈ rest.head?, p c = false) (text : List Char) :
    (text ++ rest).takeWhile p = text.takeWhile p := by
  induction text with
  | nil =>
    cases rest with
    | nil => rfl
    | cons c rest => exact List.takeWhile_cons_of_neg (by simp [hrest c rfl])
  | cons c text ih =>
    rw [List.cons_append, List.takeWhile_cons, List.takeWhile_cons, ih]

theorem dropWhile_append (hrest : ∀ c ∈ rest.head?, p c = false) (text : List Char) :
    (text ++ rest).dropWhile p = text.dropWhile p ++ rest := by
  induction text with
  | nil =>
    cases rest with
    | nil => rfl
    | cons c rest => exact List.dropWhile_cons_of_neg (by simp [hrest c rfl])
  | cons c text ih =>
    rw [List.cons_append, List.dropWhile_cons, List.dropWhile_cons, ih]
    split <;> rfl

theorem takeWhile_append_of_all (h : ∀ c ∈ text, p c = true)
    (hrest : ∀ c ∈ rest.head?, p c = false) : (text ++ rest).takeWhile p = text := by
  rw [takeWhile_append hrest, List.takeWhile_eq_self_iff.2 h]

theorem dropWhile_append_of_all (h : ∀ c ∈ text, p c = true)
    (hrest : ∀ c ∈ rest.head?, p c = false) : (text ++ rest).dropWhile p = rest := by
  rw [dropWhile_append hrest, List.dropWhile_eq_nil_iff.2 h, List.nil_append]

theorem takeWhile_append_cons (rest : List Char) (hbefore : ∀ d ∈ before, p d = true)
    (hc : p c = false) : (before ++ c :: rest).takeWhile p = before :=
  takeWhile_append_of_all hbefore (forall_mem_head?_cons hc rest)

theorem dropWhile_append_cons (rest : List Char) (hbefore : ∀ d ∈ before, p d = true)
    (hc : p c = false) : (before ++ c :: rest).dropWhile p = c :: rest :=
  dropWhile_append_of_all hbefore (forall_mem_head?_cons hc rest)

/-- A text that is not blank starts with blanks and a character that is none. -/
theorem exists_of_not_isBlankText (h : isBlankText line = false) :
    ∃ blanks c rest, line = blanks ++ c :: rest ∧ (∀ d ∈ blanks, isBlank d = true) ∧
      isBlank c = false := by
  induction line with
  | nil => cases h
  | cons d line ih =>
    cases hd : isBlank d with
    | false => exact ⟨[], d, line, rfl, List.forall_mem_nil _, hd⟩
    | true =>
      have hrest : isBlankText line = false := by
        simpa [isBlankText, hd] using h
      obtain ⟨blanks, c, rest, rfl, hblanks, hc⟩ := ih hrest
      exact ⟨d :: blanks, c, rest, rfl, List.forall_mem_cons.2 ⟨hd, hblanks⟩, hc⟩

/-! ## At the end -/

theorem prefix_dropEndWhile (p : Char → Bool) (text : List Char) :
    dropEndWhile p text <+: text := by
  rw [dropEndWhile, ← List.reverse_suffix, List.reverse_reverse]
  exact List.dropWhile_suffix _

theorem mem_of_mem_dropEndWhile (h : c ∈ dropEndWhile p text) : c ∈ text :=
  (prefix_dropEndWhile p text).subset h

/-- **Only characters of the sort are dropped.** -/
theorem exists_append_dropEndWhile (p : Char → Bool) (text : List Char) :
    ∃ tail, (∀ c ∈ tail, p c = true) ∧ text = dropEndWhile p text ++ tail := by
  refine ⟨(text.reverse.takeWhile p).reverse, fun c hc => ?_, ?_⟩
  · exact List.all_eq_true.1 List.all_takeWhile c (List.mem_reverse.1 hc)
  · rw [dropEndWhile, ← List.reverse_append, List.takeWhile_append_dropWhile,
      List.reverse_reverse]

/-- **And all of them are.** -/
theorem of_mem_getLast?_dropEndWhile (h : c ∈ (dropEndWhile p text).getLast?) : p c = false := by
  rw [dropEndWhile, List.getLast?_reverse] at h
  have hhead := List.head?_dropWhile_not p text.reverse
  rw [h] at hhead
  simpa using hhead

theorem dropEndWhile_append {tail : List Char} (h : ∀ c ∈ tail, p c = true) (text : List Char) :
    dropEndWhile p (text ++ tail) = dropEndWhile p text := by
  rw [dropEndWhile, List.reverse_append,
    List.dropWhile_append_of_pos fun c hc => h c (List.mem_reverse.1 hc)]
  rfl

/-- What does not end a text stays at its end. -/
theorem dropEndWhile_append_cons (before after : List Char) (h : p c = false) :
    dropEndWhile p (before ++ c :: after) = before ++ c :: dropEndWhile p after := by
  simp only [dropEndWhile, List.reverse_append, List.reverse_cons, List.append_assoc,
    List.singleton_append]
  rw [List.dropWhile_append]
  split
  · next hempty =>
    rw [List.dropWhile_cons_of_neg (by simp [h]), List.isEmpty_iff.1 hempty]
    simp
  · simp

theorem dropEndWhile_cons (p : Char → Bool) (c : Char) (text : List Char) :
    dropEndWhile p (c :: text) =
      if dropEndWhile p text = [] then if p c then [] else [c] else c :: dropEndWhile p text := by
  simp only [dropEndWhile, List.reverse_cons, List.dropWhile_append, List.isEmpty_iff,
    List.reverse_eq_nil_iff]
  split_ifs with hempty hc
  · simp [hc]
  · simp [hc]
  · simp

theorem dropEndWhile_eq_self (h : ∀ c ∈ text.getLast?, p c = false) :
    dropEndWhile p text = text := by
  rcases List.eq_nil_or_concat text with rfl | ⟨before, c, rfl⟩
  · rfl
  · rw [List.concat_eq_append] at h ⊢
    exact dropEndWhile_append_cons before [] (h c List.getLast?_concat)

/-! ## Copies of a character -/

/-- A text is what is left without the copies of a character at its end, and copies. -/
theorem exists_append_dropAllEnd (c : Char) (text : List Char) :
    ∃ n, text = dropAllEnd c text ++ List.replicate n c := by
  obtain ⟨tail, htail, htext⟩ := exists_append_dropEndWhile (· == c) text
  refine ⟨tail.length, ?_⟩
  rwa [← List.eq_replicate_of_mem fun d hd => by simpa using htail d hd]

theorem getLast?_dropAllEnd_ne (c : Char) (text : List Char) :
    (dropAllEnd c text).getLast? ≠ some c := by
  intro hlast
  simpa using of_mem_getLast?_dropEndWhile hlast

/-- **All copies at the end are dropped**, however many there are. -/
theorem dropAllEnd_append_replicate (h : text.getLast? ≠ some c) (n : Nat) :
    dropAllEnd c (text ++ List.replicate n c) = text := by
  have hcopies : ∀ d ∈ List.replicate n c, (d == c) = true := by
    intro d hd
    simpa using List.eq_of_mem_replicate hd
  rw [dropAllEnd, dropEndWhile_append hcopies]
  refine dropEndWhile_eq_self fun d hd => ?_
  have hne : d ≠ c := fun heq => h (heq ▸ hd)
  simpa using hne

/-! ## Blanks -/

theorem mem_of_mem_trim (h : c ∈ trim text) : c ∈ text :=
  (List.dropWhile_suffix _).subset (mem_of_mem_dropEndWhile h)

/-- Blanks in front of a text that starts with none are dropped. -/
theorem trimStart_append (hblanks : ∀ c ∈ blanks, isBlank c = true)
    (htext : ∀ c ∈ text.head?, isBlank c = false) : trimStart (blanks ++ text) = text :=
  dropWhile_append_of_all hblanks htext

/-- A text that neither starts nor ends with a blank is trimmed. -/
theorem trim_eq_self (hfirst : ∀ c ∈ text.head?, isBlank c = false)
    (hlast : ∀ c ∈ text.getLast?, isBlank c = false) : trim text = text := by
  have hstart : trimStart text = text := trimStart_append (List.forall_mem_nil _) hfirst
  rw [trim, hstart, trimEnd, dropEndWhile_eq_self hlast]

/-- **Blanks at the end of a text are trimmed.** -/
theorem trim_append_blanks (h : ∀ c ∈ blanks, isBlank c = true) (text : List Char) :
    trim (text ++ blanks) = trim text := by
  rw [trim, trimStart, List.dropWhile_append]
  split
  · next hempty =>
    rw [List.dropWhile_eq_nil_iff.2 h, trim, trimStart, List.isEmpty_iff.1 hempty]
  · rw [trimEnd, dropEndWhile_append h]
    rfl

/-- **So are those at its start.** -/
theorem trim_blanks_append (h : ∀ c ∈ blanks, isBlank c = true) (text : List Char) :
    trim (blanks ++ text) = trim text := by
  rw [trim, trimStart, List.dropWhile_append_of_pos h]
  rfl

/-- Trimming goes on where the blanks at the end are gone. -/
theorem trim_trimEnd (text : List Char) : trim (trimEnd text) = trim text := by
  obtain ⟨blanks, hblanks, htext⟩ := exists_append_dropEndWhile isBlank text
  calc trim (trimEnd text)
    _ = trim (trimEnd text ++ blanks) := (trim_append_blanks hblanks _).symm
    _ = trim text := congrArg trim htext.symm

/-- A word at the start of a text stays. -/
theorem trimEnd_append (h : ∀ c ∈ word, isBlank c = false) (rest : List Char) :
    trimEnd (word ++ rest) = word ++ trimEnd rest := by
  induction word with
  | nil => rfl
  | cons c word ih =>
    obtain ⟨hc, hword⟩ := List.forall_mem_cons.1 h
    rw [List.cons_append, List.cons_append, ← ih hword]
    exact dropEndWhile_append_cons [] (word ++ rest) hc

/-- A text between its blanks and a word is trimmed at the end. -/
theorem trim_append (hblanks : ∀ c ∈ blanks, isBlank c = true) (hne : word ≠ [])
    (hword : ∀ c ∈ word, isBlank c = false) (rest : List Char) :
    trim (blanks ++ (word ++ rest)) = word ++ trimEnd rest := by
  obtain ⟨c, word, rfl⟩ := List.exists_cons_of_ne_nil hne
  rw [trim, trimStart, List.cons_append,
    dropWhile_append_cons _ hblanks (hword c List.mem_cons_self), ← List.cons_append,
    trimEnd_append hword]

end Docsmith.Text
