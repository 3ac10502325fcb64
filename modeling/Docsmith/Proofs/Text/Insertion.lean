import Docsmith.Proofs.Text.Lines
/-!
# Text — a piece put into a line

A piece is put into the line with a number, behind the blanks that the line
starts with (`inFront`). All other lines stay as they are, and so does what the
line ends with (`lines_inFront`). Any lines without line feeds are the lines of
some text (`lines_unlines`).
-/


namespace Docsmith.Text

variable {c : Char} {piece text before after line : List Char} {n : Nat}

/-- A blank within a line. -/
def isIndent (c : Char) : Bool :=
  isBlank c && c != '\n'

/-- A text with a piece in the line with a number, counted from zero, behind the
blanks that the line starts with. -/
def inFront (piece : List Char) : (n : Nat) → List Char → List Char
  | 0, text => text.takeWhile isIndent ++ (piece ++ text.dropWhile isIndent)
  | _ + 1, [] => []
  | n + 1, c :: text => c :: inFront piece (if c = '\n' then n else n + 1) text

/-- A line with a piece behind the blanks that it starts with. -/
def lineInFront (piece line : List Char) : List Char :=
  line.takeWhile isBlank ++ (piece ++ line.dropWhile isBlank)

/-- **A piece put in front of a line's text stands in front of its trimmed
text**, if the piece starts with no blank. -/
theorem trim_lineInFront (hpiece : isBlank c = false) (h : isBlankText line = false) :
    trim (lineInFront (c :: piece) line) = c :: piece ++ trim line := by
  obtain ⟨blanks, d, rest, rfl, hblanks, hd⟩ := exists_of_not_isBlankText h
  rw [lineInFront, takeWhile_append_cons rest hblanks hd, dropWhile_append_cons rest hblanks hd]
  simp only [trim, trimStart, trimEnd, dropWhile_append_cons rest hblanks hd, List.cons_append]
  rw [dropWhile_append_cons _ hblanks hpiece, ← List.cons_append,
    dropEndWhile_append_cons (c :: piece) rest hd]
  have hline := dropEndWhile_append_cons [] rest hd
  rw [List.nil_append, List.nil_append] at hline
  rw [hline]
  rfl

/-! ## Lines -/

/-- The last character of a line is dropped if it is a carriage return. -/
theorem dropReturn_concat (line : List Char) (c : Char) :
    dropReturn (line ++ [c]) = if c = '\r' then line else line ++ [c] := by
  simp only [dropReturn, dropEnd?, List.reverse_singleton, List.reverse_append,
    List.singleton_append, dropStart?, eq_comm (a := c)]
  split_ifs <;> simp

/-- Only the end of a line matters for its carriage return. -/
theorem dropReturn_append (before : List Char) (h : after ≠ []) :
    dropReturn (before ++ after) = before ++ dropReturn after := by
  obtain ⟨rest, c, rfl⟩ := List.eq_nil_or_concat after |>.resolve_left h
  rw [List.concat_eq_append, ← List.append_assoc, dropReturn_concat, dropReturn_concat]
  split_ifs <;> simp

/-- What is none stays, with all in front of it. -/
theorem dropReturn_append_cons (before after : List Char) (h : c ≠ '\r') :
    dropReturn (before ++ c :: after) = before ++ c :: dropReturn after := by
  cases after with
  | nil =>
    rw [dropReturn_concat, if_neg h]
    rfl
  | cons d after =>
    rw [List.append_cons, dropReturn_append _ (List.cons_ne_nil d after), ← List.append_cons]

/-- A line that is not blank is not blank with its carriage return. -/
theorem isBlankText_of_dropReturn (h : isBlankText (dropReturn line) = false) :
    isBlankText line = false := by
  rw [← Bool.not_eq_true, isBlankText, List.all_eq_true] at h ⊢
  exact fun hall => h fun c hc => hall c (mem_of_mem_dropReturn hc)

/-- A text is its first line, or its first line, a line feed and the rest. -/
theorem lines_cases (text : List Char) : text = [] ∨ ('\n' ∉ text ∧ lines text = [text]) ∨
    ∃ first rest, text = first ++ '\n' :: rest ∧ '\n' ∉ first ∧
      lines text = dropReturn first :: lines rest := by
  by_cases h : '\n' ∈ text
  · obtain ⟨first, rest, rfl, hfirst⟩ := List.eq_append_cons_of_mem h
    refine .inr (.inr ⟨first, rest, rfl, hfirst, ?_⟩)
    rw [lines_append_cons, splitChar_of_not_mem hfirst]
    rfl
  · by_cases hne : text = []
    · exact .inl hne
    · exact .inr (.inl ⟨h, lines_of_not_mem hne h⟩)

/-- A text's first line starts as the text does. -/
theorem exists_lines_append_cons (h : '\n' ∉ before) (hfeed : c ≠ '\n') (hreturn : c ≠ '\r')
    (after : List Char) :
    ∃ tail rest, lines (before ++ c :: after) = (before ++ c :: tail) :: rest := by
  have hstart : '\n' ∉ before ++ [c] := by simp [h, hfeed.symm]
  rcases lines_cases after with rfl | ⟨hafter, -⟩ | ⟨first, rest, rfl, hfirst, -⟩
  · exact ⟨[], [], lines_of_not_mem (by simp) hstart⟩
  · refine ⟨after, [], lines_of_not_mem (by simp) ?_⟩
    rw [List.append_cons]
    exact fun hmem => (List.mem_append.1 hmem).elim hstart hafter
  · refine ⟨dropReturn first, lines rest, ?_⟩
    rw [← List.cons_append, ← List.append_assoc, lines_append_cons, splitChar_of_not_mem,
      List.map_singleton, dropReturn_append_cons before first hreturn]
    · rfl
    · rw [List.append_cons]
      exact fun hmem => (List.mem_append.1 hmem).elim hstart hfirst

/-- Behind a line feed the lines are counted on. -/
theorem inFront_succ {first : List Char} (rest : List Char) (h : '\n' ∉ first) :
    inFront piece (n + 1) (first ++ '\n' :: rest) = first ++ '\n' :: inFront piece n rest := by
  induction first with
  | nil => simp [inFront]
  | cons d first ih =>
    obtain ⟨hd, hfirst⟩ := not_or.1 (mt List.mem_cons.2 h)
    rw [List.cons_append, inFront, if_neg (Ne.symm hd), ih hfirst]
    rfl

/-- In the first line the piece stands behind the line's blanks. -/
theorem inFront_zero {blanks : List Char} (rest : List Char)
    (hblanks : ∀ d ∈ blanks, isBlank d = true) (hfeed : '\n' ∉ blanks) (hc : isBlank c = false) :
    inFront piece 0 (blanks ++ c :: rest) = blanks ++ (piece ++ c :: rest) := by
  have hindent : ∀ d ∈ blanks, isIndent d = true := by
    intro d hd
    rw [isIndent, hblanks d hd, Bool.true_and, bne_iff_ne]
    rintro rfl
    exact hfeed hd
  have hstart : isIndent c = false := by rw [isIndent, hc, Bool.false_and]
  rw [inFront, takeWhile_append_cons rest hindent hstart, dropWhile_append_cons rest hindent hstart]

/-- The first line of a text, with its piece. -/
theorem dropReturn_lineInFront {blanks : List Char} (rest : List Char)
    (hblanks : ∀ d ∈ blanks, isBlank d = true) (hc : isBlank c = false) :
    dropReturn (blanks ++ (piece ++ c :: rest)) =
      lineInFront piece (dropReturn (blanks ++ c :: rest)) := by
  have hreturn : c ≠ '\r' := by
    rintro rfl
    cases hc
  rw [← List.append_assoc, dropReturn_append_cons _ rest hreturn,
    dropReturn_append_cons blanks rest hreturn, lineInFront,
    takeWhile_append_cons _ hblanks hc, dropWhile_append_cons _ hblanks hc, List.append_assoc]

/-- **The piece changes its own line alone**, by induction on the number of the
line. -/
theorem lines_inFront (hpiece : '\n' ∉ piece) (hblank : isBlankText line = false) :
    ∀ {n text}, (lines text)[n]? = some line →
      lines (inFront piece n text) = (lines text).set n (lineInFront piece line) := by
  intro n
  induction n with
  | zero =>
    intro text hline
    rcases lines_cases text with rfl | ⟨hfeed, hlines⟩ | ⟨first, rest, rfl, hfirst, hlines⟩
    · cases hline
    · rw [hlines] at hline ⊢
      cases hline
      obtain ⟨blanks, c, rest, rfl, hblanks, hc⟩ := exists_of_not_isBlankText hblank
      obtain ⟨hfeeds, hrest⟩ := not_or.1 (mt List.mem_append.2 hfeed)
      rw [inFront_zero rest hblanks hfeeds hc, lines_of_not_mem (by simp) (by simp_all)]
      rw [lineInFront, takeWhile_append_cons rest hblanks hc, dropWhile_append_cons rest hblanks hc]
      rfl
    · rw [hlines] at hline ⊢
      cases hline
      obtain ⟨blanks, c, more, rfl, hblanks, hc⟩ :=
        exists_of_not_isBlankText (isBlankText_of_dropReturn hblank)
      obtain ⟨hfeeds, hmore⟩ := not_or.1 (mt List.mem_append.2 hfirst)
      rw [List.append_assoc, List.cons_append, inFront_zero _ hblanks hfeeds hc, ← List.cons_append,
        ← List.append_assoc piece, ← List.append_assoc blanks, lines_append_cons,
        splitChar_of_not_mem (by simp_all), List.map_singleton,
        dropReturn_lineInFront more hblanks hc]
      rfl
  | succ n ih =>
    intro text hline
    rcases lines_cases text with rfl | ⟨hfeed, hlines⟩ | ⟨first, rest, rfl, hfirst, hlines⟩
    · cases hline
    · rw [hlines] at hline
      cases hline
    · rw [hlines] at hline ⊢
      rw [inFront_succ rest hfirst, lines_append_cons, splitChar_of_not_mem hfirst, ih hline]
      rfl

/-- Lines, each with its end. -/
def unlines (ls : List (List Char)) : List Char :=
  ls.flatMap (· ++ ['\r', '\n'])

/-- **Lines come back from their text.** -/
theorem lines_unlines {ls : List (List Char)} (h : ∀ l ∈ ls, '\n' ∉ l) :
    lines (unlines ls) = ls := by
  induction ls with
  | nil => rfl
  | cons l ls ih =>
    obtain ⟨hl, hls⟩ := List.forall_mem_cons.1 h
    have hfeed : '\n' ∉ l ++ ['\r'] := by simp [hl]
    have hsplit : unlines (l :: ls) = (l ++ ['\r']) ++ '\n' :: unlines ls := by simp [unlines]
    rw [hsplit, lines_append_cons, splitChar_of_not_mem hfeed, ih hls, List.map_singleton,
      dropReturn_concat, if_pos rfl]
    rfl

/-! ## Occurrences -/

/-- A needle occurs where it stands. -/
theorem occurs_append (before needle after : List Char) :
    occurs needle (before ++ (needle ++ after)) = true := by
  have hstart : dropStart? needle (needle ++ after) = some after := dropStart?_eq_some.2 rfl
  unfold occurs
  induction before with
  | nil =>
    rw [List.nil_append]
    cases hneedle : needle ++ after with
    | nil =>
      rw [List.append_eq_nil_iff] at hneedle
      simp [hneedle, splitOnce?]
    | cons c text =>
      rw [splitOnce?, ← hneedle, hstart]
      rfl
  | cons c before ih =>
    rw [List.cons_append, splitOnce?]
    split
    · rfl
    · rwa [Option.isSome_map]

end Docsmith.Text
