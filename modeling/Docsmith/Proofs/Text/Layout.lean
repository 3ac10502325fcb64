import Docsmith.Proofs.Text.Lines
/-!
# Text — texts laid out in lines

A text made of lines, with a line feed behind each, is cut into these lines again
and the empty text behind the last one (`linesBy_ofLines`). That holds for every notion
of a line break (`IsLineBreak`), the line feed alone or all the characters that may end
a line, as long as none stands inside a line. In a text whose only blanks are spaces
(`IsSpaced`) there is none of any notion.
-/


namespace Docsmith.Text

variable {p : Char → Bool} {has : String → Bool} {c : Char} {s t line : String}
variable {lines : List String}

/-- A notion of the characters that end a line: the line feed is one of them, and all of
them are blanks other than the space. -/
structure IsLineBreak (p : Char → Bool) : Prop where
  feed : p '\n' = true
  space : p ' ' = false
  blank : ∀ c, p c = true → isBlank c = true

/-- The line feed alone ends lines. -/
theorem isLineBreak_feed : IsLineBreak (· == '\n') := by
  refine ⟨rfl, rfl, fun c hc => ?_⟩
  rw [beq_iff_eq.1 hc]
  rfl

/-- The characters that end lines in any kind of text. -/
def isAnyBreak (c : Char) : Bool :=
  ['\n', '\x0b', '\x0c', '\r', '\u0085', '\u2028', '\u2029'].contains c

theorem isLineBreak_isAnyBreak : IsLineBreak isAnyBreak where
  feed := by decide
  space := by decide
  blank c hc := by
    have hall : ['\n', '\x0b', '\x0c', '\r', '\u0085', '\u2028', '\u2029'].all isBlank = true := by
      decide
    exact List.all_eq_true.1 hall c (List.contains_iff_mem.1 hc)

/-- The lines of a text, the last one included if it is empty. -/
def linesBy (p : Char → Bool) (text : String) : List String :=
  (splitBy p text.toList).map String.ofList

/-- The text of some lines, with a line feed behind each. -/
def ofLines (lines : List String) : String :=
  String.join (lines.map (· ++ "\n"))

/-- No line ends inside the text. -/
def IsLine (p : Char → Bool) (line : String) : Prop :=
  ∀ c ∈ line.toList, p c = false

/-- The only blanks of the text are spaces. -/
def IsSpaced (text : String) : Prop :=
  ∀ c ∈ text.toList, c = ' ' ∨ isBlank c = false

instance (text : String) : Decidable (IsSpaced text) :=
  List.decidableBAll (fun c => c = ' ' ∨ isBlank c = false) text.toList

theorem isLine_append : IsLine p (s ++ t) ↔ IsLine p s ∧ IsLine p t := by
  simp only [IsLine, String.toList_append, List.forall_mem_append]

theorem isSpaced_append : IsSpaced (s ++ t) ↔ IsSpaced s ∧ IsSpaced t := by
  simp only [IsSpaced, String.toList_append, List.forall_mem_append]

/-- **No line ends where the only blanks are spaces.** -/
theorem IsLineBreak.isLine (hp : IsLineBreak p) (h : IsSpaced s) : IsLine p s := by
  intro c hc
  rcases h c hc with rfl | hblank
  · exact hp.space
  · refine Bool.eq_false_iff.2 fun hbreak => ?_
    rw [hp.blank c hbreak] at hblank
    cases hblank

theorem ofLines_append (lines more : List String) :
    ofLines (lines ++ more) = ofLines lines ++ ofLines more := by
  rw [ofLines, List.map_append, String.join_append]
  rfl

theorem ofLines_map {α : Type} (f : α → String) (xs : List α) :
    ofLines (xs.map f) = String.join (xs.map fun a => f a ++ "\n") := by
  rw [ofLines, List.map_map]
  rfl

/-- **Lines come back from their text.** -/
theorem linesBy_ofLines (hp : IsLineBreak p) (h : ∀ line ∈ lines, IsLine p line) :
    linesBy p (ofLines lines) = lines ++ [""] := by
  induction lines with
  | nil => rfl
  | cons line lines ih =>
    obtain ⟨hline, hlines⟩ := List.forall_mem_cons.1 h
    have htext : (ofLines (line :: lines)).toList =
        line.toList ++ '\n' :: (ofLines lines).toList := by
      simp [ofLines]
    have ih := ih hlines
    -- the first line break is the one behind the first line
    unfold linesBy at ih ⊢
    rw [htext, splitBy_append_cons _ _ hp.feed, splitBy_of_forall hline, List.map_append, ih]
    simp

/-! ## Blocks of lines -/

/-- No line of the block counts. -/
theorem countP_map_eq_zero {α : Type} {f : α → String} {block : List α}
    (h : ∀ a ∈ block, has (f a) = false) : (block.map f).countP has = 0 := by
  refine List.countP_eq_zero.2 (List.forall_mem_map.2 fun a ha => ?_)
  rw [h a ha]
  exact Bool.false_ne_true

/-- All lines of the block count, and no other line. -/
theorem filter_block {before block after : List String}
    (hbefore : ∀ line ∈ before, has line = false) (hblock : ∀ line ∈ block, has line = true)
    (hafter : ∀ line ∈ after, has line = false) :
    (before ++ block ++ after).filter has = block := by
  have hnone : ∀ lines : List String, (∀ line ∈ lines, has line = false) →
      lines.filter has = [] := fun lines h =>
    List.filter_eq_nil_iff.2 fun line hline => by simp [h line hline]
  rw [List.filter_append, List.filter_append, hnone before hbefore, hnone after hafter,
    List.filter_eq_self.2 hblock, List.nil_append, List.append_nil]

/-! ## How a line begins -/

/-- The line begins with the given text. -/
def begins (head line : String) : Bool :=
  head.toList.isPrefixOf line.toList

theorem begins_iff : begins s t = true ↔ s.toList <+: t.toList :=
  List.isPrefixOf_iff_prefix

theorem head?_of_begins (ht : t.toList.head? = some c) (h : begins t line = true) :
    line.toList.head? = some c := by
  obtain ⟨more, hmore⟩ := begins_iff.1 h
  rw [← hmore, List.head?_append, ht]
  rfl

/-- Lines that begin differently are different. -/
theorem beq_eq_false_of_begins (h : begins s line = true) (ht : begins s t = false) :
    (line == t) = false := by
  refine beq_eq_false_iff_ne.2 fun he => ?_
  rw [he, ht] at h
  cases h

/-- Lines that end differently are different. -/
theorem beq_eq_false_of_getLast? (h : s.toList.getLast? = some c)
    (ht : t.toList.getLast? ≠ some c) : (line ++ s == t) = false := by
  refine beq_eq_false_iff_ne.2 fun he => ht ?_
  rw [← he, String.toList_append, List.getLast?_append, h]
  rfl

/-- A word and a space begin only what has the same word before its first space. -/
theorem eq_of_prefix {word other rest text : List Char} (hword : ' ' ∉ word) (hother : ' ' ∉ other)
    (h : word ++ ' ' :: rest <+: other ++ ' ' :: text) : word = other ∧ rest <+: text := by
  obtain ⟨more, hmore⟩ := h
  rw [List.append_assoc, List.cons_append] at hmore
  have hcut := congrArg (splitOnce? [' ']) hmore
  rw [splitOnce?_append_cons _ hword, splitOnce?_append_cons _ hother] at hcut
  cases hcut
  exact ⟨rfl, List.prefix_append rest more⟩

end Docsmith.Text
