import Docsmith.Proofs.Source.JavaOwners
import Docsmith.Proofs.Text.Trim
import Mathlib.Data.Bool.AllAny
import Mathlib.Data.List.Induction
import Mathlib.Tactic.SplitIfs
/-!
# Java — noise makes no difference

A line's literals and the comment at its end are noise. A line is empty or a comment, or it
starts with a character of code, a literal, or a literal that is not closed
(`line_induction`). What is left of it without noise is bare: literals are empty and there
is no comment (`isBare_stripNoise`), and a bare line stays as it is
(`IsBare.stripNoise_eq`). Lines that differ only inside their literals and behind the
slashes of a comment have the same code (`SameCode`); the same is left of them
(`SameCode.stripNoise_eq`), and they keep the same code without the blanks at their ends and
behind the words they start with (`SameCode.trim`, `SameCode.package?_eq`).

Outside comments a step of the reader is told by the code of its line
(`step_eq_of_sameCode`), so sources that differ in nothing but the noise of such lines lead
through the same states (`DifferInNoise.stateAfter_eq_and_readOf_eq`). Braces, signs and
parentheses in literals and in comments at the end of a line have no part in the depth, the
scopes and the annotations, nor in what is read (`noise_is_invisible`).
-/


namespace Docsmith.Source.Lines

variable {quote c : Char} {text text' inside line other : List Char}

/-! ## Literals -/

/-- Opens a literal, and closes one that it opened. -/
def isQuote (c : Char) : Bool :=
  c == '"' || c == '\''

/-- A text inside a literal: a backslash takes the next character along, and the quote of
the literal stands in it only so. -/
inductive IsInside (quote : Char) : List Char → Prop
  | nil : IsInside quote []
  | char {c : Char} {text : List Char} (hc : c ≠ '\\') (hquote : c ≠ quote)
      (h : IsInside quote text) : IsInside quote (c :: text)
  | escape (c : Char) {text : List Char} (h : IsInside quote text) :
      IsInside quote ('\\' :: c :: text)

/-- The text behind a quote that no quote closes; a last backslash has nothing to take
along. -/
inductive IsUnclosed (quote : Char) : List Char → Prop
  | nil : IsUnclosed quote []
  | backslash : IsUnclosed quote ['\\']
  | char {c : Char} {text : List Char} (hc : c ≠ '\\') (hquote : c ≠ quote)
      (h : IsUnclosed quote text) : IsUnclosed quote (c :: text)
  | escape (c : Char) {text : List Char} (h : IsUnclosed quote text) :
      IsUnclosed quote ('\\' :: c :: text)

theorem ne_of_isQuote (hquote : isQuote quote = true) (hc : isQuote c = false) : quote ≠ c := by
  rintro rfl
  rw [hquote] at hc
  cases hc

theorem isBlank_of_isQuote (h : isQuote quote = true) : Text.isBlank quote = false := by
  simp only [isQuote, Bool.or_eq_true, beq_iff_eq] at h
  rcases h with rfl | rfl <;> decide

/-- **Behind a quote** there is a literal's text and the quote again, or the literal is not
closed: by induction on the text, in which a backslash takes two characters. -/
theorem literal_cases (quote : Char) (text : List Char) :
    (∃ inside rest, IsInside quote inside ∧ text = inside ++ quote :: rest) ∨
      IsUnclosed quote text := by
  -- what a character that is no backslash adds in front
  have hchar : ∀ c text, c ≠ '\\' →
      ((∃ inside rest, IsInside quote inside ∧ text = inside ++ quote :: rest) ∨
        IsUnclosed quote text) →
      (∃ inside rest, IsInside quote inside ∧ c :: text = inside ++ quote :: rest) ∨
        IsUnclosed quote (c :: text) := by
    intro c text hc h
    by_cases hquote : c = quote
    · subst hquote
      exact .inl ⟨[], text, .nil, rfl⟩
    · rcases h with ⟨inside, rest, hinside, rfl⟩ | hunclosed
      · exact .inl ⟨c :: inside, rest, .char hc hquote hinside, rfl⟩
      · exact .inr (.char hc hquote hunclosed)
  induction text using List.twoStepInduction with
  | nil => exact .inr .nil
  | singleton c =>
    by_cases hc : c = '\\'
    · subst hc
      exact .inr .backslash
    · exact hchar c [] hc (.inr .nil)
  | cons_cons c d text ih ih' =>
    by_cases hc : c = '\\'
    · subst hc
      rcases ih with ⟨inside, rest, hinside, rfl⟩ | hunclosed
      · exact .inl ⟨'\\' :: d :: inside, rest, .escape d hinside, rfl⟩
      · exact .inr (.escape d hunclosed)
    · exact hchar c (d :: text) hc (ih' d)

/-! ## What is left of a line -/

/-- In a literal a character other than a backslash goes, unless it closes the literal. -/
theorem stripNoise_some_cons (hc : c ≠ '\\') (text : List Char) :
    stripNoise (some quote) (c :: text) =
      if c = quote then c :: stripNoise none text else stripNoise (some quote) text := by
  rw [stripNoise.eq_def]
  exact if_neg hc

/-- **Nothing is left of a literal's text.** -/
theorem stripNoise_inside (h : IsInside quote inside) (rest : List Char) :
    stripNoise (some quote) (inside ++ rest) = stripNoise (some quote) rest := by
  induction h with
  | nil => rfl
  | char hc hquote h ih => rw [List.cons_append, stripNoise_some_cons hc, if_neg hquote, ih]
  | escape c h ih => exact ih

theorem stripNoise_closing (hquote : isQuote quote = true) (rest : List Char) :
    stripNoise (some quote) (quote :: rest) = quote :: stripNoise none rest := by
  rw [stripNoise_some_cons (ne_of_isQuote hquote (by decide)), if_pos rfl]

theorem stripNoise_unclosed (h : IsUnclosed quote text) : stripNoise (some quote) text = [] := by
  induction h with
  | nil => rfl
  | backslash => rfl
  | char hc hquote h ih => rw [stripNoise_some_cons hc, if_neg hquote, ih]
  | escape c h ih => exact ih

/-- What an unclosed literal starts with is unclosed. -/
theorem IsUnclosed.of_append {more : List Char} (hquote : isQuote quote = true)
    (h : IsUnclosed quote (text ++ more)) : IsUnclosed quote text := by
  rcases literal_cases quote text with ⟨inside, rest, hinside, rfl⟩ | hunclosed
  · have hnothing := stripNoise_unclosed h
    rw [List.append_assoc, stripNoise_inside hinside, List.cons_append,
      stripNoise_closing hquote] at hnothing
    cases hnothing
  · exact hunclosed

/-- A quote stays, and opens a literal. -/
theorem stripNoise_opening (hquote : isQuote quote = true) (rest : List Char) :
    stripNoise none (quote :: rest) = quote :: stripNoise (some quote) rest := by
  have hopens : quote = '"' ∨ quote = '\'' := by
    simpa [isQuote] using hquote
  rw [stripNoise]
  simp [ne_of_isQuote hquote (show isQuote '/' = false by decide), hopens]

/-- The two quotes of a literal stay. -/
theorem stripNoise_literal (hquote : isQuote quote = true) (h : IsInside quote inside)
    (line : List Char) :
    stripNoise none (quote :: (inside ++ quote :: line)) =
      quote :: quote :: stripNoise none line := by
  rw [stripNoise_opening hquote, stripNoise_inside h, stripNoise_closing hquote]

theorem stripNoise_char (hc : isQuote c = false) (hslash : c = '/' → line.head? ≠ some '/') :
    stripNoise none (c :: line) = c :: stripNoise none line := by
  have hcomment : ¬ (decide (c = '/') && line.head? == some '/') = true := by
    simpa using hslash
  have hopens : ¬ (decide (c = '"') || decide (c = '\'')) = true := by
    simpa [isQuote] using hc
  rw [stripNoise, if_neg hcomment, if_neg hopens]

/-- **A line** is empty or a comment, or it starts with a character of code, a literal, or
a literal that is not closed: by induction on its length, since a literal takes any number
of characters. -/
theorem line_induction {motive : List Char → Prop} (nil : motive [])
    (comment : ∀ text, motive ('/' :: '/' :: text))
    (char : ∀ c line, isQuote c = false → (c = '/' → line.head? ≠ some '/') → motive line →
      motive (c :: line))
    (literal : ∀ quote inside line, isQuote quote = true → IsInside quote inside →
      motive line → motive (quote :: (inside ++ quote :: line)))
    (unclosed : ∀ quote text, isQuote quote = true → IsUnclosed quote text →
      motive (quote :: text))
    (line : List Char) : motive line := by
  induction hlength : line.length using Nat.strongRecOn generalizing line with
  | ind n ih =>
    cases line with
    | nil => exact nil
    | cons c line =>
      cases hquote : isQuote c with
      | true =>
        rcases literal_cases c line with ⟨inside, rest, hinside, rfl⟩ | hunclosed
        · refine literal c inside rest hquote hinside (ih rest.length ?_ rest rfl)
          simp only [List.length_cons, List.length_append] at hlength
          omega
        · exact unclosed c line hquote hunclosed
      | false =>
        by_cases hcomment : c = '/' ∧ line.head? = some '/'
        · obtain ⟨rfl, hhead⟩ := hcomment
          obtain ⟨text, rfl⟩ := List.head?_eq_some_iff.1 hhead
          exact comment text
        · have hlt : line.length < n := hlength ▸ Nat.lt_succ_self line.length
          exact char c line hquote (fun hc hhead => hcomment ⟨hc, hhead⟩) (ih _ hlt line rfl)

/-- Every literal of the line is empty, the last one perhaps not closed, and no two slashes
stand outside of them. -/
inductive IsBare : List Char → Prop
  | nil : IsBare []
  | char {c : Char} {line : List Char} (hc : isQuote c = false)
      (hslash : c = '/' → line.head? ≠ some '/') (h : IsBare line) : IsBare (c :: line)
  | literal {quote : Char} {line : List Char} (hquote : isQuote quote = true)
      (h : IsBare line) : IsBare (quote :: quote :: line)
  | unclosed {quote : Char} (hquote : isQuote quote = true) : IsBare [quote]

/-- What is left of a line starts with the line's first character, if with any. -/
theorem head?_stripNoise (h : (stripNoise none line).head? = some c) : line.head? = some c := by
  cases line with
  | nil => exact h
  | cons d line =>
    rw [stripNoise] at h
    split_ifs at h
    · cases h
    · exact h
    · exact h

/-- **What is left of a line is bare.** -/
theorem isBare_stripNoise (line : List Char) : IsBare (stripNoise none line) := by
  induction line using line_induction with
  | nil => exact .nil
  | comment text => exact .nil
  | char c line hc hslash ih =>
    rw [stripNoise_char hc hslash]
    exact .char hc (fun heq hhead => hslash heq (head?_stripNoise hhead)) ih
  | literal quote inside line hquote hinside ih =>
    rw [stripNoise_literal hquote hinside]
    exact .literal hquote ih
  | unclosed quote text hquote hunclosed =>
    rw [stripNoise_opening hquote, stripNoise_unclosed hunclosed]
    exact .unclosed hquote

/-- **A bare line stays as it is.** -/
theorem IsBare.stripNoise_eq (h : IsBare line) : stripNoise none line = line := by
  induction h with
  | nil => rfl
  | char hc hslash h ih => rw [stripNoise_char hc hslash, ih]
  | literal hquote h ih => rw [stripNoise_opening hquote, stripNoise_closing hquote, ih]
  | unclosed hquote => rw [stripNoise_opening hquote, stripNoise]

/-! ## The same code -/

/-- Two lines differ at most inside literals, of which both are closed or neither is, and
behind the slashes of a comment. -/
inductive SameCode : List Char → List Char → Prop
  | nil : SameCode [] []
  | char {c : Char} {line other : List Char} (hc : isQuote c = false)
      (h : SameCode line other) : SameCode (c :: line) (c :: other)
  | literal {quote : Char} {inside inside' line other : List Char}
      (hquote : isQuote quote = true) (hinside : IsInside quote inside)
      (hinside' : IsInside quote inside') (h : SameCode line other) :
      SameCode (quote :: (inside ++ quote :: line)) (quote :: (inside' ++ quote :: other))
  | unclosed {quote : Char} {text text' : List Char} (hquote : isQuote quote = true)
      (h : IsUnclosed quote text) (h' : IsUnclosed quote text') :
      SameCode (quote :: text) (quote :: text')
  | comment (text text' : List Char) : SameCode ('/' :: '/' :: text) ('/' :: '/' :: text')

namespace SameCode

theorem head?_eq (h : SameCode line other) : line.head? = other.head? := by
  cases h <;> rfl

theorem isEmpty_eq (h : SameCode line other) : line.isEmpty = other.isEmpty := by
  cases h <;> rfl

/-- Characters other than quotes stand in front of both. -/
theorem append_left {front : List Char} (hfront : ∀ c ∈ front, isQuote c = false)
    (h : SameCode line other) : SameCode (front ++ line) (front ++ other) := by
  induction front with
  | nil => exact h
  | cons c front ih =>
    obtain ⟨hc, hfront⟩ := List.forall_mem_cons.1 hfront
    exact .char hc (ih hfront)

/-- **The same is left of both.** -/
theorem stripNoise_eq (h : SameCode line other) : stripNoise none line = stripNoise none other := by
  induction h with
  | nil => rfl
  | @char c line other hc h ih =>
    by_cases hcomment : c = '/' ∧ line.head? = some '/'
    · obtain ⟨rfl, hhead⟩ := hcomment
      obtain ⟨text, rfl⟩ := List.head?_eq_some_iff.1 hhead
      obtain ⟨text', rfl⟩ := List.head?_eq_some_iff.1 (h.head?_eq ▸ hhead)
      rfl
    · have hline : c = '/' → line.head? ≠ some '/' := fun hc hhead => hcomment ⟨hc, hhead⟩
      rw [stripNoise_char hc hline, stripNoise_char hc (h.head?_eq ▸ hline), ih]
  | literal hquote hinside hinside' h ih =>
    rw [stripNoise_literal hquote hinside, stripNoise_literal hquote hinside', ih]
  | unclosed hquote h h' =>
    rw [stripNoise_opening hquote, stripNoise_opening hquote, stripNoise_unclosed h,
      stripNoise_unclosed h']
  | comment text text' => rfl

/-- **What is left of a line has its code**, with the slashes of the comment if it had
one. -/
theorem exists_stripNoise (line : List Char) :
    ∃ slashes, (slashes = [] ∨ slashes = ['/', '/']) ∧
      SameCode line (stripNoise none line ++ slashes) := by
  induction line using line_induction with
  | nil => exact ⟨[], .inl rfl, .nil⟩
  | comment text => exact ⟨['/', '/'], .inr rfl, .comment text []⟩
  | char c line hc hslash ih =>
    obtain ⟨slashes, hslashes, hsame⟩ := ih
    rw [stripNoise_char hc hslash]
    exact ⟨slashes, hslashes, .char hc hsame⟩
  | literal quote inside line hquote hinside ih =>
    obtain ⟨slashes, hslashes, hsame⟩ := ih
    rw [stripNoise_literal hquote hinside]
    exact ⟨slashes, hslashes, .literal hquote hinside .nil hsame⟩
  | unclosed quote text hquote hunclosed =>
    rw [stripNoise_opening hquote, stripNoise_unclosed hunclosed]
    exact ⟨[], .inl rfl, .unclosed hquote hunclosed .nil⟩

/-! ## Blanks at the ends -/

/-- Characters that are neither quotes nor slashes start both lines, and the same code is
behind them. -/
theorem span {p : Char → Bool} (hp : p '"' = false ∧ p '\'' = false ∧ p '/' = false)
    (h : SameCode line other) :
    line.takeWhile p = other.takeWhile p ∧ SameCode (line.dropWhile p) (other.dropWhile p) := by
  have hquote : ∀ {c}, isQuote c = true → p c = false := by
    intro c hc
    simp only [isQuote, Bool.or_eq_true, beq_iff_eq] at hc
    rcases hc with rfl | rfl
    · exact hp.1
    · exact hp.2.1
  induction h with
  | nil => exact ⟨rfl, .nil⟩
  | @char c line other hc h ih =>
    cases hpc : p c with
    | true => simpa [hpc] using ih
    | false => simpa [hpc] using SameCode.char hc h
  | literal hquote' hinside hinside' h ih =>
    simpa [hquote hquote'] using SameCode.literal hquote' hinside hinside' h
  | unclosed hquote' h h' => simpa [hquote hquote'] using SameCode.unclosed hquote' h h'
  | comment text text' => simpa [hp.2.2] using SameCode.comment text text'

theorem trimStart (h : SameCode line other) :
    SameCode (Text.trimStart line) (Text.trimStart other) :=
  (h.span (by decide)).2

theorem trimEnd (h : SameCode line other) : SameCode (Text.trimEnd line) (Text.trimEnd other) := by
  -- a character that is no blank stays with all that is in front of it
  have hstays : ∀ {c}, Text.isBlank c = false → ∀ before after : List Char,
      Text.trimEnd (before ++ c :: after) = before ++ c :: Text.trimEnd after :=
    fun hc before after => Text.dropEndWhile_append_cons before after hc
  have hslash : Text.isBlank '/' = false := by decide
  induction h with
  | nil => exact .nil
  | @char c line other hc h ih =>
    have hempty : Text.trimEnd line = [] ↔ Text.trimEnd other = [] := by
      rw [← List.head?_eq_none_iff, ih.head?_eq, List.head?_eq_none_iff]
    simp only [Text.trimEnd, Text.dropEndWhile_cons] at ih hempty ⊢
    by_cases hnone : Text.dropEndWhile Text.isBlank line = []
    · rw [if_pos hnone, if_pos (hempty.1 hnone)]
      split
      · exact .nil
      · exact .char hc .nil
    · rw [if_neg hnone, if_neg (mt hempty.2 hnone)]
      exact .char hc ih
  | @literal quote inside inside' line other hquote hinside hinside' h ih =>
    have hblank := isBlank_of_isQuote hquote
    have htrim : ∀ inside line : List Char, Text.trimEnd (quote :: (inside ++ quote :: line)) =
        quote :: (inside ++ quote :: Text.trimEnd line) := fun inside line =>
      hstays hblank (quote :: inside) line
    rw [htrim, htrim]
    exact .literal hquote hinside hinside' ih
  | @unclosed quote text text' hquote h h' =>
    have hblank := isBlank_of_isQuote hquote
    have htrim : ∀ text, Text.trimEnd (quote :: text) = quote :: Text.trimEnd text :=
      hstays hblank []
    have hunclosed : ∀ {text}, IsUnclosed quote text → IsUnclosed quote (Text.trimEnd text) := by
      intro text h
      obtain ⟨blanks, -, htext⟩ := Text.exists_append_dropEndWhile Text.isBlank text
      rw [htext] at h
      exact h.of_append hquote
    rw [htrim, htrim]
    exact .unclosed hquote (hunclosed h) (hunclosed h')
  | comment text text' =>
    have htrim : ∀ text, Text.trimEnd ('/' :: '/' :: text) = '/' :: '/' :: Text.trimEnd text :=
      hstays hslash ['/']
    rw [htrim, htrim]
    exact .comment _ _

theorem trim (h : SameCode line other) : SameCode (Text.trim line) (Text.trim other) :=
  h.trimStart.trimEnd

/-! ## Starts -/

/-- Two characters, the first no quote, start both lines or neither. -/
theorem isPrefixOf_eq {d : Char} (hc : isQuote c = false)
    (h : SameCode line other) : [c, d].isPrefixOf line = [c, d].isPrefixOf other := by
  have hother : ∀ {quote}, isQuote quote = true → (c == quote) = false := fun hquote =>
    beq_eq_false_iff_ne.2 (ne_of_isQuote hquote hc).symm
  have hsecond : ∀ text : List Char, [d].isPrefixOf text = (text.head? == some d) := by
    intro text
    cases text with
    | nil => rfl
    | cons e text => simp [List.isPrefixOf, eq_comm]
  cases h with
  | nil => rfl
  | char hc' h =>
    rw [List.isPrefixOf_cons_cons, List.isPrefixOf_cons_cons, hsecond, hsecond, h.head?_eq]
  | literal hquote hinside hinside' h =>
    rw [List.isPrefixOf_cons_cons, List.isPrefixOf_cons_cons, hother hquote, Bool.false_and,
      Bool.false_and]
  | unclosed hquote h h' =>
    rw [List.isPrefixOf_cons_cons, List.isPrefixOf_cons_cons, hother hquote, Bool.false_and,
      Bool.false_and]
  | comment text text' => rfl

/-- A keyword starts both lines or neither, and the same code is behind it. -/
theorem dropStart? {word : List Char} (hword : ∀ c ∈ word, isQuote c = false ∧ c ≠ '/')
    (h : SameCode line other) :
    Text.dropStart? word line = none ∧ Text.dropStart? word other = none ∨
      ∃ rest rest', Text.dropStart? word line = some rest ∧
        Text.dropStart? word other = some rest' ∧ SameCode rest rest' := by
  induction word generalizing line other with
  | nil => exact .inr ⟨line, other, rfl, rfl, h⟩
  | cons c word ih =>
    obtain ⟨⟨hc, hslash⟩, hword⟩ := List.forall_mem_cons.1 hword
    have hother : ∀ {quote}, isQuote quote = true → c ≠ quote := fun hquote =>
      (ne_of_isQuote hquote hc).symm
    cases h with
    | nil => exact .inl ⟨rfl, rfl⟩
    | @char d line other hd h =>
      by_cases heq : c = d
      · simpa [Text.dropStart?, heq] using ih hword h
      · simp [Text.dropStart?, heq]
    | literal hquote hinside hinside' h => simp [Text.dropStart?, hother hquote]
    | unclosed hquote h h' => simp [Text.dropStart?, hother hquote]
    | comment text text' => simp [Text.dropStart?, hslash]

/-- What stands behind a keyword and blanks has the same code. -/
theorem afterKeyword? {word : List Char} (hword : ∀ c ∈ word, isQuote c = false ∧ c ≠ '/')
    (h : SameCode line other) :
    Lines.afterKeyword? word line = none ∧ Lines.afterKeyword? word other = none ∨
      ∃ rest rest', Lines.afterKeyword? word line = some rest ∧
        Lines.afterKeyword? word other = some rest' ∧ SameCode rest rest' := by
  have hkeyword : ∀ text, Lines.afterKeyword? word text = (Text.dropStart? word text).bind
      fun rest => if rest.head?.any Text.isBlank then some (Text.trimStart rest) else none := by
    intro text
    unfold Lines.afterKeyword?
    refine congrArg (Option.bind _) (funext fun rest => ?_)
    cases rest <;> rfl
  rw [hkeyword, hkeyword]
  rcases h.dropStart? hword with ⟨hnone, hnone'⟩ | ⟨rest, rest', hrest, hrest', hsame⟩
  · exact .inl ⟨by rw [hnone]; rfl, by rw [hnone']; rfl⟩
  · rw [hrest, hrest', Option.bind_some, Option.bind_some, hsame.head?_eq]
    split
    · exact .inr ⟨_, _, rfl, rfl, hsame.trimStart⟩
    · exact .inl ⟨rfl, rfl⟩

/-- **A package is named by code.** -/
theorem package?_eq (h : SameCode line other) : Java.package? line = Java.package? other := by
  unfold Java.package?
  have hletters : ∀ c ∈ "package".toList, isQuote c = false ∧ c ≠ '/' :=
    List.all_iff_forall_prop.1 (by decide)
  rcases h.trimStart.afterKeyword? hletters with
    ⟨hnone, hnone'⟩ | ⟨rest, rest', hrest, hrest', hsame⟩
  · rw [hnone, hnone']
  · have hpart : (Unicode.isWordChar '"' || '"' == '.') = false ∧
        (Unicode.isWordChar '\'' || '\'' == '.') = false ∧
        (Unicode.isWordChar '/' || '/' == '.') = false := by decide +kernel
    obtain ⟨hname, hbehind⟩ := hsame.span (p := fun c => Unicode.isWordChar c || c == '.') hpart
    have hhead := hbehind.trimStart.head?_eq
    rw [hrest, hrest']
    simp only [Option.bind_eq_bind, Option.bind_some]
    rw [hname]
    generalize Text.trimStart (rest.dropWhile _) = behind at hhead ⊢
    generalize Text.trimStart (rest'.dropWhile _) = behind' at hhead ⊢
    generalize rest'.takeWhile _ = name
    cases behind with
    | nil => rw [List.head?_eq_none_iff.1 hhead.symm]
    | cons d behind =>
      obtain ⟨behind', rfl⟩ := List.head?_eq_some_iff.1 hhead.symm
      by_cases hd : d = ';'
      · subst hd
        cases name <;> rfl
      · cases name <;> simp [hd]

end SameCode

end Docsmith.Source.Lines

namespace Docsmith.Source.Lines.Java

variable {line other content source : List Char} {path : String} {st : State} {n : Nat}

/-! ## Steps -/

/-- **A step is told by the code of its line**, outside comments and where the line does not
start one. -/
theorem step_eq_of_sameCode (hmode : st.mode = .code)
    (hcomment : ['/', '*'].isPrefixOf (Text.trim line) = false) (h : SameCode line other)
    (package : Option String) (path : String) (number : Nat) :
    step package path number st other = step package path number st line := by
  have htrim := h.trim
  have hslash : isQuote '/' = false := by decide
  have hcomment' : ['/', '*'].isPrefixOf (Text.trim other) = false := by
    rw [← htrim.isPrefixOf_eq hslash, hcomment]
  have hdocumentation : ∀ {text : List Char}, ['/', '*'].isPrefixOf text = false →
      ['/', '*', '*'].isPrefixOf text = false := by
    intro text htext
    rw [← Bool.not_eq_true, List.isPrefixOf_iff_prefix] at htext ⊢
    exact fun hprefix => htext ((List.prefix_append _ ['*']).trans hprefix)
  simp only [step, hmode, hcomment, hcomment', hdocumentation hcomment, hdocumentation hcomment',
    Bool.false_eq_true, if_false, htrim.isEmpty_eq, htrim.isPrefixOf_eq hslash, stepCode,
    htrim.stripNoise_eq]

/-! ## Sources -/

/-- Two sources with as many lines, which differ only in lines that are read as code, and
there in nothing but noise. -/
structure DifferInNoise (path : String) (content source : List Char) : Prop where
  length_eq : (Text.lines source).length = (Text.lines content).length
  line : ∀ n line other, (Text.lines content)[n]? = some line →
    (Text.lines source)[n]? = some other → other = line ∨
      (stateAfter (packageOf content) path (Text.lines content) n).mode = .code ∧
        ['/', '*'].isPrefixOf (Text.trim line) = false ∧ SameCode line other

namespace DifferInNoise

/-- One line is put in another's place. -/
theorem of_line {done rest : List (List Char)}
    (hcontent : Text.lines content = done ++ line :: rest)
    (hsource : Text.lines source = done ++ other :: rest)
    (hmode : (stateAfter (packageOf content) path (Text.lines content) done.length).mode = .code)
    (hcomment : ['/', '*'].isPrefixOf (Text.trim line) = false) (hcode : SameCode line other) :
    DifferInNoise path content source where
  length_eq := by simp [hcontent, hsource]
  line n l l' hl hl' := by
    rcases Nat.lt_trichotomy n done.length with hlt | rfl | hlt
    · rw [hcontent, List.getElem?_append_left hlt] at hl
      rw [hsource, List.getElem?_append_left hlt, hl] at hl'
      exact .inl (Option.some.inj hl').symm
    · rw [hcontent, List.getElem?_append_right (Nat.le_refl _), Nat.sub_self] at hl
      rw [hsource, List.getElem?_append_right (Nat.le_refl _), Nat.sub_self] at hl'
      obtain rfl := Option.some.inj hl
      obtain rfl := Option.some.inj hl'
      exact .inr ⟨hmode, hcomment, hcode⟩
    · have hle := Nat.le_of_lt hlt
      obtain ⟨m, hm⟩ : ∃ m, n - done.length = m + 1 := ⟨n - done.length - 1, by omega⟩
      rw [hcontent, List.getElem?_append_right hle, hm, List.getElem?_cons_succ] at hl
      rw [hsource, List.getElem?_append_right hle, hm, List.getElem?_cons_succ, hl] at hl'
      exact .inl (Option.some.inj hl').symm

variable (h : DifferInNoise path content source)

include h

/-- Where one source has a line the other has one. -/
theorem exists_line (hline : (Text.lines content)[n]? = some line) :
    ∃ other, (Text.lines source)[n]? = some other := by
  have hlt : n < (Text.lines source).length :=
    h.length_eq ▸ (List.getElem?_eq_some_iff.1 hline).1
  exact ⟨_, List.getElem?_eq_getElem hlt⟩

theorem packageOf_eq : packageOf source = packageOf content := by
  have hlines : (Text.lines source).map package? = (Text.lines content).map package? := by
    refine List.ext_getElem (by simp [h.length_eq]) fun n hn hn' => ?_
    rw [List.length_map] at hn hn'
    rw [List.getElem_map, List.getElem_map]
    rcases h.line n _ _ (List.getElem?_eq_getElem hn') (List.getElem?_eq_getElem hn) with
      hsame | ⟨-, -, hcode⟩
    · rw [hsame]
    · exact hcode.package?_eq.symm
  have hfind : ∀ lines : List (List Char),
      lines.findSome? package? = (lines.map package?).findSome? id := fun lines => by
    rw [List.findSome?_map]
    rfl
  rw [packageOf, packageOf, hfind, hfind, hlines]

/-- **Line by line the reader is in the same state and reads the same**: by induction on the
lines, each of which is the same or has the same code. -/
theorem stateAfter_eq_and_readOf_eq (n : Nat) :
    stateAfter (packageOf content) path (Text.lines source) n =
        stateAfter (packageOf content) path (Text.lines content) n ∧
      readOf (packageOf content) path (Text.lines source) n =
        readOf (packageOf content) path (Text.lines content) n := by
  induction n with
  | zero => exact ⟨rfl, rfl⟩
  | succ n ih =>
    obtain ⟨hstate, hread⟩ := ih
    cases hline : (Text.lines content)[n]? with
    | none =>
      have hnone : (Text.lines source)[n]? = none :=
        List.getElem?_eq_none (h.length_eq ▸ List.getElem?_eq_none_iff.1 hline)
      rw [readOf_succ_of_none hline, readOf_succ_of_none hnone, stateAfter_succ_of_none hline,
        stateAfter_succ_of_none hnone]
      exact ⟨hstate, hread⟩
    | some line =>
      obtain ⟨other, hother⟩ := h.exists_line hline
      have hstep : step (packageOf content) path (n + 1)
            (stateAfter (packageOf content) path (Text.lines content) n) other =
          step (packageOf content) path (n + 1)
            (stateAfter (packageOf content) path (Text.lines content) n) line := by
        rcases h.line n line other hline hother with rfl | ⟨hmode, hcomment, hcode⟩
        · rfl
        · exact step_eq_of_sameCode hmode hcomment hcode _ _ _
      rw [stateAfter_succ _ _ hline, stateAfter_succ _ _ hother, readOf_succ _ _ hline,
        readOf_succ _ _ hother, hstate, hread, hstep]
      exact ⟨rfl, rfl⟩

end DifferInNoise

/-- **Literals and comments at the end of a line are invisible.** What is left of a line is
bare, stays as it is, and has the line's code; the same is left of lines with the same code.
So sources that differ in the noise of lines of code are read alike, line by line: the
depth, the scopes, what waits for a declaration, and the elements. -/
theorem noise_is_invisible :
    (∀ line, IsBare (stripNoise none line) ∧
      stripNoise none (stripNoise none line) = stripNoise none line ∧
      ∃ slashes, (slashes = [] ∨ slashes = ['/', '/']) ∧
        SameCode line (stripNoise none line ++ slashes)) ∧
    (∀ line other, SameCode line other → stripNoise none other = stripNoise none line) ∧
    ∀ path content source, DifferInNoise path content source →
      packageOf source = packageOf content ∧
      (∀ n, stateAfter (packageOf source) path (Text.lines source) n =
        stateAfter (packageOf content) path (Text.lines content) n) ∧
      read path source = read path content := by
  refine ⟨fun line => ⟨isBare_stripNoise line, (isBare_stripNoise line).stripNoise_eq,
    SameCode.exists_stripNoise line⟩, fun line other h => h.stripNoise_eq.symm,
    fun path content source h => ?_⟩
  have hpackage := h.packageOf_eq
  refine ⟨hpackage, fun n => ?_, ?_⟩
  · rw [hpackage]
    exact (h.stateAfter_eq_and_readOf_eq n).1
  · rw [read_eq, read_eq, hpackage, h.length_eq]
    exact (h.stateAfter_eq_and_readOf_eq _).2

/-- A line with a brace in a literal and one in a comment. -/
def bracedLine : List Char :=
  "    char c = '\x7b'; // \x7d".toList

/-- The line with an escaped quote, a sign and a parenthesis in their place. -/
def quotedLine : List Char :=
  "    char c = '\\'@('; // \"".toList

theorem sameCode_quotedLine : SameCode bracedLine quotedLine := by
  have hinside : IsInside '\'' ['\x7b'] := .char (by decide) (by decide) .nil
  have hinside' : IsInside '\'' ['\\', '\'', '@', '('] :=
    .escape '\'' (.char (by decide) (by decide) (.char (by decide) (by decide) .nil))
  have hfront : ∀ c ∈ "    char c = ".toList, isQuote c = false :=
    List.all_iff_forall_prop.1 (by decide)
  have hbetween : ∀ c ∈ "; ".toList, isQuote c = false := List.all_iff_forall_prop.1 (by decide)
  have hcomment : SameCode "// \x7d".toList "// \"".toList :=
    .comment " \x7d".toList " \"".toList
  exact (SameCode.literal rfl hinside hinside' (hcomment.append_left hbetween)).append_left hfront

/-- A class with a line in front of a field. -/
def classWith (line : List Char) : List Char :=
  "class A \x7b\n".toList ++ (line ++ "\n    int x;\n\x7d\n".toList)

theorem differInNoise_classWith :
    DifferInNoise "A.java" (classWith bracedLine) (classWith quotedLine) :=
  have hcontent : Text.lines (classWith bracedLine) =
      ["class A \x7b".toList] ++ bracedLine :: ["    int x;".toList, "\x7d".toList] := by
    decide +kernel
  have hsource : Text.lines (classWith quotedLine) =
      ["class A \x7b".toList] ++ quotedLine :: ["    int x;".toList, "\x7d".toList] := by
    decide +kernel
  .of_line hcontent hsource (by decide +kernel) (by decide +kernel) sameCode_quotedLine

/-- The same is left of both lines, and the classes are read alike, with the field behind
them. -/
theorem noise_is_invisible_classWith :
    (SameCode bracedLine quotedLine ∧ stripNoise none bracedLine = "    char c = ''; ".toList ∧
      stripNoise none quotedLine = stripNoise none bracedLine) ∧
    DifferInNoise "A.java" (classWith bracedLine) (classWith quotedLine) ∧
      read "A.java" (classWith quotedLine) = read "A.java" (classWith bracedLine) ∧
      (read "A.java" (classWith bracedLine)).map (·.qualifiedName) = ["A", "A.c", "A.x"] := by
  obtain ⟨-, hleft, hread⟩ := noise_is_invisible
  exact ⟨⟨sameCode_quotedLine, by decide +kernel, hleft _ _ sameCode_quotedLine⟩,
    differInNoise_classWith, (hread _ _ _ differInNoise_classWith).2.2, by decide +kernel⟩

end Docsmith.Source.Lines.Java
