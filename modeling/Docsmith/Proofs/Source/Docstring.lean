import Docsmith.Proofs.Source.Places
import Docsmith.Proofs.Text.Insertion
import Docsmith.Proofs.Text.Word
import Docsmith.Source.Comment
import Mathlib.Data.List.Induction
import Mathlib.Data.List.TakeWhile
import Mathlib.Tactic.FinCases
/-!
# Sources — a documentation string by its lines and as a literal

A documentation string is read off the lines of a source or off the literal as a
whole. Both give the same text, and the lines that it takes are those up to the one
with the closing quote (`docstring_eq_literalText`). The first quote behind the
opening one closes the string, so nothing that follows it matters.
-/


namespace Docsmith.Text

variable {c : Char} {text before after needle : List Char}

/-! ## The end of a line -/

/-- A line loses at most a carriage return at its end. -/
theorem eq_dropReturn_or (line : List Char) :
    line = dropReturn line ∨ line = dropReturn line ++ ['\r'] := by
  rcases List.eq_nil_or_concat line with rfl | ⟨front, c, rfl⟩
  · exact .inl rfl
  · rw [List.concat_eq_append, dropReturn_concat]
    split_ifs with h
    · exact .inr (by rw [h])
    · exact .inl rfl

theorem dropReturn_prefix (line : List Char) : dropReturn line <+: line := by
  rcases eq_dropReturn_or line with h | h
  · exact ⟨[], by rw [List.append_nil, ← h]⟩
  · exact ⟨['\r'], h.symm⟩

theorem trim_dropReturn (line : List Char) : trim (dropReturn line) = trim line := by
  rcases eq_dropReturn_or line with h | h
  · rw [← h]
  · have hblank : ∀ c ∈ ['\r'], isBlank c = true := List.forall_mem_singleton.2 (by decide)
    exact ((congrArg trim h).trans (trim_append_blanks hblank _)).symm

/-! ## What says something -/

/-- The lines that say something, trimmed. -/
def said (lines : List (List Char)) : List (List Char) :=
  (lines.map trim).filter (!·.isEmpty)

theorem said_cons_congr {line other : List Char} {lines more : List (List Char)}
    (h : trim line = trim other) (h' : said lines = said more) :
    said (line :: lines) = said (other :: more) := by
  unfold said at h' ⊢
  rw [List.map_cons, List.map_cons, List.filter_cons, List.filter_cons, h, h']

/-- **The lines of a text say what stands between its line feeds**, by induction on
the text without its first line. -/
theorem said_lines (text : List Char) : said (lines text) = said (splitChar '\n' text) := by
  induction hn : text.length using Nat.strongRecOn generalizing text with
  | ind n ih =>
    rcases lines_cases text with rfl | ⟨hfeed, hlines⟩ | ⟨first, rest, rfl, hfirst, hlines⟩
    · rfl
    · rw [hlines, splitChar_of_not_mem hfeed]
    · rw [hlines, splitChar_append_cons, splitChar_of_not_mem hfirst]
      refine said_cons_congr (trim_dropReturn first) (ih rest.length ?_ rest rfl)
      simp only [List.length_append, List.length_cons] at hn
      omega

/-! ## The first place of a needle -/

theorem IsGap.of_append (h : IsGap needle (before ++ text)) : IsGap needle text := by
  intro front rest heq
  exact h (before ++ front) rest (by simp [heq])

theorem isGap_of_splitOnce? (h : Text.splitOnce? needle (before ++ needle) = some (before, [])) :
    IsGap needle before := by
  intro front rest heq
  have hle : before.length ≤ front.length := (splitOnce?_eq_some h).2 front rest (by simp [heq])
  have hlength := congrArg List.length heq
  simp only [List.length_append] at hlength
  exact List.length_eq_zero_iff.1 (by omega)

/-- **A text is cut where the needle stands first**, whatever follows. -/
theorem IsGap.splitOnce? (h : IsGap needle before) (after : List Char) :
    splitOnce? needle (before ++ (needle ++ after)) = some (before, after) := by
  cases hcut : Text.splitOnce? needle (before ++ (needle ++ after)) with
  | none => exact absurd (by simp) (splitOnce?_eq_none.1 hcut before after)
  | some cut =>
    obtain ⟨front, rest⟩ := cut
    obtain ⟨heq, hfirst⟩ := splitOnce?_eq_some hcut
    have hle : front.length ≤ before.length := hfirst before after (by simp)
    -- the first place is within the gap and the needle behind it
    have hprefix : front ++ needle <+: before ++ needle := by
      have hfront : front ++ needle <+: before ++ (needle ++ after) := ⟨rest, heq.symm⟩
      have hbefore : before ++ needle <+: before ++ (needle ++ after) := ⟨after, by simp⟩
      refine List.prefix_of_prefix_length_le hfront hbefore ?_
      simp only [List.length_append]
      omega
    obtain ⟨more, hmore⟩ := hprefix
    obtain rfl := h front more hmore.symm
    rw [List.append_nil] at hmore
    obtain rfl := List.append_cancel_right hmore
    rw [List.append_assoc] at heq
    obtain rfl := List.append_cancel_left (List.append_cancel_left heq)
    rfl

/-- No needle stands in front of its first place. -/
theorem IsGap.splitOnce?_eq_none (hne : needle ≠ []) {front : List Char}
    (h : IsGap needle before) (hfront : front <+: before) :
    Text.splitOnce? needle front = none := by
  obtain ⟨more, rfl⟩ := hfront
  refine Text.splitOnce?_eq_none.2 fun first rest heq => ?_
  have hnil := h first (rest ++ more ++ needle) (by simp [heq])
  exact hne (List.append_eq_nil_iff.1 hnil).2

end Docsmith.Text

namespace Docsmith.Source

open Syntax (lineCount)
open Text (IsGap said)

variable {c : Char} {indent letters quote body after : List Char}

theorem joinTrimmed_eq (lines : List (List Char)) :
    joinTrimmed lines = Text.join [' '] (said lines) :=
  rfl

theorem joinTrimmed_congr {lines more : List (List Char)} (h : said lines = said more) :
    joinTrimmed lines = joinTrimmed more := by
  rw [joinTrimmed_eq, joinTrimmed_eq, h]

/-! ## Quotes -/

/-- A triple quote is three times one of the two quotes. -/
theorem eq_of_mem_tripleQuotes (h : quote ∈ tripleQuotes) :
    ∃ c, quote = [c, c, c] ∧ (c = '"' ∨ c = '\'') := by
  rcases List.mem_cons.1 h with rfl | h
  · exact ⟨'"', rfl, .inl rfl⟩
  · obtain rfl := List.mem_singleton.1 h
    exact ⟨'\'', rfl, .inr rfl⟩

theorem find?_tripleQuotes (h : quote ∈ tripleQuotes) (text : List Char) :
    tripleQuotes.find? (·.isPrefixOf (quote ++ text)) = some quote := by
  obtain ⟨c, rfl, rfl | rfl⟩ := eq_of_mem_tripleQuotes h <;> rfl

theorem not_blank_of_isStringPrefix (h : isStringPrefix c = true) : Text.isBlank c = false := by
  rw [isStringPrefix, List.contains_iff_mem] at h
  fin_cases h <;> decide

theorem not_quote_of_isStringPrefix (h : isStringPrefix c = true) :
    (c == '"' || c == '\'') = false := by
  rw [isStringPrefix, List.contains_iff_mem] at h
  fin_cases h <;> decide

theorem isLiteralLetter_of_isStringPrefix (h : isStringPrefix c = true) :
    isLiteralLetter c = true := by
  rw [isStringPrefix, List.contains_iff_mem] at h
  fin_cases h <;> decide

/-- **The opening quote of a line** stands behind blanks and at most two letters; what
is behind it loses the blanks at its end. -/
theorem openingQuote?_append (hindent : ∀ c ∈ indent, Text.isBlank c = true)
    (hcount : letters.length ≤ 2) (hletters : ∀ c ∈ letters, isStringPrefix c = true)
    (hquote : quote ∈ tripleQuotes) (text : List Char) :
    openingQuote? (indent ++ (letters ++ (quote ++ text))) = some (quote, Text.trimEnd text) := by
  obtain ⟨c, hc, hcases⟩ := eq_of_mem_tripleQuotes hquote
  have hquoted : (c == '"' || c == '\'') = true := by rcases hcases with rfl | rfl <;> rfl
  have hword : ∀ d ∈ letters ++ quote, Text.isBlank d = false := by
    intro d hd
    rcases List.mem_append.1 hd with hd | hd
    · exact not_blank_of_isStringPrefix (hletters d hd)
    · have hdc : d = c := by simpa [hc] using hd
      rw [hdc]
      rcases hcases with rfl | rfl <;> decide
  have htrim : Text.trim (indent ++ (letters ++ (quote ++ text))) =
      letters ++ (quote ++ Text.trimEnd text) := by
    have := Text.trim_append hindent (by simp [hc]) hword text
    simpa using this
  have hbefore : ∀ d ∈ letters, (!(d == '"' || d == '\'')) = true := fun d hd => by
    rw [not_quote_of_isStringPrefix (hletters d hd), Bool.not_false]
  have hstop : (!(c == '"' || c == '\'')) = false := by rw [hquoted, Bool.not_true]
  have hrest : quote ++ Text.trimEnd text = c :: c :: c :: Text.trimEnd text := by rw [hc]; rfl
  have htake := Text.takeWhile_append_cons (p := fun d => !(d == '"' || d == '\''))
    (c :: c :: Text.trimEnd text) hbefore hstop
  have hdrop := Text.dropWhile_append_cons (p := fun d => !(d == '"' || d == '\''))
    (c :: c :: Text.trimEnd text) hbefore hstop
  have hshort : ¬ 2 < letters.length := by omega
  unfold openingQuote?
  simp only [htrim, hrest, htake, hdrop]
  rw [← hrest, find?_tripleQuotes hquote]
  simp [hshort, List.all_eq_true.2 hletters, hc]

/-- **A literal says its body.** -/
theorem literalText_append (hletters : ∀ c ∈ letters, isStringPrefix c = true)
    (hquote : quote ∈ tripleQuotes) (body : List Char) :
    literalText (letters ++ (quote ++ (body ++ quote))) = joinTrimmed (Text.lines body) := by
  have hdrop : (letters ++ (quote ++ (body ++ quote))).dropWhile isLiteralLetter =
      quote ++ (body ++ quote) := by
    rw [List.dropWhile_append_of_pos fun c hc => isLiteralLetter_of_isStringPrefix (hletters c hc)]
    obtain ⟨c, rfl, rfl | rfl⟩ := eq_of_mem_tripleQuotes hquote <;>
      exact List.dropWhile_cons_of_neg (by decide)
  have hfind : quotes.find? (fun q => q.isPrefixOf (quote ++ (body ++ quote)) &&
      q.length * 2 ≤ Syntax.byteCount (quote ++ (body ++ quote))) = some quote := by
    have hsizes : '"'.utf8Size = 1 ∧ '\''.utf8Size = 1 := by decide
    have hlong : 6 ≤ Syntax.byteCount (quote ++ (body ++ quote)) := by
      obtain ⟨c, rfl, rfl | rfl⟩ := eq_of_mem_tripleQuotes hquote <;> simp [hsizes] <;> omega
    generalize Syntax.byteCount _ = bytes at hlong
    obtain ⟨c, rfl, rfl | rfl⟩ := eq_of_mem_tripleQuotes hquote <;>
      simp [quotes, List.isPrefixOf, hlong]
  have hinner : (Text.dropStart? quote (quote ++ (body ++ quote))).bind (Text.dropEnd? quote) =
      some body := by
    rw [Text.dropStart?_eq_some.2 rfl, Option.bind_some, Text.dropEnd?, List.reverse_append,
      Text.dropStart?_eq_some.2 rfl, Option.map_some, List.reverse_reverse]
  unfold literalText
  simp only [hdrop, hfind, hinner, Option.getD_some]

/-! ## Lines -/

/-- A body and its closing quote within one line. -/
theorem exists_lines_quote (hquote : quote ∈ tripleQuotes) {front : List Char}
    (h : '\n' ∉ front) (after : List Char) :
    ∃ tail rest, Text.lines (front ++ (quote ++ after)) = (front ++ (quote ++ tail)) :: rest := by
  obtain ⟨c, rfl, hcases⟩ := eq_of_mem_tripleQuotes hquote
  have hfeed : c ≠ '\n' := by rcases hcases with rfl | rfl <;> decide
  have hreturn : c ≠ '\r' := by rcases hcases with rfl | rfl <;> decide
  have hstart : '\n' ∉ front ++ [c, c] := by simp [h, hfeed.symm]
  obtain ⟨tail, rest, hlines⟩ := Text.exists_lines_append_cons hstart hfeed hreturn after
  exact ⟨tail, rest, by simpa using hlines⟩

theorem lines_append_feed {first : List Char} (h : '\n' ∉ first) (rest : List Char) :
    Text.lines (first ++ '\n' :: rest) = Text.dropReturn first :: Text.lines rest := by
  rw [Text.lines_append_cons, Text.splitChar_of_not_mem h]
  rfl

theorem ne_nil_of_mem_tripleQuotes (h : quote ∈ tripleQuotes) : quote ≠ [] := by
  obtain ⟨c, rfl, -⟩ := eq_of_mem_tripleQuotes h
  exact List.cons_ne_nil _ _

theorem lineCount_of_not_mem {line : List Char} (h : '\n' ∉ line) : lineCount line = 0 :=
  List.countP_eq_zero.2 fun _ hc heq => h (beq_iff_eq.1 heq ▸ hc)

theorem lineCount_append_feed {first : List Char} (h : '\n' ∉ first) (rest : List Char) :
    lineCount (first ++ '\n' :: rest) = lineCount rest + 1 := by
  have hfirst : first.countP (· == '\n') = 0 := lineCount_of_not_mem h
  rw [lineCount, lineCount, List.countP_append, hfirst, Nat.zero_add,
    List.countP_cons_of_pos (by rfl)]

/-- A quote is no blank, so it stays when the blanks behind it are trimmed. -/
theorem exists_trimEnd_quote (hquote : quote ∈ tripleQuotes) (front tail : List Char) :
    ∃ more, Text.trimEnd (front ++ (quote ++ tail)) = front ++ (quote ++ more) := by
  obtain ⟨c, rfl, hcases⟩ := eq_of_mem_tripleQuotes hquote
  have hblank : Text.isBlank c = false := by rcases hcases with rfl | rfl <;> decide
  have hend := Text.dropEndWhile_append_cons (front ++ [c, c]) tail hblank
  exact ⟨Text.dropEndWhile Text.isBlank tail, by simpa [Text.trimEnd] using hend⟩

/-- **The lines up to the closing quote say the body**, and they are one more than the
line feeds in it: by induction on the body without its first line. -/
theorem exists_closing? (hquote : quote ∈ tripleQuotes) (after : List Char) :
    ∀ body, IsGap quote body → ∃ parts,
      closing? quote (Text.lines (body ++ (quote ++ after))) = some (parts, lineCount body + 1) ∧
        said parts = said (Text.splitChar '\n' body) := by
  intro body
  induction hn : body.length using Nat.strongRecOn generalizing body with
  | ind n ih =>
    intro hbody
    by_cases hfeed : '\n' ∈ body
    · obtain ⟨first, rest, rfl, hfirst⟩ := List.eq_append_cons_of_mem hfeed
      have hgap : IsGap quote rest := by
        rw [List.append_cons] at hbody
        exact hbody.of_append
      have hlength : rest.length < n := by
        simp only [List.length_append, List.length_cons] at hn
        omega
      obtain ⟨parts, hparts, hsaid⟩ := ih rest.length hlength rest rfl hgap
      have hopen : Text.splitOnce? quote (Text.dropReturn first) = none :=
        hbody.splitOnce?_eq_none (ne_nil_of_mem_tripleQuotes hquote)
          ((Text.dropReturn_prefix first).trans (List.prefix_append _ _))
      refine ⟨Text.dropReturn first :: parts, ?_, ?_⟩
      · rw [List.append_assoc, List.cons_append, lines_append_feed hfirst, closing?, hopen, hparts,
          lineCount_append_feed hfirst]
        rfl
      · rw [Text.splitChar_append_cons, Text.splitChar_of_not_mem hfirst]
        exact Text.said_cons_congr (Text.trim_dropReturn first) hsaid
    · obtain ⟨tail, rest, hlines⟩ := exists_lines_quote hquote hfeed after
      refine ⟨[body], ?_, by rw [Text.splitChar_of_not_mem hfeed]⟩
      rw [hlines, closing?, hbody.splitOnce? tail, lineCount_of_not_mem hfeed]

theorem feed_not_mem_opening (hindent : ∀ c ∈ indent, Text.isBlank c = true ∧ c ≠ '\n')
    (hletters : ∀ c ∈ letters, isStringPrefix c = true) (hquote : quote ∈ tripleQuotes) :
    '\n' ∉ indent ++ (letters ++ quote) := by
  intro hmem
  rcases List.mem_append.1 hmem with hmem | hmem
  · exact (hindent _ hmem).2 rfl
  rcases List.mem_append.1 hmem with hmem | hmem
  · exact absurd (hletters _ hmem) (by decide)
  · obtain ⟨c, rfl, rfl | rfl⟩ := eq_of_mem_tripleQuotes hquote <;> simp at hmem

/-- The first line of the string and those behind it. -/
theorem lines_opening_feed (hquote : quote ∈ tripleQuotes) {front first : List Char}
    (hfront : '\n' ∉ front ++ quote) (hfirst : '\n' ∉ first) (rest : List Char) :
    Text.lines (front ++ quote ++ (first ++ '\n' :: rest)) =
      (front ++ quote ++ Text.dropReturn first) :: Text.lines rest := by
  have hline : '\n' ∉ front ++ quote ++ first :=
    fun hmem => (List.mem_append.1 hmem).elim hfront hfirst
  have hreturn : Text.dropReturn (front ++ quote ++ first) =
      front ++ quote ++ Text.dropReturn first := by
    obtain ⟨c, rfl, hcases⟩ := eq_of_mem_tripleQuotes hquote
    have hc : c ≠ '\r' := by rcases hcases with rfl | rfl <;> decide
    have := Text.dropReturn_append_cons (front ++ [c, c]) first hc
    simpa using this
  rw [← List.append_assoc, lines_append_feed hline, hreturn]

/-- **A documentation string is read as its literal says**, on one line or on several,
and as many lines as it has are passed over. -/
theorem docstring_append (hindent : ∀ c ∈ indent, Text.isBlank c = true ∧ c ≠ '\n')
    (hcount : letters.length ≤ 2) (hletters : ∀ c ∈ letters, isStringPrefix c = true)
    (hquote : quote ∈ tripleQuotes) (hbody : IsGap quote body) (after : List Char) :
    docstring (Text.lines (indent ++ (letters ++ (quote ++ (body ++ (quote ++ after)))))) =
      (literalText (letters ++ (quote ++ (body ++ quote))), lineCount body + 1) := by
  have hblanks : ∀ c ∈ indent, Text.isBlank c = true := fun c hc => (hindent c hc).1
  have hopening := openingQuote?_append hblanks hcount hletters hquote
  have hfront := feed_not_mem_opening hindent hletters hquote
  rw [literalText_append hletters hquote]
  by_cases hfeed : '\n' ∈ body
  · -- the string goes on behind its first line
    obtain ⟨first, rest, rfl, hfirst⟩ := List.eq_append_cons_of_mem hfeed
    have hgap : IsGap quote rest := by
      rw [List.append_cons] at hbody
      exact hbody.of_append
    obtain ⟨parts, hparts, hsaid⟩ := exists_closing? hquote after rest hgap
    have hlines : Text.lines (indent ++ (letters ++ (quote ++ ((first ++ '\n' :: rest) ++
        (quote ++ after))))) =
          (indent ++ (letters ++ (quote ++ Text.dropReturn first))) ::
            Text.lines (rest ++ (quote ++ after)) := by
      rw [← List.append_assoc] at hfront
      simpa using lines_opening_feed hquote hfront hfirst (rest ++ (quote ++ after))
    have hopen : Text.splitOnce? quote (Text.trimEnd (Text.dropReturn first)) = none :=
      hbody.splitOnce?_eq_none (ne_nil_of_mem_tripleQuotes hquote)
        (((Text.prefix_dropEndWhile Text.isBlank _).trans (Text.dropReturn_prefix first)).trans
          (List.prefix_append _ ('\n' :: rest)))
    rw [hlines, docstring]
    simp only [hopening, hopen, hparts, lineCount_append_feed hfirst]
    refine congrArg (·, lineCount rest + 1 + 1) (joinTrimmed_congr ?_)
    rw [Text.said_lines, Text.splitChar_append_cons, Text.splitChar_of_not_mem hfirst]
    exact Text.said_cons_congr ((Text.trim_trimEnd _).trans (Text.trim_dropReturn first)) hsaid
  · -- it ends in its first line
    have hline : '\n' ∉ indent ++ (letters ++ quote) ++ body :=
      fun hmem => (List.mem_append.1 hmem).elim hfront hfeed
    obtain ⟨tail, more, hlines⟩ := exists_lines_quote hquote hline after
    simp only [List.append_assoc] at hlines
    obtain ⟨end_, hend⟩ := exists_trimEnd_quote hquote body tail
    rw [hlines, docstring]
    simp only [hopening, hend, hbody.splitOnce?, lineCount_of_not_mem hfeed]
    refine congrArg (·, 0 + 1) (joinTrimmed_congr ?_)
    rw [Text.said_lines, Text.splitChar_of_not_mem hfeed]

/-- The lines of a text behind another one that ends with a line feed. -/
theorem drop_lines {above : List Char} (h : above = [] ∨ above.getLast? = some '\n')
    (text : List Char) : (Text.lines (above ++ text)).drop (lineCount above) = Text.lines text := by
  rcases h with rfl | h
  · rfl
  · obtain ⟨front, rfl⟩ := List.getLast?_eq_some_iff.1 h
    have hlength : (Text.splitChar '\n' front).length = lineCount (front ++ ['\n']) := by
      rw [Text.splitChar, Text.length_splitBy, lineCount, List.countP_append]
      rfl
    rw [List.append_assoc, List.singleton_append, Text.lines_append_cons, ← hlength,
      ← List.length_map (Text.dropReturn ·), List.drop_left]

/-- **A documentation string says by its lines what it says as a literal.** It may
stand in any line behind blanks, with at most two letters, between triple quotes of
which the first one behind the opening one closes it. Whatever follows, it takes the
lines up to the one with the closing quote. -/
theorem docstring_eq_literalText {above indent letters quote body : List Char}
    (habove : above = [] ∨ above.getLast? = some '\n')
    (hindent : ∀ c ∈ indent, Text.isBlank c = true ∧ c ≠ '\n')
    (hcount : letters.length ≤ 2) (hletters : ∀ c ∈ letters, isStringPrefix c = true)
    (hquote : quote ∈ tripleQuotes) (hbody : IsGap quote body) (after : List Char) :
    ∃ count,
      docstring ((Text.lines (above ++ (indent ++ (letters ++ (quote ++ (body ++
        (quote ++ after))))))).drop (lineCount above)) =
          (literalText (letters ++ (quote ++ (body ++ quote))), count) ∧
      lineCount above + count =
        lineCount (above ++ (indent ++ (letters ++ (quote ++ (body ++ quote))))) + 1 := by
  refine ⟨lineCount body + 1, ?_, ?_⟩
  · rw [drop_lines habove]
    exact docstring_append hindent hcount hletters hquote hbody after
  · have hfront : lineCount indent = 0 ∧ lineCount letters = 0 ∧ lineCount quote = 0 := by
      refine ⟨lineCount_of_not_mem fun h => (hindent _ h).2 rfl,
        lineCount_of_not_mem fun h => absurd (hletters _ h) (by decide), ?_⟩
      obtain ⟨c, rfl, rfl | rfl⟩ := eq_of_mem_tripleQuotes hquote <;> rfl
    have hsum : lineCount (above ++ (indent ++ (letters ++ (quote ++ (body ++ quote))))) =
        lineCount above + (lineCount indent + (lineCount letters + (lineCount quote +
          (lineCount body + lineCount quote)))) := by
      simp only [lineCount, List.countP_append]
    omega

/-- A string of four lines with quotes of both kinds, a blank line and code behind it. -/
theorem docstring_eq_literalText_four_lines :
    ("def f():\n".toList.getLast? = some '\n' ∧
      IsGap "\"\"\"".toList "It's\t\r\n\n  \"two\"\"  \n ".toList) ∧
    ∃ count,
      docstring ((Text.lines ("def f():\n".toList ++ ("    ".toList ++ ("Rb".toList ++
        ("\"\"\"".toList ++ ("It's\t\r\n\n  \"two\"\"  \n ".toList ++
          ("\"\"\"".toList ++ ".x\nreturn".toList))))))).drop 1) =
        (literalText ("Rb".toList ++ ("\"\"\"".toList ++
          ("It's\t\r\n\n  \"two\"\"  \n ".toList ++ "\"\"\"".toList))), count) ∧
      1 + count = 5 := by
  have hline : "def f():\n".toList.getLast? = some '\n' := by decide +kernel
  have hgap : IsGap "\"\"\"".toList "It's\t\r\n\n  \"two\"\"  \n ".toList :=
    Text.isGap_of_splitOnce? (by decide +kernel)
  have hstart : lineCount "def f():\n".toList = 1 := by decide +kernel
  have hstop : lineCount ("def f():\n".toList ++ ("    ".toList ++ ("Rb".toList ++
      ("\"\"\"".toList ++ ("It's\t\r\n\n  \"two\"\"  \n ".toList ++ "\"\"\"".toList))))) = 4 := by
    decide +kernel
  have hindent : ∀ c ∈ "    ".toList, Text.isBlank c = true ∧ c ≠ '\n' := by
    intro c hc
    have hall : "    ".toList.all (fun c => Text.isBlank c && c != '\n') = true := by decide +kernel
    simpa using List.all_eq_true.1 hall c hc
  have hletters : "Rb".toList.all isStringPrefix = true := by decide +kernel
  obtain ⟨count, hread, hnext⟩ := docstring_eq_literalText (.inr hline) hindent
    (by decide +kernel) (List.all_eq_true.1 hletters) (by decide +kernel) hgap ".x\nreturn".toList
  rw [hstart] at hread hnext
  rw [hstop] at hnext
  exact ⟨⟨hline, hgap⟩, count, hread, hnext⟩

end Docsmith.Source
