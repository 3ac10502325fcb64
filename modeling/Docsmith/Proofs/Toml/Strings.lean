import Docsmith.Proofs.Text.Trim
import Docsmith.Toml.Printer
import Docsmith.Toml.Text
import Mathlib.Tactic.SplitIfs
/-!
# TOML — strings come back

A string is read back from its text in whichever of the four forms that is
(`string?_quote`). No such text holds a carriage return.
-/


namespace Docsmith.Toml

variable {c : Char} {n : Nat} {breaks : Bool} {text rest : List Char}

/-! ## Escapes -/

theorem escaped?_short {d : Char} (h : shortEscape? d = some c) (text : List Char) :
    escaped? (d :: text) = some (c, 1) := by
  unfold escaped?
  split
  · next heq =>
    obtain ⟨rfl, -⟩ := List.cons.inj heq
    cases h
  · next heq =>
    obtain ⟨rfl, -⟩ := List.cons.inj heq
    cases h
  · next heq =>
    obtain ⟨rfl, -⟩ := List.cons.inj heq
    rw [h]
    rfl
  · next heq => cases heq

/-- The two digits of a character that needs a code say its number. -/
theorem charOfHex?_hexDigit (h : n < 0x80) :
    charOfHex? ['0', '0', hexDigit (n / 16), hexDigit (n % 16)] = some (Char.ofNat n) := by
  revert n
  decide +kernel

theorem escaped?_code (h : n < 0x80) (text : List Char) :
    escaped? ('u' :: '0' :: '0' :: hexDigit (n / 16) :: hexDigit (n % 16) :: text) =
      some (Char.ofNat n, 5) := by
  simp [escaped?, charOfHex?_hexDigit h]

theorem needsCode_lt (h : needsCode c = true) : c.toNat < 0x80 := by
  simp only [needsCode, Bool.or_eq_true, Bool.and_eq_true, decide_eq_true_eq] at h
  omega

theorem isTextChar_of_not_needsCode (h : needsCode c = false) (hbreak : c ≠ '\n') :
    isTextChar c = true := by
  simp only [needsCode, Bool.or_eq_false_iff, Bool.and_eq_false_iff, decide_eq_false_iff_not,
    Nat.not_lt, bne_eq_false_iff_eq, hbreak, or_false] at h
  simp only [isTextChar, Bool.or_eq_true, beq_iff_eq, Bool.and_eq_true, decide_eq_true_eq]
  exact h.1.elim (fun hle => .inr ⟨hle, h.2⟩) .inl

/-- A character between quotes stands for itself, or is told by what follows a
backslash. -/
theorem escapeChar_cases (breaks : Bool) (c : Char) :
    (escapeChar breaks c = [c] ∧ c ≠ '\\' ∧ (isTextChar c || breaks && c == '\n') = true) ∨
      ∃ d code, escapeChar breaks c = '\\' :: d :: code ∧ isSpace d = false ∧ d ≠ '\n' ∧
        ∀ text, escaped? (d :: (code ++ text)) = some (c, code.length + 1) := by
  unfold escapeChar
  split_ifs with hslash hb ht hn hbreaks hf hr hcode
  · exact .inr ⟨_, _, rfl, rfl, by decide,
      fun text => by rw [hslash]; exact escaped?_short rfl text⟩
  · exact .inr ⟨_, _, rfl, rfl, by decide, fun text => by rw [hb]; exact escaped?_short rfl text⟩
  · exact .inr ⟨_, _, rfl, rfl, by decide, fun text => by rw [ht]; exact escaped?_short rfl text⟩
  · refine .inl ⟨by rw [hn], hslash, ?_⟩
    simp [hn, hbreaks]
  · exact .inr ⟨_, _, rfl, rfl, by decide, fun text => by rw [hn]; exact escaped?_short rfl text⟩
  · exact .inr ⟨_, _, rfl, rfl, by decide, fun text => by rw [hf]; exact escaped?_short rfl text⟩
  · exact .inr ⟨_, _, rfl, rfl, by decide, fun text => by rw [hr]; exact escaped?_short rfl text⟩
  · refine .inr ⟨_, _, rfl, rfl, by decide, fun text => ?_⟩
    have := escaped?_code (needsCode_lt hcode) text
    rwa [Char.ofNat_toNat] at this
  · refine .inl ⟨rfl, hslash, ?_⟩
    rw [isTextChar_of_not_needsCode (Bool.not_eq_true _ ▸ hcode) hn]
    rfl

/-! ## Between quotes on one line -/

theorem basic?_cons (hquote : c ≠ '"') (hslash : c ≠ '\\') (h : isTextChar c = true)
    (text : List Char) :
    basic? (c :: text) = (basic? text).map fun (s, rest) => (c :: s, rest) := by
  rw [basic?.eq_def]
  split
  · next heq => cases heq
  · next heq => exact absurd (List.cons.inj heq).1 hquote
  · next heq => exact absurd (List.cons.inj heq).1 hslash
  · next heq =>
    obtain ⟨rfl, rfl⟩ := List.cons.inj heq
    rw [if_pos h]

theorem basic?_slash {d : Char} {code : List Char} (text : List Char)
    (h : escaped? (d :: (code ++ text)) = some (c, code.length + 1)) :
    basic? ('\\' :: d :: (code ++ text)) = (basic? text).map fun (s, rest) => (c :: s, rest) := by
  rw [basic?.eq_def]
  simp only [h, Option.bind_eq_bind, Option.bind_some, List.drop_succ_cons, List.drop_left]
  cases basic? text <;> rfl

/-- **A text is read back from its escapes**, by induction on it. -/
theorem basic?_escape (text rest : List Char) :
    basic? (escape false 0 0 text ++ '"' :: rest) = some (text, rest) := by
  induction text with
  | nil =>
    rw [escape, List.nil_append, basic?.eq_def]
    rfl
  | cons c text ih =>
    rw [escape]
    split_ifs with hquote hrun
    · exact absurd hrun (Nat.not_lt_zero 0)
    · have hread : escaped? ('"' :: ([] ++ (escape false 0 0 text ++ '"' :: rest))) =
          some ('"', ([] : List Char).length + 1) := escaped?_short rfl _
      rw [hquote, List.cons_append, List.cons_append, ← List.nil_append (escape _ _ _ _ ++ _),
        basic?_slash _ hread, ih]
      rfl
    · rcases escapeChar_cases false c with ⟨hself, hslash, hplain⟩ | ⟨d, code, hcode, -, -, hread⟩
      · rw [hself, List.singleton_append, List.cons_append, basic?_cons hquote hslash, ih]
        · rfl
        · simpa using hplain
      · rw [hcode, List.append_assoc, List.cons_append, List.cons_append, basic?_slash _ (hread _),
          ih]
        rfl

theorem literal?_cons (hquote : c ≠ '\'') (h : isTextChar c = true) (text : List Char) :
    literal? (c :: text) = (literal? text).map fun (s, rest) => (c :: s, rest) := by
  rw [literal?]
  · rw [if_pos h]
  · exact hquote

theorem literal?_append (h : ∀ c ∈ text, c ≠ '\'' ∧ isTextChar c = true) (rest : List Char) :
    literal? (text ++ '\'' :: rest) = some (text, rest) := by
  induction text with
  | nil => rfl
  | cons c text ih =>
    obtain ⟨⟨hquote, hc⟩, htext⟩ := List.forall_mem_cons.1 h
    rw [List.cons_append, literal?_cons hquote hc, ih htext]
    rfl

/-! ## Between three quotes -/

theorem lineJoin?_eq_none {d : Char} (hspace : isSpace d = false) (hbreak : d ≠ '\n')
    (text : List Char) : lineJoin? (d :: text) = none := by
  rw [lineJoin?, List.dropWhile_cons_of_neg (by simp [hspace])]
  split
  · next heq => exact absurd (List.cons.inj heq).1 hbreak
  · rfl

theorem basicLines?_cons (hquote : c ≠ '"') (hslash : c ≠ '\\')
    (h : (isTextChar c || c == '\n') = true) (text : List Char) :
    basicLines? (c :: text) = (basicLines? text).map fun (s, rest) => (c :: s, rest) := by
  rw [basicLines?.eq_def]
  split
  · next heq => cases heq
  · next heq => exact absurd (List.cons.inj heq).1 hquote
  · next heq => exact absurd (List.cons.inj heq).1 hslash
  · next heq =>
    obtain ⟨rfl, rfl⟩ := List.cons.inj heq
    rw [if_pos h]

theorem basicLines?_slash {d : Char} {code : List Char} (text : List Char)
    (hspace : isSpace d = false) (hbreak : d ≠ '\n')
    (h : escaped? (d :: (code ++ text)) = some (c, code.length + 1)) :
    basicLines? ('\\' :: d :: (code ++ text)) =
      (basicLines? text).map fun (s, rest) => (c :: s, rest) := by
  rw [basicLines?.eq_def]
  simp only [h, Option.bind_eq_bind, Option.bind_some, List.drop_succ_cons, List.drop_left]
  split
  · next hjoin =>
    rw [lineJoin?_eq_none hspace hbreak] at hjoin
    cases hjoin
  · cases basicLines? text <;> rfl

theorem dropWhile_replicate (h : ∀ d ∈ text.head?, d ≠ c) (run : Nat) :
    (List.replicate run c ++ text).dropWhile (· == c) = text :=
  Text.dropWhile_append_of_all (by simp) (by simpa using h)

/-- Up to two quotes belong to the text. -/
theorem basicLines?_inside {run : Nat} (hrun : run ≤ 2) (h : ∀ c ∈ text.head?, c ≠ '"') :
    basicLines? (List.replicate run '"' ++ text) =
      (basicLines? text).map fun (s, after) => (List.replicate run '"' ++ s, after) := by
  cases run with
  | zero =>
    rw [List.replicate_zero, List.nil_append]
    cases basicLines? text <;> rfl
  | succ run =>
    rw [List.replicate_succ, List.cons_append, basicLines?.eq_def]
    simp only [dropWhile_replicate h, List.length_append, List.length_replicate,
      Nat.add_sub_cancel, Quotes.ofRun?]
    rw [if_pos (by omega)]
    rfl

theorem basicLines?_closing {run : Nat} (hrun : run ≤ 2) (h : ∀ c ∈ rest.head?, c ≠ '"') :
    basicLines? (List.replicate (run + 3) '"' ++ rest) = some (List.replicate run '"', rest) := by
  rw [List.replicate_succ, List.cons_append, basicLines?.eq_def]
  simp only [dropWhile_replicate h, List.length_append, List.length_replicate,
    Nat.add_sub_cancel, Quotes.ofRun?]
  rw [if_neg (by omega), if_pos (by omega)]
  rfl

/-- A character other than a quote is read back, after up to two quotes. -/
theorem basicLines?_escapeChar {run : Nat} (hrun : run ≤ 2) (hquote : c ≠ '"')
    (text : List Char) :
    basicLines? (List.replicate run '"' ++ (escapeChar true c ++ text)) =
      (basicLines? text).map fun (s, after) => (List.replicate run '"' ++ c :: s, after) := by
  rcases escapeChar_cases true c with
    ⟨hself, hslash, hplain⟩ | ⟨d, code, hcode, hspace, hbreak, hread⟩
  · rw [hself, List.singleton_append, basicLines?_inside hrun (by simpa using hquote),
      basicLines?_cons hquote hslash hplain, Option.map_map]
    rfl
  · rw [hcode, List.cons_append, List.cons_append, basicLines?_inside hrun (by simp),
      basicLines?_slash text hspace hbreak (hread text), Option.map_map]
    rfl

theorem replicate_append_cons (run : Nat) (c : Char) (text : List Char) :
    List.replicate run c ++ c :: text = List.replicate (run + 1) c ++ text := by
  rw [List.replicate_succ', List.append_assoc, List.singleton_append]

/-- **A text is read back from its lines**, by induction on it; `run` quotes
stand right before it. -/
theorem basicLines?_escape (h : ∀ c ∈ rest.head?, c ≠ '"') (text : List Char) :
    ∀ run ≤ 2, basicLines? (List.replicate run '"' ++ (escape true 2 run text ++
        (List.replicate 3 '"' ++ rest))) = some (List.replicate run '"' ++ text, rest) := by
  induction text with
  | nil =>
    intro run hrun
    rw [escape, List.nil_append, ← List.append_assoc, List.replicate_append_replicate,
      basicLines?_closing hrun h, List.append_nil]
  | cons c text ih =>
    intro run hrun
    have hfresh : basicLines? (escape true 2 0 text ++ (List.replicate 3 '"' ++ rest)) =
        some (text, rest) := ih 0 (Nat.zero_le 2)
    rw [escape]
    split_ifs with hquote hlt
    · rw [hquote, List.cons_append, replicate_append_cons, ih (run + 1) hlt, replicate_append_cons]
    · have hread : escaped?
          ('"' :: ([] ++ (escape true 2 0 text ++ (List.replicate 3 '"' ++ rest)))) =
            some ('"', ([] : List Char).length + 1) := escaped?_short rfl _
      rw [hquote, List.cons_append, List.cons_append, basicLines?_inside hrun (by simp),
        ← List.nil_append (escape _ _ _ _ ++ _),
        basicLines?_slash _ (by decide) (by decide) hread, hfresh]
      rfl
    · rw [List.append_assoc, basicLines?_escapeChar hrun hquote, hfresh]
      rfl

theorem literalLines?_cons (hquote : c ≠ '\'') (h : (isTextChar c || c == '\n') = true)
    (text : List Char) :
    literalLines? (c :: text) = (literalLines? text).map fun (s, rest) => (c :: s, rest) := by
  rw [literalLines?.eq_def]
  split
  · next heq => cases heq
  · next heq => exact absurd (List.cons.inj heq).1 hquote
  · next heq =>
    obtain ⟨rfl, rfl⟩ := List.cons.inj heq
    rw [if_pos h]

theorem literalLines?_inside {run : Nat} (hrun : run ≤ 2) (h : ∀ c ∈ text.head?, c ≠ '\'') :
    literalLines? (List.replicate run '\'' ++ text) =
      (literalLines? text).map fun (s, after) => (List.replicate run '\'' ++ s, after) := by
  cases run with
  | zero =>
    rw [List.replicate_zero, List.nil_append]
    cases literalLines? text <;> rfl
  | succ run =>
    rw [List.replicate_succ, List.cons_append, literalLines?.eq_def]
    simp only [dropWhile_replicate h, List.length_append, List.length_replicate,
      Nat.add_sub_cancel, Quotes.ofRun?]
    rw [if_pos (by omega)]
    rfl

theorem literalLines?_closing {run : Nat} (hrun : run ≤ 2) (h : ∀ c ∈ rest.head?, c ≠ '\'') :
    literalLines? (List.replicate (run + 3) '\'' ++ rest) =
      some (List.replicate run '\'', rest) := by
  rw [List.replicate_succ, List.cons_append, literalLines?.eq_def]
  simp only [dropWhile_replicate h, List.length_append, List.length_replicate,
    Nat.add_sub_cancel, Quotes.ofRun?]
  rw [if_neg (by omega), if_pos (by omega)]
  rfl

theorem le_longestRun (c : Char) (text : List Char) :
    ∀ run longest, longest ≤ longestRun c run longest text := by
  induction text with
  | nil => exact fun run longest => Nat.le_refl longest
  | cons d text ih =>
    intro run longest
    rw [longestRun]
    split_ifs
    · exact Nat.le_trans (Nat.le_max_left _ _) (ih _ _)
    · exact ih _ _

/-- A text without three quotes in a row is read back as it stands, by induction
on it. -/
theorem literalLines?_append (h : ∀ c ∈ rest.head?, c ≠ '\'')
    (hplain : ∀ c ∈ text, (isTextChar c || c == '\n') = true) :
    ∀ run longest, run ≤ 2 → longestRun '\'' run longest text ≤ 2 →
      literalLines? (List.replicate run '\'' ++ (text ++ (List.replicate 3 '\'' ++ rest))) =
        some (List.replicate run '\'' ++ text, rest) := by
  induction text with
  | nil =>
    intro run longest hrun _
    rw [List.nil_append, ← List.append_assoc, List.replicate_append_replicate,
      literalLines?_closing hrun h, List.append_nil]
  | cons c text ih =>
    intro run longest hrun hlongest
    obtain ⟨hc, htext⟩ := List.forall_mem_cons.1 hplain
    rw [longestRun] at hlongest
    split_ifs at hlongest with hquote
    · have hle := le_longestRun '\'' text (run + 1) (max longest (run + 1))
      rw [hquote, List.cons_append, replicate_append_cons, ih htext (run + 1) _ (by omega) hlongest,
        replicate_append_cons]
    · have hfresh := ih htext 0 longest (Nat.zero_le 2) hlongest
      rw [List.replicate_zero, List.nil_append, List.nil_append] at hfresh
      rw [List.cons_append, literalLines?_inside hrun (by simpa using hquote),
        literalLines?_cons hquote hc, hfresh]
      rfl

/-! ## All forms -/

theorem forall_ne_of_longestRun (text : List Char) :
    ∀ run longest, longestRun c run longest text = 0 → ∀ d ∈ text, d ≠ c := by
  induction text with
  | nil => simp
  | cons d text ih =>
    intro run longest h
    rw [longestRun] at h
    split_ifs at h with hd
    · have hle := le_longestRun c text (run + 1) (max longest (run + 1))
      omega
    · exact List.forall_mem_cons.2 ⟨hd, ih _ _ h⟩

theorem forall_of_ofText_literal (h : Form.ofText text = .literal) :
    ∀ c ∈ text, c ≠ '\'' ∧ isTextChar c = true := by
  simp only [Form.ofText] at h
  split_ifs at h with hbasic hliteral
  · simp only [Bool.and_eq_true, Bool.not_eq_true', decide_eq_true_eq, List.any_eq_false,
      Bool.not_eq_true, List.contains_eq_mem, decide_eq_false_iff_not] at hliteral
    obtain ⟨⟨hcodes, hsingle⟩, hbreaks⟩ := hliteral
    intro c hc
    have hbreak : c ≠ '\n' := fun heq => hbreaks (heq ▸ hc)
    exact ⟨forall_ne_of_longestRun text 0 0 hsingle c hc,
      isTextChar_of_not_needsCode (hcodes c hc) hbreak⟩

theorem forall_of_ofText_literalLines (h : Form.ofText text = .literalLines) :
    longestRun '\'' 0 0 text ≤ 2 ∧ ∀ c ∈ text, (isTextChar c || c == '\n') = true := by
  simp only [Form.ofText] at h
  split_ifs at h with hbasic hliteral hbasicLines hlines
  simp only [Bool.and_eq_true, Bool.not_eq_true', decide_eq_true_eq, List.any_eq_false,
    Bool.not_eq_true] at hlines
  refine ⟨hlines.2, fun c hc => ?_⟩
  by_cases hbreak : c = '\n'
  · simp [hbreak]
  · rw [isTextChar_of_not_needsCode (hlines.1 c hc) hbreak]
    rfl

theorem string?_basic {body : List Char} (h : ∀ more, body ≠ '"' :: '"' :: more) :
    string? ('"' :: body) = basic? body := by
  unfold string?
  split
  · next heq => exact absurd (List.cons.inj heq).2 (h _)
  · next heq => cases heq
  · next heq => rw [(List.cons.inj heq).2]
  · next heq => cases heq
  · next hbasic _ => exact absurd rfl (hbasic body)

theorem string?_literal {body : List Char} (h : ∀ more, body ≠ '\'' :: '\'' :: more) :
    string? ('\'' :: body) = literal? body := by
  unfold string?
  split
  · next heq => cases heq
  · next heq => exact absurd (List.cons.inj heq).2 (h _)
  · next heq => cases heq
  · next heq => rw [(List.cons.inj heq).2]
  · next _ hliteral => exact absurd rfl (hliteral body)

/-- The first character stands for itself or follows a backslash. -/
theorem exists_escape_head (breaks : Bool) (allowed run : Nat) (c : Char) (text : List Char) :
    ∃ d more, escape breaks allowed run (c :: text) = d :: more ∧
      (d = '\\' ∨ d = c ∧ (c = '"' → run < allowed)) := by
  rw [escape]
  split_ifs with hquote hlt
  · exact ⟨_, _, rfl, .inr ⟨rfl, fun _ => hlt⟩⟩
  · exact ⟨_, _, rfl, .inl rfl⟩
  · rcases escapeChar_cases breaks c with ⟨hself, -, -⟩ | ⟨d, code, hcode, -, -, -⟩
    · exact ⟨_, _, by rw [hself]; rfl, .inr ⟨rfl, fun h => absurd h hquote⟩⟩
    · exact ⟨_, _, by rw [hcode]; rfl, .inl rfl⟩

theorem string?_escape (text : List Char) (h : ∀ c ∈ rest.head?, c ≠ '"') :
    string? ('"' :: (escape false 0 0 text ++ '"' :: rest)) = some (text, rest) := by
  rw [string?_basic, basic?_escape]
  intro more heq
  cases text with
  | nil =>
    rw [escape, List.nil_append] at heq
    obtain ⟨-, rfl⟩ := List.cons.inj heq
    exact h '"' rfl rfl
  | cons c text =>
    obtain ⟨d, tail, hhead, hd⟩ := exists_escape_head false 0 0 c text
    rw [hhead] at heq
    obtain ⟨rfl, -⟩ := List.cons.inj heq
    rcases hd with hslash | ⟨hself, hrun⟩
    · cases hslash
    · exact absurd (hrun hself.symm) (Nat.not_lt_zero 0)

theorem string?_literal_append (hplain : ∀ c ∈ text, c ≠ '\'' ∧ isTextChar c = true)
    (h : ∀ c ∈ rest.head?, c ≠ '\'') :
    string? ('\'' :: (text ++ '\'' :: rest)) = some (text, rest) := by
  rw [string?_literal, literal?_append hplain]
  intro more heq
  cases text with
  | nil =>
    obtain ⟨-, rfl⟩ := List.cons.inj heq
    exact h '\'' rfl rfl
  | cons c text => exact (hplain c List.mem_cons_self).1 (List.cons.inj heq).1

theorem dropFirstBreak_append {body : List Char}
    (h : text.contains '\n' = false → ∀ c ∈ body.head?, c ≠ '\n') :
    dropFirstBreak ((if text.contains '\n' then ['\n'] else []) ++ body) = body := by
  cases hbreak : text.contains '\n' with
  | true => rfl
  | false =>
    rw [if_neg (by decide), List.nil_append]
    unfold dropFirstBreak
    split
    · exact absurd rfl (h hbreak '\n' rfl)
    · rfl

/-- **A string is read back from its text**, unless more quotes follow. -/
theorem string?_quote (text : List Char) (h : ∀ c ∈ rest.head?, c ≠ '"' ∧ c ≠ '\'') :
    string? (quote text ++ rest) = some (text, rest) := by
  have hdouble : ∀ c ∈ rest.head?, c ≠ '"' := fun c hc => (h c hc).1
  have hsingle : ∀ c ∈ rest.head?, c ≠ '\'' := fun c hc => (h c hc).2
  rw [quote]
  cases hform : Form.ofText text with
  | basic => simpa using string?_escape text hdouble
  | literal => simpa using string?_literal_append (forall_of_ofText_literal hform) hsingle
  | basicLines =>
    have hread := basicLines?_escape hdouble text 0 (Nat.zero_le 2)
    rw [List.replicate_zero, List.nil_append, List.nil_append] at hread
    simp only [List.append_assoc, List.cons_append, List.nil_append]
    change basicLines? (dropFirstBreak _) = _
    rw [dropFirstBreak_append]
    · exact hread
    · intro hbreak d hd
      cases text with
      | nil =>
        obtain rfl : '"' = d := Option.some.inj hd
        decide
      | cons c text =>
        obtain ⟨e, more, hhead, he⟩ := exists_escape_head true 2 0 c text
        rw [hhead] at hd
        obtain rfl : e = d := Option.some.inj hd
        rcases he with rfl | ⟨rfl, -⟩
        · decide
        · rintro rfl
          simp at hbreak
  | literalLines =>
    obtain ⟨hlongest, hplain⟩ := forall_of_ofText_literalLines hform
    have hread := literalLines?_append hsingle hplain 0 0 (Nat.zero_le 2) hlongest
    rw [List.replicate_zero, List.nil_append, List.nil_append] at hread
    simp only [List.append_assoc, List.cons_append, List.nil_append]
    change literalLines? (dropFirstBreak _) = _
    rw [dropFirstBreak_append]
    · exact hread
    · intro hbreak d hd
      cases text with
      | nil =>
        obtain rfl : '\'' = d := Option.some.inj hd
        decide
      | cons c text =>
        obtain rfl : c = d := Option.some.inj hd
        rintro rfl
        simp at hbreak

/-! ## No carriage return -/

theorem return_not_mem_escapeChar (breaks : Bool) (c : Char) : '\r' ∉ escapeChar breaks c := by
  have hdigit : ∀ n < 16, hexDigit n ≠ '\r' := by decide
  unfold escapeChar
  split_ifs with hslash hb ht hn hbreaks hf hr hcode
  any_goals decide
  · have := needsCode_lt hcode
    have hhigh := hdigit (c.toNat / 16) (by omega)
    have hlow := hdigit (c.toNat % 16) (by omega)
    simp [hhigh.symm, hlow.symm]
  · simpa [eq_comm] using hr

theorem return_not_mem_escape (breaks : Bool) (allowed : Nat) (text : List Char) :
    ∀ run, '\r' ∉ escape breaks allowed run text := by
  induction text with
  | nil => simp [escape]
  | cons c text ih =>
    intro run
    rw [escape]
    split_ifs with hquote hlt
    · simp [hquote, ih]
    · simp [ih]
    · simp [ih, return_not_mem_escapeChar]

theorem return_not_mem_quote (text : List Char) : '\r' ∉ quote text := by
  rw [quote]
  have hbreak : '\r' ∉ (if text.contains '\n' then ['\n'] else []) := by
    split_ifs <;> decide
  cases hform : Form.ofText text with
  | basic => simp [return_not_mem_escape]
  | literal =>
    have : '\r' ∉ text := fun h => by
      have := (forall_of_ofText_literal hform '\r' h).2
      cases this
    simp [this]
  | basicLines => simp [return_not_mem_escape]
  | literalLines =>
    have : '\r' ∉ text := fun h => by
      have := (forall_of_ofText_literalLines hform).2 '\r' h
      cases this
    simp [this]

end Docsmith.Toml
