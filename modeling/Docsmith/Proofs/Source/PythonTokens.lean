import Docsmith.Proofs.Source.PythonSyntax
import Docsmith.Proofs.Text.Trim
import Mathlib.Data.Bool.AllAny
import Mathlib.Data.List.Find
/-!
# Python — where tokens end

Commas and brackets are tokens of their own (`token?_stop`), and no other token
reaches across one: the token that a text without quotes starts with is the same
whatever follows the text behind a comma or a bracket (`token?_append_stop`).
-/


namespace Docsmith.Source.Python

open Syntax Unicode

variable {text more : List Char} {b c : Char} {kind : Token.Kind} {n : Nat}

/-- Commas and brackets. -/
def stops : List Char :=
  [',', '(', ')', '[', ']', '\x7b', '\x7d']

/-- What holds of them is checked one by one. -/
theorem of_mem_stops (P : Char → Prop) [DecidablePred P] (h : (stops.all fun b => P b) = true)
    (hb : b ∈ stops) : P b :=
  List.all_iff_forall_prop.1 h b hb

/-! ## Numbers -/

theorem digitsLength_append_stop {isDigit : Char → Bool} (hb : isDigit b = false) (hb' : b ≠ '_')
    (scored : Bool) (text more : List Char) :
    digitsLength isDigit scored (text ++ b :: more) = digitsLength isDigit scored text := by
  induction text generalizing scored with
  | nil => simp [digitsLength, hb, hb']
  | cons c text ih => simp [digitsLength, ih]

theorem digitsLength_le (isDigit : Char → Bool) (scored : Bool) (text : List Char) :
    digitsLength isDigit scored text ≤ text.length := by
  induction text generalizing scored with
  | nil => exact Nat.le_refl 0
  | cons c text ih =>
    rw [digitsLength, List.length_cons]
    split_ifs
    · exact Nat.succ_le_succ (ih true)
    · exact Nat.succ_le_succ (ih false)
    · exact Nat.zero_le _

theorem ne_of_stop (hb : b ∈ stops) (hc : c ∉ stops) : b ≠ c :=
  fun heq => hc (heq ▸ hb)

theorem not_isDigit_of_stop (hb : b ∈ stops) : b.isDigit = false :=
  of_mem_stops (fun b => b.isDigit = false) (by decide) hb

theorem digitsLength_stop (hb : b ∈ stops) (text more : List Char) :
    digitsLength Char.isDigit false (text ++ b :: more) = digitsLength Char.isDigit false text :=
  digitsLength_append_stop (not_isDigit_of_stop hb) (ne_of_stop hb (by decide)) false text more

/-- The length of the sign that a text starts with. -/
def signLength : List Char → Nat
  | '+' :: _ | '-' :: _ => 1
  | _ => 0

theorem signLength_le (text : List Char) : signLength text ≤ text.length := by
  unfold signLength
  split <;> simp

theorem signLength_append_stop (hb : b ∈ stops) (text more : List Char) :
    signLength (text ++ b :: more) = signLength text := by
  cases text with
  | nil =>
    unfold signLength
    split
    · next heq => exact absurd (List.cons.inj heq).1 (ne_of_stop hb (by decide))
    · next heq => exact absurd (List.cons.inj heq).1 (ne_of_stop hb (by decide))
    · rfl
  | cons c text =>
    unfold signLength
    rw [List.cons_append]
    split <;> simp_all

theorem exponentLength_cons (c : Char) (text : List Char) : exponentLength (c :: text) =
    if (c = 'e' || c = 'E') &&
        0 < digitsLength Char.isDigit false (text.drop (signLength text)) then
      1 + signLength text + digitsLength Char.isDigit false (text.drop (signLength text))
    else 0 := rfl

theorem exponentLength_append_stop (hb : b ∈ stops) (text more : List Char) :
    exponentLength (text ++ b :: more) = exponentLength text := by
  cases text with
  | nil =>
    have he : b ≠ 'e' := ne_of_stop hb (by decide)
    have hE : b ≠ 'E' := ne_of_stop hb (by decide)
    simp [exponentLength, he, hE]
  | cons c text =>
    rw [List.cons_append, exponentLength_cons, exponentLength_cons, signLength_append_stop hb,
      List.drop_append_of_le_length (signLength_le text), digitsLength_stop hb]

theorem exponentLength_le (text : List Char) : exponentLength text ≤ text.length := by
  cases text with
  | nil => exact Nat.le_refl 0
  | cons c text =>
    have hdigits := digitsLength_le Char.isDigit false (text.drop (signLength text))
    have hsign := signLength_le text
    rw [List.length_drop] at hdigits
    rw [exponentLength_cons, List.length_cons]
    split_ifs <;> omega

/-- The length of the fraction that a text starts with. -/
def fractionLength : List Char → Nat
  | '.' :: rest => 1 + digitsLength Char.isDigit false rest
  | _ => 0

theorem fractionLength_append_stop (hb : b ∈ stops) (text more : List Char) :
    fractionLength (text ++ b :: more) = fractionLength text := by
  cases text with
  | nil =>
    unfold fractionLength
    split
    · next heq => exact absurd (List.cons.inj heq).1 (ne_of_stop hb (by decide))
    · rfl
  | cons c text =>
    by_cases hc : c = '.'
    · subst hc
      exact congrArg (1 + ·) (digitsLength_stop hb text more)
    · unfold fractionLength
      rw [List.cons_append]
      split <;> simp_all

theorem fractionLength_le (text : List Char) : fractionLength text ≤ text.length := by
  unfold fractionLength
  split
  · next rest =>
    have := digitsLength_le Char.isDigit false rest
    rw [List.length_cons]
    omega
  · exact Nat.zero_le _

theorem decimalLength_eq (text : List Char) : decimalLength text =
    let whole := digitsLength Char.isDigit false text
    let fraction := fractionLength (text.drop whole)
    whole + fraction + exponentLength (text.drop (whole + fraction)) := rfl

theorem decimalLength_le (text : List Char) : decimalLength text ≤ text.length := by
  have hwhole := digitsLength_le Char.isDigit false text
  have hfraction := fractionLength_le (text.drop (digitsLength Char.isDigit false text))
  rw [decimalLength_eq]
  dsimp only
  generalize digitsLength Char.isDigit false text = whole at *
  generalize fractionLength (text.drop whole) = fraction at *
  have hexponent := exponentLength_le (text.drop (whole + fraction))
  rw [List.length_drop] at hfraction hexponent
  omega

theorem decimalLength_append_stop (hb : b ∈ stops) (text more : List Char) :
    decimalLength (text ++ b :: more) = decimalLength text := by
  have hwhole := digitsLength_le Char.isDigit false text
  have hfraction := fractionLength_le (text.drop (digitsLength Char.isDigit false text))
  rw [List.length_drop] at hfraction
  rw [decimalLength_eq, decimalLength_eq]
  dsimp only
  rw [digitsLength_stop hb, List.drop_append_of_le_length hwhole, fractionLength_append_stop hb,
    List.drop_append_of_le_length (by omega), exponentLength_append_stop hb]

/-- A number in a base by its mark. -/
theorem basedLength_cons (mark : Char) (text : List Char) : basedLength ('0' :: mark :: text) =
    match topDigit? mark with
    | some top =>
      let digits := digitsLength (fun c => c.isAlphanum && c.toLower ≤ top) true text
      if 0 < digits then 2 + digits else 0
    | none => 0 := rfl

theorem basedLength_append_stop (hb : b ∈ stops) (text more : List Char) :
    basedLength (text ++ b :: more) = basedLength text := by
  rcases text with _ | ⟨c, _ | ⟨d, text⟩⟩
  · unfold basedLength
    split
    · next heq => exact absurd (List.cons.inj heq).1 (ne_of_stop hb (by decide))
    · rfl
  · have hmark : topDigit? b = none := of_mem_stops (fun b => topDigit? b = none) (by decide) hb
    by_cases hc : c = '0'
    · subst hc
      rw [List.cons_append, List.nil_append, basedLength_cons, hmark]
      rfl
    · unfold basedLength
      split <;> simp_all
  · have halphanum : b.isAlphanum = false :=
      of_mem_stops (fun b => b.isAlphanum = false) (by decide) hb
    by_cases hc : c = '0'
    · subst hc
      rw [List.cons_append, List.cons_append, basedLength_cons, basedLength_cons]
      cases topDigit? d with
      | none => rfl
      | some top =>
        dsimp only
        rw [digitsLength_append_stop (by rw [halphanum, Bool.false_and])
          (ne_of_stop hb (by decide))]
    · unfold basedLength
      split <;> simp_all

theorem basedLength_le (text : List Char) : basedLength text ≤ text.length := by
  unfold basedLength
  split
  · next mark rest =>
    cases topDigit? mark with
    | none => exact Nat.zero_le _
    | some top =>
      have := digitsLength_le (fun c => c.isAlphanum && c.toLower ≤ top) true rest
      rw [List.length_cons, List.length_cons]
      dsimp only
      split_ifs <;> omega
  · exact Nat.zero_le _

theorem letterLength_le (letters text : List Char) : letterLength letters text ≤ text.length := by
  cases text with
  | nil => exact Nat.le_refl 0
  | cons c text =>
    rw [letterLength, List.length_cons]
    split_ifs <;> omega

theorem letterLength_append_stop {letters : List Char} (hb : letters.contains b = false)
    (text more : List Char) :
    letterLength letters (text ++ b :: more) = letterLength letters text := by
  cases text with
  | nil => exact if_neg (Bool.eq_false_iff.1 hb)
  | cons c text => rfl

theorem numberLength_eq (text : List Char) : numberLength text =
    if basedLength text = 0 then
      decimalLength text + letterLength ['j', 'J', 'l', 'L'] (text.drop (decimalLength text))
    else basedLength text + letterLength ['l', 'L'] (text.drop (basedLength text)) := by
  unfold numberLength
  split
  · next hbased => rw [if_pos hbased]
  · next hbased => rw [if_neg hbased]

/-- **A number ends before a stop** wherever it ends. -/
theorem numberLength_append_stop (hb : b ∈ stops) (text more : List Char) :
    numberLength (text ++ b :: more) = numberLength text := by
  have hdecimal := of_mem_stops (fun b => ['j', 'J', 'l', 'L'].contains b = false) (by decide) hb
  have hbased := of_mem_stops (fun b => ['l', 'L'].contains b = false) (by decide) hb
  rw [numberLength_eq, numberLength_eq, basedLength_append_stop hb, decimalLength_append_stop hb,
    List.drop_append_of_le_length (decimalLength_le text), letterLength_append_stop hdecimal,
    List.drop_append_of_le_length (basedLength_le text), letterLength_append_stop hbased]

theorem numberLength_le (text : List Char) : numberLength text ≤ text.length := by
  have hdecimal := decimalLength_le text
  have hbased := basedLength_le text
  have hletter := letterLength_le ['j', 'J', 'l', 'L'] (text.drop (decimalLength text))
  have hmark := letterLength_le ['l', 'L'] (text.drop (basedLength text))
  rw [List.length_drop] at hletter hmark
  rw [numberLength_eq]
  split_ifs <;> omega

/-! ## Tokens -/

/-- No quote stands in the text. -/
def IsQuoteFree (text : List Char) : Prop :=
  '"' ∉ text ∧ '\'' ∉ text

theorem IsQuoteFree.mono {part : List Char} (h : IsQuoteFree text) (hsubset : part ⊆ text) :
    IsQuoteFree part :=
  ⟨fun hmem => h.1 (hsubset hmem), fun hmem => h.2 (hsubset hmem)⟩

theorem quote?_eq_none {text : List Char} (h : ∀ c ∈ text.head?, c ≠ '"' ∧ c ≠ '\'') :
    quote? text = none := by
  unfold quote?
  split
  · exact absurd rfl (h _ rfl).1
  · exact absurd rfl (h _ rfl).2
  · exact absurd rfl (h _ rfl).1
  · exact absurd rfl (h _ rfl).2
  · rfl

/-- The token of a text that starts with no literal. -/
def plainToken? : List Char → Option (Token.Kind × Nat)
  | [] => none
  | c :: rest =>
    if startsWord c then some (.word, 1 + (rest.takeWhile isWordChar).length)
    else if c.isDigit || (c == '.' && digitNext rest) then
      some (.number, numberLength (c :: rest))
    else
      match longSymbols.find? (·.isPrefixOf (c :: rest)) with
      | some symbol => some (.symbol, symbol.length)
      | none => some (.symbol, 1)

/-- A text starts with no literal where no quote stands behind its letters. -/
theorem token?_eq_plainToken? {text : List Char}
    (h : ∀ c ∈ (text.dropWhile isLiteralPrefix).head?, c ≠ '"' ∧ c ≠ '\'') :
    token? text = plainToken? text := by
  unfold token?
  dsimp only
  rw [Text.drop_length_takeWhile, quote?_eq_none h]
  cases text <;> rfl

/-- No symbol of more than one character has a comma or a bracket. -/
theorem not_mem_of_mem_longSymbols {symbol : List Char} (hb : b ∈ stops)
    (hsymbol : symbol ∈ longSymbols) : b ∉ symbol := by
  have hnone : ∀ symbol ∈ longSymbols, symbol.any (stops.contains ·) = false := by decide
  intro hmem
  have hnot := List.any_eq_false.1 (hnone symbol hsymbol) b hmem
  simp [hb] at hnot

/-- **A comma or a bracket is a token of its own.** -/
theorem token?_stop (hb : b ∈ stops) (more : List Char) :
    token? (b :: more) = some (.symbol, 1) := by
  have hletter := of_mem_stops (fun b => isLiteralPrefix b = false) (by decide) hb
  have hword := of_mem_stops (fun b => startsWord b = false) (by decide +kernel) hb
  have hdot := of_mem_stops (fun b => (b == '.') = false) (by decide) hb
  have hsymbol : longSymbols.find? (·.isPrefixOf (b :: more)) = none := by
    refine List.find?_eq_none.2 fun symbol hsymbol hlead => ?_
    cases symbol with
    | nil => exact absurd hsymbol (by decide)
    | cons d symbol =>
      simp only [List.isPrefixOf, Bool.and_eq_true, beq_iff_eq] at hlead
      exact not_mem_of_mem_longSymbols hb hsymbol (hlead.1 ▸ List.mem_cons_self)
  rw [token?_eq_plainToken?]
  · rw [plainToken?, hword, not_isDigit_of_stop hb, hdot, hsymbol]
    rfl
  · rw [List.dropWhile_cons_of_neg (by simp [hletter])]
    rintro _ ⟨rfl⟩
    exact ⟨ne_of_stop hb (by decide), ne_of_stop hb (by decide)⟩

theorem isPrefixOf_append_stop {symbol : List Char} (hb : b ∉ symbol) (text more : List Char) :
    symbol.isPrefixOf (text ++ b :: more) = symbol.isPrefixOf text := by
  induction symbol generalizing text with
  | nil => simp
  | cons c symbol ih =>
    obtain ⟨hc, hsymbol⟩ := not_or.1 (mt List.mem_cons.2 hb)
    cases text with
    | nil => simp [List.isPrefixOf, Ne.symm hc]
    | cons d text => simp [List.isPrefixOf, ih hsymbol]

theorem plainToken?_append_stop (hb : b ∈ stops) (hne : text ≠ []) (more : List Char) :
    plainToken? (text ++ b :: more) = plainToken? text := by
  obtain ⟨c, rest, rfl⟩ := List.exists_cons_of_ne_nil hne
  have hword := of_mem_stops (fun b => isWordChar b = false) (by decide +kernel) hb
  have hdigit : digitNext (rest ++ b :: more) = digitNext rest := by
    cases rest with
    | nil => exact not_isDigit_of_stop hb
    | cons d rest => rfl
  have hnumber := numberLength_append_stop hb (c :: rest) more
  have hsymbol : longSymbols.find? (·.isPrefixOf (c :: rest ++ b :: more)) =
      longSymbols.find? (·.isPrefixOf (c :: rest)) :=
    List.find?_congr fun symbol hsymbol =>
      isPrefixOf_append_stop (not_mem_of_mem_longSymbols hb hsymbol) _ _
  rw [List.cons_append] at hnumber hsymbol ⊢
  rw [plainToken?, plainToken?, Text.takeWhile_append (Text.forall_mem_head?_cons hword more),
    hdigit, hnumber, hsymbol]

theorem IsQuoteFree.head?_dropWhile (h : IsQuoteFree text) :
    ∀ c ∈ (text.dropWhile isLiteralPrefix).head?, c ≠ '"' ∧ c ≠ '\'' := by
  intro c hc
  have hmem : c ∈ text := (List.dropWhile_sublist _).subset (List.mem_of_head? hc)
  exact ⟨fun heq => h.1 (heq ▸ hmem), fun heq => h.2 (heq ▸ hmem)⟩

/-- **No other token reaches it.** -/
theorem token?_append_stop (hb : b ∈ stops) (hne : text ≠ []) (hquote : IsQuoteFree text)
    (more : List Char) : token? (text ++ b :: more) = token? text := by
  have hletter := of_mem_stops (fun b => isLiteralPrefix b = false) (by decide) hb
  rw [token?_eq_plainToken? hquote.head?_dropWhile, token?_eq_plainToken?,
    plainToken?_append_stop hb hne]
  intro c hc
  rw [Text.dropWhile_append (Text.forall_mem_head?_cons hletter more)] at hc
  cases hrest : text.dropWhile isLiteralPrefix with
  | nil =>
    rw [hrest] at hc
    cases hc
    exact ⟨ne_of_stop hb (by decide), ne_of_stop hb (by decide)⟩
  | cons d rest =>
    rw [hrest] at hc
    exact hquote.head?_dropWhile c (by rw [hrest]; exact hc)

theorem token?_le (hquote : IsQuoteFree text) (h : token? text = some (kind, n)) :
    n ≤ text.length := by
  rw [token?_eq_plainToken? hquote.head?_dropWhile] at h
  cases text with
  | nil => cases h
  | cons c rest =>
    simp only [plainToken?] at h
    split_ifs at h
    · cases h
      have := (List.takeWhile_prefix isWordChar (l := rest)).length_le
      rw [List.length_cons]
      omega
    · cases h
      exact numberLength_le _
    · split at h
      · next symbol hsymbol =>
        cases h
        have hlead : symbol.isPrefixOf (c :: rest) = true :=
          List.find?_some (p := fun symbol : List Char => symbol.isPrefixOf (c :: rest)) hsymbol
        exact (List.isPrefixOf_iff_prefix.1 hlead).length_le
      · cases h
        simp

/-- A token that is a comma or a bracket, or has none. -/
def IsTidy (t : Token) : Prop :=
  (t.kind = .symbol ∧ ∃ b ∈ stops, t.text = [b]) ∨ ∀ b ∈ stops, b ∉ t.text

/-- **Every token is one of these.** -/
theorem isTidy_of_token? {t : Token} (hquote : IsQuoteFree text)
    (h : token? text = some (t.kind, n)) (htext : t.text = text.take n) : IsTidy t := by
  cases hfind : text.find? (stops.contains ·) with
  | none =>
    refine .inr fun b hb hmem => ?_
    have hnot := List.find?_eq_none.1 hfind b (List.mem_of_mem_take (htext ▸ hmem))
    simp [hb] at hnot
  | some b =>
    obtain ⟨hb, before, after, rfl, hbefore⟩ := List.find?_eq_some_iff_append.1 hfind
    have hb : b ∈ stops := by simpa using hb
    by_cases hnil : before = []
    · subst hnil
      rw [List.nil_append, token?_stop hb, Option.some.injEq, Prod.mk.injEq] at h
      obtain ⟨hkind, rfl⟩ := h
      exact .inl ⟨hkind.symm, b, hb, htext⟩
    · -- the token ends before the first stop
      have hquote := hquote.mono (List.subset_append_left before (b :: after))
      rw [token?_append_stop hb hnil hquote] at h
      rw [List.take_append_of_le_length (token?_le hquote h)] at htext
      refine .inr fun d hd hmem => ?_
      have hnot := hbefore d (List.mem_of_mem_take (htext ▸ hmem))
      simp [hd] at hnot

end Docsmith.Source.Python
