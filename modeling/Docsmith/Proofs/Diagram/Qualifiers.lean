import Docsmith.Diagram.Naming
import Docsmith.Proofs.Text.Spacing
import Docsmith.Proofs.Text.Trim
import Docsmith.Proofs.Text.Word
import Mathlib.Tactic.SplitIfs
/-!
# Diagrams — type arguments and qualifiers

The text of a member loses what stands between angle brackets, and no opening bracket
is left (`not_mem_dropGenerics`). It then loses its qualifiers: the identifiers with a
dot and the start of another one behind them (`IsQualifier`). Dropping them makes no new
ones (`isUnqualified_dropQualifiers`), and a text without any stays as it is
(`dropQualifiers_of_isUnqualified`). No qualifier reaches across a character that is
neither in an identifier nor the dot between two (`isUnqualified_append_cons`).
-/


namespace Docsmith.Diagram

open Docsmith.Text Docsmith.Unicode

variable {text before name after : List Char} {c : Char} {inside : Bool}

/-! ## Type arguments -/

@[simp] theorem dropGenerics_nil (depth : Nat) : dropGenerics depth [] = [] := by
  cases depth <;> rfl

/-- What becomes of a character: a bracket opens type arguments or closes them, and
inside of them nothing stays. -/
theorem dropGenerics_cons (depth : Nat) (c : Char) (text : List Char) :
    dropGenerics depth (c :: text) =
      if c = '<' then dropGenerics (depth + 1) text
      else if depth = 0 then c :: dropGenerics 0 text
      else dropGenerics (if c = '>' then depth - 1 else depth) text := by
  cases depth with
  | zero => by_cases hopen : c = '<' <;> simp [dropGenerics, hopen]
  | succ depth =>
    by_cases hopen : c = '<'
    · simp [dropGenerics, hopen]
    · by_cases hclose : c = '>' <;> simp [dropGenerics, hopen, hclose]

/-- What stands behind a text is stripped of type arguments at some depth. -/
theorem dropGenerics_append (depth : Nat) (text : List Char) :
    ∃ deep, ∀ more, dropGenerics depth (text ++ more) =
      dropGenerics depth text ++ dropGenerics deep more := by
  induction text generalizing depth with
  | nil => exact ⟨depth, fun more => by rw [dropGenerics_nil, List.nil_append, List.nil_append]⟩
  | cons c text ih =>
    simp only [List.cons_append, dropGenerics_cons]
    split_ifs with hopen hdepth hclose
    · exact ih (depth + 1)
    · exact (ih 0).imp fun deep h more => congrArg (c :: ·) (h more)
    · exact ih (depth - 1)
    · exact ih depth

/-- A text that opens no type arguments stays, whatever follows it. -/
theorem dropGenerics_append_of_not_mem (more : List Char) (h : '<' ∉ text) :
    dropGenerics 0 (text ++ more) = text ++ dropGenerics 0 more := by
  induction text with
  | nil => rfl
  | cons c text ih =>
    obtain ⟨hc, htext⟩ := not_or.1 (mt List.mem_cons.2 h)
    rw [List.cons_append, dropGenerics_cons, if_neg (Ne.symm hc), if_pos rfl, ih htext,
      List.cons_append]

theorem dropGenerics_of_not_mem (h : '<' ∉ text) : dropGenerics 0 text = text := by
  simpa using dropGenerics_append_of_not_mem [] h

/-- **No type arguments are opened** in what is left. -/
theorem not_mem_dropGenerics (depth : Nat) (text : List Char) :
    '<' ∉ dropGenerics depth text := by
  induction text generalizing depth with
  | nil => simp
  | cons c text ih =>
    rw [dropGenerics_cons]
    split_ifs with hopen hdepth hclose
    · exact ih (depth + 1)
    · rw [List.mem_cons, not_or]
      exact ⟨Ne.symm hopen, ih 0⟩
    · exact ih (depth - 1)
    · exact ih depth

/-! ## Identifiers -/

/-- What may start an identifier may go on in one. -/
theorem isIdentChar_of_startsIdent (h : startsIdent c = true) : isIdentChar c = true := by
  rw [startsIdent, Bool.or_eq_true] at h
  rw [isIdentChar, isAlphanumeric, Bool.or_eq_true, Bool.or_eq_true]
  exact h.imp_left .inl

theorem startsIdent_eq_false (h : isIdentChar c = false) : startsIdent c = false := by
  rw [← Bool.not_eq_true] at h ⊢
  exact mt isIdentChar_of_startsIdent h

/-- No identifier holds a blank. -/
theorem isIdentChar_of_isBlank (h : isBlank c = true) : isIdentChar c = false := by
  have hall : (blanks.all (!isIdentChar ·)) = true := by decide +kernel
  simpa using List.all_eq_true.1 hall c (mem_blanks_of_isBlank h)

theorem qualifies_iff : qualifies text = true ↔
    ∃ c rest, text = '.' :: c :: rest ∧ startsIdent c = true := by
  unfold qualifies
  split
  · simp
  · next hnot => simpa using fun c rest heq => absurd heq (hnot c rest)

theorem qualifies_cons (c : Char) (text : List Char) :
    qualifies (c :: text) = (c == '.' && text.head?.any startsIdent) := by
  rw [Bool.eq_iff_iff, qualifies_iff]
  cases text <;> simp

/-- Only a dot with the start of an identifier behind it qualifies what stands before. -/
theorem qualifies_append_cons (text : List Char) (hc : isIdentChar c = false)
    (hq : qualifies (c :: after) = false) : qualifies (text ++ c :: after) = qualifies text := by
  have hstart := startsIdent_eq_false hc
  rcases text with _ | ⟨d, _ | ⟨e, rest⟩⟩
  · exact hq
  · simp [qualifies_cons, hstart]
  · simp [qualifies_cons]

/-! ## Where qualifiers stand -/

/-- The name is a qualifier between the two texts: a whole identifier, with a dot between
it and the start of another one. `inside` tells that an identifier character stands before
all this. -/
structure IsQualifier (inside : Bool) (before name after : List Char) : Prop where
  opens : lastClear (!inside) before = true
  starts : ∃ c ∈ name.head?, startsIdent c = true
  ident : ∀ c ∈ name, isIdentChar c = true
  next : ∃ c ∈ after.head?, startsIdent c = true

/-- No qualifier stands in the text. -/
def IsUnqualified (inside : Bool) (text : List Char) : Prop :=
  ∀ before name after, text = before ++ name ++ '.' :: after →
    ¬ IsQualifier inside before name after

/-- A qualifier starts with the character in front of the text. -/
def opensQualifier (inside : Bool) (c : Char) (text : List Char) : Bool :=
  !inside && startsIdent c && qualifies (text.dropWhile isIdentChar)

theorem isQualifier_cons : IsQualifier inside (c :: before) name after ↔
    IsQualifier (isIdentChar c) before name after := by
  have hclear := lastClear_cons (!inside) c before
  exact ⟨fun h => ⟨hclear ▸ h.opens, h.starts, h.ident, h.next⟩,
    fun h => ⟨hclear.symm ▸ h.opens, h.starts, h.ident, h.next⟩⟩

theorem opensQualifier_iff : opensQualifier inside c text = true ↔
    ∃ name after, c :: text = name ++ '.' :: after ∧ IsQualifier inside [] name after := by
  have hdot : isIdentChar '.' = false := by decide +kernel
  simp only [opensQualifier, Bool.and_eq_true]
  constructor
  · rintro ⟨⟨hinside, hstart⟩, hq⟩
    obtain ⟨d, rest, hrest, hnext⟩ := qualifies_iff.1 hq
    refine ⟨c :: text.takeWhile isIdentChar, d :: rest, ?_, hinside, ⟨c, rfl, hstart⟩, ?_,
      ⟨d, rfl, hnext⟩⟩
    · rw [← hrest, List.cons_append, List.takeWhile_append_dropWhile]
    · exact List.forall_mem_cons.2
        ⟨isIdentChar_of_startsIdent hstart, List.all_eq_true.1 List.all_takeWhile⟩
  · rintro ⟨name, after, heq, hq⟩
    obtain ⟨e, he, hstart⟩ := hq.starts
    obtain ⟨more, rfl⟩ := List.head?_eq_some_iff.1 he
    obtain ⟨rfl, rfl⟩ : c = e ∧ text = more ++ '.' :: after := by simpa using heq
    obtain ⟨-, hmore⟩ := List.forall_mem_cons.1 hq.ident
    obtain ⟨d, hd, hnext⟩ := hq.next
    refine ⟨⟨hq.opens, hstart⟩, ?_⟩
    rw [List.dropWhile_append_of_pos hmore, List.dropWhile_cons_of_neg (by simp [hdot]),
      qualifies_cons, hd]
    simpa using hnext

theorem isUnqualified_nil (inside : Bool) : IsUnqualified inside [] := by
  intro before name after heq
  simp at heq

/-- A qualifier stands at the start of a text or further on. -/
theorem isUnqualified_cons : IsUnqualified inside (c :: text) ↔
    opensQualifier inside c text = false ∧ IsUnqualified (isIdentChar c) text := by
  rw [← Bool.not_eq_true, opensQualifier_iff]
  constructor
  · refine fun h => ⟨fun ⟨name, after, heq, hq⟩ => h [] name after heq hq, ?_⟩
    intro before name after heq hq
    exact h (c :: before) name after (by rw [heq]; rfl) (isQualifier_cons.2 hq)
  · rintro ⟨hstart, h⟩ before name after heq hq
    cases before with
    | nil => exact hstart ⟨name, after, heq, hq⟩
    | cons d before =>
      obtain ⟨rfl, rfl⟩ : c = d ∧ text = before ++ name ++ '.' :: after := by simpa using heq
      exact h before name after rfl (isQualifier_cons.1 hq)

/-- Nothing is a qualifier where no identifier starts. -/
theorem isUnqualified_of_forall (h : ∀ c ∈ text, startsIdent c = false) :
    IsUnqualified inside text := by
  rintro before name after rfl hq
  obtain ⟨c, hc, hstart⟩ := hq.starts
  rw [h c (by simp [List.mem_of_mem_head? hc])] at hstart
  cases hstart

theorem isUnqualified_of_not_mem (h : '.' ∉ text) : IsUnqualified inside text := by
  rintro before name after rfl
  exact absurd (by simp) h

/-- Across another character no qualifier reaches. -/
theorem opensQualifier_append_cons {d : Char} (text : List Char) (hd : isIdentChar d = false)
    (hq : qualifies (d :: after) = false) :
    opensQualifier inside c (text ++ d :: after) = opensQualifier inside c text := by
  rw [opensQualifier, dropWhile_append (forall_mem_head?_cons hd after),
    qualifies_append_cons _ hd hq, opensQualifier]

/-- **So a text has qualifiers** exactly if the text before such a character or the one
behind it has. -/
theorem isUnqualified_append_cons {d : Char} (hd : isIdentChar d = false)
    (hq : qualifies (d :: after) = false) : IsUnqualified inside (before ++ d :: after) ↔
      IsUnqualified inside before ∧ IsUnqualified false after := by
  induction before generalizing inside with
  | nil =>
    have hopens : opensQualifier inside d after = false := by
      simp [opensQualifier, startsIdent_eq_false hd]
    rw [List.nil_append, isUnqualified_cons, hd]
    simp [hopens, isUnqualified_nil]
  | cons c before ih =>
    rw [List.cons_append, isUnqualified_cons, opensQualifier_append_cons before hd hq, ih,
      ← and_assoc, ← isUnqualified_cons]

/-- The start of a text has no qualifiers that the text does not have. -/
theorem IsUnqualified.of_append (h : IsUnqualified inside (before ++ after)) :
    IsUnqualified inside before := by
  rintro front name rest rfl hq
  obtain ⟨c, hc, hstart⟩ := hq.next
  obtain ⟨more, rfl⟩ := List.head?_eq_some_iff.1 hc
  exact h front name (c :: more ++ after) (by simp)
    ⟨hq.opens, hq.starts, hq.ident, c, rfl, hstart⟩

/-! ## Dropping qualifiers -/

@[simp] theorem dropQualifiers_nil (inside : Bool) : dropQualifiers inside [] = [] := by
  rw [dropQualifiers]

/-- Inside an identifier nothing is dropped. -/
theorem dropQualifiers_ident (front text : List Char) (h : ∀ c ∈ front, isIdentChar c = true) :
    dropQualifiers true (front ++ text) = front ++ dropQualifiers true text := by
  induction front with
  | nil => rfl
  | cons c front ih =>
    obtain ⟨hc, hfront⟩ := List.forall_mem_cons.1 h
    rw [List.cons_append, dropQualifiers, if_neg (by simp), hc, ih hfront, List.cons_append]

/-- A character is kept unless a qualifier starts with it. -/
theorem dropQualifiers_cons (inside : Bool) (c : Char) (text : List Char) :
    dropQualifiers inside (c :: text) =
      if opensQualifier inside c text then
        dropQualifiers false ((text.dropWhile isIdentChar).drop 1)
      else c :: dropQualifiers (isIdentChar c) text := by
  rw [dropQualifiers, opensQualifier]
  cases hstart : !inside && startsIdent c with
  | false => rfl
  | true =>
    cases hq : qualifies (text.dropWhile isIdentChar) with
    | true => simp [hq]
    | false =>
      -- the identifier is kept whole
      have hident := isIdentChar_of_startsIdent (Bool.and_eq_true_iff.1 hstart).2
      have hrest := dropQualifiers_ident (text.takeWhile isIdentChar)
        (text.dropWhile isIdentChar) (List.all_eq_true.1 List.all_takeWhile)
      rw [List.takeWhile_append_dropWhile] at hrest
      simp [hq, hident, hrest]

/-- Going through a text, each step drops a qualifier or keeps a character. -/
theorem qualifier_induction {motive : Bool → List Char → Prop}
    (nil : ∀ inside, motive inside [])
    (drop : ∀ inside c text, opensQualifier inside c text = true →
      motive false ((text.dropWhile isIdentChar).drop 1) → motive inside (c :: text))
    (keep : ∀ inside c text, opensQualifier inside c text = false →
      motive (isIdentChar c) text → motive inside (c :: text)) :
    ∀ inside text, motive inside text
  | inside, [] => nil inside
  | inside, c :: text => by
    cases h : opensQualifier inside c text with
    | true => exact drop inside c text h (qualifier_induction nil drop keep _ _)
    | false => exact keep inside c text h (qualifier_induction nil drop keep _ _)
termination_by _ text => text.length
decreasing_by
  all_goals
    have := (List.dropWhile_sublist isIdentChar (l := text)).length_le
    simp only [List.length_cons, List.length_drop]
    omega

/-- What is left stands in the text in the same order. -/
theorem dropQualifiers_sublist (inside : Bool) (text : List Char) :
    (dropQualifiers inside text).Sublist text := by
  induction inside, text using qualifier_induction with
  | nil inside => simp
  | drop inside c text hopens ih =>
    rw [dropQualifiers_cons, if_pos hopens]
    exact .cons c (ih.trans ((List.drop_sublist 1 _).trans (List.dropWhile_sublist isIdentChar)))
  | keep inside c text hopens ih =>
    rw [dropQualifiers_cons, hopens]
    exact ih.cons_cons c

/-- **A text without qualifiers stays as it is.** -/
theorem dropQualifiers_of_isUnqualified (h : IsUnqualified inside text) :
    dropQualifiers inside text = text := by
  induction text generalizing inside with
  | nil => rw [dropQualifiers_nil]
  | cons c text ih =>
    obtain ⟨hopens, htext⟩ := isUnqualified_cons.1 h
    rw [dropQualifiers_cons, hopens, ih htext]
    rfl

/-- What is left starts with an identifier if the text does. -/
theorem head?_dropQualifiers (inside : Bool) (text : List Char) :
    (dropQualifiers inside text).head?.any startsIdent = text.head?.any startsIdent := by
  induction inside, text using qualifier_induction with
  | nil inside => rw [dropQualifiers_nil]
  | drop inside c text hopens ih =>
    obtain ⟨hstarts, hq⟩ := Bool.and_eq_true_iff.1 hopens
    obtain ⟨d, rest, hrest, hnext⟩ := qualifies_iff.1 hq
    rw [dropQualifiers_cons, if_pos hopens, ih, hrest]
    simp [hnext, (Bool.and_eq_true_iff.1 hstarts).2]
  | keep inside c text hopens ih => rw [dropQualifiers_cons, hopens]; rfl

/-- Behind an identifier character the same name follows in what is left. -/
theorem qualifies_dropQualifiers (text : List Char) :
    qualifies ((dropQualifiers true text).dropWhile isIdentChar) =
      qualifies (text.dropWhile isIdentChar) := by
  induction text with
  | nil => rw [dropQualifiers_nil]
  | cons c text ih =>
    have hkeep : dropQualifiers true (c :: text) = c :: dropQualifiers (isIdentChar c) text := by
      rw [dropQualifiers_cons]
      rfl
    rw [hkeep]
    cases hc : isIdentChar c with
    | true => simpa [hc] using ih
    | false => simp [hc, qualifies_cons, head?_dropQualifiers]

/-- **Dropping qualifiers makes no new ones.** -/
theorem isUnqualified_dropQualifiers (inside : Bool) (text : List Char) :
    IsUnqualified inside (dropQualifiers inside text) := by
  induction inside, text using qualifier_induction with
  | nil inside =>
    rw [dropQualifiers_nil]
    exact isUnqualified_nil inside
  | drop inside c text hopens ih =>
    -- a qualifier opens where nothing of an identifier stands before
    obtain rfl : inside = false := by simpa [opensQualifier] using (Bool.and_eq_true_iff.1
      (Bool.and_eq_true_iff.1 hopens).1).1
    rw [dropQualifiers_cons, if_pos hopens]
    exact ih
  | keep inside c text hopens ih =>
    rw [dropQualifiers_cons, hopens]
    refine isUnqualified_cons.2 ⟨?_, ih⟩
    cases hstart : startsIdent c with
    | false => simp [opensQualifier, hstart]
    | true =>
      rw [opensQualifier, isIdentChar_of_startsIdent hstart, qualifies_dropQualifiers]
      exact hopens

/-- **A space parts qualified names.** -/
theorem dropQualifiers_append_space (inside : Bool) (text more : List Char) :
    dropQualifiers inside (text ++ ' ' :: more) =
      dropQualifiers inside text ++ ' ' :: dropQualifiers false more := by
  have hspace : isIdentChar ' ' = false := by decide +kernel
  have hstart := startsIdent_eq_false hspace
  have hq : qualifies (' ' :: more) = false := rfl
  induction inside, text using qualifier_induction with
  | nil inside => simp [dropQualifiers_cons, opensQualifier, hspace, hstart]
  | drop inside c text hopens ih =>
    have hpos : 1 ≤ (text.dropWhile isIdentChar).length := by
      obtain ⟨d, behind, hlist, -⟩ := qualifies_iff.1 (Bool.and_eq_true_iff.1 hopens).2
      simp [hlist]
    rw [List.cons_append, dropQualifiers_cons, opensQualifier_append_cons _ hspace hq,
      if_pos hopens, dropQualifiers_cons, if_pos hopens, ← ih,
      dropWhile_append (forall_mem_head?_cons hspace more), List.drop_append_of_le_length hpos]
  | keep inside c text hopens ih =>
    rw [List.cons_append, dropQualifiers_cons, opensQualifier_append_cons _ hspace hq, hopens,
      dropQualifiers_cons, hopens, ih]
    rfl

/-- A text without dots has no qualifiers. -/
theorem dropQualifiers_of_not_mem (inside : Bool) (h : '.' ∉ text) :
    dropQualifiers inside text = text :=
  dropQualifiers_of_isUnqualified (isUnqualified_of_not_mem h)

end Docsmith.Diagram
