import Docsmith.Json.Printer
import Docsmith.Json.Reader
import Docsmith.Proofs.Decimal.Digits
import Docsmith.Proofs.Text.Trim
import Mathlib.Algebra.Order.Ring.Int
/-!
# JSON — strings and numbers come back

A string is read back from its text (`stringBody?_escape`), and so is every
whole number of sixty-four bits (`number?_whole`). What follows a number ends it
where it cannot belong to one, and then changes nothing of what is read
(`number?_append`).
-/


namespace Docsmith.Json

open Decimal

variable {c : Char} {n : Nat} {text rest : List Char}

/-! ## Strings -/

/-- The two digits of a control character say its number. -/
theorem hexUnit?_hexLetter (h : n < 0x20) :
    hexUnit? '0' '0' (hexLetter (n / 16)) (hexLetter (n % 16)) = some n := by
  revert n
  decide +kernel

/-- A character that stands for itself. -/
theorem stringBody?_cons (hquote : c ≠ '"') (hslash : c ≠ '\\') (hcontrol : 0x20 ≤ c.toNat)
    (text : List Char) :
    stringBody? (c :: text) = (stringBody? text).map fun (s, rest) => (c :: s, rest) := by
  rw [stringBody?.eq_def]
  split
  · next h => cases h
  · next h => exact absurd (List.cons.inj h).1 hquote
  · next h => exact absurd (List.cons.inj h).1 hslash
  · next h => exact absurd (List.cons.inj h).1 hslash
  · next h =>
    obtain ⟨rfl, rfl⟩ := List.cons.inj h
    rw [if_neg (by simp [hslash]; omega)]
    cases stringBody? text <;> rfl

/-- An escape of one letter. -/
theorem stringBody?_short {d : Char} (hu : c ≠ 'u') (h : shortEscape? c = some d)
    (text : List Char) :
    stringBody? ('\\' :: c :: text) = (stringBody? text).map fun (s, rest) => (d :: s, rest) := by
  rw [stringBody?.eq_def]
  split
  · next h => cases h
  · next h => exact absurd (List.cons.inj h).1 (by decide)
  · next heq => exact absurd (List.cons.inj (List.cons.inj heq).2).1 hu
  · next heq =>
    obtain ⟨rfl, rfl⟩ := List.cons.inj (List.cons.inj heq).2
    rw [h]
    cases stringBody? text <;> rfl
  · next hother heq =>
    obtain ⟨rfl, rfl⟩ := List.cons.inj heq
    exact (hother c text rfl rfl).elim

/-- An escape by number. -/
theorem stringBody?_code (h : n < 0x20) (text : List Char) :
    stringBody? ('\\' :: 'u' :: '0' :: '0' :: hexLetter (n / 16) :: hexLetter (n % 16) :: text) =
      (stringBody? text).map fun (s, rest) => (Char.ofNat n :: s, rest) := by
  rw [stringBody?.eq_def]
  simp only [hexUnit?_hexLetter h, Option.bind_eq_bind, Option.bind_some]
  rw [if_neg (by simp; omega), if_neg (by simp; omega)]
  cases stringBody? text <;> rfl

/-- A character is read back from the way it stands in a string. -/
theorem stringBody?_escapeChar (c : Char) (text : List Char) :
    stringBody? (escapeChar c ++ text) =
      (stringBody? text).map fun (s, rest) => (c :: s, rest) := by
  unfold escapeChar
  split_ifs with hquote hslash hn hr ht hb hf hcontrol
  · subst hquote
    exact stringBody?_short (by decide) rfl text
  · subst hslash
    exact stringBody?_short (by decide) rfl text
  · subst hn
    exact stringBody?_short (by decide) rfl text
  · subst hr
    exact stringBody?_short (by decide) rfl text
  · subst ht
    exact stringBody?_short (by decide) rfl text
  · subst hb
    exact stringBody?_short (by decide) rfl text
  · subst hf
    exact stringBody?_short (by decide) rfl text
  · have := stringBody?_code hcontrol text
    rwa [Char.ofNat_toNat] at this
  · exact stringBody?_cons hquote hslash (Nat.not_lt.1 hcontrol) text

/-- **A string is read back from its text.** -/
theorem stringBody?_escape (s rest : List Char) :
    stringBody? (s.flatMap escapeChar ++ '"' :: rest) = some (s, rest) := by
  induction s with
  | nil =>
    rw [List.flatMap_nil, List.nil_append, stringBody?.eq_def]
    rfl
  | cons c s ih =>
    rw [List.flatMap_cons, List.append_assoc, stringBody?_escapeChar, ih]
    rfl

/-! ## What ends a number -/

/-- A text that no number goes on in. -/
def EndsNumber (text : List Char) : Prop :=
  ∀ c ∈ text.head?, c.isDigit = false ∧ c ≠ '.' ∧ c ≠ 'e' ∧ c ≠ 'E' ∧ c ≠ '+' ∧ c ≠ '-'

theorem EndsNumber.isDigit (h : EndsNumber rest) : ∀ c ∈ rest.head?, c.isDigit = false :=
  fun c hc => (h c hc).1

theorem takeDigits_append (h : ∀ c ∈ rest.head?, c.isDigit = false) (text : List Char) :
    ∀ significand count, takeDigits significand count (text ++ rest) =
      ((takeDigits significand count text).1, (takeDigits significand count text).2.1,
        (takeDigits significand count text).2.2 ++ rest) := by
  induction text with
  | nil =>
    intro significand count
    cases rest with
    | nil => rfl
    | cons c rest =>
      have hc := h c rfl
      simp [takeDigits, hc]
  | cons c text ih =>
    intro significand count
    rw [List.cons_append, takeDigits, takeDigits]
    split
    · dsimp only
      split
      · exact ih _ _
      · rfl
    · rfl

/-- A reader of numbers does not look beyond what ends them. -/
def IsLocal (read : List Char → Option (Number × List Char)) : Prop :=
  ∀ text rest, EndsNumber rest →
    read (text ++ rest) = (read text).map fun (n, more) => (n, more ++ rest)

theorem exponentSign_of_ne (hplus : c ≠ '+') (hminus : c ≠ '-') (text : List Char) :
    exponentSign (c :: text) = (false, c :: text) := by
  unfold exponentSign
  split
  · next heq => exact absurd (List.cons.inj heq).1 hplus
  · next heq => exact absurd (List.cons.inj heq).1 hminus
  · rfl

theorem exponentSign_append (h : EndsNumber rest) (text : List Char) :
    exponentSign (text ++ rest) = ((exponentSign text).1, (exponentSign text).2 ++ rest) := by
  cases text with
  | nil =>
    cases rest with
    | nil => rfl
    | cons c rest =>
      obtain ⟨-, -, -, -, hplus, hminus⟩ := h c rfl
      exact exponentSign_of_ne hplus hminus rest
  | cons c text =>
    by_cases hplus : c = '+'
    · subst hplus
      rfl
    by_cases hminus : c = '-'
    · subst hminus
      rfl
    rw [List.cons_append, exponentSign_of_ne hplus hminus, exponentSign_of_ne hplus hminus]
    rfl

theorem isLocal_exponentPart? (negative : Bool) (significand : Nat) (exponent : Int) :
    IsLocal (exponentPart? negative significand exponent) := by
  intro text rest h
  simp only [exponentPart?, exponentSign_append h, Text.takeWhile_append h.isDigit,
    Text.dropWhile_append h.isDigit]
  split
  · rfl
  · simp only [Option.map_map]
    rfl

theorem scale?_of_ne (he : c ≠ 'e') (hE : c ≠ 'E') (negative : Bool) (significand : Nat)
    (exponent : Int) (text : List Char) :
    scale? negative significand exponent (c :: text) =
      (float? negative significand exponent).map fun x => (.float x, c :: text) := by
  unfold scale?
  split
  · next heq => exact absurd (List.cons.inj heq).1 he
  · next heq => exact absurd (List.cons.inj heq).1 hE
  · rfl

theorem isLocal_scale? (negative : Bool) (significand : Nat) (exponent : Int) :
    IsLocal (scale? negative significand exponent) := by
  intro text rest h
  cases text with
  | nil =>
    have hnil : scale? negative significand exponent [] =
        (float? negative significand exponent).map fun x => (.float x, []) := rfl
    rw [hnil, Option.map_map]
    cases rest with
    | nil => rfl
    | cons c rest =>
      obtain ⟨-, -, he, hE, -, -⟩ := h c rfl
      exact scale?_of_ne he hE negative significand exponent rest
  | cons c text =>
    by_cases he : c = 'e'
    · subst he
      exact isLocal_exponentPart? _ _ _ text rest h
    by_cases hE : c = 'E'
    · subst hE
      exact isLocal_exponentPart? _ _ _ text rest h
    rw [List.cons_append, scale?_of_ne he hE, scale?_of_ne he hE, Option.map_map]
    rfl

theorem fraction?_of_ne (hpoint : c ≠ '.') (negative : Bool) (significand : Nat)
    (exponent : Int) (text : List Char) :
    fraction? negative significand exponent (c :: text) =
      scale? negative significand exponent (c :: text) := by
  unfold fraction?
  split
  · next heq => exact absurd (List.cons.inj heq).1 hpoint
  · rfl

theorem isLocal_fraction? (negative : Bool) (significand : Nat) (exponent : Int) :
    IsLocal (fraction? negative significand exponent) := by
  intro text rest h
  cases text with
  | nil =>
    cases rest with
    | nil => exact isLocal_scale? negative significand exponent [] [] h
    | cons c rest =>
      rw [List.nil_append, fraction?_of_ne (h c rfl).2.1]
      exact isLocal_scale? negative significand exponent [] (c :: rest) h
  | cons c text =>
    by_cases hpoint : c = '.'
    · subst hpoint
      rcases htaken : takeDigits significand 0 text with ⟨taken, count, more⟩
      simp only [List.cons_append, fraction?, takeDigits_append h.isDigit, htaken, dropDigits,
        Text.takeWhile_append h.isDigit, Text.dropWhile_append h.isDigit]
      split
      · rfl
      · exact isLocal_scale? _ _ _ _ rest h
    · rw [List.cons_append, fraction?_of_ne hpoint, fraction?_of_ne hpoint, ← List.cons_append]
      exact isLocal_scale? negative significand exponent (c :: text) rest h

theorem isLocal_whole (negative : Bool) (n : Nat) : IsLocal (magnitude?.whole negative n) := by
  intro text rest _
  unfold magnitude?.whole
  split_ifs <;> rfl

theorem goesOn_append (h : EndsNumber rest) (text : List Char) :
    goesOn (text ++ rest) = goesOn text := by
  cases text with
  | nil =>
    cases rest with
    | nil => rfl
    | cons c rest =>
      obtain ⟨-, hpoint, he, hE, -, -⟩ := h c rfl
      simp [goesOn, hpoint, he, hE]
  | cons c text => rfl

theorem magnitude?_of_ne (hzero : c ≠ '0') (negative : Bool) (text : List Char) :
    magnitude? negative (c :: text) =
      if !c.isDigit then none
      else
        let (significand, _, more) := takeDigits 0 0 (c :: text)
        let (dropped, more) := dropDigits more
        if dropped != 0 || goesOn more then fraction? negative significand dropped more
        else magnitude?.whole negative significand more := by
  rw [magnitude?]
  exact fun heq => hzero heq

theorem isDigit_of_magnitude? {negative : Bool} {result : Number × List Char}
    (h : magnitude? negative (c :: text) = some result) : c.isDigit = true := by
  by_cases hzero : c = '0'
  · rw [hzero]
    rfl
  · rw [magnitude?_of_ne hzero] at h
    cases hdigit : c.isDigit with
    | true => rfl
    | false => simp [hdigit] at h

/-- **What ends a number changes nothing of it.** -/
theorem isLocal_magnitude? (negative : Bool) : IsLocal (magnitude? negative) := by
  intro text rest h
  cases text with
  | nil =>
    cases rest with
    | nil => rfl
    | cons c rest =>
      have hdigit := (h c rfl).1
      have hzero : c ≠ '0' := by
        rintro rfl
        cases hdigit
      rw [List.nil_append, magnitude?_of_ne hzero, hdigit]
      rfl
  | cons c text =>
    by_cases hzero : c = '0'
    · subst hzero
      have hhead : ((text ++ rest).head?.any Char.isDigit) = text.head?.any Char.isDigit := by
        cases text with
        | nil =>
          cases rest with
          | nil => rfl
          | cons c rest => simp [(h c rfl).1]
        | cons c text => rfl
      simp only [List.cons_append, magnitude?, hhead, goesOn_append h]
      split
      · rfl
      split
      · exact isLocal_fraction? _ _ _ text rest h
      · rfl
    · rw [List.cons_append, magnitude?_of_ne hzero, magnitude?_of_ne hzero, ← List.cons_append,
        takeDigits_append h.isDigit]
      rcases takeDigits 0 0 (c :: text) with ⟨taken, count, more⟩
      cases hdigit : c.isDigit with
      | false => rfl
      | true =>
        dsimp only [dropDigits]
        rw [Text.takeWhile_append h.isDigit, Text.dropWhile_append h.isDigit, goesOn_append h]
        cases hmore : (more.takeWhile Char.isDigit).length != 0 ||
            goesOn (more.dropWhile Char.isDigit) with
        | false => exact isLocal_whole negative taken _ rest h
        | true => exact isLocal_fraction? negative taken _ _ rest h

/-! ## Numbers -/

/-- A number, with its sign. -/
def number? : List Char → Option (Number × List Char)
  | '-' :: rest => magnitude? true rest
  | text => magnitude? false text

theorem number?_of_ne (h : c ≠ '-') (text : List Char) :
    number? (c :: text) = magnitude? false (c :: text) := by
  unfold number?
  split
  · next heq => exact absurd (List.cons.inj heq).1 h
  · rfl

theorem number?_append (h : EndsNumber rest) (text : List Char) :
    number? (text ++ rest) = (number? text).map fun (n, more) => (n, more ++ rest) := by
  cases text with
  | nil =>
    cases rest with
    | nil => rfl
    | cons c rest =>
      obtain ⟨-, -, -, -, -, hminus⟩ := h c rfl
      rw [List.nil_append, number?_of_ne hminus]
      exact isLocal_magnitude? false [] (c :: rest) h
  | cons c text =>
    by_cases hminus : c = '-'
    · subst hminus
      exact isLocal_magnitude? true text rest h
    · rw [List.cons_append, number?_of_ne hminus, number?_of_ne hminus, ← List.cons_append]
      exact isLocal_magnitude? false (c :: text) rest h

/-- Digits within sixty-four bits are taken whole, by induction on the
digits. -/
theorem takeDigits_valueFrom (hdigits : ∀ c ∈ text, c.isDigit = true) :
    ∀ start count, valueFrom start text ≤ maxWord →
      takeDigits start count text = (valueFrom start text, count + text.length, []) := by
  induction text with
  | nil => exact fun start count _ => rfl
  | cons c text ih =>
    obtain ⟨hc, htext⟩ := List.forall_mem_cons.1 hdigits
    intro start count hle
    have hnext := le_valueFrom text (start * 10 + (c.toNat - '0'.toNat))
    rw [valueFrom, List.foldl_cons, ← valueFrom] at hle
    rw [takeDigits, if_pos hc]
    dsimp only
    rw [if_pos (Nat.le_trans hnext hle), ih htext _ _ hle, valueFrom, valueFrom, List.foldl_cons,
      List.length_cons, Nat.add_assoc, Nat.add_comm 1]

/-- Digits within sixty-four bits are taken whole up to what ends them. -/
theorem takeDigits_upTo (hdigits : ∀ c ∈ text, c.isDigit = true)
    (hrest : ∀ c ∈ rest.head?, c.isDigit = false) (start count : Nat)
    (hle : valueFrom start text ≤ maxWord) :
    takeDigits start count (text ++ rest) = (valueFrom start text, count + text.length, rest) := by
  rw [takeDigits_append hrest, takeDigits_valueFrom hdigits start count hle]
  rfl

theorem takeDigits_digits (h : n ≤ maxWord) :
    takeDigits 0 0 (digits n) = (n, (digits n).length, []) := by
  have hvalue := value_digits n
  rw [takeDigits_valueFrom (fun c => isDigit_of_mem_digits) 0 0 (by rwa [hvalue]), hvalue,
    Nat.zero_add]

theorem magnitude?_digits (negative : Bool) (h0 : n ≠ 0) (h : n ≤ maxWord) :
    magnitude? negative (digits n) = magnitude?.whole negative n [] := by
  obtain ⟨c, text, hdigits, hc⟩ := exists_digits h0
  have hdigit : c.isDigit = true := isDigit_of_mem_digits (n := n) (by rw [hdigits]; simp)
  rw [hdigits, magnitude?_of_ne hc, ← hdigits, takeDigits_digits h, hdigit]
  rfl

/-- A whole number that fits sixty-four bits, with a sign or without one. -/
def IsWord (n : Int) : Prop :=
  -2 ^ 63 ≤ n ∧ n < 2 ^ 64

/-- **A whole number is read back from its digits.** -/
theorem number?_whole {n : Int} (h : IsWord n) : number? (signed n) = some (.whole n, []) := by
  obtain ⟨hlow, hhigh⟩ := h
  have hword : (maxWord : Int) = 2 ^ 64 - 1 := by decide +kernel
  rw [signed]
  split_ifs with hnegative
  · have hle : n.natAbs ≤ Nat.pow 2 63 := by
      have : ((Nat.pow 2 63 : Nat) : Int) = 2 ^ 63 := by decide +kernel
      omega
    have hwhole : magnitude?.whole true n.natAbs [] = some (.whole n, []) := by
      have hneg : -(n.natAbs : Int) = n := by omega
      rw [magnitude?.whole, if_neg (by decide), if_pos hle, hneg]
    exact (magnitude?_digits true (by omega) (by omega)).trans hwhole
  · by_cases hzero : n = 0
    · subst hzero
      decide +kernel
    · obtain ⟨c, text, hdigits, -⟩ := exists_digits (n := n.natAbs) (by omega)
      have hdigit : c.isDigit = true :=
        isDigit_of_mem_digits (n := n.natAbs) (by rw [hdigits]; simp)
      have hminus : c ≠ '-' := by
        rintro rfl
        cases hdigit
      have habs : (n.natAbs : Int) = n := by omega
      rw [hdigits, number?_of_ne hminus, ← hdigits, magnitude?_digits false (by omega) (by omega)]
      simp [magnitude?.whole, habs]

end Docsmith.Json
