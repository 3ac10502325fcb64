import Docsmith.Proofs.Decimal.Digits
import Docsmith.Proofs.Text.Split
import Docsmith.Proofs.Text.Trim
import Docsmith.Toml.Printer
import Docsmith.Toml.Reader
import Mathlib.Algebra.Order.Ring.Int
import Mathlib.Data.Bool.AllAny
/-!
# TOML — words come back

Truth values and whole numbers of sixty-four bits with a sign are read back from
their text (`word?_bool`, `word?_number`); so is a floating-point number whose text
its reader takes for it. None of them is taken for a date or a time.
-/


namespace Docsmith.Toml

open Decimal
open Json (Number)

variable {c d : Char} {n : Nat} {ds text rest : List Char}

/-- What stands behind a value. -/
def EndsValue (text : List Char) : Prop :=
  ∀ c ∈ text.head?, c ∈ [' ', ',', ']', '\x7d', '\n']

theorem EndsValue.not_isWordPart (h : EndsValue rest) : ∀ c ∈ rest.head?, isWordPart c = false := by
  have hall : ∀ c ∈ [' ', ',', ']', '\x7d', '\n'], isWordPart c = false :=
    List.all_iff_forall_prop.1 (by decide)
  exact fun c hc => hall c (h c hc)

/-! ## Digits -/

theorem digitValue?_of_isDigit (h : c.isDigit = true) :
    Text.digitValue? 10 c = some (c.toNat - '0'.toNat) := by
  have hlt : c.toNat - '0'.toNat < 10 := by
    obtain ⟨-, hle⟩ := Char.isDigit_iff_toNat.1 h
    have hnine : '9'.toNat = '0'.toNat + 9 := rfl
    omega
  rw [Text.digitValue?, if_pos h, Option.filter_some, if_pos (by simpa using hlt)]

theorem isDigit_of_digitValue? (h : Text.digitValue? 10 c = some n) : c.isDigit = true := by
  cases hdigit : c.isDigit with
  | true => rfl
  | false =>
    rw [Text.digitValue?, hdigit, Option.filter_eq_some_iff] at h
    obtain ⟨hvalue, hlt⟩ := h
    simp only [Bool.false_eq_true, if_false] at hvalue
    split_ifs at hvalue <;> simp at hvalue hlt <;> omega

theorem mapM_digitValue? (h : ∀ c ∈ ds, c.isDigit = true) :
    ds.mapM (Text.digitValue? 10) = some (ds.map fun c => c.toNat - '0'.toNat) := by
  induction ds with
  | nil => rfl
  | cons c ds ih =>
    obtain ⟨hc, hds⟩ := List.forall_mem_cons.1 h
    rw [List.mapM_cons, digitValue?_of_isDigit hc, ih hds]
    rfl

theorem isDigit_of_mapM {values : List Nat} (h : ds.mapM (Text.digitValue? 10) = some values) :
    ∀ c ∈ ds, c.isDigit = true := by
  induction ds generalizing values with
  | nil => simp
  | cons c ds ih =>
    rw [List.mapM_cons, Option.bind_eq_bind, Option.bind_eq_some_iff] at h
    obtain ⟨value, hvalue, h⟩ := h
    rw [Option.bind_eq_bind, Option.bind_eq_some_iff] at h
    obtain ⟨others, hothers, -⟩ := h
    exact List.forall_mem_cons.2 ⟨isDigit_of_digitValue? hvalue, ih hothers⟩

theorem numeral?_of_digits (hne : ds ≠ []) (h : ∀ c ∈ ds, c.isDigit = true) :
    Text.numeral? 10 ds = some (valueFrom 0 ds) := by
  rw [Text.numeral?, if_neg (by simpa using hne), mapM_digitValue? h, Option.map_some,
    List.foldl_map]
  rfl

theorem isDigit_of_numeral? (h : Text.numeral? 10 ds = some n) : ∀ c ∈ ds, c.isDigit = true := by
  rw [Text.numeral?] at h
  split_ifs at h
  obtain ⟨values, hvalues, -⟩ := Option.map_eq_some_iff.1 h
  exact isDigit_of_mapM hvalues

/-! ## No dates and times -/

/-- A field of a date or a time is taken from the digits. -/
theorem field?_append {count : Nat} {more : List Char}
    (hrest : ∀ c ∈ rest.head?, c.isDigit = false)
    (h : Moment.field? count (ds ++ rest) = some (n, more)) : more = ds.drop count ++ rest := by
  rw [Moment.field?] at h
  split_ifs at h with hlength
  obtain ⟨m, hm, hpair⟩ := Option.map_eq_some_iff.1 h
  obtain ⟨rfl, rfl⟩ := Prod.mk.inj hpair
  refine List.drop_append_of_le_length (Nat.not_lt.1 fun hlt => ?_)
  -- otherwise what stands behind the digits would be one
  obtain ⟨c, tail, rfl⟩ : ∃ c tail, rest = c :: tail := by
    refine List.exists_cons_of_ne_nil fun hnil => ?_
    rw [hnil, List.append_nil] at hlength
    exact hlength hlt
  have hc : c ∈ (ds ++ c :: tail).take count := by
    obtain ⟨k, rfl⟩ := Nat.exists_eq_add_of_lt hlt
    simp [List.take_append, Nat.add_assoc]
  have hdigit := isDigit_of_numeral? hm c hc
  rw [hrest c rfl] at hdigit
  cases hdigit

theorem skip?_append (hds : ∀ c ∈ ds, c.isDigit = true) (hd : d.isDigit = false)
    (hrest : ∀ c ∈ rest.head?, c ≠ d) : Moment.skip? d (ds ++ rest) = none := by
  have hne : ∀ c ∈ (ds ++ rest).head?, d ≠ c := by
    intro c hc heq
    cases ds with
    | nil => exact hrest c hc heq.symm
    | cons e ds =>
      obtain rfl : e = c := Option.some.inj hc
      rw [heq, hds e List.mem_cons_self] at hd
      cases hd
  cases htext : ds ++ rest with
  | nil => rfl
  | cons c tail =>
    rw [htext] at hne
    rw [Moment.skip?, if_neg (hne c rfl)]

/-- What stands behind digits that are no part of a date or a time. -/
def EndsDigits (rest : List Char) : Prop :=
  ∀ c ∈ rest.head?, c.isDigit = false ∧ c ≠ '-' ∧ c ≠ ':'

theorem Moment.date?_digits (hds : ∀ c ∈ ds, c.isDigit = true) (hrest : EndsDigits rest) :
    date? (ds ++ rest) = none := by
  rw [date?]
  cases hfield : field? 4 (ds ++ rest) with
  | none => rfl
  | some pair =>
    obtain ⟨year, more⟩ := pair
    obtain rfl := field?_append (fun c hc => (hrest c hc).1) hfield
    have hskip : skip? '-' (ds.drop 4 ++ rest) = none :=
      skip?_append (fun c hc => hds c (List.mem_of_mem_drop hc)) rfl fun c hc => (hrest c hc).2.1
    simp [hskip]

theorem Moment.time?_digits (hds : ∀ c ∈ ds, c.isDigit = true) (hrest : EndsDigits rest) :
    time? (ds ++ rest) = none := by
  rw [time?]
  cases hfield : field? 2 (ds ++ rest) with
  | none => rfl
  | some pair =>
    obtain ⟨hour, more⟩ := pair
    obtain rfl := field?_append (fun c hc => (hrest c hc).1) hfield
    have hskip : skip? ':' (ds.drop 2 ++ rest) = none :=
      skip?_append (fun c hc => hds c (List.mem_of_mem_drop hc)) rfl fun c hc => (hrest c hc).2.2
    simp [hskip]

/-- **Digits are no date and no time** unless a hyphen or a colon follows. -/
theorem Moment.read?_digits (hds : ∀ c ∈ ds, c.isDigit = true) (hrest : EndsDigits rest) :
    read? (ds ++ rest) = none := by
  rw [read?, dateTime?, date?_digits hds hrest, time?_digits hds hrest]
  rfl

/-- A date or a time starts with a digit. -/
theorem Moment.read?_cons (hc : c.isDigit = false) (text : List Char) :
    read? (c :: text) = none := by
  have hfield : ∀ count, field? (count + 1) (c :: text) = none := by
    intro count
    cases hread : field? (count + 1) (c :: text) with
    | none => rfl
    | some pair =>
      rw [field?] at hread
      split_ifs at hread
      obtain ⟨m, hm, -⟩ := Option.map_eq_some_iff.1 hread
      have := isDigit_of_numeral? hm c (by simp)
      rw [hc] at this
      cases this
  rw [read?, dateTime?, date?, time?, hfield 3, hfield 1]
  rfl

/-! ## Truth values -/

theorem word?_bool (b : Bool) (h : EndsValue rest) :
    word? ((if b then "true" else "false").toList ++ rest) = some (.bool b, rest) := by
  have hpart := h.not_isWordPart
  cases b with
  | true =>
    have hread : Moment.read? ("true".toList ++ rest) = none := Moment.read?_cons rfl _
    have hall : ∀ c ∈ "true".toList, isWordPart c = true := List.all_eq_true.1 (by decide)
    rw [if_pos rfl, word?, hread]
    dsimp only
    rw [Text.takeWhile_append_of_all hall hpart, Text.dropWhile_append_of_all hall hpart,
      if_pos rfl]
  | false =>
    have hread : Moment.read? ("false".toList ++ rest) = none := Moment.read?_cons rfl _
    have hall : ∀ c ∈ "false".toList, isWordPart c = true := List.all_eq_true.1 (by decide)
    rw [if_neg (by decide), word?, hread]
    dsimp only
    rw [Text.takeWhile_append_of_all hall hpart, Text.dropWhile_append_of_all hall hpart,
      if_neg (by decide), if_pos rfl]

/-! ## Numbers -/

/-- The text of a number: a sign perhaps, digits, and then nothing or what makes a
fraction. -/
structure IsNumeral (text : List Char) : Prop where
  starts : ∃ c ∈ text.head?, c = '-' ∨ c.isDigit = true
  noMoment : ∀ rest, EndsValue rest → Moment.read? (text ++ rest) = none
  parts : text.all isWordPart = true

/-- A number is read as its reader reads its text. -/
theorem word?_numeral (htext : IsNumeral text) (h : EndsValue rest) :
    word? (text ++ rest) = (Number.read? text).map fun n => (.number n, rest) := by
  have hpart := h.not_isWordPart
  have hne : ∀ d more, d ≠ '-' → d.isDigit = false → text ≠ d :: more := by
    rintro d more hminus hd rfl
    obtain ⟨c, hc, hstart⟩ := htext.starts
    obtain rfl : d = c := Option.some.inj hc
    rcases hstart with rfl | hdigit
    · exact hminus rfl
    · rw [hd] at hdigit
      cases hdigit
  have htrue : text ≠ "true".toList := hne 't' _ (by decide) rfl
  have hfalse : text ≠ "false".toList := hne 'f' _ (by decide) rfl
  rw [word?, htext.noMoment rest h]
  dsimp only
  have hall : ∀ c ∈ text, isWordPart c = true := List.all_eq_true.1 htext.parts
  rw [Text.takeWhile_append_of_all hall hpart, Text.dropWhile_append_of_all hall hpart,
    if_neg htrue, if_neg hfalse]

theorem isWordPart_of_isDigit (h : c.isDigit = true) : isWordPart c = true := by
  simp [isWordPart, Char.isAlphanum, h]

/-- A sign perhaps, digits, and perhaps a fraction or an exponent. -/
theorem isNumeral_append {sign tail : List Char} (hsign : sign = [] ∨ sign = ['-']) (hne : ds ≠ [])
    (hds : ∀ c ∈ ds, c.isDigit = true) (hhead : ∀ c ∈ tail.head?, c = '.' ∨ c = 'e')
    (htail : tail.all isWordPart = true) : IsNumeral (sign ++ (ds ++ tail)) := by
  obtain ⟨d, more, rfl⟩ := List.exists_cons_of_ne_nil hne
  have hparts : (d :: more ++ tail).all isWordPart = true := by
    rw [List.all_append, htail, Bool.and_true, List.all_eq_true]
    exact fun c hc => isWordPart_of_isDigit (hds c hc)
  rcases hsign with rfl | rfl
  · refine ⟨⟨d, rfl, .inr (hds d List.mem_cons_self)⟩, fun rest hrest => ?_, hparts⟩
    have hends : EndsDigits (tail ++ rest) := by
      cases tail with
      | nil =>
        have hall : ∀ c ∈ [' ', ',', ']', '\x7d', '\n'], c.isDigit = false ∧ c ≠ '-' ∧ c ≠ ':' :=
          List.all_iff_forall_prop.1 (by decide)
        exact fun c hc => hall c (hrest c hc)
      | cons c tail =>
        intro e he
        obtain rfl : c = e := Option.some.inj he
        rcases hhead c rfl with rfl | rfl <;> decide
    rw [List.nil_append, List.append_assoc]
    exact Moment.read?_digits hds hends
  · exact ⟨⟨'-', rfl, .inl rfl⟩, fun rest _ => Moment.read?_cons rfl _, hparts⟩

theorem isNumeral_signed (n : Int) : IsNumeral (signed n) := by
  have h : ∀ sign, sign = [] ∨ sign = ['-'] → IsNumeral (sign ++ (digits n.natAbs ++ [])) :=
    fun sign hsign => isNumeral_append hsign (digits_ne_nil _) (fun c => isDigit_of_mem_digits)
      (by simp) rfl
  rw [List.append_nil] at h
  rw [signed]
  split_ifs
  · exact h ['-'] (.inr rfl)
  · exact h [] (.inl rfl)

theorem isWordPart_of_mem_signed {n : Int} (hc : c ∈ signed n) : isWordPart c = true :=
  List.all_eq_true.1 (isNumeral_signed n).parts c hc

/-- A finite number is written with a point or an exponent behind its first
digits. -/
theorem isNumeral_write {layout : Layout} (hpoint : layout.pointZero = true) (negative : Bool)
    (point : Grid) : IsNumeral (layout.write negative point) := by
  have hdigits : ∀ c ∈ digits point.digits, c.isDigit = true := fun c => isDigit_of_mem_digits
  have hparts : ∀ c ∈ digits point.digits, isWordPart c = true :=
    fun c hc => isWordPart_of_isDigit (hdigits c hc)
  obtain ⟨sign, hwritten, hsign⟩ : ∃ sign : List Char,
      (if negative then ['-'] else []) = sign ∧ (sign = [] ∨ sign = ['-']) := by
    cases negative
    · exact ⟨_, rfl, .inl rfl⟩
    · exact ⟨_, rfl, .inr rfl⟩
  rw [Layout.write, hwritten, hpoint]
  dsimp only
  rw [if_pos rfl]
  split
  · have hzero : ∀ c ∈ ['0'], c.isDigit = true := List.forall_mem_singleton.2 rfl
    exact isNumeral_append hsign (by decide) hzero (by simp) rfl
  split
  · rw [List.append_assoc, List.append_assoc, ← List.append_assoc (digits _)]
    refine isNumeral_append hsign (by simp [digits_ne_nil]) ?_ (by simp) rfl
    exact fun c hc => (List.mem_append.1 hc).elim (hdigits c) isDigit_of_mem_zeros
  split
  · next hplace =>
    rw [List.append_assoc]
    refine isNumeral_append hsign ?_ (fun c hc => hdigits c (List.mem_of_mem_take hc)) (by simp) ?_
    · have hlength := List.length_pos_iff.2 (digits_ne_nil point.digits)
      simp only [Bool.and_eq_true, decide_eq_true_eq] at hplace
      rw [← List.length_pos_iff, List.length_take]
      omega
    · exact List.all_eq_true.2 <| List.forall_mem_cons.2
        ⟨rfl, fun c hc => hparts c (List.mem_of_mem_drop hc)⟩
  split
  · have hzero : ∀ c ∈ ['0'], c.isDigit = true := List.forall_mem_singleton.2 rfl
    rw [List.append_assoc, List.append_assoc]
    change IsNumeral (sign ++ (['0'] ++ '.' :: (List.replicate _ '0' ++ digits _)))
    refine isNumeral_append hsign (by decide) hzero (by simp) ?_
    refine List.all_eq_true.2 <| List.forall_mem_cons.2 ⟨rfl, fun c hc => ?_⟩
    exact (List.mem_append.1 hc).elim (fun hc => isWordPart_of_isDigit (isDigit_of_mem_zeros hc))
      (hparts c)
  · obtain ⟨d, more, hmore⟩ := List.exists_cons_of_ne_nil (digits_ne_nil point.digits)
    rw [hmore] at hdigits hparts ⊢
    have hd : ∀ c ∈ [d], c.isDigit = true := by simpa using hdigits d List.mem_cons_self
    have hexponent : ∀ n, ('e' :: signed n).all isWordPart = true := fun n =>
      List.all_eq_true.2 <| List.forall_mem_cons.2 ⟨rfl, fun c => isWordPart_of_mem_signed⟩
    rw [List.append_assoc]
    cases more with
    | nil => exact isNumeral_append hsign (by simp) hd (by simp) (hexponent _)
    | cons e more =>
      change IsNumeral (sign ++ ([d] ++ '.' :: (e :: more ++ 'e' :: signed _)))
      refine isNumeral_append hsign (by simp) hd (by simp) ?_
      refine List.all_eq_true.2 <| List.forall_mem_cons.2 ⟨rfl, fun c hc => ?_⟩
      rcases List.mem_append.1 hc with hc | hc
      · exact hparts c (List.mem_cons_of_mem d hc)
      · exact List.all_eq_true.1 (hexponent _) c hc

/-- **A finite number is a numeral.** -/
theorem isNumeral_floatText {x : Binary} (h : x.isFinite = true) (format : Format) :
    IsNumeral (floatText format x) := by
  cases x with
  | finite negative m e => exact isNumeral_write rfl negative _
  | infinite negative => cases h
  | nan => cases h

/-! ## Whole numbers -/

theorem Number.digits?_digits (n : Nat) : Number.digits? 10 (digits n) = some (digits n) := by
  have hnot : '_' ∉ digits n := fun h => by
    have := isDigit_of_mem_digits h
    cases this
  have hall : ∀ c ∈ digits n, (Text.digitValue? 10 c).isSome = true := fun c hc => by
    rw [digitValue?_of_isDigit (isDigit_of_mem_digits hc)]
    rfl
  simp only [Number.digits?, Text.splitChar_of_not_mem hnot]
  rw [if_pos]
  · simp
  · simpa [digits_ne_nil] using hall

/-- The digits of a number have no zero before others. -/
theorem Number.wholeDigits?_digits (n : Nat) :
    Number.wholeDigits? (digits n) = some (digits n) := by
  rw [Number.wholeDigits?, Number.digits?_digits, Option.filter_some]
  by_cases hzero : n = 0
  · rw [hzero]
    rfl
  · obtain ⟨c, more, hdigits, hc⟩ := exists_digits hzero
    rw [hdigits, if_pos]
    split
    · next heq => exact absurd (List.cons.inj heq).1 hc
    · rfl

theorem Number.splitSign_digits (n : Nat) : Number.splitSign (digits n) = (false, digits n) := by
  have hnot : ∀ c, c.isDigit = false → ∀ more, digits n ≠ c :: more := by
    intro c hc more heq
    have := isDigit_of_mem_digits (n := n) (c := c) (heq ▸ List.mem_cons_self)
    rw [hc] at this
    cases this
  unfold Number.splitSign
  split
  · next heq => exact absurd heq (hnot '+' rfl _)
  · next heq => exact absurd heq (hnot '-' rfl _)
  · rfl

/-- Digits with a sign perhaps are no number in another base. -/
theorem Number.whole?_digits {negative : Bool} (htext : ∀ c ∈ text, c = '-' ∨ c.isDigit = true)
    (hsign : Number.splitSign text = (negative, digits n)) :
    Number.whole? text = Number.bounded? (if negative then -n else n) := by
  have hnot : ∀ c, c ≠ '-' → c.isDigit = false → ∀ first more, text ≠ first :: c :: more := by
    rintro c hminus hdigit first more rfl
    rcases htext c (by simp) with rfl | hc
    · exact hminus rfl
    · rw [hdigit] at hc
      cases hc
  have hnumeral : Text.numeral? 10 (digits n) = some n := by
    rw [numeral?_of_digits (digits_ne_nil _) fun c => isDigit_of_mem_digits, value_digits]
  rw [Number.whole?, hsign]
  · dsimp only
    rw [Number.wholeDigits?_digits, Option.bind_some, hnumeral, Option.bind_some]
  · exact hnot 'x' (by decide) rfl '0'
  · exact hnot 'o' (by decide) rfl '0'
  · exact hnot 'b' (by decide) rfl '0'

/-- A whole number that fits sixty-four bits with a sign. -/
def IsInteger (n : Int) : Prop :=
  -2 ^ 63 ≤ n ∧ n < 2 ^ 63

theorem Number.bounded?_of_isInteger {n : Int} (h : IsInteger n) :
    Number.bounded? n = some (.whole n) := by
  have hpow : Int.pow 2 63 = 2 ^ 63 := by decide +kernel
  rw [Number.bounded?, hpow, if_pos]
  rw [Bool.and_eq_true, decide_eq_true_eq, decide_eq_true_eq]
  exact h

theorem Number.whole?_signed {n : Int} (h : IsInteger n) :
    Number.whole? (signed n) = some (.whole n) := by
  rw [signed]
  split_ifs with hnegative
  · have hchars : ∀ c ∈ '-' :: digits n.natAbs, c = '-' ∨ c.isDigit = true :=
      List.forall_mem_cons.2 ⟨.inl rfl, fun c hc => .inr (isDigit_of_mem_digits hc)⟩
    have hvalue : -(n.natAbs : Int) = n := by omega
    rw [Number.whole?_digits hchars rfl, if_pos rfl, hvalue, Number.bounded?_of_isInteger h]
  · have hchars : ∀ c ∈ digits n.natAbs, c = '-' ∨ c.isDigit = true :=
      fun c hc => .inr (isDigit_of_mem_digits hc)
    have hvalue : (n.natAbs : Int) = n := by omega
    rw [Number.whole?_digits hchars (Number.splitSign_digits _), if_neg (by decide), hvalue,
      Number.bounded?_of_isInteger h]

/-- **A whole number is read back from its digits.** -/
theorem Number.read?_signed {n : Int} (h : IsInteger n) :
    Number.read? (signed n) = some (.whole n) := by
  rw [Number.read?, Number.whole?_signed h, Option.some_or]

/-- A whole number, or one with a fraction that is finite, is a numeral. -/
theorem isNumeral_numberText {number : Number} (h : ∀ x, number = .float x → x.isFinite = true)
    (hsingle : ∀ x, number = .single x → x.isFinite = true) : IsNumeral (numberText number) := by
  cases number with
  | whole n => exact isNumeral_signed n
  | float x => exact isNumeral_floatText (h x rfl) .double
  | single x => exact isNumeral_floatText (hsingle x rfl) .single

end Docsmith.Toml
