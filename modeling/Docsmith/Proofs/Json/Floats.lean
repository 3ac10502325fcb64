import Docsmith.Proofs.Decimal.Shortest
import Docsmith.Proofs.Json.RoundTrip
import Mathlib.Data.List.TakeWhile
/-!
# JSON — floating-point numbers are read again

A number with a fraction or an exponent is read by rounding its significand, its power of ten
and then their product, which may overflow. What is written of a finite number is near it, and
small enough for the product to be finite (`exists_float?_of_isSafe`), but for the two greatest
numbers, which are tried. So every finite number is read from its text
(`exists_number?_write`), though perhaps as one of its neighbours, and every value from its own
(`WellFormed.parse?_eq`).
-/


namespace Docsmith.Json

open Decimal

variable {c : Char} {n significand : Nat} {exponent : Int} {text rest : List Char}

/-! ## Significand and exponent -/

theorem exists_float?_of_neg (negative : Bool) (significand : Nat) (h : exponent < 0) :
    ∃ x, float? negative significand exponent = some x := by
  unfold float?
  dsimp only
  split_ifs
  · exact ⟨_, rfl⟩
  · cases exponent with
    | ofNat k => exact absurd h (Int.not_lt.2 (Int.natCast_nonneg k))
    | negSucc k => exact ⟨_, rfl⟩

/-- A number stays finite when two factors of it are rounded and then their product. -/
def IsSafe (v : ℚ) : Prop :=
  v * (1 + 1 / 2 ^ 53) ^ 2 < (2 ^ 54 - 1) * 2 ^ 970

theorem IsSafe.of_le {v w : ℚ} (h : IsSafe w) (hle : v ≤ w) : IsSafe v :=
  lt_of_le_of_lt (mul_le_mul_of_nonneg_right hle (by positivity)) h

theorem IsSafe.lt {v : ℚ} (h : IsSafe v) (hv : 0 ≤ v) : v < (2 ^ 54 - 1) * 2 ^ 970 :=
  lt_of_le_of_lt (le_mul_of_one_le_right hv (by norm_num)) h

/-- What is safe is no power of ten beyond those that are kept. -/
theorem le_of_isSafe {k : Nat} (h : IsSafe (10 ^ k)) : k ≤ 308 := by
  by_contra hlt
  have hfar : (2 : ℚ) ^ 54 * 2 ^ 970 < 10 ^ 309 := by
    have hnat : 2 ^ 54 * 2 ^ 970 < 10 ^ 309 := by decide +kernel
    exact_mod_cast hnat
  have hpower : (10 : ℚ) ^ 309 ≤ 10 ^ k := pow_le_pow_right₀ (by norm_num) (by omega)
  have hbelow := h.lt (by positivity)
  have hgap : (0 : ℚ) < 2 ^ 970 := by positivity
  generalize (2 : ℚ) ^ 970 = gap at *
  generalize (10 : ℚ) ^ 309 = last at *
  linarith

/-- A whole number that is safe is rounded to a finite number that is hardly greater. -/
theorem exists_round (negative : Bool) (hn : n ≠ 0) (h : IsSafe n) :
    ∃ (m : Nat) (e : Int), Format.double.round negative n 1 = .finite negative m e ∧
      (m : ℚ) * 2 ^ e ≤ n * (1 + 1 / 2 ^ 53) := by
  have hone : (1 : ℚ) ≤ n := by exact_mod_cast Nat.one_le_iff_ne_zero.2 hn
  have hquotient : (n : ℚ) / (1 : Nat) = n := by rw [Nat.cast_one, div_one]
  have hlt : (n : ℚ) / (1 : Nat) < (2 ^ 54 - 1) * 2 ^ 970 := by
    rw [hquotient]
    exact h.lt (by positivity)
  obtain ⟨m, e, hround, hle⟩ := round_of_lt negative Nat.one_pos hlt
  rw [hquotient] at hle
  exact ⟨m, e, hround, hle hone⟩

/-- The product of two rounded factors is finite where the product of the factors is safe. -/
theorem exists_times (s t : Bool) {a b : ℚ} {m n : Nat} {e f : Int}
    (hm : (m : ℚ) * 2 ^ e ≤ a * (1 + 1 / 2 ^ 53)) (hn : (n : ℚ) * 2 ^ f ≤ b * (1 + 1 / 2 ^ 53))
    (ha : 0 ≤ a) (h : IsSafe (a * b)) :
    ∃ (p : Nat) (g : Int), (Binary.finite s m e).times .double (.finite t n f) =
      .finite (s != t) p g := by
  have hproduct := fraction_scaleByTwo (e + f) (m * n) 1
  have hden := scaleByTwo_pos (e + f) (m * n) Nat.one_pos
  rw [Nat.cast_one, div_one, fraction, zpow_add₀ two_ne_zero] at hproduct
  have hlt : ((scaleByTwo (e + f) (m * n) 1).1 : ℚ) / (scaleByTwo (e + f) (m * n) 1).2 <
      (2 ^ 54 - 1) * 2 ^ 970 := by
    rw [hproduct]
    push_cast
    calc (m : ℚ) * n * (2 ^ e * 2 ^ f) = m * 2 ^ e * (n * 2 ^ f) := by ring
      _ ≤ a * (1 + 1 / 2 ^ 53) * (b * (1 + 1 / 2 ^ 53)) :=
        mul_le_mul hm hn (by positivity) (by positivity)
      _ = a * b * (1 + 1 / 2 ^ 53) ^ 2 := by ring
      _ < (2 ^ 54 - 1) * 2 ^ 970 := h
  obtain ⟨p, g, hround, -⟩ := round_of_lt (s != t) hden hlt
  exact ⟨p, g, hround⟩

/-- **A number that is safe is read**, with its significand and its power of ten rounded and
their product rounded again. -/
theorem exists_float?_of_isSafe (negative : Bool) (h : IsSafe (significand * 10 ^ exponent)) :
    ∃ x, float? negative significand exponent = some x := by
  rcases lt_or_ge exponent 0 with hneg | hpos
  · exact exists_float?_of_neg negative significand hneg
  obtain ⟨k, rfl⟩ := Int.eq_ofNat_of_zero_le hpos
  unfold float?
  dsimp only
  by_cases hzero : significand = 0
  · rw [if_pos hzero]
    exact ⟨_, rfl⟩
  rw [zpow_natCast] at h
  have hone : (1 : ℚ) ≤ significand := by exact_mod_cast Nat.one_le_iff_ne_zero.2 hzero
  have hten : (1 : ℚ) ≤ 10 ^ k := one_le_pow₀ (by norm_num)
  have hpower : IsSafe (10 ^ k) := h.of_le (le_mul_of_one_le_left (by positivity) hone)
  have hcast : ((Nat.pow 10 k : Nat) : ℚ) = 10 ^ k := by
    rw [Nat.pow_eq]
    push_cast
    rfl
  obtain ⟨m, e, hm, hmle⟩ := exists_round negative hzero
    (h.of_le (le_mul_of_one_le_right (by positivity) hten))
  obtain ⟨t, f, ht, htle⟩ := exists_round (n := Nat.pow 10 k) false (Nat.pow_pos (by decide)).ne'
    (by rwa [hcast])
  rw [hcast] at htle
  obtain ⟨p, g, hproduct⟩ := exists_times negative false hmle htle (by positivity) h
  rw [if_neg hzero, if_neg (Nat.not_lt.2 (le_of_isSafe hpower)), hm, powerOfTen, ht, hproduct]
  exact ⟨_, rfl⟩

/-! ## Exponents -/

/-- Digits say the same with and without signs. -/
theorem foldl_eq_valueFrom (hdigits : ∀ c ∈ text, c.isDigit = true) : ∀ start : Nat,
    text.foldl (fun (n : Int) c => n * 10 + ((c.toNat : Int) - ('0'.toNat : Int))) start =
      valueFrom start text := by
  induction text with
  | nil => exact fun start => rfl
  | cons c text ih =>
    obtain ⟨hc, htext⟩ := List.forall_mem_cons.1 hdigits
    intro start
    have hdigit : (start : Int) * 10 + ((c.toNat : Int) - ('0'.toNat : Int)) =
        (start * 10 + (c.toNat - '0'.toNat) : Nat) := by
      have := toNat_of_isDigit hc
      omega
    rw [List.foldl_cons, hdigit, ih htext, valueFrom, valueFrom, List.foldl_cons]

/-- An exponent is read back from its digits. -/
theorem exponentPart?_signed (negative : Bool) (significand : Nat) (exponent k : Int) :
    exponentPart? negative significand exponent (signed k) =
      (float? negative significand (exponent + k)).map fun x => (.float x, []) := by
  have hall : ∀ c ∈ digits k.natAbs, c.isDigit = true := fun c => isDigit_of_mem_digits
  have htake : (digits k.natAbs).takeWhile Char.isDigit = digits k.natAbs :=
    List.takeWhile_eq_self_iff.2 hall
  have hdrop : (digits k.natAbs).dropWhile Char.isDigit = [] := List.dropWhile_eq_nil_iff.2 hall
  have hvalue := foldl_eq_valueFrom hall 0
  rw [value_digits, Nat.cast_zero] at hvalue
  have hne : (digits k.natAbs).isEmpty = false := by
    rw [List.isEmpty_eq_false_iff]
    exact digits_ne_nil _
  rw [signed]
  split_ifs with hnegative
  · have hk : exponent - (k.natAbs : Int) = exponent + k := by omega
    have hsign : exponentSign ('-' :: digits k.natAbs) = (true, digits k.natAbs) := rfl
    simp only [exponentPart?, hsign, htake, hdrop, hvalue, hne, if_true, hk]
    rfl
  · have hk : exponent + (k.natAbs : Int) = exponent + k := by omega
    have hsign : exponentSign (digits k.natAbs) = (false, digits k.natAbs) := by
      obtain ⟨c, more, htext⟩ := List.exists_cons_of_ne_nil (digits_ne_nil k.natAbs)
      have hc : c.isDigit = true := hall c (by rw [htext]; exact List.mem_cons_self)
      rw [htext]
      refine exponentSign_of_ne ?_ ?_ more <;> rintro rfl <;> cases hc
    simp only [exponentPart?, hsign, htake, hdrop, hvalue, hne, hk]
    rfl

/-! ## Fractions -/

theorem takeDigits_spec (text : List Char) : ∀ significand count,
    count ≤ (takeDigits significand count text).2.1 ∧
      (takeDigits significand count text).2.2 <:+ text := by
  induction text with
  | nil => exact fun significand count => ⟨Nat.le_refl _, List.suffix_refl _⟩
  | cons c text ih =>
    intro significand count
    rw [takeDigits]
    split_ifs
    · dsimp only
      split_ifs
      · obtain ⟨hcount, hrest⟩ :=
          ih (significand * 10 + (c.toNat - '0'.toNat)) (count + 1)
        exact ⟨Nat.le_of_succ_le hcount, hrest.trans (List.suffix_cons c text)⟩
      · exact ⟨Nat.le_refl _, List.suffix_refl _⟩
    · exact ⟨Nat.le_refl _, List.suffix_refl _⟩

/-- A digit behind the point makes the power of ten negative, so that every such number is
read; the digits that no significand holds are dropped. -/
theorem exists_fraction?_point (negative : Bool) (hsignificand : significand * 10 + 9 ≤ maxWord)
    (hne : text ≠ []) (hdigits : ∀ c ∈ text, c.isDigit = true) :
    ∃ n, fraction? negative significand 0 ('.' :: text) = some (n, []) := by
  obtain ⟨c, more, rfl⟩ := List.exists_cons_of_ne_nil hne
  obtain ⟨hc, hmore⟩ := List.forall_mem_cons.1 hdigits
  have hnine := toNat_of_isDigit hc
  have hfirst : takeDigits significand 0 (c :: more) =
      takeDigits (significand * 10 + (c.toNat - '0'.toNat)) 1 more := by
    rw [takeDigits, if_pos hc]
    dsimp only
    rw [if_pos (by omega)]
  obtain ⟨hcount, hrest⟩ := takeDigits_spec more (significand * 10 + (c.toNat - '0'.toNat)) 1
  rw [fraction?]
  dsimp only
  rw [hfirst]
  generalize takeDigits (significand * 10 + (c.toNat - '0'.toNat)) 1 more = taken at *
  obtain ⟨s, count, left⟩ := taken
  dsimp only at hcount hrest ⊢
  have hdrop : left.dropWhile Char.isDigit = [] :=
    List.dropWhile_eq_nil_iff.2 fun d hd => hmore d (hrest.subset hd)
  have hneg : 0 - (count : Int) < 0 := by omega
  obtain ⟨x, hx⟩ := exists_float?_of_neg negative s hneg
  rw [dropDigits]
  dsimp only
  have hend : scale? negative s (0 - (count : Int)) [] =
      (float? negative s (0 - (count : Int))).map fun x => (.float x, []) := rfl
  rw [if_neg (by omega), hdrop, hend, hx]
  exact ⟨_, rfl⟩

/-! ## Layouts -/

/-- A number with a point is read if sixteen digits at most stand before the point. -/
theorem exists_magnitude?_point (negative : Bool) {whole : List Char} (hzero : c ≠ '0')
    (hwhole : ∀ d ∈ c :: whole, d.isDigit = true) (hlength : (c :: whole).length ≤ 16)
    (hne : text ≠ []) (hdigits : ∀ d ∈ text, d.isDigit = true) :
    ∃ n, magnitude? negative (c :: whole ++ '.' :: text) = some (n, []) := by
  have hlt := valueFrom_lt hwhole 0
  have hpower : 10 ^ (c :: whole).length ≤ 10 ^ 16 := Nat.pow_le_pow_right (by decide) hlength
  have hword : valueFrom 0 (c :: whole) * 10 + 9 ≤ maxWord := by
    have : maxWord = 18446744073709551615 := by decide +kernel
    omega
  have htaken : takeDigits 0 0 (c :: whole ++ '.' :: text) =
      (valueFrom 0 (c :: whole), (c :: whole).length, '.' :: text) := by
    have hpoint : ∀ d ∈ ('.' :: text).head?, d.isDigit = false := by
      rintro d ⟨⟩
      rfl
    rw [takeDigits_upTo hwhole hpoint 0 0 (by omega), Nat.zero_add]
  rw [List.cons_append] at htaken ⊢
  rw [magnitude?_of_ne hzero, htaken, (List.forall_mem_cons.1 hwhole).1]
  exact exists_fraction?_point negative hword hne hdigits

theorem exists_magnitude?_zero (negative : Bool) (hne : text ≠ [])
    (hdigits : ∀ d ∈ text, d.isDigit = true) :
    ∃ n, magnitude? negative ('0' :: '.' :: text) = some (n, []) :=
  exists_fraction?_point negative (by decide +kernel) hne hdigits

/-- The digits of a number in scientific form: a point behind the first one. -/
def pointed : List Char → List Char
  | [d] => [d]
  | d :: more => d :: '.' :: more
  | [] => []

/-- A number in scientific form is read by its digits and its exponent. -/
theorem magnitude?_pointed (negative : Bool) (hn : n ≠ 0) (hword : n ≤ maxWord) (k : Int) :
    magnitude? negative (pointed (digits n) ++ 'e' :: signed k) =
      (float? negative n (k - ((digits n).length - 1))).map fun x => (.float x, []) := by
  have hall : ∀ c ∈ digits n, c.isDigit = true := fun c => isDigit_of_mem_digits
  have hvalue := value_digits n
  have hletter : ∀ d ∈ ('e' :: signed k).head?, d.isDigit = false := by
    rintro d ⟨⟩
    rfl
  obtain ⟨c, more, htext, hc⟩ := exists_digits hn
  rw [htext] at hall hvalue ⊢
  obtain ⟨hdigit, hmore⟩ := List.forall_mem_cons.1 hall
  cases more with
  | nil =>
    have htaken : takeDigits 0 0 (c :: 'e' :: signed k) = (n, 1, 'e' :: signed k) := by
      have htake := takeDigits_upTo hall hletter 0 0 (by rwa [hvalue])
      rwa [hvalue] at htake
    have hexponent := exponentPart?_signed negative n 0 k
    have hzero : (0 : Int) + k = k - (([c].length : Int) - 1) := by simp
    rw [hzero] at hexponent
    rw [pointed, List.singleton_append, magnitude?_of_ne hc, htaken, hdigit]
    exact hexponent
  | cons d more =>
    have hsplit : valueFrom 0 (c :: d :: more) = valueFrom (valueFrom 0 [c]) (d :: more) := rfl
    have hone : valueFrom 0 [c] ≤ maxWord := by
      have := le_valueFrom (d :: more) (valueFrom 0 [c])
      omega
    have hfirst : takeDigits 0 0 (c :: '.' :: (d :: more ++ 'e' :: signed k)) =
        (valueFrom 0 [c], 1, '.' :: (d :: more ++ 'e' :: signed k)) := by
      have hpoint : ∀ e ∈ ('.' :: (d :: more ++ 'e' :: signed k)).head?, e.isDigit = false := by
        rintro e ⟨⟩
        rfl
      exact takeDigits_upTo (List.forall_mem_singleton.2 hdigit) hpoint 0 0 hone
    have hothers : takeDigits (valueFrom 0 [c]) 0 (d :: more ++ 'e' :: signed k) =
        (n, (d :: more).length, 'e' :: signed k) := by
      rw [takeDigits_upTo hmore hletter _ 0 (by omega), ← hsplit, hvalue, Nat.zero_add]
    have hexponent := exponentPart?_signed negative n (0 - ((d :: more).length : Int)) k
    have hplaces : 0 - ((d :: more).length : Int) + k = k - (((c :: d :: more).length : Int) - 1) := by
      rw [List.length_cons (a := c)]
      omega
    have hfraction : fraction? negative (valueFrom 0 [c]) 0 ('.' :: (d :: more ++ 'e' :: signed k)) =
        exponentPart? negative n (0 - ((d :: more).length : Int)) (signed k) := by
      rw [fraction?]
      dsimp only
      rw [hothers]
      rfl
    rw [hplaces] at hexponent
    rw [pointed, List.cons_append, List.cons_append, magnitude?_of_ne hc, hfirst, hdigit,
      ← hexponent, ← hfraction]
    · rfl
    · rintro ⟨⟩

theorem write_true (layout : Layout) (g : Grid) :
    layout.write true g = '-' :: layout.write false g := by
  unfold Layout.write
  simp only [if_true, Bool.false_eq_true, if_false]
  split_ifs <;> rfl

/-- A decimal is read from each of its layouts if its digits fit into a word and its value is
safe, by the cases of a layout. -/
theorem exists_magnitude?_write {layout : Layout} (hpoint : layout.pointZero = true)
    (hhigh : layout.high ≤ 16) (negative : Bool) {g : Grid}
    (h : g.digits ≠ 0 → g.digits ≤ maxWord ∧ IsSafe g.value) :
    ∃ n, magnitude? negative (layout.write false g) = some (n, []) := by
  unfold Layout.write
  simp only [Bool.false_eq_true, if_false, hpoint, if_true, List.nil_append]
  by_cases hzero : g.digits = 0
  · rw [if_pos hzero]
    exact exists_magnitude?_zero negative (List.cons_ne_nil _ _) (List.forall_mem_singleton.2 rfl)
  rw [if_neg hzero]
  have hall : ∀ c ∈ digits g.digits, c.isDigit = true := fun c => isDigit_of_mem_digits
  obtain ⟨c, more, htext, hc⟩ := exists_digits hzero
  have hscientific := magnitude?_pointed negative hzero (h hzero).1
  split_ifs with hwhole hpointed hbelow
  · -- A whole number: its digits, zeros and `.0`.
    simp only [Bool.and_eq_true, decide_eq_true_iff] at hwhole
    rw [htext] at hall hwhole ⊢
    rw [List.cons_append]
    refine exists_magnitude?_point negative hc ?_ ?_ (List.cons_ne_nil _ _)
      (List.forall_mem_singleton.2 rfl)
    · intro d hd
      rw [← List.cons_append] at hd
      rcases List.mem_append.1 hd with hd | hd
      · exact hall d hd
      · exact isDigit_of_mem_zeros hd
    · rw [← List.cons_append, List.length_append, List.length_replicate]
      omega
  · -- A point between the digits.
    simp only [Bool.and_eq_true, decide_eq_true_iff, not_and] at hwhole hpointed
    rw [htext] at hall hwhole hpointed ⊢
    obtain ⟨k, hk⟩ : ∃ k, (((c :: more).length : Int) + g.exponent).toNat = k + 1 :=
      ⟨_, (Nat.succ_pred_eq_of_pos (by omega)).symm⟩
    rw [hk, List.take_succ_cons, List.drop_succ_cons]
    refine exists_magnitude?_point negative hc ?_ ?_ ?_ ?_
    · intro d hd
      exact hall d (List.mem_of_mem_take (i := k + 1) hd)
    · rw [List.length_cons, List.length_take]
      omega
    · rw [Ne, List.drop_eq_nil_iff]
      rw [List.length_cons] at hk hwhole hpointed
      omega
    · intro d hd
      exact hall d (List.mem_cons_of_mem c (List.mem_of_mem_drop hd))
  · -- Zeros behind the point.
    refine exists_magnitude?_zero negative ?_ ?_
    · rw [htext]
      exact List.append_ne_nil_of_right_ne_nil _ (List.cons_ne_nil c more)
    · intro d hd
      rcases List.mem_append.1 hd with hd | hd
      · exact isDigit_of_mem_zeros hd
      · exact hall d hd
  · -- Scientific form.
    obtain ⟨x, hx⟩ := exists_float?_of_isSafe negative (h hzero).2
    have hform := hscientific (((digits g.digits).length : Int) + g.exponent - 1)
    have hexponent : ((digits g.digits).length : Int) + g.exponent - 1 -
        ((digits g.digits).length - 1) = g.exponent := by omega
    rw [hexponent, hx] at hform
    exact ⟨_, hform⟩

theorem exists_number?_layout {layout : Layout} (hpoint : layout.pointZero = true)
    (hhigh : layout.high ≤ 16) (negative : Bool) {g : Grid}
    (h : g.digits ≠ 0 → g.digits ≤ maxWord ∧ IsSafe g.value) :
    ∃ n, number? (layout.write negative g) = some (n, []) := by
  obtain ⟨n, hn⟩ := exists_magnitude?_write hpoint hhigh negative h
  cases negative with
  | true =>
    rw [write_true]
    exact ⟨n, hn⟩
  | false =>
    cases htext : layout.write false g with
    | nil =>
      rw [htext] at hn
      cases hn
    | cons c more =>
      rw [htext] at hn
      have hminus : c ≠ '-' := by
        rintro rfl
        cases isDigit_of_magnitude? hn
      exact ⟨n, by rw [number?_of_ne hminus, hn]⟩

/-! ## Numbers of a format -/

/-- **A number of a format is read from its shortest decimal** if it is safe together with half
of the greatest spacing. -/
theorem exists_number?_shortest {format : Format} {layout : Layout} {m : Nat} {e : Int}
    (hpoint : layout.pointZero = true) (hhigh : layout.high ≤ 16)
    (hprecision : format.precision ≤ 53) (hleast : format.least ≤ format.greatest)
    (negative : Bool) (hbits : m < 2 ^ format.precision) (he : e ≤ format.greatest)
    (h : IsSafe (m * 2 ^ e + 2 ^ (format.greatest - 1))) :
    ∃ n, number? (floatText format layout (.ofParts negative m e)) = some (n, []) := by
  obtain ⟨n, f, hparts, hvalue, hle⟩ := exists_ofParts negative m e
  rw [hparts]
  refine exists_number?_layout hpoint hhigh negative fun hdigits => ?_
  have hn : n ≠ 0 := by
    rintro rfl
    exact hdigits (by rw [shortest, if_pos rfl])
  have hbelow : (n : ℚ) * 2 ^ f < 2 ^ (format.precision + format.greatest) := by
    have hmQ : (m : ℚ) < 2 ^ format.precision := by exact_mod_cast hbits
    have hspacing : (2 : ℚ) ^ e ≤ 2 ^ format.greatest := zpow_le_zpow_right₀ one_le_two he
    rw [hvalue, zpow_add₀ two_ne_zero, zpow_natCast]
    exact mul_lt_mul hmQ hspacing (by positivity) (by positivity)
  have hnbits : n < 2 ^ format.precision := lt_of_le_of_lt hle hbits
  have hnear := shortest_le hprecision hleast hn hnbits hbelow
  rw [hvalue] at hnear
  have hword : 2 * 10 ^ 18 ≤ maxWord := by decide +kernel
  exact ⟨(shortest_near hprecision hn hnbits f).2.1.trans hword, h.of_le hnear⟩

/-- The two greatest numbers are read, though what is no number any more is too near for the
bound. -/
theorem exists_number?_greatest (negative : Bool) {m : Nat} (hlow : 2 ^ 53 - 3 < m)
    (hhigh : m < 2 ^ 53) :
    ∃ n, number? (floatText .double .data (.ofParts negative m 971)) = some (n, []) := by
  have hread : ∀ negative, ∀ m ∈ [9007199254740990, 9007199254740991],
      (number? (floatText .double .data (.ofParts negative m 971))).any (·.2.isEmpty) = true := by
    decide +kernel
  have hm : m ∈ [9007199254740990, 9007199254740991] := by
    simp only [List.mem_cons, List.not_mem_nil, or_false]
    omega
  have hany := hread negative m hm
  cases hnumber : number? (floatText .double .data (.ofParts negative m 971)) with
  | none =>
    rw [hnumber] at hany
    cases hany
  | some result =>
    rw [hnumber, Option.any_some, List.isEmpty_iff] at hany
    exact ⟨result.1, by rw [← hany]⟩

/-- A number of sixty-four bits is read from its shortest decimal. -/
theorem exists_number?_double {x : Binary} (h : Format.double.Holds x) :
    ∃ n, number? (floatText .double .data x) = some (n, []) := by
  obtain ⟨negative, m, e, hbits, -, he, rfl⟩ := h
  have hbits : m < 2 ^ 53 := hbits
  have he : e ≤ 971 := he
  by_cases hgreatest : e = 971 ∧ 2 ^ 53 - 3 < m
  · obtain ⟨rfl, hm⟩ := hgreatest
    exact exists_number?_greatest negative hm hbits
  · refine exists_number?_shortest rfl (Int.le_refl 16) (Nat.le_refl 53) (by decide) negative hbits
      he ?_
    have hgap : (2 : ℚ) ^ (Format.double.greatest - 1) = 2 ^ 970 := zpow_ofNat _ _
    have hvalue : (m : ℚ) * 2 ^ e ≤ (2 ^ 54 - 6) * 2 ^ 970 := by
      rcases Int.lt_or_eq_of_le he with hlt | rfl
      · have hmQ : (m : ℚ) ≤ 2 ^ 53 := by exact_mod_cast hbits.le
        have hspacing : (2 : ℚ) ^ e ≤ 2 ^ 970 := by
          rw [← zpow_ofNat]
          exact zpow_le_zpow_right₀ one_le_two (by omega)
        refine mul_le_mul (hmQ.trans (by norm_num)) hspacing (by positivity) (by norm_num)
      · have hmQ : (m : ℚ) + 3 ≤ 2 ^ 53 := by exact_mod_cast (by omega : m + 3 ≤ 2 ^ 53)
        have hdouble : (2 : ℚ) ^ (971 : Int) = 2 * 2 ^ 970 := by rw [zpow_ofNat, pow_succ']
        rw [hdouble, ← mul_assoc]
        exact mul_le_mul_of_nonneg_right (by linarith) (by positivity)
    refine IsSafe.of_le (w := (2 ^ 54 - 5) * 2 ^ 970) ?_ ?_
    · have hpos : (0 : ℚ) < 2 ^ 970 := by positivity
      unfold IsSafe
      rw [mul_right_comm]
      exact mul_lt_mul_of_pos_right (by norm_num) hpos
    · rw [hgap]
      generalize (2 : ℚ) ^ 970 = gap at hvalue ⊢
      linarith

/-- A number of thirty-two bits is read from its shortest decimal. -/
theorem exists_number?_single {x : Binary} (h : Format.single.Holds x) :
    ∃ n, number? (floatText .single .dataSingle x) = some (n, []) := by
  obtain ⟨negative, m, e, hbits, -, he, rfl⟩ := h
  refine exists_number?_shortest rfl (by decide) (by decide) (by decide) negative hbits he ?_
  have hbits : m < 2 ^ 24 := hbits
  have he : e ≤ 104 := he
  have hgap : (2 : ℚ) ^ (Format.single.greatest - 1) = 2 ^ 103 := zpow_ofNat _ _
  have hvalue : (m : ℚ) * 2 ^ e ≤ 2 ^ 24 * 2 ^ 104 := by
    have hmQ : (m : ℚ) ≤ 2 ^ 24 := by exact_mod_cast hbits.le
    have hspacing : (2 : ℚ) ^ e ≤ 2 ^ 104 := by
      rw [← zpow_ofNat]
      exact zpow_le_zpow_right₀ one_le_two he
    exact mul_le_mul hmQ hspacing (by positivity) (by positivity)
  have hfar : (2 : ℚ) ^ 200 ≤ 2 ^ 970 := pow_le_pow_right₀ one_le_two (by norm_num)
  unfold IsSafe
  rw [hgap]
  refine lt_of_lt_of_le ?_ (mul_le_mul_of_nonneg_left hfar (by norm_num))
  nlinarith

/-! ## All numbers -/

/-- A number that a value can hold: a whole one of a word, or a finite one of a format. -/
def Number.IsHeld : Number → Prop
  | .whole n => IsWord n
  | .float x => Format.double.Holds x
  | .single x => Format.single.Holds x

/-- **Every number is read from its text.** -/
theorem exists_number?_write {n : Number} (h : n.IsHeld) :
    ∃ m, number? n.write = some (m, []) := by
  cases n with
  | whole n => exact ⟨_, number?_whole h⟩
  | float x => exact exists_number?_double h
  | single x => exact exists_number?_single h

/-! ## Values -/

/-- A value as there can be one: no object has a name twice, and all numbers are held. -/
structure WellFormed (v : Json) : Prop where
  keys : EveryObject Ordered.HasDistinctKeys v
  numbers : ∀ n ∈ numbers v, n.IsHeld

/-- What a number is read as. -/
def Number.asRead (n : Number) : Number :=
  ((number? n.write).map (·.1)).getD n

/-- **A value is read from both of its texts**, with its numbers as they read. -/
theorem WellFormed.parse?_eq {v : Json} (h : v.WellFormed) (hnesting : nesting v ≤ maxDepth) :
    parse? (compact v) = some (reread Number.asRead v) ∧
      parse? (pretty v) = some (reread Number.asRead v) := by
  have hread : NumbersRead Number.asRead v := by
    intro n hn
    obtain ⟨m, hm⟩ := exists_number?_write (h.numbers n hn)
    rw [Number.asRead, hm]
    rfl
  rw [parse?_compact hread, parse?_pretty hread, if_pos hnesting]
  exact ⟨rfl, rfl⟩

end Docsmith.Json
