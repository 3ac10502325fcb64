import Docsmith.Decimal.Binary
import Mathlib.Algebra.Order.Field.Power
import Mathlib.Data.Nat.Log
import Mathlib.Tactic.FieldSimp
import Mathlib.Tactic.GCongr
import Mathlib.Tactic.Linarith
import Mathlib.Tactic.NormNum
import Mathlib.Tactic.Positivity
import Mathlib.Tactic.Ring
import Mathlib.Tactic.SplitIfs
/-!
# Decimals — how far rounding goes

A quotient is rounded to sixty-four bits by at most half of the spacing there. So what
stays below the middle between the greatest number and the next power of two is rounded
to a finite number (`round_of_lt`), and what is at least one grows by no more than one
part in `2 ^ 53`.
-/


namespace Docsmith.Decimal

variable {num den : Nat} {format : Format}

/-! ## Quotients -/

/-- A quotient as a fraction. -/
def fraction (q : Nat × Nat) : ℚ :=
  q.1 / q.2

theorem scaleByTwo_pos (power : Int) (num : Nat) (h : 0 < den) :
    0 < (scaleByTwo power num den).2 := by
  cases power with
  | ofNat k => exact h
  | negSucc k => exact Nat.mul_pos h (Nat.pow_pos (by decide))

theorem fraction_scaleByTwo (power : Int) (num den : Nat) :
    fraction (scaleByTwo power num den) = num / den * 2 ^ power := by
  cases power with
  | ofNat k =>
    simp only [fraction, scaleByTwo, Nat.pow_eq, Nat.cast_mul, Nat.cast_pow, Nat.cast_ofNat,
      Int.ofNat_eq_natCast, zpow_natCast]
    ring
  | negSucc k =>
    simp only [fraction, scaleByTwo, Nat.pow_eq, Nat.cast_mul, Nat.cast_pow, Nat.cast_ofNat,
      zpow_negSucc]
    rw [div_mul_eq_div_div, div_eq_mul_inv _ ((2 : ℚ) ^ (k + 1))]

theorem scaleByTen_pos (power : Int) (num : Nat) (h : 0 < den) :
    0 < (scaleByTen power num den).2 := by
  cases power with
  | ofNat k => exact h
  | negSucc k => exact Nat.mul_pos h (Nat.pow_pos (by decide))

theorem fraction_scaleByTen (power : Int) (num den : Nat) :
    fraction (scaleByTen power num den) = num / den * 10 ^ power := by
  cases power with
  | ofNat k =>
    simp only [fraction, scaleByTen, Nat.pow_eq, Nat.cast_mul, Nat.cast_pow, Nat.cast_ofNat,
      Int.ofNat_eq_natCast, zpow_natCast]
    ring
  | negSucc k =>
    simp only [fraction, scaleByTen, Nat.pow_eq, Nat.cast_mul, Nat.cast_pow, Nat.cast_ofNat,
      zpow_negSucc]
    rw [div_mul_eq_div_div, div_eq_mul_inv _ ((10 : ℚ) ^ (k + 1))]

/-- A quotient is rounded by a half at most. -/
theorem abs_roundDiv_sub_le (num : Nat) (h : 0 < den) :
    |(roundDiv num den : ℚ) - num / den| ≤ 1 / 2 := by
  have hsplit := Nat.div_add_mod num den
  have hrest := Nat.mod_lt num h
  have hround : 2 * (roundDiv num den * den) ≤ 2 * num + den ∧
      2 * num ≤ 2 * (roundDiv num den * den) + den := by
    have hnext : (num / den + 1) * den = num / den * den + den := Nat.succ_mul _ _
    rw [Nat.mul_comm den] at hsplit
    unfold roundDiv
    dsimp only
    split_ifs <;> omega
  obtain ⟨hhigh, hlow⟩ := hround
  have hden : (0 : ℚ) < den := by exact_mod_cast h
  have hhighQ : 2 * ((roundDiv num den : ℚ) * den) ≤ 2 * num + den := by exact_mod_cast hhigh
  have hlowQ : (2 : ℚ) * num ≤ 2 * (roundDiv num den * den) + den := by exact_mod_cast hlow
  have hquotient : (num : ℚ) / den * den = num := div_mul_cancel₀ _ hden.ne'
  rw [abs_le]
  constructor <;> refine le_of_mul_le_mul_right ?_ hden <;> rw [sub_mul, hquotient] <;> linarith

/-! ## Numbers as they are kept -/

theorem reduceBy_spec (fuel : Nat) : ∀ (m : Nat) (e : Int),
    ((reduceBy fuel m e).1 : ℚ) * 2 ^ (reduceBy fuel m e).2 = m * 2 ^ e ∧
      (reduceBy fuel m e).1 ≤ m := by
  induction fuel with
  | zero => exact fun m e => ⟨rfl, Nat.le_refl m⟩
  | succ fuel ih =>
    intro m e
    rw [reduceBy]
    split_ifs with hzero heven
    · rw [hzero]
      simp
    · have hhalf : m = m / 2 * 2 := by omega
      obtain ⟨hvalue, hle⟩ := ih (m / 2) (e + 1)
      refine ⟨?_, hle.trans (Nat.div_le_self m 2)⟩
      rw [hvalue, zpow_add₀ two_ne_zero, zpow_one]
      conv_rhs => rw [hhalf]
      push_cast
      ring
    · exact ⟨rfl, Nat.le_refl m⟩

/-- A number is kept with an odd whole number, which changes nothing of its value. -/
theorem exists_ofParts (negative : Bool) (m : Nat) (e : Int) :
    ∃ (n : Nat) (f : Int), Binary.ofParts negative m e = .finite negative n f ∧
      (n : ℚ) * 2 ^ f = m * 2 ^ e ∧ n ≤ m := by
  unfold Binary.ofParts
  split_ifs with hzero
  · exact ⟨0, 0, rfl, by rw [hzero]; simp, Nat.zero_le m⟩
  · have hspec := reduceBy_spec (m.log2 + 1) m e
    rcases hreduced : reduceBy (m.log2 + 1) m e with ⟨n, f⟩
    rw [hreduced] at hspec
    exact ⟨n, f, rfl, hspec⟩

/-! ## Rounding -/

theorem two_zpow_log2_le (h : num ≠ 0) : (2 : ℚ) ^ (num.log2 : Int) ≤ num := by
  rw [zpow_natCast]
  exact_mod_cast Nat.log2_self_le h

theorem lt_two_zpow_log2 (num : Nat) : (num : ℚ) < 2 ^ ((num.log2 : Int) + 1) := by
  have hlt : num < 2 ^ (num.log2 + 1) := Nat.lt_log2_self
  have hcast : ((num.log2 : Int) + 1) = ((num.log2 + 1 : Nat) : Int) := by push_cast; rfl
  rw [hcast, zpow_natCast]
  exact_mod_cast hlt

/-- What a quotient is rounded to with the spacing of a power. -/
def Format.roundAt (format : Format) (negative : Bool) (num den : Nat) (power : Int) : Binary :=
  let (a, b) := scaleByTwo (-power) num den
  let m := roundDiv a b
  let (m, power) :=
    if m = Nat.pow 2 format.precision then (Nat.pow 2 (format.precision - 1), power + 1)
    else (m, power)
  if format.greatest < power then .infinite negative else .ofParts negative m power

/-- A quotient takes no more bits than a format has with the spacing of a power. -/
def Format.fits (format : Format) (num den : Nat) (power : Int) : Bool :=
  let (a, b) := scaleByTwo (-power) num den
  a < b * Nat.pow 2 format.precision

theorem Format.fits_iff {power : Int} (hden : 0 < den) :
    format.fits num den power = true ↔ (num : ℚ) / den < 2 ^ (power + format.precision) := by
  have hvalue := fraction_scaleByTwo (-power) num den
  have hpos : (0 : ℚ) < (scaleByTwo (-power) num den).2 := by
    exact_mod_cast scaleByTwo_pos (-power) num hden
  have hpower : (0 : ℚ) < 2 ^ power := by positivity
  rw [fraction, zpow_neg, ← div_eq_mul_inv] at hvalue
  rw [Format.fits, Nat.pow_eq, decide_eq_true_iff, zpow_add₀ two_ne_zero,
    mul_comm (2 ^ power : ℚ), ← div_lt_iff₀ hpower, ← hvalue, div_lt_iff₀ hpos, zpow_natCast]
  norm_cast
  rw [Nat.mul_comm]

/-- The quotient of the leading bits is off by one bit at most. -/
theorem bounds_log2 (hnum : num ≠ 0) (hden : 0 < den) :
    (2 : ℚ) ^ ((num.log2 : Int) - den.log2 - 1) ≤ num / den ∧
      (num : ℚ) / den < 2 ^ ((num.log2 : Int) - den.log2 + 1) := by
  have hpos : (0 : ℚ) < den := by exact_mod_cast hden
  constructor
  · rw [le_div_iff₀ hpos]
    calc (2 : ℚ) ^ ((num.log2 : Int) - den.log2 - 1) * den
        ≤ 2 ^ ((num.log2 : Int) - den.log2 - 1) * 2 ^ ((den.log2 : Int) + 1) := by
          gcongr
          exact (lt_two_zpow_log2 den).le
      _ = 2 ^ (num.log2 : Int) := by
        rw [← zpow_add₀ two_ne_zero]
        congr 1
        omega
      _ ≤ num := two_zpow_log2_le hnum
  · rw [div_lt_iff₀ hpos]
    calc (num : ℚ) < 2 ^ ((num.log2 : Int) + 1) := lt_two_zpow_log2 num
      _ = 2 ^ ((num.log2 : Int) - den.log2 + 1) * 2 ^ (den.log2 : Int) := by
        rw [← zpow_add₀ two_ne_zero]
        congr 1
        omega
      _ ≤ 2 ^ ((num.log2 : Int) - den.log2 + 1) * den := by
        gcongr
        exact two_zpow_log2_le hden.ne'

/-- The spacing that a quotient has by its leading bits. -/
def Format.spacing (format : Format) (num den : Nat) : Int :=
  let guess := (num.log2 : Int) - (den.log2 : Int) - (format.precision : Int)
  if format.fits num den guess then guess else guess + 1

/-- **A quotient fills the bits of a format** with its spacing. -/
theorem Format.bounds_spacing (format : Format) (hnum : num ≠ 0) (hden : 0 < den) :
    (2 : ℚ) ^ (format.spacing num den + format.precision - 1) ≤ num / den ∧
      (num : ℚ) / den < 2 ^ (format.spacing num den + format.precision) := by
  obtain ⟨hlow, hhigh⟩ := bounds_log2 hnum hden
  unfold Format.spacing
  dsimp only
  generalize hguess : (num.log2 : Int) - den.log2 - format.precision = guess
  have hone : (num.log2 : Int) - den.log2 - 1 = guess + format.precision - 1 := by omega
  have htwo : (num.log2 : Int) - den.log2 + 1 = guess + 1 + format.precision := by omega
  rw [hone] at hlow
  rw [htwo] at hhigh
  split_ifs with hfits
  · exact ⟨hlow, (Format.fits_iff hden).1 hfits⟩
  · have hthree : guess + 1 + format.precision - 1 = guess + format.precision := by omega
    rw [hthree]
    exact ⟨not_lt.1 (mt (Format.fits_iff hden).2 hfits), hhigh⟩

theorem Format.round_eq (format : Format) (negative : Bool) (hnum : num ≠ 0) :
    format.round negative num den =
      format.roundAt negative num den (max format.least (format.spacing num den)) := by
  rw [Format.round, if_neg hnum]
  rfl

/-- With spacing enough for its bits a quotient grows by half of the spacing at most, and is
finite below the middle of the last gap. -/
theorem roundAt_of_lt (negative : Bool) (hden : 0 < den) {power : Int} (hpower : power ≤ 971)
    (hbits : (num : ℚ) / den < 2 ^ (power + 53))
    (hmiddle : (num : ℚ) / den < (2 ^ 54 - 1) * 2 ^ 970) :
    ∃ (n : Nat) (f : Int), Format.double.roundAt negative num den power = .finite negative n f ∧
      (n : ℚ) * 2 ^ f ≤ num / den + 2 ^ (power - 1) := by
  have hquotient := fraction_scaleByTwo (-power) num den
  have hpos := scaleByTwo_pos (-power) num hden
  unfold Format.roundAt
  generalize scaleByTwo (-power) num den = q at *
  have hround := (abs_le.1 (abs_roundDiv_sub_le q.1 hpos)).2
  rw [fraction] at hquotient
  rw [hquotient] at hround
  have hscale : (0 : ℚ) < 2 ^ power := by positivity
  have hinverse : (2 : ℚ) ^ (-power) * 2 ^ power = 1 := by
    rw [← zpow_add₀ two_ne_zero, neg_add_cancel, zpow_zero]
  have hhalf : (2 : ℚ) ^ (power - 1) = 1 / 2 * 2 ^ power := by
    rw [zpow_sub₀ two_ne_zero, zpow_one]
    ring
  have hvalue : (roundDiv q.1 q.2 : ℚ) * 2 ^ power ≤ num / den + 2 ^ (power - 1) := by
    rw [hhalf]
    calc (roundDiv q.1 q.2 : ℚ) * 2 ^ power
        ≤ (num / den * 2 ^ (-power) + 1 / 2) * 2 ^ power := by
          gcongr
          linarith
      _ = num / den * (2 ^ (-power) * 2 ^ power) + 1 / 2 * 2 ^ power := by ring
      _ = num / den + 1 / 2 * 2 ^ power := by rw [hinverse, mul_one]
  -- With all bits in use the rounding may go up to the next power of two.
  have hle : roundDiv q.1 q.2 ≤ 2 ^ 53 := by
    have hlt : (num : ℚ) / den * 2 ^ (-power) < 2 ^ 53 := by
      rw [zpow_neg, ← div_eq_mul_inv, div_lt_iff₀ hscale, mul_comm, ← zpow_natCast,
        ← zpow_add₀ two_ne_zero]
      exact hbits
    have hcast : (roundDiv q.1 q.2 : ℚ) < (2 ^ 53 + 1 : Nat) := by
      push_cast
      linarith
    exact Nat.lt_succ_iff.1 (by exact_mod_cast hcast)
  obtain ⟨m, hm⟩ : ∃ m, roundDiv q.1 q.2 = m := ⟨_, rfl⟩
  rw [hm] at hvalue hle
  dsimp only
  rw [hm]
  by_cases hfull : m = Nat.pow 2 53
  · have hcarry : (Nat.pow 2 52 : ℚ) * 2 ^ (power + 1) = m * 2 ^ power := by
      rw [hfull, zpow_add₀ two_ne_zero, zpow_one, Nat.pow_eq]
      push_cast
      ring
    have hlow : power + 1 ≤ 971 := by
      by_contra hcon
      have hlast : power = 971 := by omega
      have hdouble : (2 : ℚ) ^ (971 : Int) = 2 * 2 ^ 970 := by rw [zpow_ofNat, pow_succ']
      have hbefore : (2 : ℚ) ^ ((971 : Int) - 1) = 2 ^ 970 := zpow_ofNat _ _
      rw [hfull, hlast, hdouble, hbefore, Nat.pow_eq] at hvalue
      push_cast at hvalue
      generalize (2 : ℚ) ^ 970 = gap at hvalue hmiddle
      linarith
    obtain ⟨n, f, hparts, hnf, -⟩ := exists_ofParts negative (Nat.pow 2 52) (power + 1)
    refine ⟨n, f, ?_, by rw [hnf]; exact hcarry.trans_le hvalue⟩
    simp only [Format.double, hfull, if_true, if_neg (not_lt.2 hlow), hparts]
  · obtain ⟨n, f, hparts, hnf, -⟩ := exists_ofParts negative m power
    refine ⟨n, f, ?_, hnf.trans_le hvalue⟩
    simp only [Format.double, hfull, if_false, if_neg (not_lt.2 hpower), hparts]

/-- **What stays below the middle of the last gap is finite**, and what is at least one grows by
one part in `2 ^ 53` at most. -/
theorem round_of_lt (negative : Bool) (hden : 0 < den)
    (h : (num : ℚ) / den < (2 ^ 54 - 1) * 2 ^ 970) :
    ∃ (n : Nat) (f : Int), Format.double.round negative num den = .finite negative n f ∧
      (1 ≤ (num : ℚ) / den → (n : ℚ) * 2 ^ f ≤ num / den * (1 + 1 / 2 ^ 53)) := by
  by_cases hnum : num = 0
  · refine ⟨0, 0, by rw [Format.round, if_pos hnum], fun hone => ?_⟩
    rw [hnum] at hone
    norm_num at hone
  · obtain ⟨hlow, hhigh⟩ := Format.double.bounds_spacing hnum hden
    rw [Format.double.round_eq negative hnum]
    have hprecision : (Format.double.precision : Int) = 53 := rfl
    have hleast : Format.double.least = -1074 := rfl
    rw [hprecision] at hlow hhigh
    rw [hleast]
    generalize Format.double.spacing num den = s at *
    have hs : s ≤ 971 := by
      have hlt : (2 : ℚ) ^ (s + 53 - 1) < 2 ^ (1024 : Int) := by
        refine (hlow.trans_lt h).trans ?_
        have hsplit : (2 : ℚ) ^ (1024 : Int) = 2 ^ 54 * 2 ^ 970 := by rw [zpow_ofNat, ← pow_add]
        rw [hsplit]
        gcongr
        linarith
      have := (zpow_lt_zpow_iff_right₀ one_lt_two).1 hlt
      omega
    have hbits : (num : ℚ) / den < 2 ^ (max (-1074) s + 53) := by
      refine hhigh.trans_le (zpow_le_zpow_right₀ one_le_two ?_)
      omega
    obtain ⟨n, f, hround, hvalue⟩ := roundAt_of_lt negative hden (by omega) hbits h
    refine ⟨n, f, hround, fun hone => hvalue.trans ?_⟩
    -- From one on, the spacing is that of the leading bits.
    have hpower : max (-1074) s = s := by
      have hlt : (2 : ℚ) ^ (0 : Int) < 2 ^ (s + 53) := by
        rw [zpow_zero]
        exact hone.trans_lt hhigh
      have := (zpow_lt_zpow_iff_right₀ one_lt_two).1 hlt
      omega
    have hgap : (2 : ℚ) ^ (s - 1) = 2 ^ (s + 53 - 1) / 2 ^ 53 := by
      rw [eq_div_iff (by norm_num), ← zpow_natCast, ← zpow_add₀ two_ne_zero]
      congr 1
      omega
    rw [hpower, hgap]
    have : (2 : ℚ) ^ (s + 53 - 1) / 2 ^ 53 ≤ num / den / 2 ^ 53 := by gcongr
    linarith

end Docsmith.Decimal
