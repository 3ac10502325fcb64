import Docsmith.Proofs.Decimal.Digits
import Docsmith.Proofs.Decimal.Rounding
import Mathlib.Data.Nat.Cast.Order.Field
/-!
# Decimals — the shortest one is near

A grid that is finer than half of the spacing at a value has a point in the value's basin, and
the search does not end before such a grid. So the decimal that is found lies in the basin: it
is not zero, it has nineteen digits at most, and it goes beyond the value by half of the spacing
at most (`shortest_near`).
-/


namespace Docsmith.Decimal

variable {format : Format} {m num den : Nat} {e k : Int} {b : Basin}

/-! ## Decimals -/

/-- The number that a decimal is. -/
def Grid.value (g : Grid) : ℚ :=
  g.digits * 10 ^ g.exponent

theorem Grid.strip_spec (fuel : Nat) : ∀ g : Grid, g.digits ≠ 0 →
    (g.strip fuel).digits ≠ 0 ∧ (g.strip fuel).digits ≤ g.digits ∧
      (g.strip fuel).value = g.value := by
  induction fuel with
  | zero => exact fun g h => ⟨h, Nat.le_refl _, rfl⟩
  | succ fuel ih =>
    intro g h
    rw [Grid.strip]
    split_ifs with hten
    · have hmod : g.digits % 10 = 0 := by simpa [h] using hten
      have hsplit : g.digits = g.digits / 10 * 10 := by omega
      obtain ⟨hne, hle, hvalue⟩ := ih ⟨g.digits / 10, g.exponent + 1⟩ (by simp only; omega)
      refine ⟨hne, hle.trans (Nat.div_le_self _ _), hvalue.trans ?_⟩
      rw [Grid.value, Grid.value, zpow_add₀ (by norm_num), zpow_one]
      conv_rhs => rw [hsplit]
      push_cast
      ring
    · exact ⟨h, Nat.le_refl _, rfl⟩

/-- A decimal has at most the digits that its value has places, down to a place not beyond its
last one. -/
theorem Grid.digits_le {g : Grid} {bound : Nat} (hk : k ≤ g.exponent)
    (hvalue : g.value ≤ bound * 10 ^ k) : g.digits ≤ bound := by
  have hstep : (0 : ℚ) < 10 ^ k := by positivity
  have hdigits : (g.digits : ℚ) * 10 ^ k ≤ bound * 10 ^ k := by
    calc (g.digits : ℚ) * 10 ^ k ≤ g.digits * 10 ^ g.exponent := by
          gcongr
          norm_num
      _ = g.value := rfl
      _ ≤ bound * 10 ^ k := hvalue
  exact_mod_cast le_of_mul_le_mul_right hdigits hstep

/-- Where the first digit of a quotient stands. -/
def place (num den : Nat) : Int :=
  if den ≤ num then ((Nat.toDigits 10 (num / den)).length : Int)
  else 1 - ((Nat.toDigits 10 (den / num)).length : Int)

/-- What the digits of a whole quotient say of the quotient. -/
theorem bounds_digits_div (hden : 0 < den) (hle : den ≤ num) :
    (10 : ℚ) ^ (((digits (num / den)).length : Int) - 1) ≤ num / den ∧
      (num : ℚ) / den ≤ 10 ^ ((digits (num / den)).length : Int) := by
  obtain ⟨hlow, hhigh⟩ := bounds_digits (Nat.div_pos hle hden).ne'
  have hdenQ : (0 : ℚ) < den := by exact_mod_cast hden
  have hpos : 0 < (digits (num / den)).length := List.length_pos_iff.2 (digits_ne_nil _)
  generalize (digits (num / den)).length = l at *
  constructor
  · have hcast : (l : Int) - 1 = ((l - 1 : Nat) : Int) := by omega
    rw [hcast, zpow_natCast]
    exact le_trans (by exact_mod_cast hlow) Nat.cast_div_le
  · rw [zpow_natCast, div_le_iff₀ hdenQ]
    have hlt : num < (num / den + 1) * den := Nat.lt_mul_of_div_lt (Nat.lt_succ_self _) hden
    have hmul : (num / den + 1) * den ≤ 10 ^ l * den := Nat.mul_le_mul_right den hhigh
    exact_mod_cast (hlt.trans_le hmul).le

theorem bounds_place (hnum : num ≠ 0) (hden : 0 < den) :
    (10 : ℚ) ^ (place num den - 1) ≤ num / den ∧ (num : ℚ) / den ≤ 10 ^ place num den := by
  unfold place
  split_ifs with hle
  · exact bounds_digits_div hden hle
  · have hnumQ : (0 : ℚ) < num := by exact_mod_cast Nat.pos_of_ne_zero hnum
    obtain ⟨hlow, hhigh⟩ := bounds_digits_div (Nat.pos_of_ne_zero hnum) (Nat.le_of_not_le hle)
    rw [← digits]
    generalize ((digits (den / num)).length : Int) = l at *
    have hdenQ : (0 : ℚ) < den := by exact_mod_cast hden
    have hinverse : (num : ℚ) / den = ((den : ℚ) / num)⁻¹ := (inv_div _ _).symm
    have hone : (1 : Int) - l - 1 = -l := by omega
    have htwo : (1 : Int) - l = -(l - 1) := by omega
    rw [hinverse, hone, htwo, zpow_neg, zpow_neg]
    exact ⟨inv_anti₀ (by positivity) hhigh, inv_anti₀ (by positivity) hlow⟩

/-! ## Basins -/

theorem fraction_le_iff {p q : Nat × Nat} (hp : 0 < p.2) (hq : 0 < q.2) :
    fraction p ≤ fraction q ↔ p.1 * q.2 ≤ q.1 * p.2 := by
  rw [fraction, fraction, div_le_div_iff₀ (by exact_mod_cast hp) (by exact_mod_cast hq)]
  exact_mod_cast Iff.rfl

theorem fraction_lt_iff {p q : Nat × Nat} (hp : 0 < p.2) (hq : 0 < q.2) :
    fraction p < fraction q ↔ p.1 * q.2 < q.1 * p.2 := by
  rw [fraction, fraction, div_lt_div_iff₀ (by exact_mod_cast hp) (by exact_mod_cast hq)]
  exact_mod_cast Iff.rfl

/-- The lower end of a basin. -/
def Basin.lower (b : Basin) : ℚ :=
  b.low * 2 ^ b.power

/-- The upper end of a basin. -/
def Basin.upper (b : Basin) : ℚ :=
  b.high * 2 ^ b.power

theorem Basin.holds_iff (b : Basin) (point : Grid) :
    b.holds point = true ↔
      if b.closed then b.lower ≤ point.value ∧ point.value ≤ b.upper
      else b.lower < point.value ∧ point.value < b.upper := by
  have hpoint := fraction_scaleByTen point.exponent point.digits 1
  have hlow := fraction_scaleByTwo b.power b.low 1
  have hhigh := fraction_scaleByTwo b.power b.high 1
  have hpointpos := scaleByTen_pos point.exponent point.digits Nat.one_pos
  have hlowpos := scaleByTwo_pos b.power b.low Nat.one_pos
  have hhighpos := scaleByTwo_pos b.power b.high Nat.one_pos
  rw [Nat.cast_one, div_one] at hpoint hlow hhigh
  rw [Basin.lower, Basin.upper, Grid.value, ← hpoint, ← hlow, ← hhigh,
    fraction_le_iff hlowpos hpointpos, fraction_le_iff hpointpos hhighpos,
    fraction_lt_iff hlowpos hpointpos, fraction_lt_iff hpointpos hhighpos, Basin.holds]
  dsimp only
  split_ifs <;> simp only [Bool.and_eq_true, decide_eq_true_iff]

theorem Basin.le_upper {g : Grid} (h : b.holds g = true) : g.value ≤ b.upper := by
  have hends := (b.holds_iff g).1 h
  split_ifs at hends
  · exact hends.2
  · exact hends.2.le

theorem Basin.holds_of_lt {g : Grid} (hlower : b.lower < g.value) (hupper : g.value < b.upper) :
    b.holds g = true := by
  rw [b.holds_iff]
  split_ifs
  · exact ⟨hlower.le, hupper.le⟩
  · exact ⟨hlower, hupper⟩

/-! ## Grids -/

/-- On a grid the point is tried first that the quotient rounds to, and then the one on its
other side. -/
theorem exists_onGrid?_eq (b : Basin) (num den : Nat) (k : Int) :
    ∃ near far, near = roundDiv (scaleByTen (-k) num den).1 (scaleByTen (-k) num den).2 ∧
      onGrid? b num den k =
        if near ≠ 0 ∧ b.holds ⟨near, k⟩ then some ⟨near, k⟩
        else if far ≠ 0 ∧ b.holds ⟨far, k⟩ then some ⟨far, k⟩ else none := by
  unfold onGrid?
  dsimp only
  generalize scaleByTen (-k) num den = q
  have hround : (if 2 * (q.1 % q.2) < q.2 || (2 * (q.1 % q.2) = q.2 && q.1 / q.2 % 2 = 0) then
      q.1 / q.2 else q.1 / q.2 + 1) = roundDiv q.1 q.2 := by
    unfold roundDiv
    simp only [Bool.or_eq_true, Bool.and_eq_true, decide_eq_true_iff]
    split_ifs <;> omega
  rw [hround]
  refine ⟨_, if roundDiv q.1 q.2 = q.1 / q.2 then q.1 / q.2 + 1 else q.1 / q.2, rfl, ?_⟩
  simp only [Bool.and_eq_true, decide_eq_true_iff]

theorem onGrid?_some {g : Grid} (h : onGrid? b num den k = some g) :
    g.digits ≠ 0 ∧ g.exponent = k ∧ b.holds g = true := by
  obtain ⟨near, far, -, hgrid⟩ := exists_onGrid?_eq b num den k
  rw [hgrid] at h
  split_ifs at h with hnear hfar
  · obtain rfl := Option.some.inj h
    exact ⟨hnear.1, rfl, hnear.2⟩
  · obtain rfl := Option.some.inj h
    exact ⟨hfar.1, rfl, hfar.2⟩

/-- **A grid that is fine enough has a point in the basin**: the one nearest to the value. -/
theorem exists_onGrid (hden : 0 < den) (hgrid : (10 : ℚ) ^ k ≤ num / den)
    (hlower : b.lower < num / den - 10 ^ k / 2) (hupper : (num : ℚ) / den + 10 ^ k / 2 < b.upper) :
    ∃ g, onGrid? b num den k = some g := by
  have hscaled := fraction_scaleByTen (-k) num den
  have hpos := scaleByTen_pos (-k) num hden
  have hstep : (0 : ℚ) < 10 ^ k := by positivity
  have hinverse : (10 : ℚ) ^ (-k) * 10 ^ k = 1 := by
    rw [← zpow_add₀ (by norm_num), neg_add_cancel, zpow_zero]
  obtain ⟨n, far, hn, hpoint⟩ := exists_onGrid?_eq b num den k
  obtain ⟨hbelow, habove⟩ := abs_le.1 (abs_roundDiv_sub_le (scaleByTen (-k) num den).1 hpos)
  rw [← fraction, hscaled, ← hn] at hbelow habove
  have hlow : (num : ℚ) / den - 10 ^ k / 2 ≤ n * 10 ^ k := by
    calc (num : ℚ) / den - 10 ^ k / 2 = (num / den * 10 ^ (-k) - 1 / 2) * 10 ^ k := by
          rw [sub_mul, mul_assoc, hinverse]
          ring
      _ ≤ n * 10 ^ k := by
        gcongr
        linarith
  have hhigh : (n : ℚ) * 10 ^ k ≤ num / den + 10 ^ k / 2 := by
    calc (n : ℚ) * 10 ^ k ≤ (num / den * 10 ^ (-k) + 1 / 2) * 10 ^ k := by
          gcongr
          linarith
      _ = num / den + 10 ^ k / 2 := by
        rw [add_mul, mul_assoc, hinverse]
        ring
  have hne : n ≠ 0 := by
    intro hzero
    rw [hzero, Nat.cast_zero, zero_mul] at hlow
    linarith
  have hholds : b.holds ⟨n, k⟩ = true :=
    Basin.holds_of_lt (hlower.trans_le hlow) (hhigh.trans_lt hupper)
  rw [hpoint, if_pos ⟨hne, hholds⟩]
  exact ⟨_, rfl⟩

/-! ## The search -/

/-- The search stops at the first grid with a point in the basin, or before. -/
theorem search_spec (hgrid : ∃ g, onGrid? b num den k = some g) (fuel : Nat) : ∀ start : Int,
    start - fuel < k → k ≤ start →
      ∃ i, k ≤ i ∧ onGrid? b num den i = some (search b num den fuel start) := by
  induction fuel with
  | zero =>
    intro start hlow hhigh
    omega
  | succ fuel ih =>
    intro start hlow hhigh
    rw [search]
    cases hpoint : onGrid? b num den start with
    | some point => exact ⟨start, hhigh, hpoint⟩
    | none =>
      have hne : k ≠ start := by
        rintro rfl
        obtain ⟨g, hg⟩ := hgrid
        rw [hpoint] at hg
        cases hg
      exact ih (start - 1) (by omega) (by omega)

/-! ## The shortest decimal -/

/-- Widening keeps the value and fills the bits of the format, unless the least power is
reached first. -/
theorem widen_spec (hm : m ≠ 0) (hbits : m < 2 ^ format.precision) :
    ((widen format m e).1 : ℚ) * 2 ^ (widen format m e).2 = m * 2 ^ e ∧
      0 < (widen format m e).1 ∧ (widen format m e).1 < 2 ^ format.precision ∧
      ((widen format m e).2 ≤ format.least ∨
        (2 : ℚ) ^ ((widen format m e).2 + format.precision - 1) ≤ m * 2 ^ e) := by
  have hlog : m.log2 < format.precision := (Nat.log2_lt hm).2 hbits
  have hpower : (0 : ℚ) < 2 ^ e := by positivity
  -- With its own bits the value is at least a power of two.
  have hvalue : (2 : ℚ) ^ ((m.log2 : Int) + e) ≤ m * 2 ^ e := by
    rw [zpow_add₀ two_ne_zero]
    gcongr
    exact two_zpow_log2_le hm
  unfold widen
  dsimp only
  split_ifs with hspare
  · obtain ⟨s, hs⟩ := Int.eq_ofNat_of_zero_le hspare.le
    rw [hs, Int.toNat_natCast, Nat.pow_eq]
    refine ⟨?_, Nat.mul_pos (Nat.pos_of_ne_zero hm) (Nat.pow_pos (by decide)), ?_, ?_⟩
    · rw [zpow_sub₀ two_ne_zero, zpow_natCast]
      push_cast
      field_simp
    · calc m * 2 ^ s < 2 ^ (m.log2 + 1) * 2 ^ s := by
            gcongr
            exact Nat.lt_log2_self
        _ = 2 ^ (m.log2 + 1 + s) := (Nat.pow_add ..).symm
        _ ≤ 2 ^ format.precision := by
          refine Nat.pow_le_pow_right (by decide) ?_
          omega
    · rcases Int.le_total ((format.precision : Int) - 1 - m.log2) (e - format.least) with hle | hle
      · right
        have hfull : e - s + format.precision - 1 = (m.log2 : Int) + e := by omega
        rwa [hfull]
      · left
        omega
  · refine ⟨rfl, Nat.pos_of_ne_zero hm, hbits, ?_⟩
    rcases lt_or_ge format.least e with hlt | hle
    · right
      have hfull : e + format.precision - 1 = (m.log2 : Int) + e := by omega
      rwa [hfull]
    · exact .inl hle

theorem shortest_eq (format : Format) (hm : m ≠ 0) (e : Int) :
    shortest format m e =
      (search (basin format m e) (scaleByTwo e m 1).1 (scaleByTwo e m 1).2 25
        (place (scaleByTwo e m 1).1 (scaleByTwo e m 1).2 + 1)).strip 400 := by
  rw [shortest, if_neg hm]
  rfl

/-- The ends of a basin: at most a quarter of the spacing below the value and half of it above. -/
theorem basin_bounds (hm : m ≠ 0) (hbits : m < 2 ^ format.precision) :
    (basin format m e).lower ≤ m * 2 ^ e - 2 ^ ((widen format m e).2 - 2) ∧
      (basin format m e).upper = m * 2 ^ e + 2 ^ ((widen format m e).2 - 1) := by
  obtain ⟨hvalue, hpos, -, -⟩ := widen_spec (e := e) hm hbits
  rw [← hvalue]
  unfold basin Basin.lower Basin.upper
  generalize widen format m e = q at *
  obtain ⟨n, f⟩ := q
  dsimp only at hpos ⊢
  have hquarter : (2 : ℚ) ^ f = 4 * 2 ^ (f - 2) := by
    rw [zpow_sub₀ two_ne_zero]
    norm_num
    ring
  have hhalf : (2 : ℚ) ^ (f - 1) = 2 * 2 ^ (f - 2) := by
    rw [zpow_sub₀ two_ne_zero, zpow_sub₀ two_ne_zero]
    norm_num
    ring
  rw [hquarter, hhalf]
  have hgap : (0 : ℚ) < 2 ^ (f - 2) := by positivity
  constructor
  · have hlow : ((4 * n - if n = Nat.pow 2 (format.precision - 1) ∧ format.least < f then 1 else 2 :
        Nat) : ℚ) ≤ 4 * n - 1 := by
      split_ifs
      · rw [Nat.cast_sub (by omega)]
        push_cast
        exact le_refl _
      · rw [Nat.cast_sub (by omega)]
        push_cast
        linarith
    nlinarith
  · push_cast
    ring

/-- Seventeen places behind the first digit a grid is finer than half of the spacing. -/
theorem fine_lt (hprecision : format.precision ≤ 53) (hm : m ≠ 0)
    (hbits : m < 2 ^ format.precision) (hfirst : (10 : ℚ) ^ (k + 17) ≤ m * 2 ^ e) :
    (10 : ℚ) ^ k < 2 ^ ((widen format m e).2 - 1) := by
  obtain ⟨hvalue, -, hwide, -⟩ := widen_spec (e := e) hm hbits
  generalize widen format m e = q at *
  have hwideQ : (q.1 : ℚ) < 2 ^ 53 := by
    exact_mod_cast hwide.trans_le (Nat.pow_le_pow_right (by decide) hprecision)
  have hlt : (m : ℚ) * 2 ^ e < 2 ^ 53 * 2 ^ q.2 := by
    rw [← hvalue]
    gcongr
  have hspan : (10 : ℚ) ^ (k + 17) = 10 ^ k * 10 ^ 17 := by
    rw [zpow_add₀ (by norm_num)]
    rfl
  have hhalf : (2 : ℚ) ^ (q.2 - 1) = 2 ^ q.2 / 2 := by rw [zpow_sub₀ two_ne_zero, zpow_one]
  have hgap : (0 : ℚ) < 2 ^ q.2 := by positivity
  rw [hspan] at hfirst
  rw [hhalf]
  linarith

/-- The spacing at a value does not go beyond it. -/
theorem spacing_le (hm : m ≠ 0) (hbits : m < 2 ^ format.precision) :
    (2 : ℚ) ^ (widen format m e).2 ≤ m * 2 ^ e := by
  obtain ⟨hvalue, hpos, -, -⟩ := widen_spec (e := e) hm hbits
  rw [← hvalue]
  exact le_mul_of_one_le_left (by positivity) (by exact_mod_cast hpos)

/-- **The shortest decimal is near the value**: it has nineteen digits at most, and it goes
beyond the value by half of the spacing at most. -/
theorem shortest_near (hprecision : format.precision ≤ 53) (hm : m ≠ 0)
    (hbits : m < 2 ^ format.precision) (e : Int) :
    (shortest format m e).digits ≠ 0 ∧ (shortest format m e).digits ≤ 2 * 10 ^ 18 ∧
      (shortest format m e).value ≤ m * 2 ^ e + 2 ^ ((widen format m e).2 - 1) := by
  obtain ⟨hlower, hupper⟩ := basin_bounds (e := e) hm hbits
  have hspacing := spacing_le (e := e) hm hbits
  have hquotient := fraction_scaleByTwo e m 1
  have hden := scaleByTwo_pos e m Nat.one_pos
  rw [Nat.cast_one, div_one, fraction] at hquotient
  rw [shortest_eq format hm]
  obtain ⟨num, den, hscale⟩ : ∃ num den, scaleByTwo e m 1 = (num, den) := ⟨_, _, rfl⟩
  rw [hscale] at hquotient hden ⊢
  dsimp only at hquotient hden ⊢
  have hgap : (0 : ℚ) < 2 ^ (widen format m e).2 := by positivity
  have hnum : num ≠ 0 := by
    rintro rfl
    rw [Nat.cast_zero, zero_div] at hquotient
    linarith
  obtain ⟨hfirst, hlast⟩ := bounds_place hnum hden
  rw [hquotient] at hfirst hlast
  obtain ⟨k, htop⟩ : ∃ k, place num den = k + 18 := ⟨place num den - 18, by omega⟩
  rw [htop] at hfirst hlast ⊢
  have hbehind : k + 18 - 1 = k + 17 := by omega
  rw [hbehind] at hfirst
  have hfine := fine_lt hprecision hm hbits hfirst
  have hhalf : (2 : ℚ) ^ ((widen format m e).2 - 1) = 2 ^ (widen format m e).2 / 2 := by
    rw [zpow_sub₀ two_ne_zero, zpow_one]
  have hquarter : (2 : ℚ) ^ ((widen format m e).2 - 2) = 2 ^ (widen format m e).2 / 4 := by
    rw [zpow_sub₀ two_ne_zero]
    norm_num
  rw [hquarter] at hlower
  rw [hhalf] at hupper hfine ⊢
  have hgrid : ∃ g, onGrid? (basin format m e) num den k = some g := by
    refine exists_onGrid hden ?_ ?_ ?_ <;> rw [hquotient] <;> linarith
  obtain ⟨i, hi, hpoint⟩ := search_spec hgrid 25 (k + 18 + 1) (by omega) (by omega)
  obtain ⟨hne, hexponent, hholds⟩ := onGrid?_some hpoint
  obtain ⟨hstrip, hle, hsame⟩ := Grid.strip_spec 400 _ hne
  have hnear := Basin.le_upper hholds
  rw [hupper] at hnear
  refine ⟨hstrip, hle.trans (Grid.digits_le (k := k) (hexponent ▸ hi) ?_), by rwa [hsame]⟩
  have hall : (10 : ℚ) ^ (k + 18) = 10 ^ k * 10 ^ 18 := by
    rw [zpow_add₀ (by norm_num)]
    rfl
  rw [hall] at hlast
  push_cast
  linarith

/-! ## Numbers of a format -/

/-- A number of a format, neither infinite nor undefined. -/
def Format.Holds (format : Format) (x : Binary) : Prop :=
  ∃ (negative : Bool) (m : Nat) (e : Int), m < 2 ^ format.precision ∧ format.least ≤ e ∧
    e ≤ format.greatest ∧ x = .ofParts negative m e

/-- The shortest decimal of a number in a format goes beyond it by half of the greatest spacing
at most. -/
theorem shortest_le (hprecision : format.precision ≤ 53) (hleast : format.least ≤ format.greatest)
    (hm : m ≠ 0) (hbits : m < 2 ^ format.precision)
    (hvalue : (m : ℚ) * 2 ^ e < 2 ^ (format.precision + format.greatest)) :
    (shortest format m e).value ≤ m * 2 ^ e + 2 ^ (format.greatest - 1) := by
  obtain ⟨-, -, hnear⟩ := shortest_near hprecision hm hbits e
  obtain ⟨-, -, -, hpower⟩ := widen_spec (e := e) hm hbits
  have hle : (widen format m e).2 ≤ format.greatest := by
    rcases hpower with hlow | hfull
    · exact hlow.trans hleast
    · have := (zpow_lt_zpow_iff_right₀ one_lt_two).1 (hfull.trans_lt hvalue)
      omega
  have hgap : (2 : ℚ) ^ ((widen format m e).2 - 1) ≤ 2 ^ (format.greatest - 1) :=
    zpow_le_zpow_right₀ one_le_two (by omega)
  linarith

end Docsmith.Decimal
