import Docsmith.Decimal.Shortest
import Mathlib.Algebra.Group.Nat.Defs
import Mathlib.Tactic.SplitIfs
/-!
# Decimals — the digits of a whole number

The digits of a whole number say the number again (`value_digits`), there is no zero
before others, and their count tells the power of ten (`bounds_digits`).
-/


namespace Docsmith.Decimal

variable {c : Char} {n : Nat} {text : List Char}

/-- The number that some digits say, with more digits behind it. -/
def valueFrom (start : Nat) (text : List Char) : Nat :=
  text.foldl (fun n c => n * 10 + (c.toNat - '0'.toNat)) start

theorem isDigit_of_mem_digits (h : c ∈ digits n) : c.isDigit = true :=
  Nat.isDigit_of_mem_toDigits (by decide) (by decide) h

theorem isDigit_of_mem_zeros (h : c ∈ List.replicate n '0') : c.isDigit = true := by
  rw [List.eq_of_mem_replicate h]
  rfl

theorem digits_ne_nil (n : Nat) : digits n ≠ [] :=
  Nat.toDigits_ne_nil

theorem digits_of_lt (h : n < 10) : digits n = [n.digitChar] :=
  Nat.toDigits_of_lt_base h

/-- The last digit is what remains over ten. -/
theorem digits_of_le (h : 10 ≤ n) : digits n = digits (n / 10) ++ [(n % 10).digitChar] :=
  Nat.toDigits_of_base_le (by decide) h

theorem toNat_digitChar (h : n < 10) : n.digitChar.toNat - '0'.toNat = n := by
  revert n
  decide

/-- **The digits of a number say it**, by induction on the number without its
last digit. -/
theorem value_digits (n : Nat) : valueFrom 0 (digits n) = n := by
  induction n using Nat.strongRecOn with
  | ind n ih =>
    rcases Nat.lt_or_ge n 10 with h | h
    · rw [digits_of_lt h, valueFrom, List.foldl_cons, List.foldl_nil, toNat_digitChar h]
      omega
    · have hinit := ih (n / 10) (by omega)
      rw [valueFrom] at hinit
      rw [digits_of_le h, valueFrom, List.foldl_append, hinit, List.foldl_cons, List.foldl_nil,
        toNat_digitChar (by omega)]
      omega

/-- No zero stands before other digits. -/
theorem exists_digits (h : n ≠ 0) : ∃ c rest, digits n = c :: rest ∧ c ≠ '0' := by
  induction n using Nat.strongRecOn with
  | ind n ih =>
    rcases Nat.lt_or_ge n 10 with hlt | hge
    · have hdigit : ∀ n, n < 10 → n ≠ 0 → n.digitChar ≠ '0' := by decide
      exact ⟨n.digitChar, [], digits_of_lt hlt, hdigit n hlt h⟩
    · obtain ⟨c, rest, hdigits, hc⟩ := ih (n / 10) (by omega) (by omega)
      exact ⟨c, rest ++ [(n % 10).digitChar], by rw [digits_of_le hge, hdigits]; rfl, hc⟩

/-- The digits of a number tell its power of ten. -/
theorem bounds_digits (h : n ≠ 0) :
    10 ^ ((digits n).length - 1) ≤ n ∧ n < 10 ^ (digits n).length := by
  have hpos : 0 < (digits n).length := List.length_pos_iff.2 (digits_ne_nil n)
  refine ⟨?_, (Nat.length_toDigits_le_iff (by decide) hpos).1 (Nat.le_refl _)⟩
  rcases Nat.eq_zero_or_pos ((digits n).length - 1) with hone | hmore
  · rw [hone]
    omega
  · rw [← Nat.not_lt]
    intro hlt
    have := (Nat.length_toDigits_le_iff (by decide) hmore).2 hlt
    rw [← digits] at this
    omega

/-- More digits say no less. -/
theorem le_valueFrom (text : List Char) : ∀ start, start ≤ valueFrom start text := by
  induction text with
  | nil => exact fun start => Nat.le_refl start
  | cons c text ih =>
    intro start
    have := ih (start * 10 + (c.toNat - '0'.toNat))
    rw [valueFrom, List.foldl_cons, ← valueFrom]
    omega

theorem toNat_of_isDigit (h : c.isDigit = true) :
    '0'.toNat ≤ c.toNat ∧ c.toNat ≤ '0'.toNat + 9 :=
  Char.isDigit_iff_toNat.1 h

/-- Digits say less than the next power of ten. -/
theorem valueFrom_lt (hdigits : ∀ c ∈ text, c.isDigit = true) : ∀ start : Nat,
    valueFrom start text < (start + 1) * 10 ^ text.length := by
  induction text with
  | nil =>
    intro start
    rw [List.length_nil, Nat.pow_zero, Nat.mul_one]
    exact Nat.lt_succ_self start
  | cons c text ih =>
    obtain ⟨hc, htext⟩ := List.forall_mem_cons.1 hdigits
    intro start
    have hnine := toNat_of_isDigit hc
    have hstep : start * 10 + (c.toNat - '0'.toNat) + 1 ≤ (start + 1) * 10 := by omega
    calc valueFrom start (c :: text)
        = valueFrom (start * 10 + (c.toNat - '0'.toNat)) text := rfl
      _ < (start * 10 + (c.toNat - '0'.toNat) + 1) * 10 ^ text.length := ih htext _
      _ ≤ (start + 1) * 10 * 10 ^ text.length := Nat.mul_le_mul_right _ hstep
      _ = (start + 1) * 10 ^ (c :: text).length := by
        rw [List.length_cons, Nat.pow_succ', Nat.mul_assoc]

end Docsmith.Decimal
