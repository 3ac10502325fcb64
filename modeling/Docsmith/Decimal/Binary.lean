/-!
# Binary floating point, exactly

A finite number is a sign, a whole number and a power of two; formats
differ in how many bits the whole number may have and how far the power
may go. Rounding to a format is rounding a quotient of whole numbers to
the nearest multiple of a power of two, ties to even, so nothing here
depends on the machine's own arithmetic. The whole number is kept odd
(zero has power zero): equal values are equal terms, and a number of a
narrow format is the same term in a wider one.
-/

namespace Docsmith.Decimal

/-- A binary format: bits of the whole number, least and greatest power. -/
structure Format where
  precision : Nat
  least : Int
  greatest : Int
  deriving DecidableEq, Repr

/-- Sixty-four bits. -/
def Format.double : Format := ⟨53, -1074, 971⟩

/-- Thirty-two bits. -/
def Format.single : Format := ⟨24, -149, 104⟩

/-- A floating-point value; `finite` stands for `± mantissa · 2 ^ power`. -/
inductive Binary where
  | finite (negative : Bool) (mantissa : Nat) (power : Int)
  | infinite (negative : Bool)
  | nan
  deriving DecidableEq, Repr

/-- The quotient rounded to the nearest whole number, ties to even. -/
def roundDiv (num den : Nat) : Nat :=
  let q := num / den
  let r := num % den
  if 2 * r < den then q
  else if den < 2 * r then q + 1
  else if q % 2 = 0 then q else q + 1

/-- `num / den` as a quotient after scaling by `2 ^ power`. -/
def scaleByTwo (power : Int) (num den : Nat) : Nat × Nat :=
  match power with
  | .ofNat k => (num * Nat.pow 2 k, den)
  | .negSucc k => (num, den * Nat.pow 2 (k + 1))

/-- `num / den` as a quotient after scaling by `10 ^ power`. -/
def scaleByTen (power : Int) (num den : Nat) : Nat × Nat :=
  match power with
  | .ofNat k => (num * Nat.pow 10 k, den)
  | .negSucc k => (num, den * Nat.pow 10 (k + 1))

/-- Moves factors of two from the whole number into the power; `fuel`
bounds the number of factors. -/
def reduceBy : Nat → Nat → Int → Nat × Int
  | 0, m, e => (m, e)
  | fuel + 1, m, e =>
    if m = 0 then (0, 0)
    else if m % 2 = 0 then reduceBy fuel (m / 2) (e + 1)
    else (m, e)

/-- The value `± m · 2 ^ e` with an odd whole number. -/
def Binary.ofParts (negative : Bool) (m : Nat) (e : Int) : Binary :=
  if m = 0 then .finite negative 0 0
  else
    let (m, e) := reduceBy (m.log2 + 1) m e
    .finite negative m e

/-- `± num / den` rounded to a format; values beyond it become infinite. -/
def Format.round (format : Format) (negative : Bool) (num den : Nat) : Binary :=
  if num = 0 then .finite negative 0 0
  else
    let guess : Int := (num.log2 : Int) - (den.log2 : Int) - (format.precision : Int)
    let fits (e : Int) : Bool :=
      let (a, b) := scaleByTwo (-e) num den
      a < b * Nat.pow 2 format.precision
    let power := max format.least (if fits guess then guess else guess + 1)
    let (a, b) := scaleByTwo (-power) num den
    let m := roundDiv a b
    let (m, power) :=
      if m = Nat.pow 2 format.precision then (Nat.pow 2 (format.precision - 1), power + 1)
      else (m, power)
    if format.greatest < power then .infinite negative else .ofParts negative m power

/-- `± digits · 10 ^ exponent` rounded to a format. The exponent is looked
at first, so that one of any size costs nothing. -/
def Format.ofDecimal (format : Format) (negative : Bool) (digits : Nat) (exponent : Int) :
    Binary :=
  if digits = 0 then .finite negative 0 0
  else
    let size : Int := ((Nat.toDigits 10 digits).length : Int) + exponent
    if 400 < size then .infinite negative
    else if size < -400 then .finite negative 0 0
    else
      let (num, den) := scaleByTen exponent digits 1
      format.round negative num den

/-- A whole number rounded to a format. -/
def Format.ofInt (format : Format) (n : Int) : Binary :=
  format.round (decide (n < 0)) n.natAbs 1

/-- The value rounded to a format. -/
def Binary.roundTo (format : Format) : Binary → Binary
  | .finite negative m e =>
    let (num, den) := scaleByTwo e m 1
    format.round negative num den
  | x => x

/-- The product with a whole number, rounded to a format. -/
def Binary.timesNat (format : Format) (n : Nat) : Binary → Binary
  | .finite negative m e =>
    let (num, den) := scaleByTwo e (m * n) 1
    format.round negative num den
  | x => x

/-- The product, rounded to a format; of two finite numbers only, as are
all products here. -/
def Binary.times (format : Format) : Binary → Binary → Binary
  | .finite s m e, .finite t n f =>
    let (num, den) := scaleByTwo (e + f) (m * n) 1
    format.round (s != t) num den
  | x, .finite _ _ _ => x
  | _, y => y

/-- The quotient by a number other than zero, rounded to a format. -/
def Binary.over (format : Format) : Binary → Binary → Binary
  | .finite s m e, .finite t n f =>
    let (num, den) := scaleByTwo (e - f) m n
    format.round (s != t) num den
  | x, _ => x

/-- Neither infinite nor undefined. -/
def Binary.isFinite : Binary → Bool
  | .finite _ _ _ => true
  | _ => false

/-- The number lies between two whole numbers, both included; false of an
undefined value. -/
def Binary.between (low high : Nat) : Binary → Bool
  | .finite negative m e =>
    let (num, den) := scaleByTwo e m 1
    if negative && m ≠ 0 then false else low * den ≤ num && num ≤ high * den
  | _ => false

end Docsmith.Decimal
