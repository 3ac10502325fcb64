import Docsmith.Decimal.Binary
/-!
# The shortest decimal that reads back

Every value of a format owns the interval of real numbers that round to
it. The shortest decimal is the coarsest decimal grid with a point in that
interval, and of the points there the one nearest to the value. Only the
grid points on both sides of the value need a look: where a grid has a
point in the interval, one of those two is in it.
-/

namespace Docsmith.Decimal

/-- A decimal number `digits · 10 ^ exponent`. -/
structure Grid where
  digits : Nat
  exponent : Int
  deriving DecidableEq, Repr

/-- The whole number written with as many bits as the format allows. -/
def widen (format : Format) (m : Nat) (e : Int) : Nat × Int :=
  let spare : Int := min ((format.precision : Int) - 1 - (m.log2 : Int)) (e - format.least)
  if 0 < spare then (m * Nat.pow 2 spare.toNat, e - spare) else (m, e)

/-- The interval that rounds to a value: twice-halved ends around the whole
number, the power they count in, and whether the ends belong to it. -/
structure Basin where
  low : Nat
  high : Nat
  power : Int
  closed : Bool

/-- The basin of `m · 2 ^ e`, which is narrower below where the spacing
halves. -/
def basin (format : Format) (m : Nat) (e : Int) : Basin :=
  let (m, e) := widen format m e
  let narrow := m = Nat.pow 2 (format.precision - 1) ∧ format.least < e
  ⟨4 * m - (if narrow then 1 else 2), 4 * m + 2, e - 2, m % 2 == 0⟩

/-- The grid point lies in the basin. -/
def Basin.holds (b : Basin) (point : Grid) : Bool :=
  let (p, d) := scaleByTen point.exponent point.digits 1
  let (lowNum, lowDen) := scaleByTwo b.power b.low 1
  let (highNum, highDen) := scaleByTwo b.power b.high 1
  if b.closed then lowNum * d ≤ p * lowDen && p * highDen ≤ highNum * d
  else lowNum * d < p * lowDen && p * highDen < highNum * d

/-- The better neighbour of the value on one grid, if it is in the basin. -/
def onGrid? (b : Basin) (num den : Nat) (exponent : Int) : Option Grid :=
  let (a, d) := scaleByTen (-exponent) num den
  let below := a / d
  let rest := a % d
  let near : Grid := ⟨if 2 * rest < d || (2 * rest = d && below % 2 = 0) then below
    else below + 1, exponent⟩
  let far : Grid := ⟨if near.digits = below then below + 1 else below, exponent⟩
  if near.digits ≠ 0 && b.holds near then some near
  else if far.digits ≠ 0 && b.holds far then some far
  else none

/-- The first grid, from the coarse ones down, with a point in the basin. -/
def search (b : Basin) (num den : Nat) : Nat → Int → Grid
  | 0, exponent => ⟨num / den, exponent⟩
  | fuel + 1, exponent =>
    match onGrid? b num den exponent with
    | some point => point
    | none => search b num den fuel (exponent - 1)

/-- Drops factors of ten. -/
def Grid.strip : Nat → Grid → Grid
  | 0, g => g
  | fuel + 1, g =>
    if g.digits ≠ 0 && g.digits % 10 = 0 then strip fuel ⟨g.digits / 10, g.exponent + 1⟩ else g

/-- The shortest decimal that reads back as `m · 2 ^ e` in the format. -/
def shortest (format : Format) (m : Nat) (e : Int) : Grid :=
  if m = 0 then ⟨0, 0⟩
  else
    let (num, den) := scaleByTwo e m 1
    let top : Int := if den ≤ num then ((Nat.toDigits 10 (num / den)).length : Int)
      else 1 - ((Nat.toDigits 10 (den / num)).length : Int)
    (search (basin format m e) num den 25 (top + 1)).strip 400

/-- How a shortest decimal is laid out. A number with its point at place
`k` (so that `0.d₁d₂… · 10 ^ k` is the number) is positional for
`low < k ≤ high`, and in scientific form elsewhere. -/
structure Layout where
  low : Int
  high : Int
  /-- Whole numbers end in `.0`. -/
  pointZero : Bool

/-- The digits of `n` in base ten. -/
def digits (n : Nat) : List Char :=
  Nat.toDigits 10 n

/-- A signed whole number in base ten. -/
def signed (n : Int) : List Char :=
  if n < 0 then '-' :: digits n.natAbs else digits n.natAbs

/-- Writes a decimal in a layout. -/
def Layout.write (layout : Layout) (negative : Bool) (point : Grid) : List Char :=
  let sign : List Char := if negative then ['-'] else []
  let tail : List Char := if layout.pointZero then ['.', '0'] else []
  if point.digits = 0 then sign ++ '0' :: tail
  else
    let ds := digits point.digits
    let place : Int := (ds.length : Int) + point.exponent
    if 0 ≤ point.exponent && place ≤ layout.high then
      sign ++ ds ++ List.replicate point.exponent.toNat '0' ++ tail
    else if 0 < place && place ≤ layout.high then
      sign ++ ds.take place.toNat ++ '.' :: ds.drop place.toNat
    else if place ≤ 0 && layout.low < place then
      sign ++ ['0', '.'] ++ List.replicate (-place).toNat '0' ++ ds
    else
      let mantissa := match ds with
        | [d] => [d]
        | d :: more => d :: '.' :: more
        | [] => []
      sign ++ mantissa ++ 'e' :: signed (place - 1)

/-- Data formats write numbers from 1e-5 to 1e16 positionally. -/
def Layout.data : Layout := ⟨-5, 16, true⟩

/-- Data formats write numbers of thirty-two bits from 1e-6 to 1e13
positionally. -/
def Layout.dataSingle : Layout := ⟨-6, 13, true⟩

/-- Positional at every size, whole numbers without a point. -/
def Layout.plain : Layout := ⟨-400, 400, false⟩

/-- A value in running text: positional, whole numbers without a point. -/
def Binary.plainText (format : Format) : Binary → List Char
  | .finite negative m e => Layout.plain.write negative (shortest format m e)
  | .infinite negative => (if negative then "-inf" else "inf").toList
  | .nan => "NaN".toList

end Docsmith.Decimal
