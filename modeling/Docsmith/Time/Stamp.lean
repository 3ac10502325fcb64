import Docsmith.Decimal.Shortest
import Docsmith.Text.Basic
/-!
# Time — spans and stamps

A stamp is a moment, told by the calendar in universal time. Days are
counted in runs of four centuries, which all have the same length, from
the first of March, so that a leap day ends its year.
-/

namespace Docsmith

/-! ## Spans

A span is a number of nanoseconds. It prints in the largest of the units
s, ms, µs and ns of which it holds at least one, with the fraction's
trailing zeros dropped.
-/

/-- A length of time. -/
structure Span where
  nanos : Nat
  deriving DecidableEq, Repr

namespace Span

/-- A whole number of seconds and some nanoseconds. -/
def ofParts (secs nanos : Nat) : Span :=
  ⟨secs * 1000000000 + nanos⟩

/-- A whole number of seconds. -/
def ofSecs (secs : Nat) : Span :=
  ofParts secs 0

/-- A whole number of milliseconds. -/
def ofMillis (millis : Nat) : Span :=
  ⟨millis * 1000000⟩

/-- `n` of a unit with `places` decimal places below it. -/
def inUnit (n places : Nat) (unit : String) : String :=
  let whole := n / Nat.pow 10 places
  let below := Decimal.digits (n % Nat.pow 10 places)
  let padded := List.replicate (places - below.length) '0' ++ below
  let fraction := (padded.reverse.dropWhile (· == '0')).reverse
  let tail := if n % Nat.pow 10 places = 0 then [] else '.' :: fraction
  String.ofList (Decimal.digits whole ++ tail) ++ unit

/-- The text of a span. -/
def text (s : Span) : String :=
  if 1000000000 ≤ s.nanos then inUnit s.nanos 9 "s"
  else if 1000000 ≤ s.nanos then inUnit s.nanos 6 "ms"
  else if 1000 ≤ s.nanos then inUnit s.nanos 3 "µs"
  else inUnit s.nanos 0 "ns"

end Span

/-! ## Stamps -/

/-- A moment: the nanoseconds since the beginning of the year 1970. -/
structure Stamp where
  nanos : Nat
  deriving DecidableEq, Repr

namespace Stamp

/-- Year, month and day. -/
structure Date where
  year : Nat
  month : Nat
  day : Nat
  deriving DecidableEq, Repr

/-- The days from the first of March of the year nought to the beginning of
the year 1970. -/
def daysBefore1970 : Nat := 719468

/-- The days in four centuries. -/
def daysInCycle : Nat := 146097

/-- The date that lies some days after the beginning of the year 1970. -/
def dateAfter (days : Nat) : Date :=
  let days := days + daysBefore1970
  let cycle := days / daysInCycle
  let inCycle := days % daysInCycle
  let year := (inCycle - inCycle / 1460 + inCycle / 36524 - inCycle / 146096) / 365
  let inYear := inCycle - (365 * year + year / 4 - year / 100)
  let month := (5 * inYear + 2) / 153
  let day := inYear - (153 * month + 2) / 5 + 1
  let month := if month < 10 then month + 3 else month - 9
  ⟨year + 400 * cycle + (if month ≤ 2 then 1 else 0), month, day⟩

/-- A number with leading zeros up to a width. -/
def padded (width n : Nat) : String :=
  let digits := toString n
  String.ofList (List.replicate (width - digits.length) '0') ++ digits

/-- The whole seconds. -/
def seconds (s : Stamp) : Nat :=
  s.nanos / 1000000000

/-- The date in figures. -/
def dateText (s : Stamp) : String :=
  let d := dateAfter (s.seconds / 86400)
  padded 4 d.year ++ "-" ++ padded 2 d.month ++ "-" ++ padded 2 d.day

/-- The time of day in figures. -/
def timeText (s : Stamp) : String :=
  let inDay := s.seconds % 86400
  padded 2 (inDay / 3600) ++ ":" ++ padded 2 (inDay / 60 % 60) ++ ":" ++ padded 2 (inDay % 60)

/-- Date and time as documents tell them. -/
def text (s : Stamp) : String :=
  s.dateText ++ " " ++ s.timeText

/-- Date and time as reports tell them: with the fraction of the second in
as many groups of three digits as it needs. -/
def precise (s : Stamp) : String :=
  let fraction := s.nanos % 1000000000
  let fractionText :=
    if fraction = 0 then ""
    else if fraction % 1000000 = 0 then "." ++ padded 3 (fraction / 1000000)
    else if fraction % 1000 = 0 then "." ++ padded 6 (fraction / 1000)
    else "." ++ padded 9 fraction
  s.dateText ++ "T" ++ s.timeText ++ fractionText ++ "Z"

end Stamp

end Docsmith
