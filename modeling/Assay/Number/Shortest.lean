import Assay.Number.Double

/-!
The fewest decimal digits that read back as a given double. The numbers that round to `m * 2 ^ e`
form an interval; for one digit, two digits and so on the two decimal neighbours of the number are
tried, and the first grid with a neighbour inside the interval wins, the nearer of two hits.
-/

set_option autoImplicit false
set_option relaxedAutoImplicit false

namespace Assay.Shortest

/-- A positive decimal numeral: its digits and the place of its point, so that the value is
`0.d₁d₂… * 10 ^ point`. -/
structure Numeral where
  digits : List Char
  point : Int
  deriving DecidableEq

/-- The numbers that round to one double: a lower and an upper end, with or without the ends. -/
structure Interval where
  low : Rat
  high : Rat
  closed : Bool

namespace Interval

def has (i : Interval) (q : Rat) : Bool :=
  if i.closed then i.low ≤ q && q ≤ i.high else i.low < q && q < i.high

/-- The numbers that round to the positive double `q`. The gap below a power of two is half as wide
as the gap above it, except at the smallest exponent. -/
def around (q : Rat) : Interval :=
  let e := Double.lastPlace q.num.natAbs q.den
  let (a, b) := Double.inUnits q.num.natAbs q.den e
  let m := a / b
  let low :=
    if m == Nat.pow 2 52 && -1074 < e then Double.scaled (4 * m - 1) (e - 2)
    else Double.scaled (2 * m - 1) (e - 1)
  ⟨low, Double.scaled (2 * m + 1) (e - 1), m % 2 == 0⟩

end Interval

def tenPow (k : Int) : Rat :=
  if 0 ≤ k then (Nat.pow 10 k.toNat : Rat) else mkRat 1 (Nat.pow 10 (-k).toNat)

/-- The first of at most `fuel` exponents from `k` on whose power of ten is beyond `q`. -/
def climb (q : Rat) : Nat → Int → Int
  | 0, k => k
  | fuel + 1, k => if tenPow k ≤ q then climb q fuel (k + 1) else k

/-- The place of the decimal point of a positive number: the `k` with
`10 ^ (k - 1) ≤ q < 10 ^ k`, found from a first guess that is at most a few places short. -/
def pointOf (q : Rat) : Int :=
  climb q 6 (((q.num.natAbs.log2 : Int) - q.den.log2) * 30103 / 100000 - 2)

/-- The grid point of `count` digits that reads back as the double, if there is one: of the two
neighbours of `q` the one inside the interval, the nearer if both are, the even one on a tie. -/
def onGrid? (i : Interval) (q : Rat) (point : Int) (count : Nat) : Option Nat :=
  let unit := tenPow (point - count)
  let below := (q / unit).floor.toNat
  let lower := (below : Rat) * unit
  let upper := ((below + 1 : Nat) : Rat) * unit
  match i.has lower, i.has upper with
  | true, true =>
    if q - lower < upper - q then some below
    else if upper - q < q - lower then some (below + 1)
    else some (if below % 2 == 0 then below else below + 1)
  | true, false => some below
  | false, true => some (below + 1)
  | false, false => none

/-- The first digit count with a hit, and the hit. -/
def firstHit (i : Interval) (q : Rat) (point : Int) : Nat → Nat → Nat × Nat
  | 0, count => (count, (q / tenPow (point - count)).floor.toNat)
  | more + 1, count =>
    match onGrid? i q point count with
    | some digits => (count, digits)
    | none => firstHit i q point more (count + 1)

def dropFinalZeros (digits : List Char) : List Char :=
  (digits.reverse.dropWhile (· == '0')).reverse

/-- The shortest numeral that reads back as the positive double `q`. -/
def numeral (q : Rat) : Numeral :=
  let point := pointOf q
  let (count, number) := firstHit (.around q) q point 17 1
  let digits := Nat.toDigits 10 number
  ⟨dropFinalZeros digits, point + digits.length - count⟩

end Assay.Shortest
