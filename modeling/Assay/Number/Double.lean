/-!
Doubles: numbers with 53 binary places and an exponent down to -1074. A finite double is kept as the
rational number it stands for, so comparing doubles with other numbers needs no rounding; rounding
happens only where a number becomes a double (`Double.ofRat?`).
-/

set_option autoImplicit false
set_option relaxedAutoImplicit false

namespace Assay

/-- A double. Zero with a minus sign is told apart from zero, and a NaN carries a number that tells
it apart from NaNs made elsewhere. -/
inductive Double where
  | finite (value : Rat)
  | negZero
  | infinite (negative : Bool)
  | nan (tag : Nat)
  deriving DecidableEq

namespace Double

/-- The quotient `n / d` rounded to a natural number; a half goes to the even neighbour. -/
def roundDiv (n d : Nat) : Nat :=
  if 2 * (n % d) < d then n / d
  else if d < 2 * (n % d) then n / d + 1
  else n / d + n / d % 2

/-- Numerator and denominator of `n / d` measured in units of `2 ^ e`. -/
def inUnits (n d : Nat) (e : Int) : Nat × Nat :=
  if 0 ≤ e then (n, d * Nat.pow 2 e.toNat) else (n * Nat.pow 2 (-e).toNat, d)

/-- The exponent of the last binary place that a double near `n / d` keeps: 53 places are kept,
and none beyond `2 ^ -1074`. -/
def lastPlace (n d : Nat) : Int :=
  let e : Int := (n.log2 : Int) - d.log2 - 52
  let (a, b) := inUnits n d e
  max (-1074) (if a < b * Nat.pow 2 52 then e - 1 else e)

def scaled (m : Nat) (e : Int) : Rat :=
  if 0 ≤ e then ((m * Nat.pow 2 e.toNat : Nat) : Rat) else mkRat m (Nat.pow 2 (-e).toNat)

/-- The magnitude of the double nearest to `n / d`, or nothing when it is beyond every double. -/
def roundMagnitude? (n d : Nat) : Option Rat :=
  let e := lastPlace n d
  let (a, b) := inUnits n d e
  let m := roundDiv a b
  if 0 ≤ e && Nat.pow 2 1024 ≤ m * Nat.pow 2 e.toNat then none else some (scaled m e)

/-- The double nearest to a rational number, halves going to the even neighbour, or nothing when
the number is beyond every double. A negative number too small for a double becomes `-0`. -/
def ofRat? (q : Rat) : Option Double :=
  if q = 0 then some (.finite 0)
  else
    (roundMagnitude? q.num.natAbs q.den).map fun magnitude =>
      if q < 0 then (if magnitude = 0 then .negZero else .finite (-magnitude))
      else .finite magnitude

/-- Whether a double is a whole number; infinities and NaNs are not. -/
def isWhole : Double → Bool
  | .finite q => q.den == 1
  | .negZero => true
  | .infinite _ => false
  | .nan _ => false

def isZero : Double → Bool
  | .finite q => q == 0
  | .negZero => true
  | .infinite _ => false
  | .nan _ => false

end Double

end Assay
