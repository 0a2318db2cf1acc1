import Assay.Number.Double

/-!
Numbers of three makes (whole numbers, doubles and fractions) and their exact order: two numbers are
compared as the rational numbers they stand for, whatever their makes.
-/

set_option autoImplicit false
set_option relaxedAutoImplicit false

namespace Assay

/-- What a number amounts to: a rational number, an infinity, or nothing comparable. -/
inductive Magnitude where
  | finite (value : Rat)
  | infinite (negative : Bool)
  | nan
  deriving DecidableEq

namespace Magnitude

/-- Equality of amounts; a NaN equals nothing, itself included. -/
def eq : Magnitude → Magnitude → Bool
  | .finite p, .finite q => p == q
  | .infinite m, .infinite n => m == n
  | _, _ => false

/-- The strict order of amounts; a NaN stands in no order. -/
def lt : Magnitude → Magnitude → Bool
  | .finite p, .finite q => p < q
  | .finite _, .infinite n => !n
  | .infinite m, .finite _ => m
  | .infinite m, .infinite n => m && !n
  | _, _ => false

def le (a b : Magnitude) : Bool := a.lt b || a.eq b

end Magnitude

def Double.magnitude : Double → Magnitude
  | .finite q => .finite q
  | .negZero => .finite 0
  | .infinite negative => .infinite negative
  | .nan _ => .nan

/-- A real number. -/
inductive Number where
  | int (value : Int)
  | double (value : Double)
  | fraction (value : Rat)
  deriving DecidableEq

namespace Number

def magnitude : Number → Magnitude
  | .int n => .finite n
  | .double d => d.magnitude
  | .fraction q => .finite q

/-- Exact comparison by amount. -/
def le (a b : Number) : Bool := a.magnitude.le b.magnitude

/-- Equality by amount. -/
def eq (a b : Number) : Bool := a.magnitude.eq b.magnitude

/-- Whether a number has no fractional part. A fraction is first rounded to the nearest double, and
one beyond every double is not whole. -/
def isWhole : Number → Bool
  | .int _ => true
  | .double d => d.isWhole
  | .fraction q => (Double.ofRat? q).any Double.isWhole

def isZero : Number → Bool
  | .int n => n == 0
  | .double d => d.isZero
  | .fraction q => q == 0

end Number

end Assay
