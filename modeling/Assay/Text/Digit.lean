import Assay.Text.Ranges

/-!
Decimal digits of every script. The digits of a script stand in a row from its zero, so a list of
zeros is the whole table.
-/

set_option autoImplicit false
set_option relaxedAutoImplicit false

namespace Assay.Text

/-- The zero of each script that has decimal digits, in rising order. -/
def scriptZeros : List Nat :=
  [48, 1632, 1776, 1984, 2406, 2534, 2662, 2790, 2918, 3046, 3174, 3302, 3430, 3558, 3664, 3792,
    3872, 4160, 4240, 6112, 6160, 6470, 6608, 6784, 6800, 6992, 7088, 7232, 7248, 42528, 43216,
    43264, 43472, 43504, 43600, 44016, 65296, 66720, 68912, 69734, 69872, 69942, 70096, 70384,
    70736, 70864, 71248, 71360, 71472, 71904, 72016, 72784, 73040, 73120, 92768, 92864, 93008,
    120782, 120792, 120802, 120812, 120822, 123200, 123632, 125264, 130032]

/-- The digit that a code point stands for, looked up among the given zeros. -/
def digitAmong : List Nat → Nat → Option Nat
  | [], _ => none
  | first :: rest, c =>
    if c < first then none else if c ≤ first + 9 then some (c - first) else digitAmong rest c

/-- The value of a decimal digit of any script. -/
def digitValue? (c : Char) : Option Nat := digitAmong scriptZeros c.toNat

/-- Whether a character is a decimal digit of some script. -/
def isDigit (c : Char) : Bool := (digitValue? c).isSome

/-- Digits that stand for a value without counting in a decimal numeral: superscripts, subscripts,
circled and bracketed digits, and the digits of scripts without a zero. -/
def loneDigitRuns : List (Nat × Nat) :=
  [(178, 179), (185, 185), (4969, 4977), (6618, 6618), (8304, 8304), (8308, 8313), (8320, 8329),
    (9312, 9320), (9332, 9340), (9352, 9360), (9450, 9450), (9461, 9469), (9471, 9471),
    (10102, 10110), (10112, 10120), (10122, 10130), (68160, 68163), (69216, 69224),
    (69714, 69722), (127232, 127242)]

/-- Whether a character stands for a digit in any way. -/
def isDigitLike (c : Char) : Bool := isDigit c || inRuns loneDigitRuns c.toNat

end Assay.Text
