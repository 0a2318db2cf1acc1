import Assay.Number.Shortest
import Assay.Number.Decimal

/-!
Numbers as texts: how a double is written, and which texts are read as a whole number or a double.
-/

set_option autoImplicit false
set_option relaxedAutoImplicit false

namespace Assay

/-- How a double is laid out: the places of the decimal point from which and up to which the
numeral is positional, and the least number of exponent digits. -/
structure DoubleLayout where
  positionalFrom : Int
  positionalTo : Int
  exponentDigits : Nat

/-- Doubles from `0.0001` up to below `10 ^ 16` are written positionally, with at least one digit
behind the point; the others get an exponent of at least two digits. -/
def DoubleLayout.literal : DoubleLayout := ⟨-3, 16, 2⟩

/-- The text of a numeral in a layout. -/
def DoubleLayout.render (layout : DoubleLayout) (n : Shortest.Numeral) : String :=
  let size : Int := n.digits.length
  if layout.positionalFrom ≤ n.point && n.point ≤ layout.positionalTo then
    if n.point ≤ 0 then
      "0." ++ String.ofList (List.replicate (-n.point).toNat '0' ++ n.digits)
    else if size ≤ n.point then
      String.ofList (n.digits ++ List.replicate (n.point - size).toNat '0') ++ ".0"
    else
      String.ofList (n.digits.take n.point.toNat) ++ "." ++
        String.ofList (n.digits.drop n.point.toNat)
  else
    let power := n.point - 1
    let digits := Nat.toDigits 10 power.natAbs
    let padding := List.replicate (layout.exponentDigits - digits.length) '0'
    let mantissa :=
      match n.digits with
      | [] => "0"
      | [d] => String.ofList [d]
      | d :: rest => String.ofList (d :: '.' :: rest)
    mantissa ++ "e" ++ (if power < 0 then "-" else "+") ++ String.ofList (padding ++ digits)

/-- The shortest text that reads back as a double. -/
def Double.toText : Double → String
  | .finite q =>
    if q = 0 then "0.0"
    else if q < 0 then "-" ++ DoubleLayout.literal.render (Shortest.numeral (-q))
    else DoubleLayout.literal.render (Shortest.numeral q)
  | .negZero => "-0.0"
  | .infinite negative => if negative then "-inf" else "inf"
  | .nan _ => "nan"

namespace Text

/-- A text without its underscores, if each of them stands between two decimal digits; the first
argument says whether a digit stands before the text. -/
def joinGroups (afterDigit : Bool) : List Char → Option (List Char)
  | [] => some []
  | '_' :: rest =>
    if afterDigit && rest.head?.any isDigit then joinGroups false rest else none
  | c :: rest => (joinGroups (isDigit c) rest).map (c :: ·)

/-- The most digits that a whole number may be written with. -/
def longestNumeral : Nat := 4300

/-- The whole number that a text writes: an optional sign and decimal digits of any script, which
may be grouped by single underscores, with padding around it. -/
def integer? (s : String) : Option Int := do
  let (negative, rest) := takeSign (trimPadding s.toList)
  let digits ← joinGroups false rest
  if digits.isEmpty || !digits.all isDigit || longestNumeral < digits.length then none
  else
    let n : Int := natOfDigits digits
    some (if negative then -n else n)

/-- The double nearest to `n * 10 ^ e`, with the sign given apart. Exponents that are beyond every
double are settled by the size of the number alone. -/
def doubleOfScientific (negative : Bool) (n : Nat) (digits : Nat) (e : Int) : Double :=
  let zero : Double := if negative then .negZero else .finite 0
  if n = 0 || (digits : Int) + e < -400 then zero
  else if 400 < e then .infinite negative
  else
    let magnitude := (n : Rat) * Shortest.tenPow e
    match Double.ofRat? (if negative then -magnitude else magnitude) with
    | some d => d
    | none => .infinite negative

/-- The double that a text writes: digits with an optional point and exponent, or a word for an
infinity or a NaN, with padding around it; a NaN gets the tag. -/
def double? (tag : Nat) (s : String) : Option Double := do
  let (negative, rest) := takeSign (← joinGroups false (trimPadding s.toList))
  let word := asciiLower rest
  if word == "inf" || word == "infinity" then some (.infinite negative)
  else if word == "nan" then some (.nan tag)
  else
    let (whole, rest) := spanDigits rest
    let (part, rest) :=
      match rest with
      | '.' :: after => spanDigits after
      | _ => ([], rest)
    if whole.isEmpty && part.isEmpty then none
    else
      let e ← exponent? rest
      let digits := whole ++ part
      let e := e - part.length
      some (doubleOfScientific negative (natOfDigits digits) digits.length e)

end Text

end Assay
