import Assay.Text.Blank
import Assay.Text.Digit

/-!
Decimal numbers: a coefficient and a power of ten, kept as written, so `1.0` and `1.00` are two
decimals of one value.
-/

set_option autoImplicit false
set_option relaxedAutoImplicit false

namespace Assay

/-- A decimal number `± coefficient * 10 ^ exponent`, an infinity or a NaN. A NaN carries a number
that tells it apart from NaNs made elsewhere. -/
inductive Decimal where
  | finite (negative : Bool) (coefficient : Nat) (exponent : Int)
  | infinite (negative : Bool)
  | nan (negative : Bool) (tag : Nat)
  deriving DecidableEq

/-- The number that a list of decimal digits of any script writes; a character that is no digit
counts as zero. -/
def Text.natOfDigits (digits : List Char) : Nat :=
  digits.foldl (fun n c => 10 * n + (Text.digitValue? c).getD 0) 0

/-- The longest run of decimal digits at the start of a text, and the rest. -/
def Text.spanDigits (s : List Char) : List Char × List Char := s.span Text.isDigit

/-- A leading sign, read as "is negative", and the rest. -/
def Text.takeSign : List Char → Bool × List Char
  | '-' :: rest => (true, rest)
  | '+' :: rest => (false, rest)
  | s => (false, s)

/-- An exponent mark with its signed digits, if the text is exactly that; the empty text is the
exponent zero. -/
def Text.exponent? : List Char → Option Int
  | [] => some 0
  | mark :: rest =>
    if mark == 'e' || mark == 'E' then
      let (negative, rest) := Text.takeSign rest
      let (digits, rest) := Text.spanDigits rest
      if digits.isEmpty || !rest.isEmpty then none
      else
        let n : Int := Text.natOfDigits digits
        some (if negative then -n else n)
    else none

/-- A text in small ASCII letters, for comparison with the fixed words of a format. -/
def Text.asciiLower (s : List Char) : String := String.ofList (s.map Char.toLower)

namespace Decimal

/-- The decimal that a text writes: sign, digits with an optional point, optional exponent, or a
word for an infinity or a NaN, which gets the tag. Underscores are skipped. A NaN that may not be
compared is no decimal here. -/
def ofText? (tag : Nat) (s : String) : Option Decimal :=
  let (negative, rest) := Text.takeSign (Text.trimPadding (s.toList.filter (· != '_')))
  let word := Text.asciiLower rest
  if word == "inf" || word == "infinity" then some (.infinite negative)
  else if word == "nan" then some (.nan negative tag)
  else
    let (whole, rest) := Text.spanDigits rest
    let (part, rest) :=
      match rest with
      | '.' :: after => Text.spanDigits after
      | _ => ([], rest)
    if whole.isEmpty && part.isEmpty then none
    else
      (Text.exponent? rest).map fun e =>
        .finite negative (Text.natOfDigits (whole ++ part)) (e - part.length)

/-- The text of a decimal: positional when the exponent is not positive and the first digit is at
most six places behind the point, else scientific with a signed exponent. -/
def toText : Decimal → String
  | .infinite negative => (if negative then "-" else "") ++ "Infinity"
  | .nan negative _ => (if negative then "-" else "") ++ "NaN"
  | .finite negative coefficient exponent =>
    let digits := Nat.toDigits 10 coefficient
    let leading : Int := exponent + digits.length
    let point : Int := if exponent ≤ 0 && -6 < leading then leading else 1
    let body :=
      if point ≤ 0 then "0." ++ String.ofList (List.replicate (-point).toNat '0' ++ digits)
      else if digits.length ≤ point.toNat then
        String.ofList (digits ++ List.replicate (point.toNat - digits.length) '0')
      else
        String.ofList (digits.take point.toNat) ++ "." ++ String.ofList (digits.drop point.toNat)
    let power : Int := leading - point
    let tail :=
      if power == 0 then "" else "E" ++ (if power < 0 then "-" else "+") ++ toString power.natAbs
    (if negative then "-" else "") ++ body ++ tail

end Decimal

end Assay
