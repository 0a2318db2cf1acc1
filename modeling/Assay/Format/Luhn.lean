import Assay.Failure

/-!
The Luhn checksum. From the right, every second digit is doubled, and nine is taken off a double
that is greater than nine; the sum has to be a multiple of ten.
-/

set_option autoImplicit false
set_option relaxedAutoImplicit false

namespace Assay.Luhn

/-- A digit doubled, less nine if the double is greater than nine. -/
def double (n : Int) : Int := if 9 < 2 * n then 2 * n - 9 else 2 * n

/-- The sum of digits listed from the right; the flag says whether the first one is doubled. -/
def sum : Bool → List Int → Int
  | _, [] => 0
  | false, n :: rest => n + sum true rest
  | true, n :: rest => double n + sum false rest

/-- Whether digits listed from the left have a valid checksum. -/
def valid (digits : List Int) : Bool := sum false digits.reverse % 10 == 0

/-- The digits of a text, if it consists of decimal digits of any script. -/
def digits? (s : List Char) : Option (List Int) :=
  s.mapM fun c => (Text.digitValue? c).map Int.ofNat

/-- Whether a text of decimal digits has a valid checksum; other texts have none. -/
def validText (s : List Char) : Except Failure Bool :=
  match digits? s with
  | some digits => .ok (valid digits)
  | none => .error (.fault .wrongValue)

/-- The whole number that a text writes. -/
def wholeText (s : String) : Except Failure Int :=
  match Text.integer? s with
  | some n => .ok n
  | none => .error (.fault .wrongValue)

/-- The whole number that a value is cut down to: a number without its fractional part, a truth
value as zero or one, or the number that a text writes. -/
def wholePart : Data → Except Failure Int
  | .atom (.bool b) => .ok (if b then 1 else 0)
  | .atom (.text s) => wholeText s
  | .atom (.bytes b) => wholeText (String.ofList (b.map fun byte => Char.ofNat byte.toNat))
  | .atom a =>
    match a.magnitude? with
    | some (.finite q) => .ok (if q < 0 then -((-q).floor) else q.floor)
    | some (.infinite _) => .error (.fault .overflow)
    | some .nan => .error (.fault .wrongValue)
    | none => .error (.fault .wrongType)
  | _ => .error (.fault .wrongType)

/-- The digits that a value lists from the right: a text its characters, bytes their numbers, a list
or tuple its items and a mapping its keys, each cut down to a whole number. -/
def reversedDigits : Data → Except Failure (List Int)
  | .atom (.text s) => (s.toList.reverse).mapM fun c => wholePart (.text (String.singleton c))
  | .atom (.bytes b) => .ok (b.reverse.map fun byte => byte.toNat)
  | .seq .set _ => .error (.fault .wrongType)
  | .seq _ items => items.reverse.mapM wholePart
  | .map _ entries => (entries.map Prod.fst).reverse.mapM wholePart
  | _ => .error (.fault .wrongType)

/-- Whether the digits that a value lists have a valid checksum. -/
def validData (d : Data) : Except Failure Bool := do
  return sum false (← reversedDigits d) % 10 == 0

end Assay.Luhn
