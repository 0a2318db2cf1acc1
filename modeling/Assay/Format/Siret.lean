import Assay.Checker.Basic
import Assay.Format.Luhn

/-!
Establishment numbers: fourteen digits with a valid checksum, written in groups of three, three,
three and five.
-/

set_option autoImplicit false
set_option relaxedAutoImplicit false

namespace Assay.Siret

/-- Digits in groups of three, three, three and the rest, with a space between the groups. -/
def group (digits : List Char) : List Char :=
  digits.take 3 ++ ' ' :: ((digits.drop 3).take 3 ++ ' ' :: ((digits.drop 6).take 3 ++
    ' ' :: digits.drop 9))

def format (digits : String) : String := String.ofList (group digits.toList)

/-- The check behind the pattern: the checksum must be valid; when values may be replaced the
number is put into its grouped form. A value that is no text has no digits to look at. -/
def checkNumber (v : Value) (ctx : Context) : CheckM Value := do
  match v.text? with
  | none => throw (.fault .noAttribute)
  | some s =>
    let digits := Text.dropBlanks s.toList
    match Luhn.validText digits with
    | .error failure => throw failure
    | .ok false => return .bool false
    | .ok true =>
      if ctx.mode.sanitize then return .text (String.ofList (group digits)) else return .null

def check : CustomCheck := ⟨"_siret_check", checkNumber⟩

end Assay.Siret
