import Assay.Checker.Basic
import Assay.Text.Split

/-!
Internet addresses of version 6: eight groups of up to four hexadecimal digits with colons between
them. One run of zero groups may be left out, which shows as two colons in a row; the last two
groups may be written as a dotted quad; and a percent sign may introduce the name of a zone.
-/

set_option autoImplicit false
set_option relaxedAutoImplicit false

namespace Assay

namespace AddressV6

def isHexDigit (c : Char) : Bool :=
  ('0' ≤ c && c ≤ '9') || ('a' ≤ c && c ≤ 'f') || ('A' ≤ c && c ≤ 'F')

/-- Whether a part is a group: one to four hexadecimal digits. -/
def isGroup (part : List Char) : Bool :=
  1 ≤ part.length && part.length ≤ 4 && part.all isHexDigit

/-- Whether a part is an octet: one to three decimal digits without a needless zero in front, of
value at most 255. -/
def isOctet (part : List Char) : Bool :=
  1 ≤ part.length && part.length ≤ 3 && part.all (fun c => '0' ≤ c && c ≤ '9') &&
  (part == ['0'] || part.head? != some '0') &&
  Nat.ble (part.foldl (fun n c => 10 * n + (c.toNat - 48)) 0) 255

/-- Whether a part is a dotted quad: four octets with dots between them. -/
def isQuad (part : List Char) : Bool :=
  let octets := Text.splitAt '.' part
  octets.length == 4 && octets.all isOctet

/-- How many groups a part stands for: two if it is a dotted quad and may be one. -/
def groupCount? (quadAllowed : Bool) (part : List Char) : Option Nat :=
  if isGroup part then some 1 else if quadAllowed && isQuad part then some 2 else none

/-- How many groups a list of parts stands for; a dotted quad may only come last. -/
def countGroups? (quadAllowed : Bool) : List (List Char) → Option Nat
  | [] => some 0
  | [part] => groupCount? quadAllowed part
  | part :: parts => do return (← groupCount? false part) + (← countGroups? quadAllowed parts)

/-- How many groups stand on one side of the two colons: none if the side is empty. -/
def countSide? (quadAllowed : Bool) (parts : List (List Char)) : Option Nat :=
  if parts == [[]] then some 0 else countGroups? quadAllowed parts

/-- The parts on both sides of the first pair of colons, where at least one part is on each side. -/
def cutAtGap : List (List Char) → Option (List (List Char) × List (List Char))
  | [] => none
  | first :: rest =>
    match rest.span fun part => !part.isEmpty with
    | (left, _ :: right) => if right.isEmpty then none else some (first :: left, right)
    | (_, []) => none

/-- Whether a text is an address without a zone. -/
def isAddress (s : List Char) : Bool :=
  let parts := Text.splitAt ':' s
  match cutAtGap parts with
  | some (left, right) =>
    match countSide? false left, countSide? true right with
    | some m, some n => m + n ≤ 7
    | _, _ => false
  | none => countGroups? true parts == some 8

/-- Whether a zone is acceptable: it must be there and hold no second percent sign. -/
def isZone (zone : List Char) : Bool := !zone.isEmpty && !zone.contains '%'

/-- Whether a text is an address, with or without a zone. -/
def accepts (s : List Char) : Bool :=
  !s.contains '/' &&
  match s.span (· != '%') with
  | (address, []) => isAddress address
  | (address, _ :: zone) => isZone zone && isAddress address

/-- Whether a value is an address: a text that is one, or a number below `2 ^ 128`. -/
def acceptsValue : Value → Bool
  | .atom (.text s) => accepts s.toList
  | .atom (.bool _) => true
  | .atom (.number (.int n)) => 0 ≤ n && n < (Nat.pow 2 128 : Nat)
  | .atom (.bytes b) => b.length == 16
  | _ => false

def check : CustomCheck := ⟨"_ipv6_check", fun v _ => pure (.bool (acceptsValue v))⟩

end AddressV6

end Assay
