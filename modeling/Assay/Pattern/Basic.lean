import Assay.Text.Blank
import Assay.Text.Case
import Assay.Text.Digit
import Assay.Text.Word

/-!
Patterns: what a text must look like from its first to its last character. A pattern is its source
text together with the expression the source stands for. Code points are natural numbers, so that a
class may name points that no text holds.
-/

set_option autoImplicit false
set_option relaxedAutoImplicit false

namespace Assay

/-- When two characters count as one: never, by their ASCII case, or by their case in any script. -/
inductive CaseRule where
  | exact
  | ascii
  | full
  deriving DecidableEq

namespace CaseRule

/-- The form of a code point under which characters are compared. -/
def fold : CaseRule → Nat → Nat
  | .exact, c => c
  | .ascii, c => if 65 ≤ c && c ≤ 90 then c + 32 else c
  | .full, c => Text.shiftCase Text.lowerRuns c

/-- The folded code points that count as one with a folded code point. -/
def equals : CaseRule → Nat → List Nat
  | .full, c => c :: Text.twins c
  | _, c => [c]

/-- The code points whose folded form is `c`. -/
def sources (rule : CaseRule) (c : Nat) : List Nat :=
  let kept := if rule.fold c == c then [c] else []
  match rule with
  | .exact => kept
  | .ascii => if 97 ≤ c && c ≤ 122 then [c - 32, c] else kept
  | .full => kept ++ Text.preimages Text.lowerRuns c

end CaseRule

/-- The named classes of characters. -/
inductive CharKind where
  | digit
  | blank
  | word
  deriving DecidableEq

namespace CharKind

/-- Whether a character belongs to a named class, in every script or in ASCII alone. -/
def has (asciiOnly : Bool) (c : Nat) : CharKind → Bool
  | .digit =>
    if asciiOnly then 48 ≤ c && c ≤ 57 else (Text.digitAmong Text.scriptZeros c).isSome
  | .blank =>
    if asciiOnly then (9 ≤ c && c ≤ 13) || c == 32 else Text.inRuns Text.blankRuns c
  | .word =>
    if asciiOnly then
      (48 ≤ c && c ≤ 57) || (65 ≤ c && c ≤ 90) || c == 95 || (97 ≤ c && c ≤ 122)
    else c == 95 || Text.inRuns Text.wordRuns c

end CharKind

/-- One member of a class of characters. -/
inductive ClassItem where
  | point (c : Nat)
  | range (first last : Nat)
  | named (kind : CharKind) (asciiOnly negated : Bool)
  deriving DecidableEq

/-- Whether a member of a class covers a code point. -/
def ClassItem.has (rule : CaseRule) (c : Nat) : ClassItem → Bool
  | .point p => (rule.equals (rule.fold c)).contains (rule.fold p)
  | .range first last =>
    (rule.equals (rule.fold c)).any fun form =>
      (rule.sources form).any fun source => first ≤ source && source ≤ last
  | .named kind asciiOnly negated => kind.has asciiOnly (rule.fold c) != negated

/-- A class of characters: those that one of the members covers, or those that none does. -/
structure CharClass where
  negated : Bool := false
  rule : CaseRule := .exact
  items : List ClassItem
  deriving DecidableEq

def CharClass.has (cls : CharClass) (c : Char) : Bool :=
  cls.items.any (fun item => item.has cls.rule c.toNat) != cls.negated

/-- Places in a text that an expression may ask for. -/
inductive Anchor where
  | textStart
  | textEnd
  | lineStart
  | lineEnd
  | lastLineEnd
  | wordEdge (asciiOnly : Bool)
  | noWordEdge (asciiOnly : Bool)
  deriving DecidableEq

/-- An expression over texts. A `given` goes one way if a group was closed and the other way if it
was not. -/
inductive Regex where
  | nothing
  | char (cls : CharClass)
  | seq (first second : Regex)
  | alt (first second : Regex)
  | many (body : Regex) (least : Nat) (most : Option Nat) (greedy : Bool)
  | group (number : Nat) (body : Regex)
  | again (number : Nat) (rule : CaseRule)
  | given (number : Nat) (closed opened : Regex)
  | anchor (place : Anchor)
  | look (back : Option Nat) (negated : Bool) (body : Regex)
  | atomic (body : Regex)
  deriving DecidableEq

namespace Regex

/-- One given character. -/
def lit (c : Char) : Regex := .char { items := [.point c.toNat] }

/-- One character of a class given by its members. -/
def oneOf (items : List ClassItem) : Regex := .char { items }

/-- One character outside a class given by its members. -/
def noneOf (items : List ClassItem) : Regex := .char { negated := true, items }

/-- Expressions one after the other. -/
def chain : List Regex → Regex
  | [] => .nothing
  | [r] => r
  | r :: rest => .seq r (chain rest)

def times (n : Nat) (r : Regex) : Regex := .many r n (some n) true

/-- From `least` to `most` times, as often as possible. -/
def between (least most : Nat) (r : Regex) : Regex := .many r least (some most) true

/-- Once or more, as often as possible. -/
def oneOrMore (r : Regex) : Regex := .many r 1 none true

/-- Any number of times, as often as possible. -/
def anyTimes (r : Regex) : Regex := .many r 0 none true

def maybe (r : Regex) : Regex := .many r 0 (some 1) true

end Regex

/-- The switches of a pattern. -/
structure Flags where
  ignoreCase : Bool := false
  multiLine : Bool := false
  dotAll : Bool := false
  verbose : Bool := false
  asciiOnly : Bool := false
  deriving DecidableEq

/-- A pattern: its source, the switches that the source turns on for the whole, and what it stands
for. A pattern for bytes has a character in its source for each byte, and no text can be laid
against it. -/
structure Pattern where
  source : String
  flags : Flags := {}
  forBytes : Bool := false
  rule : Regex
  deriving DecidableEq

end Assay
