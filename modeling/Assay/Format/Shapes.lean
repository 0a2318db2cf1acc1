import Assay.Pattern.Basic

/-!
The patterns of the built-in formats.
-/

set_option autoImplicit false
set_option relaxedAutoImplicit false

namespace Assay.Shapes

open Regex

def digits : ClassItem := .range 48 57

def smallHex : ClassItem := .range 97 102

def capitalHex : ClassItem := .range 65 70

def smallLetters : ClassItem := .range 97 122

def capitalLetters : ClassItem := .range 65 90

/-- A character as a member of a class. -/
def mark (c : Char) : ClassItem := .point c.toNat

/-- An expression between the start of the text and its end. -/
def whole (parts : List Regex) : Regex :=
  chain (.anchor .textStart :: (parts ++ [.anchor .lastLineEnd]))

/-- Six pairs of hexadecimal digits in small letters, with colons between them. -/
def mac : Pattern where
  source := "^([0-9a-f]\x7b2\x7d[:])\x7b5\x7d([0-9a-f]\x7b2\x7d)$"
  rule :=
    let pair := times 2 (oneOf [digits, smallHex])
    whole [times 5 (.group 1 (.seq pair (oneOf [mark ':']))), .group 2 pair]

/-- A number of at most three digits that is not greater than 255. -/
def octet : Regex :=
  .alt (chain [lit '2', lit '5', oneOf [.range 48 53]])
    (.alt (chain [lit '2', oneOf [.range 48 52], oneOf [digits]])
      (chain [maybe (oneOf [mark '0', mark '1']), oneOf [digits], maybe (oneOf [digits])]))

/-- The source of `octet`. -/
def octetSource : String := "(25[0-5]|2[0-4][0-9]|[01]?[0-9][0-9]?)"

/-- Four octets with dots between them. -/
def ipv4 : Pattern where
  source := "^" ++ "\\.".intercalate (List.replicate 4 octetSource) ++ "$"
  rule :=
    whole
      [.group 1 octet, lit '.', .group 2 octet, lit '.', .group 3 octet, lit '.', .group 4 octet]

/-- The characters and the length of an address of version 6. -/
def ipv6 : Pattern where
  source := "^[0-9A-Fa-f:.]\x7b2,45\x7d$"
  rule := whole [between 2 45 (oneOf [digits, capitalHex, smallHex, mark ':', mark '.'])]

/-- Twenty-four hexadecimal digits. -/
def objectId : Pattern where
  source := "^[0-9a-fA-F]\x7b24\x7d$"
  rule := whole [times 24 (oneOf [digits, smallHex, capitalHex])]

/-- The characters that a plain part of a mail address does not hold, beside white space. -/
def mailMarks : List ClassItem := "<>()[]\\.,;:".toList.map mark

/-- A plain part of the local side of a mail address. -/
def mailAtom : Regex :=
  oneOrMore (noneOf (mailMarks ++ [.named .blank false false, mark '@', mark '"']))

/-- A mail address: plain parts with dots between them or anything in double quotes, then an at
sign, then a dotted quad in brackets or a domain name. -/
def email : Pattern where
  source :=
    "^(([^<>()\\[\\]\\\\.,;:\\s@\"]+(\\.[^<>()\\[\\]\\\\.,;:\\s@\"]+)*)|(\".+\"))" ++
      "@((\\[[0-9]\x7b1,3\x7d\\.[0-9]\x7b1,3\x7d\\.[0-9]\x7b1,3\x7d\\.[0-9]\x7b1,3\x7d\\])|" ++
      "(([a-zA-Z\\-0-9]+\\.)+[a-zA-Z]\x7b2,\x7d))$"
  rule :=
    let number := between 1 3 (oneOf [digits])
    whole
      [.group 1
        (.alt (.group 2 (.seq mailAtom (anyTimes (.group 3 (.seq (lit '.') mailAtom)))))
          (.group 4 (chain [lit '"', oneOrMore (noneOf [.point 10]), lit '"']))),
       lit '@',
       .group 5
        (.alt
          (.group 6
            (chain [lit '[', number, lit '.', number, lit '.', number, lit '.', number, lit ']']))
          (.group 7
            (.seq
              (oneOrMore
                (.group 8
                  (.seq (oneOrMore (oneOf [smallLetters, capitalLetters, mark '-', digits]))
                    (lit '.'))))
              (.many (oneOf [smallLetters, capitalLetters]) 2 none true))))]

/-- Fourteen digits in groups of three, three, three and five, each space between them optional. -/
def siret : Pattern where
  source := "^[0-9]\x7b3\x7d ?[0-9]\x7b3\x7d ?[0-9]\x7b3\x7d ?[0-9]\x7b5\x7d$"
  rule :=
    let three := times 3 (oneOf [digits])
    let gap := maybe (lit ' ')
    whole [three, gap, three, gap, three, gap, times 5 (oneOf [digits])]

end Assay.Shapes
