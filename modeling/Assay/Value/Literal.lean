import Assay.Number.Text
import Assay.Text.Quoted
import Assay.Value.Label

/-!
Literals: the text of a value as it is written in messages and printed forms. A list stands in
square brackets, a tuple in round ones with a comma behind a single item, a set and a mapping in
braces; texts are quoted.
-/

set_option autoImplicit false
set_option relaxedAutoImplicit false

namespace Assay

def boolLiteral (b : Bool) : String := if b then "True" else "False"

/-- The words for the switches that a pattern turns on, joined by bars. -/
def Flags.literal (flags : Flags) : String :=
  let words :=
    [(flags.ignoreCase, "re.IGNORECASE"), (flags.multiLine, "re.MULTILINE"),
      (flags.dotAll, "re.DOTALL"), (flags.verbose, "re.VERBOSE"), (flags.asciiOnly, "re.ASCII")]
  "|".intercalate ((words.filter Prod.fst).map Prod.snd)

/-- The text of a pattern: its source in quotes, of which at most 200 characters are shown, and its
switches if it has any. -/
def Pattern.literal (p : Pattern) : String :=
  let quoted :=
    if p.forBytes then Text.quotedBytes (p.source.toList.map fun c => c.toNat.toUInt8)
    else Text.quoted p.source
  let source := String.ofList (quoted.toList.take 200)
  let switches := p.flags.literal
  "re.compile(" ++ source ++ (if switches == "" then "" else ", " ++ switches) ++ ")"

def Mode.literal (mode : Mode) : String :=
  "CheckOptions(sanitize=" ++ boolLiteral mode.sanitize ++ ", partial=" ++
    boolLiteral mode.partialCheck ++ ")"

def Number.literal : Number → String
  | .int n => toString n
  | .double d => d.toText
  | .fraction q => "Fraction(" ++ toString q.num ++ ", " ++ toString q.den ++ ")"

/-- The text of an atom, given the texts of objects. -/
def Atom.literal (object : Handle → String) : Atom → String
  | .null => "None"
  | .bool b => boolLiteral b
  | .number n => n.literal
  | .decimal d => "Decimal('" ++ d.toText ++ "')"
  | .text s => Text.quoted s
  | .bytes b => Text.quotedBytes b
  | .mode m => m.literal
  | .pattern p => p.literal
  | .object handle => object handle

/-- Texts in the brackets of a kind of sequences. -/
def SeqKind.enclose (items : List String) : SeqKind → String
  | .list => "[" ++ ", ".intercalate items ++ "]"
  | .tuple =>
    match items with
    | [item] => "(" ++ item ++ ",)"
    | _ => "(" ++ ", ".intercalate items ++ ")"
  | .set => if items.isEmpty then "set()" else "\x7b" ++ ", ".intercalate items ++ "\x7d"

def braced (entries : List (String × String)) : String :=
  "\x7b" ++ ", ".intercalate (entries.map fun (k, v) => k ++ ": " ++ v) ++ "\x7d"

/-- Entries in the brackets of a kind of mappings. -/
def MapKind.enclose (entries : List (String × String)) : MapKind → String
  | .plain => braced entries
  | .ordered =>
    if entries.isEmpty then "OrderedDict()"
    else
      let pairs := entries.map fun (k, v) => "(" ++ k ++ ", " ++ v ++ ")"
      "OrderedDict([" ++ ", ".intercalate pairs ++ "])"
  | .view => "mappingproxy(" ++ braced entries ++ ")"

namespace Data

mutual

/-- The text of a piece of data, given the texts of objects. -/
def literal (object : Handle → String) : Data → String
  | .atom a => a.literal object
  | .seq kind items => kind.enclose (itemLiterals object items)
  | .map kind entries => kind.enclose (entryLiterals object entries)
  | .endless => "..."

def itemLiterals (object : Handle → String) : List Data → List String
  | [] => []
  | item :: rest => literal object item :: itemLiterals object rest

def entryLiterals (object : Handle → String) : List (Data × Data) → List (String × String)
  | [] => []
  | (k, v) :: rest => (literal object k, literal object v) :: entryLiterals object rest

end

/-- The text of a piece of data inside a sentence: a text stands without quotes, and a fraction or
decimal as the number alone. -/
def shown (object : Handle → String) : Data → String
  | .atom (.text s) => s
  | .atom (.number (.fraction q)) =>
    if q.den == 1 then toString q.num else toString q.num ++ "/" ++ toString q.den
  | .atom (.decimal d) => d.toText
  | d => d.literal object

end Data

/-- The text of an object of which no more than its sort is known. -/
def Handle.plainLiteral (handle : Handle) : String := "<" ++ handle.sort.label ++ ">"

end Assay
