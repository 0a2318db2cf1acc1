import Assay.Number.Text
import Assay.Text.Split
import Assay.Value.Data

/-!
Reading JSON documents. Beside the standard forms a document may name the infinities and a NaN; of
several entries with one key the last one counts, at the place of the first.
-/

set_option autoImplicit false
set_option relaxedAutoImplicit false

namespace Assay

/-- The entries with a value under a key: in place if the key is there, else at the end. -/
def Data.putEntry : List (Data × Data) → Data → Data → List (Data × Data)
  | [], key, value => [(key, value)]
  | entry :: rest, key, value =>
    if entry.1 == key then (entry.1, value) :: rest else entry :: putEntry rest key value

namespace Json

/-- Whether a character may stand between the parts of a document. -/
def isSpace (c : Char) : Bool := c == ' ' || c == '\t' || c == '\n' || c == '\r'

/-- A text without the space at its start. -/
def skip (s : List Char) : List Char := s.dropWhile isSpace

def hexValue? (c : Char) : Option Nat :=
  if '0' ≤ c && c ≤ '9' then some (c.toNat - 48)
  else if 'a' ≤ c && c ≤ 'f' then some (c.toNat - 87)
  else if 'A' ≤ c && c ≤ 'F' then some (c.toNat - 55)
  else none

/-- A number of four hexadecimal digits, and the rest. -/
def hexFour? : List Char → Option (Nat × List Char)
  | a :: b :: c :: d :: rest => do
    let n := (((← hexValue? a) * 16 + (← hexValue? b)) * 16 + (← hexValue? c)) * 16 +
      (← hexValue? d)
    some (n, rest)
  | _ => none

/-- The character of a `\u` escape, after its `u`: two escapes in a row may make one character. -/
def unicodeEscape? (s : List Char) : Option (Char × List Char) := do
  let (n, rest) ← hexFour? s
  if 0xD800 ≤ n && n ≤ 0xDBFF then
    match rest with
    | '\\' :: 'u' :: more =>
      let (m, rest) ← hexFour? more
      if 0xDC00 ≤ m && m ≤ 0xDFFF then
        some (Char.ofNat (0x10000 + (n - 0xD800) * 0x400 + (m - 0xDC00)), rest)
      else none
    | _ => none
  else some (Char.ofNat n, rest)

/-- The character of an escape other than a `\u` escape. -/
def plainEscape? (c : Char) : Option Char :=
  [('"', '"'), ('\\', '\\'), ('/', '/'), ('b', '\x08'), ('f', '\x0c'), ('n', '\n'), ('r', '\r'),
    ('t', '\t')].lookup c

/-- The characters of a text up to its closing quote, after the opening one, and the rest. -/
def quoted? : Nat → List Char → Option (List Char × List Char)
  | 0, _ => none
  | _ + 1, [] => none
  | fuel + 1, c :: rest =>
    if c == '"' then some ([], rest)
    else if c.toNat < 32 then none
    else if c == '\\' then
      match rest with
      | 'u' :: more => do
        let (d, rest) ← unicodeEscape? more
        let (text, rest) ← quoted? fuel rest
        some (d :: text, rest)
      | e :: more => do
        let d ← plainEscape? e
        let (text, rest) ← quoted? fuel more
        some (d :: text, rest)
      | [] => none
    else do
      let (text, rest) ← quoted? fuel rest
      some (c :: text, rest)

/-- A run of ASCII digits, and the rest. -/
def digits (s : List Char) : List Char × List Char := s.span fun c => '0' ≤ c && c ≤ '9'

/-- The whole part of a number: a zero or digits without a zero in front. -/
def wholePart? (s : List Char) : Option (List Char × List Char) :=
  match s with
  | '0' :: rest => some (['0'], rest)
  | _ =>
    match digits s with
    | ([], _) => none
    | found => some found

/-- A point with digits behind it, and the rest; nothing if there is none. -/
def fraction (s : List Char) : List Char × List Char :=
  match s with
  | '.' :: rest =>
    match digits rest with
    | ([], _) => ([], s)
    | found => found
  | _ => ([], s)

/-- An exponent, and the rest; nothing if there is none. -/
def exponent (s : List Char) : Option Int × List Char :=
  match s with
  | mark :: rest =>
    if mark == 'e' || mark == 'E' then
      let (negative, rest) := Text.takeSign rest
      match digits rest with
      | ([], _) => (none, s)
      | (found, rest) =>
        let n : Int := Text.natOfDigits found
        (some (if negative then -n else n), rest)
    else (none, s)
  | [] => (none, s)

/-- A number, and the rest. With a point or an exponent it is a double. -/
def number? (s : List Char) : Option (Number × List Char) := do
  let (negative, rest) :=
    match s with
    | '-' :: rest => (true, rest)
    | _ => (false, s)
  let (whole, rest) ← wholePart? rest
  let (part, rest) := fraction rest
  let (power, rest) := exponent rest
  if part.isEmpty && power.isNone then
    let n : Int := Text.natOfDigits whole
    some (.int (if negative then -n else n), rest)
  else
    let all := whole ++ part
    some (.double (Text.doubleOfScientific negative (Text.natOfDigits all) all.length
      (power.getD 0 - part.length)), rest)

def words : List (String × Atom) :=
  [("null", .null), ("true", .bool true), ("false", .bool false),
    ("NaN", .number (.double (.nan 0))), ("Infinity", .number (.double (.infinite false))),
    ("-Infinity", .number (.double (.infinite true)))]

/-- A fixed word at the start of a text, and the rest. -/
def word? (s : List Char) : Option (Atom × List Char) :=
  words.findSome? fun (word, atom) => (Text.stripStart? word.toList s).map fun rest => (atom, rest)

mutual

/-- A value at the start of a text, and the rest. -/
def value? : Nat → List Char → Option (Data × List Char)
  | 0, _ => none
  | fuel + 1, s =>
    match s with
    | '"' :: rest => do
      let (text, rest) ← quoted? (rest.length + 1) rest
      some (.text (String.ofList text), rest)
    | '[' :: rest =>
      match skip rest with
      | ']' :: rest => some (.seq .list [], rest)
      | rest => do
        let (items, rest) ← items? fuel rest
        some (.seq .list items, rest)
    | '{' :: rest =>
      match skip rest with
      | '}' :: rest => some (.map .plain [], rest)
      | rest => do
        let (entries, rest) ← entries? fuel [] rest
        some (.map .plain entries, rest)
    | _ =>
      match word? s with
      | some (atom, rest) => some (.atom atom, rest)
      | none => (number? s).map fun (n, rest) => (.atom (.number n), rest)

def items? : Nat → List Char → Option (List Data × List Char)
  | 0, _ => none
  | fuel + 1, s => do
    let (item, rest) ← value? fuel (skip s)
    match skip rest with
    | ',' :: rest =>
      let (items, rest) ← items? fuel rest
      some (item :: items, rest)
    | ']' :: rest => some ([item], rest)
    | _ => none

/-- The entries of an object up to its closing brace, added to those read before, and the rest. -/
def entries? : Nat → List (Data × Data) → List Char → Option (List (Data × Data) × List Char)
  | 0, _, _ => none
  | fuel + 1, entries, s =>
    match skip s with
    | '"' :: rest => do
      let (key, rest) ← quoted? (rest.length + 1) rest
      match skip rest with
      | ':' :: rest =>
        let (value, rest) ← value? fuel (skip rest)
        let entries := Data.putEntry entries (.text (String.ofList key)) value
        match skip rest with
        | ',' :: rest => entries? fuel entries rest
        | '}' :: rest => some (entries, rest)
        | _ => none
      | _ => none
    | _ => none

end

def document? (text : String) : Option Data :=
  let s := text.toList
  match value? (2 * s.length + 2) (skip s) with
  | some (value, rest) => if (skip rest).isEmpty then some value else none
  | none => none

end Json

end Assay
