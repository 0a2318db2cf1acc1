import Assay.Document.Json

/-!
Reading YAML documents: block mappings and sequences by indentation, flow collections, plain and
quoted scalars, literal and folded blocks, anchors and merged mappings. Plain scalars are resolved
to the absent value, truth values and numbers by the rules of YAML 1.1.
-/

set_option autoImplicit false
set_option relaxedAutoImplicit false

namespace Assay.Yaml

/-- What is left of a document, and the nodes that were given a name. -/
structure Reading where
  lines : List (List Char)
  anchors : List (List Char × Data) := []

abbrev ReadM := StateT Reading Option

def malformed {α : Type} : ReadM α := fun _ => none

/-! ## Scalars -/

def nullWords : List String := ["", "~", "null", "Null", "NULL"]

def trueWords : List String := ["yes", "Yes", "YES", "true", "True", "TRUE", "on", "On", "ON"]

def falseWords : List String :=
  ["no", "No", "NO", "false", "False", "FALSE", "off", "Off", "OFF"]

def isDigit (c : Char) : Bool := '0' ≤ c && c ≤ '9'

def digitIn? (base : Nat) (c : Char) : Option Nat := (Json.hexValue? c).filter (· < base)

/-- The number that digits write in a base; underscores between them are skipped. -/
def natIn? (base : Nat) (s : List Char) : Option Nat :=
  let digits := s.filter (· != '_')
  if digits.isEmpty then none
  else digits.foldlM (fun n c => (digitIn? base c).map fun d => base * n + d) 0

/-- Whether a part is a minute or a second: one or two digits below sixty. -/
def isSixtieth (s : List Char) : Bool :=
  match s with
  | [a] => isDigit a
  | [a, b] => '0' ≤ a && a ≤ '5' && isDigit b
  | _ => false

/-- The whole number of a numeral without sign: binary, octal, hexadecimal, decimal or in base
sixty. -/
def natural? (s : List Char) : Option Nat :=
  match s with
  | ['0'] => some 0
  | '0' :: 'b' :: rest => natIn? 2 rest
  | '0' :: 'x' :: rest => natIn? 16 rest
  | '0' :: rest => natIn? 8 rest
  | first :: _ =>
    if isDigit first then
      match Text.splitAt ':' s with
      | [] => none
      | head :: parts =>
        if parts.all isSixtieth then do
          let n ← natIn? 10 head
          parts.foldlM (fun n part => (natIn? 10 part).map fun d => 60 * n + d) n
        else none
    else none
  | [] => none

/-- The double of a numeral without sign: digits with a point and perhaps a signed exponent. -/
def double? (negative : Bool) (s : List Char) : Option Double := do
  let (whole, rest) := s.span fun c => isDigit c || c == '_'
  let rest ← match rest with | '.' :: rest => some rest | _ => none
  let (part, rest) := rest.span fun c => isDigit c || c == '_'
  let power ←
    match rest with
    | [] => some (0 : Int)
    | mark :: sign :: digits =>
      if (mark == 'e' || mark == 'E') && (sign == '-' || sign == '+') && !digits.isEmpty &&
          digits.all isDigit then
        let n : Int := Text.natOfDigits digits
        some (if sign == '-' then -n else n)
      else none
    | _ => none
  let part := part.filter (· != '_')
  let digits := whole.filter (· != '_') ++ part
  if whole.head? == some '_' || digits.isEmpty then none
  else
    some (Text.doubleOfScientific negative (Text.natOfDigits digits) digits.length
      (power - part.length))

/-- What a plain scalar stands for. -/
def resolve (s : List Char) : Data :=
  let text := String.ofList s
  let (negative, rest) := Text.takeSign s
  let number (n : Number) : Data := .atom (.number n)
  if nullWords.contains text then .null
  else if trueWords.contains text then .atom (.bool true)
  else if falseWords.contains text then .atom (.bool false)
  else if [".inf", ".Inf", ".INF"].contains (String.ofList rest) then
    number (.double (.infinite negative))
  else if [".nan", ".NaN", ".NAN"].contains text then number (.double (.nan 0))
  else
    match natural? rest, double? negative rest with
    | some n, _ => number (.int (if negative then -(n : Int) else n))
    | none, some d => number (.double d)
    | none, none => .text text

/-- A hexadecimal escape of `count` digits, and the rest. -/
def hexEscape? (count : Nat) (s : List Char) : Option (Char × List Char) :=
  let digits := s.take count
  if digits.length < count then none
  else (natIn? 16 digits).map fun n => (Char.ofNat n, s.drop count)

/-- The character of an escape of one letter. -/
def letterEscape? (c : Char) : Option Char :=
  ([('0', 0), ('a', 7), ('b', 8), ('t', 9), ('\t', 9), ('n', 10), ('v', 11), ('f', 12), ('r', 13),
    ('e', 27), (' ', 32), ('"', 34), ('/', 47), ('\\', 92), ('N', 0x85), ('_', 0xA0),
    ('L', 0x2028), ('P', 0x2029)].lookup c).map Char.ofNat

/-- A text in double quotes, after the opening one, and the rest. -/
def doubleQuoted? : Nat → List Char → Option (List Char × List Char)
  | 0, _ => none
  | _ + 1, [] => none
  | fuel + 1, c :: rest =>
    if c == '"' then some ([], rest)
    else if c == '\\' then do
      let (d, rest) ←
        match rest with
        | 'x' :: rest => hexEscape? 2 rest
        | 'u' :: rest => hexEscape? 4 rest
        | 'U' :: rest => hexEscape? 8 rest
        | e :: rest => (letterEscape? e).map fun d => (d, rest)
        | [] => none
      let (text, rest) ← doubleQuoted? fuel rest
      some (d :: text, rest)
    else do
      let (text, rest) ← doubleQuoted? fuel rest
      some (c :: text, rest)

/-- A text in single quotes, after the opening one, and the rest; a quote is written twice. -/
def singleQuoted? : List Char → Option (List Char × List Char)
  | [] => none
  | '\'' :: '\'' :: rest => (singleQuoted? rest).map fun (text, rest) => ('\'' :: text, rest)
  | '\'' :: rest => some ([], rest)
  | c :: rest => (singleQuoted? rest).map fun (text, rest) => (c :: text, rest)

def quoted? : List Char → Option (List Char × List Char)
  | '"' :: rest => doubleQuoted? (rest.length + 1) rest
  | '\'' :: rest => singleQuoted? rest
  | _ => none

/-- Whether a character is a blank within a line. -/
def isBlank (c : Char) : Bool := c == ' ' || c == '\t'

/-- Whether a character separates the parts of a flow collection. -/
def isGap (c : Char) : Bool := isBlank c || c == '\n'

/-- Whether nothing but a comment is left of a line. -/
def isIdle (s : List Char) : Bool :=
  match s.dropWhile isBlank with
  | [] => true
  | c :: _ => c == '#'

def trimEnd (s : List Char) : List Char := (s.reverse.dropWhile isGap).reverse

/-- The characters that cannot begin a plain scalar. -/
def indicators : List Char := ",[]\x7b\x7d#&*!|>'\"%@\x60".toList

/-- Whether a text can begin a plain scalar. -/
def beginsPlain (s : List Char) : Bool :=
  match s with
  | [] => false
  | [c] => !indicators.contains c && !(['-', '?', ':'].contains c)
  | c :: d :: _ =>
    !indicators.contains c && !(['-', '?', ':'].contains c && isGap d)

/-- The plain scalar at the start of a text, up to a comment, a colon that ends a key, or, inside a
flow collection, one of its marks; and the rest. -/
def plain (inFlow : Bool) : List Char → List Char × List Char
  | [] => ([], [])
  | c :: rest =>
    let ends :=
      (c == ':' && rest.head?.all fun d => isGap d || (inFlow && ",[]\x7b\x7d".contains d)) ||
      (inFlow && ",[]\x7b\x7d".contains c) ||
      (isGap c && rest.head? == some '#')
    if ends then ([], c :: rest)
    else
      let (text, rest) := plain inFlow rest
      (c :: text, rest)

/-! ## Flow collections -/

/-- Text without the blanks, line ends and comments at its start. -/
def skipGaps : Nat → List Char → List Char
  | 0, s => s
  | fuel + 1, s =>
    match s.dropWhile isGap with
    | '#' :: rest => skipGaps fuel (rest.dropWhile (· != '\n'))
    | rest => rest

/-- The entries of a mapping with those of the mappings merged into it, which never take the place
of its own. -/
def mergeEntries (entries : List (Data × Data)) : List (Data × Data) :=
  match entries.find? fun entry => entry.1 == Data.text "<<" with
  | some (_, .map _ merged) =>
    let own := entries.filter fun entry => !(entry.1 == Data.text "<<")
    own.foldl (fun found entry => Data.putEntry found entry.1 entry.2) merged
  | _ => entries

mutual

def flow? (anchors : List (List Char × Data)) : Nat → List Char → Option (Data × List Char)
  | 0, _ => none
  | fuel + 1, s =>
    match skipGaps s.length s with
    | '[' :: rest => do
      let (items, rest) ← flowItems? anchors fuel rest
      some (.seq .list items, rest)
    | '{' :: rest => do
      let (entries, rest) ← flowEntries? anchors fuel [] rest
      some (.map .plain (mergeEntries entries), rest)
    | '*' :: rest =>
      let (name, rest) := rest.span fun c => !isGap c && !",[]\x7b\x7d".contains c
      (anchors.lookup name).map fun node => (node, rest)
    | s =>
      match quoted? s with
      | some (text, rest) => some (.text (String.ofList text), rest)
      | none =>
        if beginsPlain s then
          let (text, rest) := plain true s
          some (resolve (trimEnd text), rest)
        else if s.head?.any fun c => ",]\x7d:".contains c then some (.null, s)
        else none

/-- The items of a flow sequence up to its bracket, and the rest; an item may be a single entry. -/
def flowItems? (anchors : List (List Char × Data)) :
    Nat → List Char → Option (List Data × List Char)
  | 0, _ => none
  | fuel + 1, s =>
    match skipGaps s.length s with
    | ']' :: rest => some ([], rest)
    | ',' :: _ => none
    | s => do
      let (item, rest) ← flow? anchors fuel s
      let (item, rest) ←
        match skipGaps rest.length rest with
        | ':' :: rest => do
          let (value, rest) ← flow? anchors fuel rest
          some (Data.map .plain [(item, value)], rest)
        | rest => some (item, rest)
      match skipGaps rest.length rest with
      | ',' :: rest => do
        let (items, rest) ← flowItems? anchors fuel rest
        some (item :: items, rest)
      | ']' :: rest => some ([item], rest)
      | _ => none

/-- The entries of a flow mapping up to its brace, added to those read before, and the rest. -/
def flowEntries? (anchors : List (List Char × Data)) :
    Nat → List (Data × Data) → List Char → Option (List (Data × Data) × List Char)
  | 0, _, _ => none
  | fuel + 1, entries, s =>
    match skipGaps s.length s with
    | '}' :: rest => some (entries, rest)
    | ',' :: _ => none
    | s => do
      let (key, rest) ← flow? anchors fuel s
      let (value, rest) ←
        match skipGaps rest.length rest with
        | ':' :: rest => flow? anchors fuel rest
        | rest => some (Data.null, rest)
      let entries := Data.putEntry entries key value
      match skipGaps rest.length rest with
      | ',' :: rest => flowEntries? anchors fuel entries rest
      | '}' :: rest => some (entries, rest)
      | _ => none

end

/-! ## Blocks -/

def indent (line : List Char) : Nat := (line.takeWhile (· == ' ')).length

def isItem (content : List Char) : Bool :=
  match content with
  | ['-'] => true
  | '-' :: c :: _ => isBlank c
  | _ => false

/-- The key at the start of a line and what stands behind its colon, if the line is an entry. -/
def key? (content : List Char) : Option (Data × List Char) :=
  let behindColon (s : List Char) : Option (List Char) :=
    match s.dropWhile isBlank with
    | [':'] => some []
    | ':' :: c :: rest => if isBlank c then some rest else none
    | _ => none
  match quoted? content with
  | some (text, rest) => (behindColon rest).map fun rest => (.text (String.ofList text), rest)
  | none =>
    if beginsPlain content then
      let (text, rest) := plain false content
      (behindColon rest).map fun rest => (resolve (trimEnd text), rest)
    else none

/-- Leaves lines behind that hold nothing but comments. -/
def skipIdle : ReadM Unit :=
  modify fun r => { r with lines := r.lines.dropWhile isIdle }

/-- The next line that holds something: its indentation and its content. A tab cannot indent. -/
def peekLine : ReadM (Option (Nat × List Char)) := do
  skipIdle
  match (← get).lines with
  | [] => return none
  | line :: _ =>
    let n := indent line
    let content := line.drop n
    if content.head? == some '\t' then malformed else return some (n, content)

def dropLine : ReadM Unit := modify fun r => { r with lines := r.lines.drop 1 }

/-- Takes the lines that are indented by at least `least`, comments left out, and joins them with
the given content. -/
def continued (least : Nat) : Nat → List Char → ReadM (List Char)
  | 0, content => return content
  | fuel + 1, content => do
    match ← peekLine with
    | some (n, more) =>
      if least ≤ n then
        dropLine
        continued least fuel (trimEnd content ++ '\n' :: more)
      else return content
    | none => return content

/-- Text with its line ends folded into spaces. -/
def fold (s : List Char) : List Char := s.map fun c => if c == '\n' then ' ' else c

/-- A scalar or flow collection that is the whole of a text. -/
def inline (content : List Char) : ReadM Data := do
  let s := content.dropWhile isBlank
  let (node, rest) ←
    match s with
    | c :: _ =>
      if c == '[' || c == '{' || c == '*' then
        match flow? (← get).anchors (2 * s.length + 2) s with
        | some found => pure found
        | none => malformed
      else if c == '"' || c == '\'' then
        match quoted? (fold s) with
        | some (text, rest) => pure (Data.text (String.ofList text), rest)
        | none => malformed
      else if beginsPlain s then
        let (text, rest) := plain false (fold s)
        pure (resolve (trimEnd text), rest)
      else malformed
    | [] => pure (Data.null, [])
  if isIdle (fold rest) then return node else malformed

/-- The lines of a literal or folded block under a node indented by `parent`, joined by line ends or
spaces; the mark may ask to drop or to keep the line ends at the close. -/
def blockText (parent : Nat) (mark : List Char) : ReadM Data := do
  let inBlock (line : List Char) : Bool := line.all isBlank || parent < indent line
  let lines := (← get).lines.takeWhile inBlock
  modify fun r => { r with lines := r.lines.drop lines.length }
  let width := ((lines.filter fun line => !line.all isBlank).map indent).head?.getD 0
  let texts := lines.map (·.drop width)
  let body := (texts.reverse.dropWhile List.isEmpty).reverse
  let blankLines := texts.length - body.length
  let joined :=
    if mark.head? == some '>' then [' '].intercalate body else ['\n'].intercalate body
  let close : List Char :=
    if mark.contains '-' || body.isEmpty then []
    else if mark.contains '+' then List.replicate (blankLines + 1) '\n'
    else ['\n']
  return .text (String.ofList (joined ++ close))

/-- A name after an anchor mark, and the rest. -/
def anchorName? (content : List Char) : Option (List Char × List Char) :=
  match content with
  | '&' :: rest =>
    let (name, rest) := rest.span fun c => !isBlank c
    some (name, rest.dropWhile isBlank)
  | _ => none

mutual

/-- A node whose lines are indented by at least `least`; without such lines it is absent. The first
argument bounds the number of steps, here and below. -/
def node : Nat → Nat → ReadM Data
  | 0, _ => malformed
  | fuel + 1, least => do
    match ← peekLine with
    | none => return .null
    | some (n, content) =>
      if n < least then return .null
      else if isItem content then return .seq .list (← items fuel n)
      else if (key? content).isSome then return .map .plain (mergeEntries (← entries fuel n []))
      else
        dropLine
        value fuel n least content
termination_by structural fuel => fuel

/-- A value that begins behind a key or a dash or on a line of its own; `parent` is the indentation
of that line and `least` that of the lines that may go on with it. -/
def value : Nat → Nat → Nat → List Char → ReadM Data
  | 0, _, _, _ => malformed
  | fuel + 1, parent, least, content => do
    match anchorName? content with
    | some (name, rest) =>
      let found ← if isIdle rest then node fuel least else value fuel parent least rest
      modify fun r => { r with anchors := (name, found) :: r.anchors }
      return found
    | none =>
      if content.head?.any fun c => c == '|' || c == '>' then blockText parent content
      else inline (← continued least (← get).lines.length content)
termination_by structural fuel => fuel

def items : Nat → Nat → ReadM (List Data)
  | 0, _ => malformed
  | fuel + 1, n => do
    match ← peekLine with
    | none => return []
    | some (m, content) =>
      if n < m then malformed
      else if m < n || !isItem content then return []
      else
        let rest := content.drop 1
        let shift := 1 + (rest.takeWhile isBlank).length
        let rest := rest.dropWhile isBlank
        dropLine
        let item ←
          if isIdle rest then node fuel (n + 1)
          else if isItem rest || (key? rest).isSome then
            modify fun r => { r with lines := (List.replicate (n + shift) ' ' ++ rest) :: r.lines }
            node fuel (n + 1)
          else value fuel n (n + 1) rest
        return item :: (← items fuel n)
termination_by structural fuel => fuel

/-- The entries of a block mapping indented by `n`, added to those read before. A sequence under a
key need not be indented further than the key. -/
def entries : Nat → Nat → List (Data × Data) → ReadM (List (Data × Data))
  | 0, _, _ => malformed
  | fuel + 1, n, found => do
    match ← peekLine with
    | none => return found
    | some (m, content) =>
      if n < m then malformed
      else if m < n then return found
      else
        match key? content with
        | none => if isItem content then return found else malformed
        | some (key, rest) =>
          dropLine
          let rest := rest.dropWhile isBlank
          let under ←
            if isIdle rest then
              match ← peekLine with
              | some (m, content) =>
                if m == n && isItem content then pure (Data.seq .list (← items fuel n))
                else node fuel (n + 1)
              | none => pure Data.null
            else value fuel n (n + 1) rest
          entries fuel n (Data.putEntry found key under)
termination_by structural fuel => fuel

end

def isStart (line : List Char) : Bool :=
  match line with
  | ['-', '-', '-'] => true
  | '-' :: '-' :: '-' :: c :: _ => isBlank c
  | _ => false

def isEnd (line : List Char) : Bool :=
  match line with
  | ['.', '.', '.'] => true
  | '.' :: '.' :: '.' :: c :: _ => isBlank c
  | _ => false

/-- The lines of the one document of a text; a second document is refused. -/
def documentLines? (text : String) : Option (List (List Char)) :=
  let lines := (Text.splitAt '\n' (text.toList.filter (· != '\r'))).dropWhile fun line =>
    isIdle line || line.head? == some '%'
  let lines :=
    match lines with
    | line :: rest => if isStart line then (' ' :: ' ' :: ' ' :: line.drop 3) :: rest else lines
    | [] => []
  let (body, rest) := lines.span fun line => !isStart line && !isEnd line
  if rest.any isStart then none else some body

def document? (text : String) : Option Data := do
  let lines ← documentLines? text
  let (found, r) ← (node (4 * text.length + 4) 0).run { lines }
  if r.lines.all isIdle then some found else none

end Assay.Yaml
