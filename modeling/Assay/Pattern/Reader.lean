import Assay.Number.Text
import Assay.Pattern.Basic
import Assay.Text.Names

/-!
Reading patterns. The source of a pattern is read from left to right into an expression: a choice of
sequences of items, each of which may be followed by a repetition. A malformed source gives a fault
and no expression. Groups may stand inside each other to any depth.
-/

set_option autoImplicit false
set_option relaxedAutoImplicit false

namespace Assay

/-- Why a source is no pattern: it is malformed, it holds a number beyond all bounds or with too many
digits to be read at all, it turns on switches that exclude each other, or its groups are nested too
deeply for its reader. -/
inductive PatternFault where
  | malformed
  | numberTooLarge
  | numberTooLong
  | clashingFlags
  | tooDeep
  deriving DecidableEq

/-- How many characters an expression takes: at least and, if there is a bound, at most. -/
structure Width where
  least : Nat
  most : Option Nat
  deriving DecidableEq

namespace Width

def add (a b : Width) : Width :=
  ⟨a.least + b.least, match a.most, b.most with | some m, some n => some (m + n) | _, _ => none⟩

def join (a b : Width) : Width :=
  ⟨min a.least b.least, match a.most, b.most with | some m, some n => some (max m n) | _, _ => none⟩

def scale (a : Width) (least : Nat) (most : Option Nat) : Width :=
  ⟨a.least * least,
    match a.most, most with
    | some m, some n => some (m * n)
    | some 0, none => some 0
    | none, some 0 => some 0
    | _, _ => none⟩

end Width

/-- The width of an expression, given the widths of the groups closed before it. -/
def Regex.width (groups : List (Nat × Width)) : Regex → Width
  | .nothing => ⟨0, some 0⟩
  | .char _ => ⟨1, some 1⟩
  | .seq a b => (a.width groups).add (b.width groups)
  | .alt a b => (a.width groups).join (b.width groups)
  | .many body least most _ => (body.width groups).scale least most
  | .group _ body => body.width groups
  | .again n _ => (groups.lookup n).getD ⟨0, some 0⟩
  | .given _ closed opened => (closed.width groups).join (opened.width groups)
  | .anchor _ => ⟨0, some 0⟩
  | .look _ _ _ => ⟨0, some 0⟩
  | .atomic body => body.width groups

/-- What is left of a source and what has been read so far: the switches for the whole pattern, the
number of groups opened, their names, the widths of the closed ones, the groups asked for by number,
inside a look back the number of the first group that was opened in it, and whether some look back
had no fixed width. -/
structure Reading where
  rest : List Char
  flags : Flags := {}
  unicode : Bool := false
  groups : Nat := 0
  names : List (String × Nat) := []
  widths : List (Nat × Width) := []
  asked : List Nat := []
  lookBack : Option Nat := none
  unevenLook : Bool := false

abbrev ReadM := StateT Reading (Except PatternFault)

namespace ReadM

def malformed {α : Type} : ReadM α := throw .malformed

/-- The next character, if there is one, without taking it. -/
def peek : ReadM (Option Char) := return (← get).rest.head?

/-- Takes the next character. -/
def take? : ReadM (Option Char) := do
  match (← get).rest with
  | [] => return none
  | c :: rest =>
    modify fun r => { r with rest }
    return some c

/-- Takes the next character, which must be there. -/
def take : ReadM Char := do
  match ← take? with
  | some c => return c
  | none => malformed

/-- Takes the next character if it is the given one. -/
def takeIf (c : Char) : ReadM Bool := do
  match (← get).rest with
  | d :: rest =>
    if c == d then
      modify fun r => { r with rest }
      return true
    else return false
  | [] => return false

/-- Takes characters of a class, at most `most` of them. -/
def takeWhile (most : Nat) (test : Char → Bool) : ReadM (List Char) := do
  let taken := ((← get).rest.take most).takeWhile test
  modify fun r => { r with rest := r.rest.drop taken.length }
  return taken

/-- The source behind the first mark that no backslash stands before, if there is one. -/
def behindMark? (mark : Char) : List Char → Option (List Char)
  | [] => none
  | '\\' :: _ :: rest => behindMark? mark rest
  | c :: rest => if c == mark then some rest else behindMark? mark rest

/-- Takes everything up to a mark, and the mark; what stands before the mark must not be empty. -/
def takeUntil (mark : Char) : ReadM (List Char) := do
  let taken := (← get).rest.takeWhile (· != mark)
  let rest := (← get).rest.drop taken.length
  if taken.isEmpty || rest.isEmpty then malformed
  else
    modify fun r => { r with rest := rest.drop 1 }
    return taken

end ReadM

namespace PatternReader

open ReadM

def hexValue? (c : Char) : Option Nat :=
  if '0' ≤ c && c ≤ '9' then some (c.toNat - 48)
  else if 'a' ≤ c && c ≤ 'f' then some (c.toNat - 87)
  else if 'A' ≤ c && c ≤ 'F' then some (c.toNat - 55)
  else none

def isDecimal (c : Char) : Bool := '0' ≤ c && c ≤ '9'

def isOctal (c : Char) : Bool := '0' ≤ c && c ≤ '7'

def isLetter (c : Char) : Bool := ('a' ≤ c && c ≤ 'z') || ('A' ≤ c && c ≤ 'Z')

def numberIn (base : Nat) (digits : List Char) : Nat :=
  digits.foldl (fun n c => base * n + (hexValue? c).getD 0) 0

/-- The white space that a verbose pattern skips. -/
def isSkipped (c : Char) : Bool := c == ' ' || (9 ≤ c.toNat && c.toNat ≤ 13)

def isGroupName (name : List Char) : Bool :=
  name.all Text.isWordChar && name.head?.any fun c => !Text.isDigitLike c

/-- A code point written by a fixed number of hexadecimal digits. -/
def hexPoint (count : Nat) : ReadM Nat := do
  let digits ← takeWhile count fun c => (hexValue? c).isSome
  let n := numberIn 16 digits
  if digits.length < count then malformed
  else if 0x80000000 ≤ n then throw .numberTooLarge
  else if 0x10FFFF < n then malformed
  else return n

/-- The code point that an escape letter stands for everywhere. -/
def controlPoint? (c : Char) : Option Nat :=
  [('a', 7), ('f', 12), ('n', 10), ('r', 13), ('t', 9), ('v', 11), ('\\', 92)].lookup c

def charKind? (c : Char) : Option (CharKind × Bool) :=
  [('d', .digit, false), ('D', .digit, true), ('s', .blank, false), ('S', .blank, true),
    ('w', .word, false), ('W', .word, true)].lookup c

def kindItem? (flags : Flags) (c : Char) : Option ClassItem :=
  (charKind? c).map fun (kind, negated) => .named kind flags.asciiOnly negated

/-- An octal number of at most 255. -/
def octalPoint (digits : List Char) : ReadM Nat := do
  let n := numberIn 8 digits
  if 0o377 < n then malformed else return n

/-- A character written by its name, after the letter of the escape. -/
def namedPoint : ReadM Nat := do
  if !(← takeIf '{') then malformed
  match Text.namedPoint? (String.ofList (← takeUntil '}')) with
  | some p => return p
  | none => malformed

/-- An escape inside a class, after the backslash. -/
def classEscape (flags : Flags) : ReadM ClassItem := do
  let c ← take
  match controlPoint? c, kindItem? flags c with
  | some p, _ => return .point p
  | none, some item => return item
  | none, none =>
    if c == 'b' then return .point 8
    else if c == 'x' then return .point (← hexPoint 2)
    else if c == 'u' then return .point (← hexPoint 4)
    else if c == 'U' then return .point (← hexPoint 8)
    else if c == 'N' then return .point (← namedPoint)
    else if isOctal c then
      let more ← takeWhile 2 isOctal
      return .point (← octalPoint (c :: more))
    else if isDecimal c || isLetter c then malformed
    else return .point c.toNat

/-- The members of a class, after its opening bracket and the mark of negation. A bracket that comes
first, and a hyphen at either end, stand for themselves. -/
def classItems (flags : Flags) : Nat → List ClassItem → ReadM (List ClassItem)
  | 0, _ => malformed
  | fuel + 1, items => do
    let c ← take
    if c == ']' && !items.isEmpty then return items
    let first ← if c == '\\' then classEscape flags else pure (ClassItem.point c.toNat)
    if ← takeIf '-' then
      let d ← take
      if d == ']' then return items ++ [first, .point '-'.toNat]
      let second ← if d == '\\' then classEscape flags else pure (ClassItem.point d.toNat)
      match first, second with
      | .point lo, .point hi =>
        if hi < lo then malformed else classItems flags fuel (items ++ [.range lo hi])
      | _, _ => malformed
    else classItems flags fuel (items ++ [first])

def caseRule (flags : Flags) : CaseRule :=
  if flags.ignoreCase then (if flags.asciiOnly then .ascii else .full) else .exact

def classOf (flags : Flags) (negated : Bool) (items : List ClassItem) : Regex :=
  .char { negated, rule := caseRule flags, items }

def literal (flags : Flags) (c : Nat) : Regex := classOf flags false [.point c]

/-- A reference to a group, which must be closed and, inside a look back, older than it. -/
def groupAgain (flags : Flags) (n : Nat) : ReadM Regex := do
  let r ← get
  if (r.widths.lookup n).isNone || r.lookBack.any (· ≤ n) then malformed
  else return .again n (caseRule flags)

/-- What an item is to a repetition that follows it: a mere place and an item that is repeated
already cannot be repeated. -/
inductive ItemSort where
  | place
  | repeated
  | other
  deriving DecidableEq

/-- An escape outside classes, after the backslash. -/
def escape (flags : Flags) : ReadM (ItemSort × Regex) := do
  let c ← take
  let anchor? : Option Anchor :=
    [('A', Anchor.textStart), ('Z', .textEnd), ('b', .wordEdge flags.asciiOnly),
      ('B', .noWordEdge flags.asciiOnly)].lookup c
  match anchor?, kindItem? flags c, controlPoint? c with
  | some place, _, _ => return (.place, .anchor place)
  | none, some item, _ => return (.other, classOf flags false [item])
  | none, none, some p => return (.other, literal flags p)
  | none, none, none =>
    if c == 'x' then return (.other, literal flags (← hexPoint 2))
    else if c == 'u' then return (.other, literal flags (← hexPoint 4))
    else if c == 'U' then return (.other, literal flags (← hexPoint 8))
    else if c == 'N' then return (.other, literal flags (← namedPoint))
    else if c == '0' then
      let more ← takeWhile 2 isOctal
      return (.other, literal flags (numberIn 8 more))
    else if isDecimal c then
      let second ← takeWhile 1 isDecimal
      let third := (← peek).filter isOctal
      match second, third with
      | [d], some e =>
        if isOctal c && isOctal d then
          discard take
          return (.other, literal flags (← octalPoint [c, d, e]))
        else return (.other, ← groupAgain flags (numberIn 10 (c :: second)))
      | _, _ => return (.other, ← groupAgain flags (numberIn 10 (c :: second)))
    else if isLetter c then malformed
    else return (.other, literal flags c.toNat)

/-- The count from which a repetition is too large. -/
def countLimit : Nat := 4294967295

/-- The number of digits that are read as one number at most. -/
def digitLimit : Nat := 4300

/-- The count that digits write. -/
def countIn (digits : List Char) : ReadM Nat := do
  if digitLimit < digits.length then throw .numberTooLong
  let n := numberIn 10 digits
  if countLimit ≤ n then throw .numberTooLarge
  return n

/-- A repetition in braces, after the opening brace: its bounds, or nothing when the brace stands
for itself. -/
def braces? : ReadM (Option (Nat × Option Nat)) := do
  if (← peek) == some '}' then return none
  let start ← get
  let low ← takeWhile start.rest.length isDecimal
  let high ← if ← takeIf ',' then takeWhile start.rest.length isDecimal else pure low
  if !(← takeIf '}') then
    set start
    return none
  let least ← countIn low
  if high.isEmpty then return some (least, none)
  let most ← countIn high
  if most < least then malformed
  return some (least, some most)

/-- The last item repeated; a question mark makes the repetition reluctant and a plus sign makes it
keep what it took. -/
def repeatLast (least : Nat) (most : Option Nat) :
    List (ItemSort × Regex) → ReadM (List (ItemSort × Regex))
  | (.other, item) :: items => do
    if ← takeIf '?' then return (.repeated, .many item least most false) :: items
    else if ← takeIf '+' then return (.repeated, .atomic (.many item least most true)) :: items
    else return (.repeated, .many item least most true) :: items
  | _ => malformed

structure FlagChange where
  flags : Flags := {}
  unicode : Bool := false
  template : Bool := false

/-- A change with one more switch, if the letter names one. -/
def FlagChange.add? (change : FlagChange) (c : Char) : Option FlagChange :=
  let flags := change.flags
  match c with
  | 'i' => some { change with flags := { flags with ignoreCase := true } }
  | 'm' => some { change with flags := { flags with multiLine := true } }
  | 's' => some { change with flags := { flags with dotAll := true } }
  | 'x' => some { change with flags := { flags with verbose := true } }
  | 'a' => some { change with flags := { flags with asciiOnly := true } }
  | 'u' => some { change with unicode := true }
  | 't' => some { change with template := true }
  | _ => none

/-- Letters of switches from the given one on, up to one of the marks that may follow them. -/
def flagLetters (marks : List Char) : Nat → FlagChange → Char → ReadM (FlagChange × Char)
  | 0, _, _ => malformed
  | fuel + 1, change, c => do
    match change.add? c with
    | none => malformed
    | some change =>
      if change.flags.asciiOnly && change.unicode then malformed
      let c ← take
      if marks.contains c then return (change, c) else flagLetters marks fuel change c

/-- Switches turned on and then off for a part of a pattern; none can be both. -/
def scopedFlags (outer on off : Flags) (unicode : Bool) : Flags :=
  let pick (was turnedOn turnedOff : Bool) : Bool := (was || turnedOn) && !turnedOff
  { ignoreCase := pick outer.ignoreCase on.ignoreCase off.ignoreCase
    multiLine := pick outer.multiLine on.multiLine off.multiLine
    dotAll := pick outer.dotAll on.dotAll off.dotAll
    verbose := pick outer.verbose on.verbose off.verbose
    asciiOnly := pick outer.asciiOnly on.asciiOnly unicode }

def overlap (a b : Flags) : Bool :=
  (a.ignoreCase && b.ignoreCase) || (a.multiLine && b.multiLine) || (a.dotAll && b.dotAll) ||
    (a.verbose && b.verbose)

/-- Switches after an opening parenthesis and a question mark, from their first character on: for
the whole pattern (nothing) or for the group that follows (its switches). -/
def groupFlags (outer : Flags) (c : Char) : ReadM (Option Flags) := do
  let fuel := (← get).rest.length + 1
  let (on, mark) ←
    if c == '-' then pure (({} : FlagChange), c) else flagLetters [')', '-', ':'] fuel {} c
  if mark == ')' then
    let r ← get
    set
      { r with
        flags := scopedFlags r.flags on.flags {} false
        unicode := r.unicode || on.unicode }
    return none
  if on.template then malformed
  let off ←
    if mark == '-' then
      let (off, _) ← flagLetters [':'] fuel {} (← take)
      if off.flags.asciiOnly || off.unicode || off.template then malformed
      pure off.flags
    else pure {}
  if overlap on.flags off then malformed
  return some (scopedFlags outer on.flags off on.unicode)

inductive Opening where
  | capturing (name : Option (List Char))
  | plain (flags : Flags)
  | atomic
  | look (back negated : Bool)
  | given (number : Nat)
  | item (item : Regex)
  | comment
  | wholeFlags

/-- The group that a condition asks for by its name or its number. A number may be that of a group
that comes later, but for a look back. -/
def condition (text : List Char) : ReadM Nat := do
  let r ← get
  let number ←
    if isGroupName text then
      match r.names.lookup (String.ofList text) with
      | some n => pure n
      | none => malformed
    else
      match Text.integer? (String.ofList text) with
      | some n => if n ≤ 0 then malformed else pure n.toNat
      | none => malformed
  if r.lookBack.any fun first => (r.widths.lookup number).isNone || first ≤ number then malformed
  set { r with asked := number :: r.asked }
  return number

/-- Reads what follows an opening parenthesis, up to the contents of the group. -/
def opening (flags : Flags) : ReadM Opening := do
  if !(← takeIf '?') then return .capturing none
  let c ← take
  match c with
  | 'P' =>
    let c ← take
    match c with
    | '<' =>
      let name ← takeUntil '>'
      if isGroupName name then return .capturing (some name) else malformed
    | '=' =>
      let name ← takeUntil ')'
      match (← get).names.lookup (String.ofList name) with
      | some n => return .item (← groupAgain flags n)
      | none => malformed
    | _ => malformed
  | ':' => return .plain flags
  | '#' =>
    match behindMark? ')' (← get).rest with
    | none => malformed
    | some rest =>
      modify fun r => { r with rest }
      return .comment
  | '=' => return .look false false
  | '!' => return .look false true
  | '<' =>
    match ← take with
    | '=' => return .look true false
    | '!' => return .look true true
    | _ => malformed
  | '>' => return .atomic
  | '(' => return .given (← condition (← takeUntil ')'))
  | _ =>
    match ← groupFlags flags c with
    | some flags => return .plain flags
    | none => return .wholeFlags

/-- Opens a group and gives its number. -/
def openGroup (name : Option (List Char)) : ReadM Nat := do
  let r ← get
  let number := r.groups + 1
  match name.map String.ofList with
  | none => set { r with groups := number }
  | some name =>
    if (r.names.lookup name).isSome then malformed
    set { r with groups := number, names := (name, number) :: r.names }
  return number

def closing : ReadM Unit := do
  if !(← takeIf ')') then malformed

/-- Leaves a comment of a verbose pattern behind, up to the end of its line. A backslash at the end
of the source is malformed there too. -/
def skipComment : ReadM Unit := do
  match behindMark? '\n' (← get).rest with
  | some rest => modify fun r => { r with rest }
  | none =>
    let final := (← get).rest.reverse.takeWhile (· == '\\')
    if final.length % 2 == 1 then malformed else modify fun r => { r with rest := [] }

mutual

/-- Sequences with bars between them. `scope` holds the switches of the surrounding group; outside
all groups the switches of the whole pattern hold. -/
def choice : Nat → Option Flags → Bool → ReadM Regex
  | 0, _, _ => malformed
  | fuel + 1, scope, first => do
    let left ← sequence fuel scope first []
    if ← takeIf '|' then
      let right ← choice fuel scope false
      return .alt left right
    else return left

/-- Items up to a bar, a closing parenthesis or the end, added to those read before, the last one
first. -/
def sequence : Nat → Option Flags → Bool → List (ItemSort × Regex) → ReadM Regex
  | 0, _, _, _ => malformed
  | fuel + 1, scope, first, items => do
    let flags := scope.getD (← get).flags
    let continueWith (items : List (ItemSort × Regex)) : ReadM Regex :=
      sequence fuel scope first items
    match ← peek with
    | none => return Regex.chain (items.reverse.map Prod.snd)
    | some '|' => return Regex.chain (items.reverse.map Prod.snd)
    | some ')' => return Regex.chain (items.reverse.map Prod.snd)
    | some c =>
      discard take
      if flags.verbose && isSkipped c then continueWith items
      else if flags.verbose && c == '#' then
        skipComment
        continueWith items
      else
        match c with
        | '\\' => continueWith ((← escape flags) :: items)
        | '[' =>
          let negated ← takeIf '^'
          let members ← classItems flags ((← get).rest.length + 1) []
          continueWith ((.other, classOf flags negated members) :: items)
        | '*' => continueWith (← repeatLast 0 none items)
        | '+' => continueWith (← repeatLast 1 none items)
        | '?' => continueWith (← repeatLast 0 (some 1) items)
        | '{' =>
          match ← braces? with
          | some (least, most) => continueWith (← repeatLast least most items)
          | none => continueWith ((.other, literal flags c.toNat) :: items)
        | '.' =>
          let barred : List ClassItem := if flags.dotAll then [] else [.point 10]
          continueWith ((.other, .char { negated := true, items := barred }) :: items)
        | '^' =>
          let place : Anchor := if flags.multiLine then .lineStart else .textStart
          continueWith ((.place, .anchor place) :: items)
        | '$' =>
          let place : Anchor := if flags.multiLine then .lineEnd else .lastLineEnd
          continueWith ((.place, .anchor place) :: items)
        | '(' =>
          match ← opening flags with
          | .comment => continueWith items
          | .wholeFlags => if first && items.isEmpty then continueWith items else malformed
          | .item item => continueWith ((.other, item) :: items)
          | .capturing name =>
            let number ← openGroup name
            let body ← choice fuel (some flags) false
            closing
            modify fun r => { r with widths := (number, body.width r.widths) :: r.widths }
            continueWith ((.other, .group number body) :: items)
          | .plain flags =>
            let body ← choice fuel (some flags) false
            closing
            continueWith ((.other, body) :: items)
          | .atomic =>
            let body ← choice fuel (some flags) false
            closing
            continueWith ((.other, .atomic body) :: items)
          | .given number =>
            let closed ← sequence fuel (some flags) false []
            let opened ←
              if ← takeIf '|' then sequence fuel (some flags) false [] else pure Regex.nothing
            closing
            continueWith ((.other, .given number closed opened) :: items)
          | .look back negated =>
            let outer := (← get).lookBack
            if back && outer.isNone then
              modify fun r => { r with lookBack := some (r.groups + 1) }
            let body ← choice fuel (some flags) false
            modify fun r => { r with lookBack := outer }
            closing
            if back then
              let width := body.width (← get).widths
              if width.most != some width.least then
                modify fun r => { r with unevenLook := true }
              continueWith ((.other, .look (some width.least) negated body) :: items)
            else continueWith ((.other, .look none negated body) :: items)
        | _ => continueWith ((.other, literal flags c.toNat) :: items)

end

end PatternReader

/-- A way to read the source of a pattern. -/
abbrev PatternReading := String → Except PatternFault Pattern

/-- The pattern that a source stands for. -/
def Pattern.ofSource : PatternReading := fun source => do
  let chars := source.toList
  let whole := PatternReader.choice (2 * chars.length + 4) none true
  let (rule, reading) ← whole.run { rest := chars }
  if reading.flags.asciiOnly && reading.unicode then throw .clashingFlags
  if reading.rest.isEmpty && reading.asked.all (· ≤ reading.groups) && !reading.unevenLook then
    return { source, flags := reading.flags, rule }
  else throw .malformed

end Assay
