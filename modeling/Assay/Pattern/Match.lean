import Assay.Pattern.Basic

/-!
Matching. An expression is run at a place in the text with a continuation that says whether the rest
of the text is acceptable; the first way of matching whose continuation succeeds decides. A repeated
part is entered again only if the text has moved on since it was last entered by choice, so every
run ends.
-/

set_option autoImplicit false
set_option relaxedAutoImplicit false

namespace Assay

/-- A place in a text: the characters before it, nearest first, and those after it. -/
structure Cursor where
  before : List Char
  after : List Char

namespace Cursor

/-- The place one character further on, and that character. -/
def next? : Cursor → Option (Char × Cursor)
  | ⟨_, []⟩ => none
  | ⟨before, c :: after⟩ => some (c, ⟨c :: before, after⟩)

/-- The place a number of characters further on. -/
def forth : Nat → Cursor → Cursor
  | n + 1, ⟨before, c :: after⟩ => forth n ⟨c :: before, after⟩
  | _, cursor => cursor

/-- The place a number of characters back, if there are so many. -/
def back? : Nat → Cursor → Option Cursor
  | 0, cursor => some cursor
  | n + 1, ⟨c :: before, after⟩ => back? n ⟨before, c :: after⟩
  | _ + 1, ⟨[], _⟩ => none

/-- Whether the place is an edge of a word: a word character on one side only. -/
def atWordEdge (asciiOnly : Bool) (cursor : Cursor) : Bool :=
  let isWord (side : List Char) : Bool :=
    match side with
    | [] => false
    | c :: _ => CharKind.word.has asciiOnly c.toNat
  isWord cursor.before != isWord cursor.after

end Cursor

/-- Whether an anchor holds at a place. In the empty text there is no place at all that is decided
by the edges of words. -/
def Anchor.holds (cursor : Cursor) : Anchor → Bool
  | .textStart => cursor.before.isEmpty
  | .textEnd => cursor.after.isEmpty
  | .lineStart => cursor.before.head?.all (· == '\n')
  | .lineEnd => cursor.after.head?.all (· == '\n')
  | .lastLineEnd => cursor.after.isEmpty || cursor.after == ['\n']
  | .wordEdge asciiOnly => cursor.atWordEdge asciiOnly
  | .noWordEdge asciiOnly =>
    !(cursor.before.isEmpty && cursor.after.isEmpty) && !cursor.atWordEdge asciiOnly

/-- The texts that groups have taken, the latest first. -/
abbrev Captures := List (Nat × List Char)

/-- Where a run ended and what its groups took. -/
abbrev Finish := Option (Cursor × Captures)

/-- What decides whether the rest of a text is acceptable. -/
abbrev Continuation := Cursor → Captures → Finish

/-- A way to match: at a place, with what groups took so far, under a continuation. -/
abbrev Matcher := Cursor → Captures → Continuation → Finish

/-- The text behind a prefix, compared under a case rule. -/
def dropText (rule : CaseRule) : List Char → List Char → Option Nat
  | [], _ => some 0
  | c :: rest, d :: after =>
    if rule.fold c.toNat == rule.fold d.toNat then (dropText rule rest after).map (· + 1) else none
  | _ :: _, [] => none

/-- Runs a repeated part: first `least` times, then by choice at most `most` times in all, where
`last` is the length of the text that was left when the part was last entered by choice. The first
argument bounds the number of rounds. -/
def Matcher.repeated (body : Matcher) (greedy : Bool) :
    Nat → Nat → Option Nat → Option Nat → Matcher
  | 0, _, _, _, _, _, _ => none
  | fuel + 1, least + 1, most, last, cursor, taken, k =>
    body cursor taken fun cursor taken =>
      repeated body greedy fuel least (most.map (· - 1)) last cursor taken k
  | fuel + 1, 0, most, last, cursor, taken, k =>
    let left := cursor.after.length
    let again := fun (_ : Unit) =>
      if most == some 0 || last == some left then none
      else
        body cursor taken fun cursor taken =>
          repeated body greedy fuel 0 (most.map (· - 1)) (some left) cursor taken k
    let stop := fun (_ : Unit) => k cursor taken
    if greedy then (again ()).orElse stop else (stop ()).orElse again

def Regex.run : Regex → Matcher
  | .nothing, cursor, taken, k => k cursor taken
  | .char cls, cursor, taken, k =>
    match cursor.next? with
    | some (c, cursor) => if cls.has c then k cursor taken else none
    | none => none
  | .seq first second, cursor, taken, k =>
    first.run cursor taken fun cursor taken => second.run cursor taken k
  | .alt first second, cursor, taken, k =>
    (first.run cursor taken k).orElse fun _ => second.run cursor taken k
  | .many body least most greedy, cursor, taken, k =>
    Matcher.repeated body.run greedy (least + cursor.after.length + 2) least most none cursor taken
      k
  | .group number body, start, taken, k =>
    body.run start taken fun cursor taken =>
      k cursor ((number, start.after.take (start.after.length - cursor.after.length)) :: taken)
  | .again number rule, cursor, taken, k =>
    match taken.lookup number with
    | none => none
    | some text =>
      match dropText rule text cursor.after with
      | some n => k (cursor.forth n) taken
      | none => none
  | .given number closed opened, cursor, taken, k =>
    if (taken.lookup number).isSome then closed.run cursor taken k else opened.run cursor taken k
  | .anchor place, cursor, taken, k => if place.holds cursor then k cursor taken else none
  | .look back negated body, cursor, taken, k =>
    let start :=
      match back with
      | none => some cursor
      | some width => cursor.back? width
    let found := start.bind fun start => body.run start taken fun stop taken => some (stop, taken)
    if negated then (if found.isSome then none else k cursor taken)
    else found.bind fun (_, taken) => k cursor taken
  | .atomic body, cursor, taken, k =>
    (body.run cursor taken fun cursor taken => some (cursor, taken)).bind fun (cursor, taken) =>
      k cursor taken

/-- The continuation that accepts at the end of the text. -/
def acceptAtEnd : Continuation := fun cursor taken =>
  if cursor.after.isEmpty then some (cursor, taken) else none

/-- Whether an expression matches a text from end to end. -/
def Regex.matchesAll (r : Regex) (s : List Char) : Bool := (r.run ⟨[], s⟩ [] acceptAtEnd).isSome

/-- Whether a text looks like a pattern from end to end; none looks like a pattern for bytes. -/
def Pattern.accepts (p : Pattern) (s : String) : Bool :=
  !p.forBytes && p.rule.matchesAll s.toList

end Assay
