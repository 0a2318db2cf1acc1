/-!
Cutting texts: the parts between the occurrences of a mark, and what follows a given beginning.
-/

set_option autoImplicit false
set_option relaxedAutoImplicit false

namespace Assay.Text

/-- The parts of a text between the occurrences of a mark; there is always at least one part. -/
def splitAt (mark : Char) : List Char → List (List Char)
  | [] => [[]]
  | c :: rest =>
    if c == mark then [] :: splitAt mark rest
    else
      match splitAt mark rest with
      | [] => [[c]]
      | part :: parts => (c :: part) :: parts

/-- What follows a given beginning of a text, if the text begins so. -/
def stripStart? : List Char → List Char → Option (List Char)
  | [], s => some s
  | c :: start, d :: s => if c == d then stripStart? start s else none
  | _ :: _, [] => none

/-- The text before the last occurrence of a mark and the text behind it. -/
def cutAtLast? (mark : Char) (s : List Char) : Option (List Char × List Char) :=
  match s.reverse.span (· != mark) with
  | (behind, _ :: before) => some (before.reverse, behind.reverse)
  | (_, []) => none

/-- The text before the first occurrence of a mark and the text behind it; without the mark nothing
is behind. -/
def cutAtFirst (mark : Char) (s : List Char) : List Char × List Char :=
  match s.span (· != mark) with
  | (before, _ :: behind) => (before, behind)
  | (before, []) => (before, [])

end Assay.Text
