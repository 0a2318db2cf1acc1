/-!
Runs of code points. A class of characters is written as a rising list of closed runs; membership
stops at the first run that begins beyond the character.
-/

set_option autoImplicit false
set_option relaxedAutoImplicit false

namespace Assay.Text

/-- Whether a code point lies in one of the runs of a rising list. -/
def inRuns : List (Nat × Nat) → Nat → Bool
  | [], _ => false
  | (first, last) :: rest, c =>
    if c < first then false else if c ≤ last then true else inRuns rest c

end Assay.Text
