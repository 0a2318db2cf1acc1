import Assay.Text.Ranges

/-!
White space: the characters at which a text is cut into words, and the few of them that may stand
around a number.
-/

set_option autoImplicit false
set_option relaxedAutoImplicit false

namespace Assay.Text

/-- The runs of white space: the controls from tab to carriage return and the four separators, the
space, the next-line control, and the spaces and line ends beyond ASCII. -/
def blankRuns : List (Nat × Nat) :=
  [(9, 13), (28, 32), (133, 133), (160, 160), (5760, 5760), (8192, 8202), (8232, 8233),
    (8239, 8239), (8287, 8287), (12288, 12288)]

def isBlank (c : Char) : Bool := inRuns blankRuns c.toNat

/-- Whether a character may pad a number: white space other than the four separator controls. -/
def isPadding (c : Char) : Bool := isBlank c && !(28 ≤ c.toNat && c.toNat ≤ 31)

/-- A text without the padding at its two ends. -/
def trimPadding (s : List Char) : List Char :=
  ((s.dropWhile isPadding).reverse.dropWhile isPadding).reverse

/-- A text without any of its white space. -/
def dropBlanks (s : List Char) : List Char := s.filter fun c => !isBlank c

end Assay.Text
