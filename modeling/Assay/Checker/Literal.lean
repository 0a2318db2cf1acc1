import Assay.Checker.Basic
import Assay.Options.Literal

/-!
Checkers in print: the class of a checker and its options, or its base and the name of its custom
check.
-/

set_option autoImplicit false
set_option relaxedAutoImplicit false

namespace Assay

def Checker.literal (store : Store) (object : Handle → String) : Checker → String
  | .extended base extension =>
    "ExtendedChecker(base=" ++ literal store object base ++ ", check=" ++ extension.name ++ ")"
  | c => c.checkerClass.label ++ "(" ++ c.options.literal store object ++ ")"

end Assay
