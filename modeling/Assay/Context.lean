import Assay.Text.Path

/-!
How a check runs and where it stands: the two modes that a caller chooses, and the context that is
handed to every checker.
-/

set_option autoImplicit false
set_option relaxedAutoImplicit false

namespace Assay

/-- The modes of a check: whether checkers may replace values, and whether mandatory fields may be
absent. Both are off unless asked for. -/
structure Mode where
  sanitize : Bool := false
  partialCheck : Bool := false
  deriving DecidableEq

/-- The context of one check: the path of the value and the modes. -/
structure Context where
  path : String := ""
  mode : Mode := {}
  deriving DecidableEq

namespace Context

/-- The name of the field being checked, read off the path. -/
def key (c : Context) : String := Path.key c.path

/-- The context of a field below the current one. -/
def child (c : Context) (key : String) : Context := { c with path := Path.child c.path key }

end Context

end Assay
