import Assay.Options.Basic
import Assay.Value.Literal

/-!
Options side by side and in print: two records are equal option by option, and a record is written
with all its options in order.
-/

set_option autoImplicit false
set_option relaxedAutoImplicit false

namespace Assay.Options

/-- Whether two records of options are equal option by option. -/
def same (store : Store) (o p : Options) : Bool :=
  OptionName.all.all fun name => store.same (o.get name) (p.get name)

def literal (store : Store) (object : Handle → String) (o : Options) : String :=
  let fields := OptionName.all.map fun name =>
    name.label ++ "=" ++ (store.freeze (o.get name)).literal object
  "CheckerOptions(" ++ ", ".intercalate fields ++ ")"

end Assay.Options
