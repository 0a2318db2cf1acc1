import Assay.Value.Data

/-!
The words by which messages name the type of a value.
-/

set_option autoImplicit false
set_option relaxedAutoImplicit false

namespace Assay

def CheckerClass.label : CheckerClass → String
  | .boolean => "BooleanChecker"
  | .number => "NumberChecker"
  | .string => "StringChecker"
  | .array => "ArrayChecker"
  | .extended => "ExtendedChecker"

def ObjectSort.label : ObjectSort → String
  | .checker checkerClass => checkerClass.label
  | .options => "CheckerOptions"
  | .schema => "Schema"
  | .function => "function"

def Atom.label : Atom → String
  | .null => "NoneType"
  | .bool _ => "bool"
  | .number (.int _) => "int"
  | .number (.double _) => "float"
  | .number (.fraction _) => "Fraction"
  | .decimal _ => "Decimal"
  | .text _ => "str"
  | .bytes _ => "bytes"
  | .mode _ => "CheckOptions"
  | .pattern _ => "Pattern"
  | .object handle => handle.sort.label

def SeqKind.label : SeqKind → String
  | .list => "list"
  | .tuple => "tuple"
  | .set => "set"

def MapKind.label : MapKind → String
  | .plain => "dict"
  | .ordered => "OrderedDict"
  | .view => "mappingproxy"

/-- The word for the type of a value. -/
def Value.label : Value → String
  | .atom a => a.label
  | .seq kind _ => kind.label
  | .map kind _ => kind.label

def Data.label : Data → String
  | .atom a => a.label
  | .seq kind _ => kind.label
  | .map kind _ => kind.label
  | .endless => "endless"

end Assay
