import Assay.Context
import Assay.Number.Basic
import Assay.Number.Decimal
import Assay.Pattern.Basic

/-!
Values as the caller hands them in. An atom is complete in itself; a container is a kind and the
address of its contents in a store, so two values may share one container and a change made through
one of them shows through the other. Values of classes that a caller defines are not among them, nor
are mappings that are views of several others and decimals that no comparison admits: what they do
when they are compared, measured or changed is up to them.
-/

set_option autoImplicit false
set_option relaxedAutoImplicit false

namespace Assay

inductive CheckerClass where
  | boolean
  | number
  | string
  | array
  | extended
  deriving DecidableEq

/-- What an object that is no plain data is: a checker, checker options, a schema or some other
function. -/
inductive ObjectSort where
  | checker (checkerClass : CheckerClass)
  | options
  | schema
  | function
  deriving DecidableEq

/-- A reference to an object that is no plain data, by its place in a catalogue. -/
structure Handle where
  sort : ObjectSort
  index : Nat
  deriving DecidableEq

/-- A value without parts. -/
inductive Atom where
  | null
  | bool (value : Bool)
  | number (value : Number)
  | decimal (value : Decimal)
  | text (value : String)
  | bytes (value : List UInt8)
  | mode (value : Mode)
  | pattern (value : Pattern)
  | object (handle : Handle)
  deriving DecidableEq

inductive SeqKind where
  | list
  | tuple
  | set
  deriving DecidableEq

/-- The kinds of mappings. All keep their entries in order; a view cannot be changed. -/
inductive MapKind where
  | plain
  | ordered
  | view
  deriving DecidableEq

/-- The address of a container's contents. -/
abbrev Address := Nat

/-- A value: an atom, or a container given by its kind and address. -/
inductive Value where
  | atom (value : Atom)
  | seq (kind : SeqKind) (address : Address)
  | map (kind : MapKind) (address : Address)
  deriving DecidableEq

namespace Value

abbrev null : Value := .atom .null

abbrev bool (b : Bool) : Value := .atom (.bool b)

abbrev text (s : String) : Value := .atom (.text s)

abbrev int (n : Int) : Value := .atom (.number (.int n))

/-- The number that a value is; a truth value is none. -/
def number? : Value → Option Number
  | .atom (.number n) => some n
  | _ => none

/-- The text that a value is. -/
def text? : Value → Option String
  | .atom (.text s) => some s
  | _ => none

/-- The natural number that a value is. -/
def natural? : Value → Option Nat
  | .atom (.number (.int (.ofNat n))) => some n
  | _ => none

def isBool : Value → Bool
  | .atom (.bool _) => true
  | _ => false

/-- The address of a list or tuple. -/
def array? : Value → Option Address
  | .seq .list a => some a
  | .seq .tuple a => some a
  | _ => none

/-- The address of a mapping that can be changed. -/
def fields? : Value → Option Address
  | .map .plain a => some a
  | .map .ordered a => some a
  | _ => none

end Value

end Assay
