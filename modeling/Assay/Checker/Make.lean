import Assay.Checker.Basic
import Assay.Pattern.Reader

/-!
Making checkers of the four basic kinds from options. Options that a kind of checker cannot work
with are refused here, so that no check has to look at them again.
-/

set_option autoImplicit false
set_option relaxedAutoImplicit false

namespace Assay.Checker

def ofPatternFault : PatternFault → Failure
  | .malformed => .fault .badPattern
  | .numberTooLarge => .fault .overflow
  | .numberTooLong | .clashingFlags => .fault .wrongValue
  | .tooDeep => .fault .endless

/-- Refuses an exact value that the checker is not for. -/
def requireExact (c : Checker) : Except Failure Unit :=
  if c.options.value = .null || c.isType c.options.value then .ok ()
  else .error (.misuse (.wrongExactValue c.kind))

def requireNumber (o : Options) (name : OptionName) : Except Failure Unit :=
  if o.get name = .null || (o.get name).number?.isSome then .ok ()
  else .error (.misuse (.wrongBound name.label))

def requireSize (o : Options) (name : OptionName) : Except Failure Unit :=
  if o.get name = .null || (o.get name).natural?.isSome then .ok ()
  else .error (.misuse (.wrongSize name.label))

/-- Refuses sizes that are no natural numbers. -/
def requireSizes (o : Options) : Except Failure Unit := do
  requireSize o .length
  requireSize o .minLength
  requireSize o .maxLength

/-- The pattern that an option holds, given as a pattern or by its source. -/
def shapeOf (read : PatternReading) : Value → Except Failure (Option Pattern)
  | .atom .null => .ok none
  | .atom (.pattern p) => .ok (some p)
  | .atom (.text source) =>
    match read source with
    | .ok p => .ok (some p)
    | .error fault => .error (ofPatternFault fault)
  | _ => .error (.misuse .wrongPattern)

def makeBoolean (o : Options) : Except Failure Checker := do
  requireExact (.boolean o)
  return .boolean o

def makeNumber (o : Options) : Except Failure Checker := do
  requireExact (.number o)
  requireNumber o .minimum
  requireNumber o .maximum
  return .number o

/-- A checker for texts. Its pattern is read when all else has been looked at. -/
def makeString (read : PatternReading) (o : Options) : Except Failure Checker := do
  requireExact (.string o none)
  requireSizes o
  return .string o (← shapeOf read o.regex)

/-- A checker for lists and tuples. It keeps the items of its exact value as they are now. -/
def makeArray (store : Store) (o : Options) : Except Failure Checker := do
  requireExact (.array o none)
  requireSizes o
  return .array o (o.value.array?.map store.items)

end Assay.Checker
