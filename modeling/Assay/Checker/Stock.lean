import Assay.Checker.Basic
import Assay.Text.Case
import Assay.Value.Container

/-!
Ready-made custom checks: constant answers, tests of a value, a record of every call, and checks
that fail in each of the ways a check can fail.
-/

set_option autoImplicit false
set_option relaxedAutoImplicit false

namespace Assay.Stock

/-- Gives one value whatever it is called with. -/
def constantly (v : Value) : CustomCheck := ⟨"const", fun _ _ => pure v⟩

/-- A check under a name that fails in one way at the path of its call. -/
def failing (name : String) (failure : String → Failure) : CustomCheck :=
  ⟨name, fun _ ctx => throw (failure ctx.path)⟩

/-- A failure with a class, a message and a path of its own. -/
def stated (errorClass : ErrorClass) (message path : String) : Failure :=
  .stated (.validation errorClass message path [])

/-- What an atom amounts to, if it can be put in order with numbers. -/
def amount (v : Value) : CheckM Magnitude :=
  match v with
  | .atom a =>
    match a.magnitude? with
    | some m => pure m
    | none => throw (.fault .wrongType)
  | _ => throw (.fault .wrongType)

def requireDefined (undefined : Decimal → Bool) (v : Value) : CheckM Unit :=
  match v with
  | .atom (.decimal d) => if undefined d then throw (.fault .undefined) else pure ()
  | _ => pure ()

/-- Whether a decimal is a NaN, which stands in no order. -/
def isUnordered : Decimal → Bool
  | .nan _ _ => true
  | _ => false

/-- Whether a decimal is an infinity, which leaves no remainder. -/
def isUnbounded : Decimal → Bool
  | .infinite _ => true
  | _ => false

def isEven (q : Rat) : Bool := (q / 2).den == 1

def size (v : Value) : CheckM Nat := do
  let store ← get
  match v with
  | .atom (.text s) => return s.length
  | .atom (.bytes b) => return b.length
  | .seq _ a => return (store.items a).length
  | .map _ a => return (store.entries a).length
  | _ => throw (.fault .wrongType)

def newList (items : List Value) : CheckM Value := fun store =>
  let (list, store) := store.newSeq .list items
  .ok list store

def toCapitals (v : Value) (ctx : Context) : CheckM Value :=
  if !ctx.mode.sanitize then pure .null
  else
    match v with
    | .atom (.text s) => pure (.text (Text.upper s))
    | .atom (.bytes b) =>
      pure (.atom (.bytes (b.map fun c => if 97 ≤ c && c ≤ 122 then c - 32 else c)))
    | _ => throw (.fault .noAttribute)

def isPositive (v : Value) (_ : Context) : CheckM Value := do
  requireDefined isUnordered v
  return .bool ((Magnitude.finite 0).lt (← amount v))

def isMultipleOfTwo (v : Value) (_ : Context) : CheckM Value := do
  requireDefined isUnbounded v
  match ← amount v with
  | .finite q => return .bool (isEven q)
  | _ => return .bool false

def hasEvenSize (v : Value) (_ : Context) : CheckM Value := do
  return .bool ((← size v) % 2 == 0)

/-- Gives the particulars of the context. -/
def showContext (_ : Value) (ctx : Context) : CheckM Value :=
  newList [.text ctx.path, .text ctx.key, .bool ctx.mode.partialCheck, .bool ctx.mode.sanitize]

/-- Enters the call into the journal. -/
def recordCall (v : Value) (ctx : Context) : CheckM Value := do
  let entry ← newList
    [.text ctx.path, .text ctx.key, v, .bool ctx.mode.partialCheck, .bool ctx.mode.sanitize]
  modify fun store => { store with journal := store.journal ++ [entry] }
  return .null

def appendText (v : Value) (_ : Context) : CheckM Value := fun store =>
  match store.append v (.text "appended") with
  | .ok store => .ok .null store
  | .error failure => .error failure store

def all : List CustomCheck :=
  [⟨"none", fun _ _ => pure .null⟩,
    ⟨"true", fun _ _ => pure (.bool true)⟩,
    ⟨"false", fun _ _ => pure (.bool false)⟩,
    ⟨"echo", fun v _ => pure v⟩,
    ⟨"upper", toCapitals⟩,
    ⟨"positive", isPositive⟩,
    ⟨"even", isMultipleOfTwo⟩,
    ⟨"even_length", hasEvenSize⟩,
    ⟨"ctx", showContext⟩,
    ⟨"record", recordCall⟩,
    ⟨"append", appendText⟩,
    failing "missing" .missing,
    failing "child_missing" fun path => .missing (Path.child path "sub"),
    failing "invalid" fun _ => stated .invalid "custom message" "elsewhere",
    failing "assertion" (stated .assertion "broken checker"),
    failing "validation" (stated .validation "plain validation error"),
    failing "schema_error" (stated .invalidSchema "late schema error"),
    failing "value_error" fun _ => .fault .wrongValue]

def find? (name : String) : Option CustomCheck := all.find? fun check => check.name == name

end Assay.Stock
