import Assay.Options.Basic
import Assay.Failure
import Assay.Pattern.Match

/-!
Checkers. A checker takes a value and a context and gives the value to keep: the given value, the
exact value that the options ask for, or what a custom check put in its place. An absent value is
kept unless it is mandatory, and a value that is not acceptable is refused.
-/

set_option autoImplicit false
set_option relaxedAutoImplicit false

namespace Assay

/-- A check: it may change the store and may fail. A change made before a failure stays. -/
abbrev CheckM := EStateM Failure Store

/-- A check that a caller supplies, under a name. -/
structure CustomCheck where
  name : String
  run : Value → Context → CheckM Value

/-- A checker: one of the four basic kinds with its options, or a checker with a custom check behind
it. A string checker holds the pattern it asks for, and an array checker the items of its exact
value as they were when it was made. -/
inductive Checker where
  | boolean (options : Options)
  | number (options : Options)
  | string (options : Options) (shape : Option Pattern)
  | array (options : Options) (expected : Option (List Value))
  | extended (base : Checker) (extension : CustomCheck)

namespace Number

/-- Whether a number satisfies the options of a number checker. -/
def accepted (o : Options) (store : Store) (n : Number) : Bool :=
  (!store.truthy o.isFloat || !n.isWhole) &&
  (!store.truthy o.isInteger || n.isWhole) &&
  (!store.truthy o.isPositive || Number.le (.int 0) n) &&
  (!store.truthy o.isNegative || n.le (.int 0)) &&
  (!store.truthy o.isNotNull || !n.isZero) &&
  o.maximum.number?.all (fun limit => n.le limit) &&
  o.minimum.number?.all (fun limit => limit.le n)

end Number

def sizeAccepted (o : Options) (size : Nat) : Bool :=
  o.length.natural?.all (fun n => size == n) &&
  o.maxLength.natural?.all (fun n => size ≤ n) &&
  o.minLength.natural?.all (fun n => n ≤ size)

def itemsEqual (store : Store) : List Value → List Value → Bool
  | [], [] => true
  | x :: xs, y :: ys => store.equal x y && itemsEqual store xs ys
  | _, _ => false

namespace Checker

def checkerClass : Checker → CheckerClass
  | .boolean _ => .boolean
  | .number _ => .number
  | .string _ _ => .string
  | .array _ _ => .array
  | .extended _ _ => .extended

/-- The kind of a checker; a checker with a custom check has none. -/
def kind : Checker → String
  | .boolean _ => "boolean"
  | .number _ => "number"
  | .string _ _ => "string"
  | .array _ _ => "array"
  | .extended _ _ => ""

/-- The options of a checker; those of its base behind a custom check. -/
def options : Checker → Options
  | .boolean o => o
  | .number o => o
  | .string o _ => o
  | .array o _ => o
  | .extended base _ => base.options

/-- Whether a value is of the type that a checker is for, whatever its options. -/
def isType : Checker → Value → Bool
  | .boolean _, v => v.isBool
  | .number _, v => v.number?.isSome
  | .string _ _, v => v.text?.isSome
  | .array _ _, v => v.array?.isSome
  | .extended base _, v => base.isType v

/-- Whether a value of the right type satisfies the options other than the exact value. -/
def accepts (store : Store) : Checker → Value → Bool
  | .boolean _, _ => true
  | .number o, v => v.number?.all fun n => n.accepted o store
  | .string o shape, v =>
    v.text?.all fun s => sizeAccepted o s.length && shape.all fun p => p.accepts s
  | .array o _, v => v.array?.all fun a => sizeAccepted o (store.items a).length
  | .extended base _, v => accepts store base v

/-- What goes wrong when a value is held against the options other than the exact value: a text of
an accepted size cannot be laid against a pattern for bytes. -/
def fault? : Checker → Value → Option Fault
  | .string o (some p), .atom (.text s) =>
    if p.forBytes && sizeAccepted o s.length then some .wrongType else none
  | _, _ => none

/-- Whether a value of the right type is the exact value that the options ask for. -/
def matchesExact (store : Store) : Checker → Value → Bool
  | .array _ expected, v =>
    v.array?.any fun a => itemsEqual store (store.items a) (expected.getD [])
  | c, v => store.equal v c.options.value

/-- The exact value to keep: the value of the options, for an array a new list of its items. -/
def exactValue : Checker → CheckM Value
  | .array _ expected => fun store =>
    let (list, store) := store.newSeq .list (expected.getD [])
    .ok list store
  | c => pure c.options.value

def checkBasic (c : Checker) (v : Value) (ctx : Context) : CheckM Value := do
  let store ← get
  if v = .null then
    if store.truthy c.options.mandatory && !ctx.mode.partialCheck then throw (.missing ctx.path)
    else return .null
  else if c.options.value ≠ .null then
    if c.isType v && c.matchesExact store v then c.exactValue else throw (.invalid ctx.path)
  else
    match c.fault? v with
    | some cause => throw (.fault cause)
    | none => if c.isType v && c.accepts store v then return v else throw (.invalid ctx.path)

/-- The check of a checker. A custom check sees every value that its base accepts, absent ones
apart; it refuses by `false`, lets the result of the base stand by `true` or by giving nothing, and
puts anything else in its place. -/
def check : Checker → Value → Context → CheckM Value
  | .extended base extension, v, ctx => do
    let result ← base.check v ctx
    if v = .null then return result
    match ← extension.run v ctx with
    | .atom (.bool false) => throw (.invalid ctx.path)
    | .atom (.bool true) => return result
    | .atom .null => return result
    | outcome => return outcome
  | c, v, ctx => c.checkBasic v ctx

end Checker

end Assay
