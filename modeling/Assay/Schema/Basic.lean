import Assay.Schema.Definition
import Assay.Checker.Literal
import Assay.Mode.Source

/-!
Checking a value against a schema. A branch asks for a mapping that can be changed, drops the keys
that it does not describe and then checks the described fields in order; a leaf is called with the
value of its field, and when values may be replaced its result is put back under the last segment of
the path. The first failure ends the check, and what was changed before it stays changed.
-/

set_option autoImplicit false
set_option relaxedAutoImplicit false

namespace Assay

namespace Tree

variable {α : Type}

/-- Puts what a leaf gave into the mapping that holds the field. -/
def writeBack (parent : Option Address) (key : String) (result : Value) : CheckM Unit :=
  match parent with
  | none => pure ()
  | some a => modify fun store => store.setEntries a ((store.entries a).put key result)

/-- Drops the keys of a mapping that a branch does not describe. -/
def prune (a : Address) (names : List String) : CheckM Unit :=
  modify fun store => store.setEntries a ((store.entries a).restrict names)

mutual

/-- Checks a value against a tree, given how a leaf is called and which mapping holds the value; the
result is the value that is then held. -/
def check (call : α → Value → Context → CheckM Value) :
    Tree α → Value → Context → Option Address → CheckM Value
  | .leaf content, v, ctx, parent => do
    let result ← call content v ctx
    if result = .null || !ctx.mode.sanitize then return v
    else
      writeBack parent ctx.key result
      return result
  | .branch fields, v, ctx, _ =>
    match v.fields? with
    | none => throw (.invalid ctx.path)
    | some a => do
      prune a (fields.map Prod.fst)
      checkFields call fields a ctx
      return v

/-- Checks the described fields of a mapping in order. -/
def checkFields (call : α → Value → Context → CheckM Value) :
    List (String × Tree α) → Address → Context → CheckM Unit
  | [], _, _ => pure ()
  | (name, tree) :: rest, a, ctx => do
    let store ← get
    discard <| check call tree ((store.entries a).get name) (ctx.child name) (some a)
    checkFields call rest a ctx

end

/-- The names of the fields at the root; a leaf has none. -/
def rootFields : Tree α → List String
  | .leaf _ => []
  | .branch fields => fields.map Prod.fst

end Tree

/-- A schema: a tree, and the modes of a check for which none are given. -/
structure Schema where
  root : Tree Leaf
  mode : Mode := {}

namespace Schema

/-- The schema of a definition. -/
def ofDefinition (definition : Definition) (mode : Mode) : Except Failure Schema :=
  match definition.compile "" with
  | .ok root => .ok { root, mode }
  | .error fault => .error (.schema fault)

/-- The modes of one check: those that are given, else those of the schema, with single modes on
top. -/
def modeFor (schema : Schema) (store : Store) (source : ModeSource) (overrides : Entries) :
    Except Failure Mode := do
  let base ←
    match source with
    | .absent => pure schema.mode
    | given => Mode.coerce store given
  base.merge store overrides

def check (schema : Schema) (mode : Mode) (v : Value) : CheckM Value :=
  schema.root.check Leaf.call v { path := "", mode } none

/-- The text of a schema: the names at its root, or its single leaf. -/
def literal (store : Store) (object : Handle → String) (schema : Schema) : String :=
  match schema.root with
  | .branch fields =>
    "Schema(Branch([" ++ ", ".intercalate (fields.map fun field => Text.quoted field.1) ++ "]))"
  | .leaf (.checker c) => "Schema(Leaf(" ++ c.literal store object ++ "))"
  | .leaf content => "Schema(Leaf(" ++ content.name ++ "))"

end Schema

/-- The outcome of a check that reports refused values instead of failing. -/
structure Verdict where
  value : Value
  refusal : Option Failure

namespace Verdict

def valid (verdict : Verdict) : Bool := verdict.refusal.isNone

end Verdict

/-- Whether a failure says that a value was refused: it is missing or invalid. -/
def Failure.isRefusal (failure : Failure) : Bool :=
  failure.report?.any fun report =>
    report.errorClass == .missing || report.errorClass == .invalid

/-- Checks a value and reports a refusal as a verdict on the given value; other failures go on. -/
def Schema.validate (schema : Schema) (mode : Mode) (v : Value) : CheckM Verdict :=
  tryCatch (do return { value := ← schema.check mode v, refusal := none }) fun failure =>
    if failure.isRefusal then pure { value := v, refusal := some failure } else throw failure

end Assay
