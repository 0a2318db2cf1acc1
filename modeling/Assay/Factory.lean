import Assay.Checker.Make
import Assay.Format.AddressV6
import Assay.Format.Shapes
import Assay.Format.Siret
import Assay.Options.Source
import Assay.Registry

/-!
Factories make checkers from options. The built-in kinds are the four basic ones and six formats of
texts; a format puts its own pattern in the place of the caller's. A factory that adds a custom
check looks up the kind it extends when it makes a checker, so it sees a kind that was replaced
since.
-/

set_option autoImplicit false
set_option relaxedAutoImplicit false

namespace Assay

inductive Kind where
  | boolean
  | number
  | string
  | array
  | mac
  | ipv4
  | ipv6
  | objectId
  | email
  | siret
  deriving DecidableEq

def Kind.name : Kind → String
  | .boolean => "boolean"
  | .number => "number"
  | .string => "string"
  | .array => "array"
  | .mac => "mac"
  | .ipv4 => "ipv4"
  | .ipv6 => "ipv6"
  | .objectId => "object_id"
  | .email => "email"
  | .siret => "siret"

/-- A factory: the maker of a built-in kind, a maker of string checkers with a pattern, or a maker
that puts a custom check behind a registered kind. -/
inductive Factory where
  | builtin (kind : Kind)
  | shaped (name : String) (regex : Value)
  | extending (name : String) (kind : Value) (check : CustomCheck)

def Factory.name : Factory → String
  | .builtin kind => kind.name
  | .shaped name _ => name
  | .extending name _ _ => name

/-- What a registry of kinds holds: a factory, or a value that makes nothing. -/
inductive Registrant where
  | factory (factory : Factory)
  | value (value : Value)

abbrev Kinds := Registry Registrant

namespace Kinds

def builtin : Kinds :=
  ⟨[("boolean", .boolean), ("number", .number), ("string", .string), ("array", .array),
      ("mac", .mac), ("ipv4", .ipv4), ("ip", .ipv4), ("ipv6", .ipv6), ("objectId", .objectId),
      ("objectID", .objectId), ("email", .email), ("siret", .siret)].map
    fun (name, kind) => (⟨Data.text name, rfl⟩, Registrant.factory (.builtin kind))⟩

/-- The registrant of a kind, unless it is absent or the absent value. -/
def find? (kinds : Kinds) (kind : Data) : Option Registrant :=
  match kinds.get? kind with
  | some (.value (.atom .null)) => none
  | found => found

end Kinds

abbrev Maker := Factory → OptionsSource → Keywords → Except Failure Checker

def Registrant.make (make : Maker) : Registrant → OptionsSource → Keywords →
    Except Failure Checker
  | .factory f, source, keywords => make f source keywords
  | .value _, _, _ => .error (.fault .wrongType)

/-- A checker of a registered kind with a custom check behind it. -/
def extendKind (make : Maker) (kinds : Kinds) (source : OptionsSource) (kind : String)
    (check : CustomCheck) : Except Failure Checker :=
  match kinds.find? (.text kind) with
  | none => .error (.misuse (.unknownKind (.text kind) none))
  | some registrant => do return .extended (← registrant.make make source []) check

namespace Factory

/-- The options that a source and single options give, with a pattern in the place of theirs. -/
def shapedOptions (store : Store) (regex : Value) (source : OptionsSource) (keywords : Keywords) :
    Except Failure Options := do
  return { (← Options.coerce store source keywords) with regex }

/-- The names that a call of a factory has taken for arguments of its own. -/
def reserved : Factory → List String
  | .builtin .boolean | .builtin .number | .builtin .string | .builtin .array =>
    ["options", "self", "cls"]
  | .builtin _ => ["options", "pattern", "cls"]
  | .shaped _ _ | .extending _ _ _ => ["options", "cls"]

/-- Refuses single options under reserved names, before anything else is looked at. -/
def requireFree (reserved : List String) (keywords : Keywords) : Except Failure Unit :=
  if keywords.any fun keyword => reserved.contains keyword.1 then .error (.fault .wrongType)
  else .ok ()

/-- Makes a checker. A kind that is made by way of itself would never be finished; the number bounds
the kinds on the way. -/
def makeWithin (read : PatternReading) (store : Store) (kinds : Kinds) : Nat → Maker
  | 0, _, _, _ => .error (.fault .endless)
  | fuel + 1, factory, source, keywords => do
    requireFree factory.reserved keywords
    let coerced := Options.coerce store source keywords
    let shaped (p : Pattern) := shapedOptions store (.atom (.pattern p)) source keywords
    let extend (o : Options) (kind : String) (check : CustomCheck) :=
      extendKind (makeWithin read store kinds fuel) kinds (.record o) kind check
    match factory with
    | .builtin .boolean => Checker.makeBoolean (← coerced)
    | .builtin .number => Checker.makeNumber (← coerced)
    | .builtin .string => Checker.makeString read (← coerced)
    | .builtin .array => Checker.makeArray store (← coerced)
    | .builtin .mac => Checker.makeString read (← shaped Shapes.mac)
    | .builtin .ipv4 => Checker.makeString read (← shaped Shapes.ipv4)
    | .builtin .objectId => Checker.makeString read (← shaped Shapes.objectId)
    | .builtin .email => Checker.makeString read (← shaped Shapes.email)
    | .builtin .ipv6 => extend (← shaped Shapes.ipv6) "string" AddressV6.check
    | .builtin .siret => extend (← shaped Shapes.siret) "string" Siret.check
    | .shaped _ regex => Checker.makeString read (← shapedOptions store regex source keywords)
    | .extending _ kind check =>
      let o ← coerced
      match kind.text? with
      | some kind => extend o kind check
      | none => .error (.misuse .noKind)

def makeBy (read : PatternReading) (store : Store) (kinds : Kinds) : Maker :=
  makeWithin read store kinds (kinds.count + 1)

def make (store : Store) (kinds : Kinds) : Maker := makeBy Pattern.ofSource store kinds

end Factory

namespace Kinds

def makeWith (kinds : Kinds) (store : Store) (registrant : Registrant) (source : OptionsSource)
    (keywords : Keywords) : Except Failure Checker :=
  registrant.make (Factory.make store kinds) source keywords

/-- Makes a checker of a kind; an unknown kind is a misuse, reported with the kinds there are. -/
def makeBy (read : PatternReading) (kinds : Kinds) (store : Store) (kind : Data)
    (source : OptionsSource) (keywords : Keywords) : Except Failure Checker := do
  Factory.requireFree ["kind", "options"] keywords
  if !kind.isKey then .error (.fault .wrongType)
  else
    match kinds.find? kind with
    | none => .error (.misuse (.unknownKind kind (some kinds.keys)))
    | some registrant => registrant.make (Factory.makeBy read store kinds) source keywords

def make (kinds : Kinds) (store : Store) (kind : Data) (source : OptionsSource)
    (keywords : Keywords) : Except Failure Checker :=
  kinds.makeBy Pattern.ofSource store kind source keywords

/-- Makes a checker of a kind with a custom check behind it. -/
def extend (kinds : Kinds) (store : Store) (source : OptionsSource) (kind : String)
    (check : CustomCheck) : Except Failure Checker :=
  extendKind (Factory.make store kinds) kinds source kind check

/-- What a key amounts to as a number. -/
def amount? : Data → Option Magnitude
  | .atom a => a.magnitude?
  | _ => none

/-- The kinds in rising order. Texts can be put in order with texts and numbers with numbers, but
keys of mixed types cannot. -/
def available (kinds : Kinds) : Except Failure (List Data) :=
  match kinds.keys with
  | [] => .ok []
  | [key] => .ok [key]
  | keys =>
    match keys.mapM Data.text?, keys.mapM amount? with
    | some names, _ => .ok ((sortTexts names).map Data.text)
    | none, some _ =>
      .ok (keys.mergeSort fun a b =>
        match amount? a, amount? b with
        | some m, some n => !n.lt m
        | _, _ => true)
    | none, none => .error (.fault .wrongType)

end Kinds

/-- What an extension is given by beside single arguments. -/
inductive ExtensionSource where
  | absent
  | mapping (entries : Entries)
  | other

namespace Kinds

/-- Refuses keys of an extension other than its kind and its check. -/
def requireExtensionKeys (store : Store) (object : Handle → String) (entries : Entries) :
    Except Failure Unit :=
  let unknown := (entries.map Prod.fst).filter fun key =>
    !(key.text? == some "type" || key.text? == some "check")
  if unknown.isEmpty then .ok ()
  else
    .error (.misuse (.unknownExtensionKeys
      (sortTexts (unknown.map fun key => (store.freeze key).shown object))))

/-- Makes an extended checker from arguments of any type: an extension mapping wins over the kind
and the check given apart. -/
def extendBy (kinds : Kinds) (store : Store) (object : Handle → String)
    (callable : Value → Option CustomCheck) (source : OptionsSource) (extension : ExtensionSource)
    (kind check : Value) : Except Failure Checker := do
  let (kind, check) ←
    match extension with
    | .absent => pure (kind, check)
    | .other => throw (.misuse .extensionNotMapping)
    | .mapping entries =>
      requireExtensionKeys store object entries
      pure ((entries.valueOf? "type").getD kind, (entries.valueOf? "check").getD check)
  match kind.text? with
  | none => throw (.misuse .noKind)
  | some kind =>
    match callable check with
    | none => throw (.misuse .noCheck)
    | some check => kinds.extend store source kind check

end Kinds

end Assay
