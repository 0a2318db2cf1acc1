import Assay.Factory

/-!
Changes to a registry of kinds, whatever registry that is. A factory under several names is
registered name after name, and the names before one that is refused stay registered. What is called
when a checker is built may change the registry too; the steps it takes are steps of their own.
-/

set_option autoImplicit false
set_option relaxedAutoImplicit false

namespace Assay

/-- A change to a registry of kinds. A checked entry asks for something that can be called. -/
inductive RegistryChange (β : Type) where
  | enterChecked (kind : Data) (item : Option β) (overwrite : Bool)
  | enterAll (names : List Data) (item : β) (overwrite : Bool)
  | remove (kind : Data)
  | clear

/-- What is done with a registry: a change, or building a checker of one of its kinds. A build calls
the item that is found, which takes steps inside it before it ends. A kind that is absent is not
found by the registry, or unknown to the makers. -/
inductive Operation (β : Type) where
  | change (change : RegistryChange β)
  | build (kind : Data) (inside : β → List (Operation β)) (outcome : β → Except Failure Checker)
  | make (kind : Data) (inside : β → List (Operation β)) (outcome : β → Except Failure Checker)

namespace CommonRegistry

variable {ρ β : Type} [CommonRegistry ρ β]

/-- The item under a name; a name that is absent is reported with the names there are. -/
def fetch (r : ρ) (kind : Data) : Except Failure β := do
  match ← lookup r kind with
  | some item => return item
  | none => throw (.registry (.absent kind (some (keys r))))

/-- The item under the name of a kind that must be known. -/
def demand (r : ρ) (kind : Data) : Except Failure β := do
  match ← lookup r kind with
  | some item => return item
  | none => throw (.misuse (.unknownKind kind (some (keys r))))

/-- The registry with an item under name after name, up to the first name that is refused, and why
it was refused. -/
def registerAll (item : β) (overwrite : Bool) : ρ → List Data → ρ × Option Failure
  | r, [] => (r, none)
  | r, name :: rest =>
    match register r name item overwrite with
    | .ok r => registerAll item overwrite r rest
    | .error failure => (r, some failure)

end CommonRegistry

open CommonRegistry

section Steps

variable {ρ β : Type} [CommonRegistry ρ β]

/-- The registry after a change, and what the change gives: the item that was removed, or
nothing. -/
def RegistryChange.apply (r : ρ) : RegistryChange β → ρ × Except Failure (Option β)
  | .enterChecked kind none _ => (r, .error (.misuse (.factoryNotCallable kind)))
  | .enterChecked kind (some item) overwrite =>
    match register r kind item overwrite with
    | .ok r => (r, .ok none)
    | .error failure => (r, .error failure)
  | .enterAll names item overwrite =>
    match registerAll item overwrite r names with
    | (r, none) => (r, .ok none)
    | (r, some failure) => (r, .error failure)
  | .remove kind =>
    match unregister r kind with
    | .ok (item, r) => (r, .ok (some item))
    | .error failure => (r, .error failure)
  | .clear => (CommonRegistry.clear r, .ok none)

namespace Operation

def failure? {α : Type} : Except Failure α → Option Failure
  | .ok _ => none
  | .error failure => some failure

mutual

/-- The registry after an operation, and why the operation failed if it did. -/
def run : Operation β → ρ → ρ × Option Failure
  | .change c, r => ((c.apply r).1, failure? (c.apply r).2)
  | .build kind inside outcome, r =>
    match fetch r kind with
    | .ok item => (runAll (inside item) r, failure? (outcome item))
    | .error failure => (r, some failure)
  | .make kind inside outcome, r =>
    match demand r kind with
    | .ok item => (runAll (inside item) r, failure? (outcome item))
    | .error failure => (r, some failure)

def runAll : List (Operation β) → ρ → ρ
  | [], r => r
  | operation :: rest, r => runAll rest (run operation r).1

end

end Operation

end Steps

/-! Registries of factories. -/

abbrev Change := RegistryChange Registrant

def Change.apply (kinds : Kinds) (change : Change) : Kinds × Except Failure (Option Registrant) :=
  RegistryChange.apply kinds change

namespace Kinds

def lookup (kinds : Kinds) (kind : Data) : Except Failure (Option Registrant) :=
  CommonRegistry.lookup kinds kind

def fetch (kinds : Kinds) (kind : Data) : Except Failure Registrant :=
  CommonRegistry.fetch kinds kind

/-- Makes a checker with the registrant under a name. Its factory looks up further kinds among those
of another registry. -/
def build (kinds among : Kinds) (store : Store) (kind : Data) (source : OptionsSource)
    (keywords : Keywords) : Except Failure Checker := do
  Factory.requireFree ["self", "kind", "options"] keywords
  among.makeWith store (← kinds.fetch kind) source keywords

end Kinds

end Assay
