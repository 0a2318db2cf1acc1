import Assay.Options.Source
import Assay.Value.Container

/-!
Where the modes of a check come from: nothing, modes chosen before, or a mapping of their names to
truth values. Names that mean no mode are refused before any value is looked at.
-/

set_option autoImplicit false
set_option relaxedAutoImplicit false

namespace Assay

/-- The ways to give modes. Apart from mappings, a collection of names can be refused for its names
but gives no modes. -/
inductive ModeSource where
  | absent
  | given (mode : Mode)
  | mapping (entries : Entries)
  | names (items : List Value)
  | other

namespace Mode

/-- The written names of the modes. -/
def names : List String := ["partial", "sanitize"]

/-- The mode with a value under a written name. -/
def set (mode : Mode) (name : String) (b : Bool) : Mode :=
  if name == "sanitize" then { mode with sanitize := b }
  else if name == "partial" then { mode with partialCheck := b }
  else mode

/-- Refuses names that mean no mode: they are listed in order, and names that are no texts cannot be
listed. -/
def checkNames (items : List Value) : Except Failure Unit :=
  match items.filter fun item => !item.text?.any names.contains with
  | [] => .ok ()
  | unknown =>
    match unknown.mapM Value.text? with
    | some texts => .error (.mode (.unknownOptions (sortedSet texts)))
    | none => .error (.fault .wrongType)

/-- The modes that the entries of a mapping give; every value must be a truth value. -/
def fill (store : Store) : Mode → Entries → Except Failure Mode
  | mode, [] => .ok mode
  | mode, (key, value) :: rest =>
    match key.text?, value with
    | some name, .atom (.bool b) => fill store (mode.set name b) rest
    | some name, _ => .error (.mode (.notBoolean name value.label (store.freeze value)))
    | none, _ => .error (.fault .wrongType)

/-- The modes that a mapping gives; those it does not name are off. -/
def ofEntries (store : Store) (entries : Entries) : Except Failure Mode := do
  checkNames (entries.map Prod.fst)
  fill store {} entries

/-- The modes that a source lists. -/
def read (store : Store) : ModeSource → Except Failure Mode
  | .mapping entries => ofEntries store entries
  | .names items =>
    if items.all store.isKey then do
      checkNames items
      .error (.fault .noAttribute)
    else .error (.fault .wrongType)
  | _ => .error (.fault .wrongType)

/-- The modes that a source gives; without a source all are off. -/
def coerce (store : Store) : ModeSource → Except Failure Mode
  | .absent => .ok {}
  | .given mode => .ok mode
  | source => read store source

/-- The modes with those that a mapping gives; without entries they are the very same. -/
def merge (mode : Mode) (store : Store) (overrides : Entries) : Except Failure Mode :=
  if overrides.isEmpty then .ok mode
  else do
    let given ← ofEntries store overrides
    return overrides.foldl
      (fun mode entry =>
        match entry.1.text? with
        | some "sanitize" => { mode with sanitize := given.sanitize }
        | some "partial" => { mode with partialCheck := given.partialCheck }
        | _ => mode)
      mode

end Mode

/-- The source of modes that a value is: mappings give entries, and what else lists something gives
names. -/
def ModeSource.ofValue (store : Store) : Value → ModeSource
  | .atom .null => .absent
  | .atom (.mode mode) => .given mode
  | .map _ a => .mapping (store.entries a)
  | v =>
    match store.listed? v with
    | some items => .names items
    | none => .other

end Assay
