import Assay.Failure
import Assay.Value.Data

/-!
Registries: items under keys. What a registry can be asked for are the operations of a class, with
what is documented of them as a class of laws beside it; how it holds its items is its own affair.
The registry here holds them in the order in which their keys were first entered. A key that is
taken can only be entered again on request, and then it keeps its place.
-/

set_option autoImplicit false
set_option relaxedAutoImplicit false

namespace Assay

/-- The operations of a registry of items under keys. Each may refuse what it is asked for. -/
class CommonRegistry (ρ : Type) (β : outParam Type) where
  empty : ρ
  /-- The keys as they are listed. -/
  keys : ρ → List Data
  /-- The item under a key, if there is one. -/
  lookup : ρ → Data → Except Failure (Option β)
  /-- The registry with an item under a key, which is overwritten on request only. -/
  register : ρ → Data → β → Bool → Except Failure ρ
  /-- The item under a key, and the registry without it. -/
  unregister : ρ → Data → Except Failure (β × ρ)
  clear : ρ → ρ

namespace CommonRegistry

variable {ρ β : Type} [CommonRegistry ρ β]

def get? (r : ρ) (name : Data) : Option β :=
  match lookup r name with
  | .ok found => found
  | .error _ => none

def has (r : ρ) (name : Data) : Bool := (get? r name).isSome

/-- One registry is the other one with an item under a name. The name keeps its place if it was
there, and else it comes last. -/
structure Enters (r : ρ) (name : Data) (item : β) (after : ρ) : Prop where
  keys_eq : keys after = if has r name then keys r else keys r ++ [name]
  get?_eq : ∀ other : Data, other.isKey →
    get? after other = if name == other then some item else get? r other

/-- One registry is the other one without a name. -/
structure Drops (r : ρ) (name : Data) (after : ρ) : Prop where
  keys_eq : keys after = (keys r).filter fun key => !(key == name)
  get?_eq : ∀ other : Data, other.isKey →
    get? after other = if name == other then none else get? r other

end CommonRegistry

open CommonRegistry in
/-- What is documented of the operations: the items are found under the keys that are listed, a
taken key is refused unless it may be overwritten, one that is absent cannot be removed, and nothing
is done but what is asked for. Data that cannot be a key is refused. -/
class LawfulRegistry (ρ : Type) {β : outParam Type} [CommonRegistry ρ β] : Prop where
  keys_empty : keys (empty : ρ) = []
  keys_clear (r : ρ) : keys (clear r) = []
  isKey_of_mem (r : ρ) {key : Data} : key ∈ keys r → key.isKey
  has_iff (r : ρ) {name : Data} : name.isKey → (has r name ↔ (keys r).any (· == name))
  lookup_key (r : ρ) {name : Data} : name.isKey → ∃ found, lookup r name = .ok found
  lookup_noKey (r : ρ) {name : Data} : ¬name.isKey → ∃ failure, lookup r name = .error failure
  register_noKey (r : ρ) {name : Data} (item : β) (overwrite : Bool) :
    ¬name.isKey → ∃ failure, register r name item overwrite = .error failure
  register_taken (r : ρ) {name : Data} (item : β) :
    name.isKey → has r name → register r name item false = .error (.registry (.taken name))
  register_allowed (r : ρ) {name : Data} (item : β) {overwrite : Bool} :
    name.isKey → (has r name → overwrite) →
      ∃ after, register r name item overwrite = .ok after ∧ Enters r name item after
  unregister_absent (r : ρ) {name : Data} :
    get? r name = none → ∃ failure, unregister r name = .error failure
  unregister_held (r : ρ) {name : Data} {item : β} :
    get? r name = some item → ∃ after, unregister r name = .ok (item, after) ∧ Drops r name after

/-- Data that can be a key. -/
abbrev Key := {key : Data // key.isKey}

/-- Items under keys, in order. -/
structure Registry (β : Type) where
  entries : List (Key × β) := []

namespace Registry

variable {β : Type}

def keys (r : Registry β) : List Data := r.entries.map (·.1.val)

def get? (r : Registry β) (key : Data) : Option β :=
  (r.entries.find? fun entry => entry.1.val == key).map Prod.snd

def has (r : Registry β) (key : Data) : Bool := r.entries.any fun entry => entry.1.val == key

/-- The entries with an item under a key: in place if the key is there, else at the end. -/
def putEntry : List (Key × β) → Key → β → List (Key × β)
  | [], key, item => [(key, item)]
  | entry :: rest, key, item =>
    if entry.1.val == key.val then (entry.1, item) :: rest else entry :: putEntry rest key item

def put (r : Registry β) (key : Key) (item : β) : Registry β := ⟨putEntry r.entries key item⟩

def without (r : Registry β) (name : Data) : Registry β :=
  ⟨r.entries.filter fun entry => !(entry.1.val == name)⟩

def count (r : Registry β) : Nat := r.entries.length

def literal (r : Registry β) : String := "CheckerRegistry(count=" ++ toString r.count ++ ")"

/-- The data as a key, unless it cannot be one. -/
def requireKey (name : Data) : Except Failure Key :=
  if key : name.isKey then .ok ⟨name, key⟩ else .error (.fault .wrongType)

instance : CommonRegistry (Registry β) β where
  empty := {}
  keys := keys
  lookup r name := do
    let key ← requireKey name
    return r.get? key
  register r name item overwrite := do
    let key ← requireKey name
    if r.has name && !overwrite then throw (.registry (.taken name)) else return r.put key item
  unregister r name := do
    let key ← requireKey name
    match r.get? key with
    | some item => return (item, r.without key)
    | none => throw (.registry (.absent name none))
  clear _ := {}

end Registry

end Assay
