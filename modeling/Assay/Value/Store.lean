import Assay.Value.Basic

/-!
The store: the contents of all containers by address, and the journal of the checks that recorded
their call. Addresses are handed out in order and never taken back.
-/

set_option autoImplicit false
set_option relaxedAutoImplicit false

namespace Assay

/-- The contents of a mapping, in the order of insertion. -/
abbrev Entries := List (Value × Value)

namespace Entries

/-- The value stored under a text, if there is one. -/
def valueOf? (entries : Entries) (key : String) : Option Value :=
  (List.find? (fun entry => entry.1 == Value.text key) entries).map Prod.snd

/-- The value stored under a text, or the absent value. -/
def get (entries : Entries) (key : String) : Value := (entries.valueOf? key).getD .null

/-- The entries with a value under a text: in place if the text is a key, else at the end. -/
def put : Entries → String → Value → Entries
  | [], key, value => [(.text key, value)]
  | entry :: rest, key, value =>
    if entry.1 == .text key then (entry.1, value) :: rest else entry :: put rest key value

/-- The entries whose key is one of the given texts. -/
def restrict (entries : Entries) (keys : List String) : Entries :=
  entries.filter fun entry => keys.any fun key => entry.1 == .text key

end Entries

/-- The contents of sequences and mappings by address, the journal, and the number for the next
NaN. -/
structure Store where
  sequences : Array (List Value) := #[]
  mappings : Array Entries := #[]
  journal : List Value := []
  nextTag : Nat := 0

namespace Store

def items (store : Store) (a : Address) : List Value := (store.sequences[a]?).getD []

def entries (store : Store) (a : Address) : Entries := (store.mappings[a]?).getD []

def setItems (store : Store) (a : Address) (items : List Value) : Store :=
  { store with sequences := store.sequences.setIfInBounds a items }

def setEntries (store : Store) (a : Address) (entries : Entries) : Store :=
  { store with mappings := store.mappings.setIfInBounds a entries }

def newSeq (store : Store) (kind : SeqKind) (items : List Value) : Value × Store :=
  (.seq kind store.sequences.size, { store with sequences := store.sequences.push items })

def newMap (store : Store) (kind : MapKind) (entries : Entries) : Value × Store :=
  (.map kind store.mappings.size, { store with mappings := store.mappings.push entries })

/-- The number of containers: no value that does not contain itself is nested more deeply. -/
def depth (store : Store) : Nat := store.sequences.size + store.mappings.size

/-- Whether a value counts as true: absence, `false`, zeros, and empty texts and containers do
not. -/
def truthy (store : Store) : Value → Bool
  | .atom .null => false
  | .atom (.bool b) => b
  | .atom (.number n) => !n.isZero
  | .atom (.decimal (.finite _ coefficient _)) => coefficient != 0
  | .atom (.text s) => s != ""
  | .atom (.bytes b) => !b.isEmpty
  | .seq _ a => !(store.items a).isEmpty
  | .map _ a => !(store.entries a).isEmpty
  | _ => true

end Store

end Assay
