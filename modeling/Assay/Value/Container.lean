import Assay.Failure

/-!
Containers as they are built and changed. A mapping holds no two equal keys and a set no two equal
members: an entry under a key that is there already replaces the value and keeps the key. Keys and
members have to be values that cannot change.
-/

set_option autoImplicit false
set_option relaxedAutoImplicit false

namespace Assay

/-- The entries with a value under a key: in place if an equal key is there, else at the end. -/
def Entries.assign (store : Store) : Entries → Value → Value → Entries
  | [], key, value => [(key, value)]
  | entry :: rest, key, value =>
    if store.same entry.1 key then (entry.1, value) :: rest
    else entry :: assign store rest key value

/-- The place in a list that an index means: one below zero counts from the end. -/
def placeOf? (size : Nat) (index : Int) : Option Nat :=
  let place := if index < 0 then index + size else index
  if 0 ≤ place && place < size then some place.toNat else none

/-- The index that a value is; a truth value counts as zero or one. -/
def Value.index? : Value → Option Int
  | .atom (.number (.int n)) => some n
  | .atom (.bool b) => some (if b then 1 else 0)
  | _ => none

namespace Store

def isKey (store : Store) (v : Value) : Bool := (store.freeze v).isKey

/-- The entries with those of a list entered one after another. -/
def assignAll (store : Store) (entries : Entries) (pairs : List (Value × Value)) :
    Except Failure Entries :=
  pairs.foldlM
    (fun entries pair =>
      if store.isKey pair.1 then .ok (Entries.assign store entries pair.1 pair.2)
      else .error (.fault .wrongType))
    entries

/-- A new mapping with the entries of a list, and the store with it. -/
def makeMap (store : Store) (kind : MapKind) (pairs : List (Value × Value)) :
    Except Failure (Value × Store) := do
  return store.newMap kind (← store.assignAll [] pairs)

/-- The members of a set without repetition. -/
def distinct (store : Store) (items : List Value) : List Value :=
  items.foldl
    (fun found item =>
      if found.any fun other => store.same other item then found else found ++ [item])
    []

/-- A new set with the members of a list, and the store with it. -/
def makeSet (store : Store) (items : List Value) : Except Failure (Value × Store) :=
  if items.all store.isKey then .ok (store.newSeq .set (store.distinct items))
  else .error (.fault .wrongType)

/-- The store after a value was put under a key of a mapping or at an index of a list. -/
def assign (store : Store) (container key value : Value) : Except Failure Store :=
  match container with
  | .seq .list a =>
    match key.index? with
    | none => .error (.fault .wrongType)
    | some index =>
      match placeOf? (store.items a).length index with
      | some place => .ok (store.setItems a ((store.items a).set place value))
      | none => .error (.fault .outOfRange)
  | _ =>
    match container.fields? with
    | some a => do return store.setEntries a (← store.assignAll (store.entries a) [(key, value)])
    | none => .error (.fault .wrongType)

def append (store : Store) (container value : Value) : Except Failure Store :=
  match container with
  | .seq .list a => .ok (store.setItems a (store.items a ++ [value]))
  | _ => .error (.fault .noAttribute)

/-- What a value lists: the characters of a text, the numbers of bytes, items, or keys. -/
def listed? (store : Store) : Value → Option (List Value)
  | .atom (.text s) => some (s.toList.map fun c => .text (String.singleton c))
  | .atom (.bytes b) => some (b.map fun byte => .int byte.toNat)
  | .seq _ a => some (store.items a)
  | .map _ a => some ((store.entries a).map Prod.fst)
  | _ => none

/-- The pair that a value lists. -/
def pair (store : Store) (v : Value) : Except Failure (Value × Value) :=
  match store.listed? v with
  | some [key, value] => .ok (key, value)
  | some _ => .error (.fault .wrongValue)
  | none => .error (.fault .wrongType)

/-- The entries with the pairs that values list, entered one after another. -/
def assignPairs (store : Store) : Entries → List Value → Except Failure Entries
  | entries, [] => .ok entries
  | entries, item :: rest => do
    let entries ← store.assignAll entries [← store.pair item]
    assignPairs store entries rest

/-- The entries that a value gives: those of a mapping, or the pairs that it lists. -/
def entriesOf (store : Store) (v : Value) : Except Failure Entries :=
  match v with
  | .map _ a => .ok (store.entries a)
  | _ =>
    match store.listed? v with
    | none => .error (.fault .wrongType)
    | some items => store.assignPairs [] items

/-- The entries that a value gives; one that counts as false gives none. -/
def optionalEntriesOf (store : Store) (v : Value) : Except Failure Entries :=
  if store.truthy v then store.entriesOf v else .ok []

end Store

end Assay
