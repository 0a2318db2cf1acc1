import Assay.Value.Store

/-!
Data: the whole contents of a value as a tree, without addresses. Equality of values is decided on
their data. Numbers of all makes and truth values are equal when they amount to the same, mappings
are equal whatever their order unless both are ordered, and the members of containers are equal also
when they are one and the same NaN.
-/

set_option autoImplicit false
set_option relaxedAutoImplicit false

namespace Assay

/-- A value with all its contents. The contents of a value that contains itself have no end and are
cut off. -/
inductive Data where
  | atom (value : Atom)
  | seq (kind : SeqKind) (items : List Data)
  | map (kind : MapKind) (entries : List (Data × Data))
  | endless

namespace Decimal

def magnitude : Decimal → Magnitude
  | .finite negative coefficient exponent =>
    let size : Rat :=
      if 0 ≤ exponent then ((coefficient * Nat.pow 10 exponent.toNat : Nat) : Rat)
      else mkRat coefficient (Nat.pow 10 (-exponent).toNat)
    .finite (if negative then -size else size)
  | .infinite negative => .infinite negative
  | .nan _ _ => .nan

end Decimal

namespace Atom

/-- What an atom amounts to as a number; a truth value counts as zero or one. -/
def magnitude? : Atom → Option Magnitude
  | .bool b => some (.finite (if b then 1 else 0))
  | .number n => some n.magnitude
  | .decimal d => some d.magnitude
  | _ => none

/-- Equality of atoms; a NaN differs from itself. -/
def eq (a b : Atom) : Bool :=
  match a.magnitude?, b.magnitude? with
  | some m, some n => m.eq n
  | none, none => a == b
  | _, _ => false

/-- Equality of atoms in which a NaN is the same as itself. -/
def same (a b : Atom) : Bool := a == b || a.eq b

end Atom

namespace Data

abbrev null : Data := .atom .null

abbrev text (s : String) : Data := .atom (.text s)

mutual

/-- Equality of the members of containers. -/
def same : Data → Data → Bool
  | .atom a, .atom b => a.same b
  | .seq .set xs, .seq .set ys => xs.length == ys.length && within xs ys
  | .seq kind xs, .seq otherKind ys => kind == otherKind && pairwise xs ys
  | .map kind xs, .map otherKind ys =>
    xs.length == ys.length && entriesWithin xs ys &&
      (!(kind == .ordered && otherKind == .ordered) || sameKeys xs ys)
  | _, _ => false

/-- Whether two lists are equal item by item. -/
def pairwise : List Data → List Data → Bool
  | [], [] => true
  | x :: xs, y :: ys => same x y && pairwise xs ys
  | _, _ => false

/-- Whether every item of the first list equals one of the second. -/
def within : List Data → List Data → Bool
  | [], _ => true
  | x :: xs, ys => ys.any (fun y => same x y) && within xs ys

/-- Whether every entry of the first list equals one of the second. -/
def entriesWithin : List (Data × Data) → List (Data × Data) → Bool
  | [], _ => true
  | (k, v) :: xs, ys => ys.any (fun y => same k y.1 && same v y.2) && entriesWithin xs ys

/-- Whether two lists of entries have equal keys in the same order. -/
def sameKeys : List (Data × Data) → List (Data × Data) → Bool
  | [], [] => true
  | (k, _) :: xs, y :: ys => same k y.1 && sameKeys xs ys
  | _, _ => false

end

instance : BEq Data := ⟨same⟩

/-- The text that a piece of data is. -/
def text? : Data → Option String
  | .atom (.text s) => some s
  | _ => none

mutual

/-- Whether data can be a key: all but lists, sets and mappings, and tuples that hold one. -/
def isKey : Data → Bool
  | .atom _ => true
  | .seq .tuple items => areKeys items
  | _ => false

def areKeys : List Data → Bool
  | [] => true
  | item :: rest => isKey item && areKeys rest

end

end Data

mutual

/-- Puts data into new containers of a store. -/
def thawFrom : Data → Store → Value × Store
  | .atom a, store => (.atom a, store)
  | .seq kind items, store =>
    let (items, store) := thawItems items store
    store.newSeq kind items
  | .map kind entries, store =>
    let (entries, store) := thawEntries entries store
    store.newMap kind entries
  | .endless, store => (.null, store)

def thawItems : List Data → Store → List Value × Store
  | [], store => ([], store)
  | item :: rest, store =>
    let (item, store) := thawFrom item store
    let (rest, store) := thawItems rest store
    (item :: rest, store)

def thawEntries : List (Data × Data) → Store → Entries × Store
  | [], store => ([], store)
  | (k, v) :: rest, store =>
    let (k, store) := thawFrom k store
    let (v, store) := thawFrom v store
    let (rest, store) := thawEntries rest store
    ((k, v) :: rest, store)

end

namespace Store

/-- The data of a value, followed through at most `fuel` levels of containers. -/
def freezeWithin (store : Store) : Nat → Value → Data
  | _, .atom a => .atom a
  | 0, _ => .endless
  | fuel + 1, .seq kind a => .seq kind ((store.items a).map (freezeWithin store fuel))
  | fuel + 1, .map kind a =>
    .map kind ((store.entries a).map fun entry =>
      (freezeWithin store fuel entry.1, freezeWithin store fuel entry.2))

/-- The data of a value. -/
def freeze (store : Store) (v : Value) : Data := store.freezeWithin store.depth v

/-- A value with given data in new containers, and the store with them; what was cut off becomes the
absent value. -/
def thaw (store : Store) (d : Data) : Value × Store := thawFrom d store

/-- Equality of values as members of containers: a value is the same as itself, and otherwise the
data decide. -/
def same (store : Store) (a b : Value) : Bool := a == b || store.freeze a == store.freeze b

/-- Equality of values: as members of containers, but a NaN differs from itself. -/
def equal (store : Store) : Value → Value → Bool
  | .atom a, .atom b => a.eq b
  | a, b => store.same a b

end Store

end Assay
