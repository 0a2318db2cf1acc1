import Assay.Registry
import Assay.Value.Data
import Mathlib.Data.List.Find
import Mathlib.Data.List.Pairwise

/-!
Keys. Equality of data is an equivalence among the data that can be keys: it holds of two keys when
they are identified with the same thing. Registries hold an item under such a key until another one
is put in its place or the key is taken away; they do what is documented of common registries.
-/

set_option autoImplicit false
set_option relaxedAutoImplicit false

namespace Assay

namespace Magnitude

theorem eq_iff {m n : Magnitude} : m.eq n = true ↔ m ≠ .nan ∧ m = n := by
  cases m <;> cases n <;> simp [eq]

end Magnitude

namespace Atom

/-- What an atom is identified with as a key: what it amounts to unless that is a NaN, else
itself. -/
def identity (a : Atom) : Atom ⊕ Magnitude :=
  match a.magnitude?.filter (· != .nan) with
  | none => .inl a
  | some m => .inr m

theorem eq_of_identity {a b : Atom} {m : Magnitude} (left : a.identity = .inr m)
    (right : b.identity = .inr m) : a.eq b = true := by
  have amount : ∀ {c : Atom}, c.identity = .inr m → c.magnitude? = some m ∧ m ≠ .nan := by
    intro c identified
    rw [identity] at identified
    split at identified
    · cases identified
    · rename_i n found
      cases identified
      simpa using Option.filter_eq_some_iff.mp found
  rw [eq, (amount left).1, (amount right).1]
  exact Magnitude.eq_iff.mpr ⟨(amount left).2, rfl⟩

theorem same_iff {a b : Atom} : a.same b = true ↔ a.identity = b.identity := by
  rw [same, Bool.or_eq_true, beq_iff_eq]
  constructor
  · rintro (rfl | equal)
    · rfl
    · rw [eq] at equal
      split at equal
      · rename_i m n left right
        obtain ⟨comparable, rfl⟩ := Magnitude.eq_iff.mp equal
        have kept : Option.filter (· != Magnitude.nan) (some m) = some m := by simp [comparable]
        simp only [identity, left, right, kept]
      · rw [beq_iff_eq.mp equal]
      · cases equal
  · intro alike
    cases right : b.identity with
    | inr m => exact Or.inr (eq_of_identity (alike.trans right) right)
    | inl c =>
      have itself : ∀ {d : Atom}, d.identity = .inl c → d = c := by
        intro d identified
        rw [identity] at identified
        split at identified <;> cases identified
        rfl
      exact Or.inl ((itself (alike.trans right)).trans (itself right).symm)

end Atom

/-- What a key is identified with. -/
inductive Identity where
  | atom (identity : Atom ⊕ Magnitude)
  | tuple (items : List Identity)
  | none

namespace Data

mutual

def identity : Data → Identity
  | .atom a => .atom a.identity
  | .seq .tuple items => .tuple (identities items)
  | _ => .none

def identities : List Data → List Identity
  | [] => []
  | item :: rest => identity item :: identities rest

end

mutual

theorem same_iff : ∀ {a b : Data}, a.isKey → b.isKey →
    (a.same b = true ↔ a.identity = b.identity)
  | .atom a, .atom b, _, _ => by
    simp only [same, identity, Identity.atom.injEq, Atom.same_iff]
  | .atom a, .seq .tuple ys, _, _ => by simp [same, identity]
  | .seq .tuple xs, .atom b, _, _ => by simp [same, identity]
  | .seq .tuple xs, .seq .tuple ys, left, right => by
    simp only [isKey] at left right
    simp only [same, identity, Identity.tuple.injEq, beq_self_eq_true, Bool.true_and]
    exact pairwise_iff left right

theorem pairwise_iff : ∀ {xs ys : List Data}, areKeys xs → areKeys ys →
    (pairwise xs ys = true ↔ identities xs = identities ys)
  | [], [], _, _ => by simp [pairwise]
  | [], y :: ys, _, _ => by simp [pairwise, identities]
  | x :: xs, [], _, _ => by simp [pairwise, identities]
  | x :: xs, y :: ys, left, right => by
    simp only [areKeys, Bool.and_eq_true] at left right
    simp only [pairwise, identities, Bool.and_eq_true, List.cons.injEq]
    exact and_congr (same_iff left.1 right.1) (pairwise_iff left.2 right.2)

end

/-- Two keys are equal when they are identified with the same thing. -/
theorem beq_iff {a b : Data} (left : a.isKey) (right : b.isKey) :
    (a == b) = true ↔ a.identity = b.identity :=
  same_iff left right

theorem beq_comm {a b : Data} (left : a.isKey) (right : b.isKey) : (a == b) = (b == a) := by
  rw [Bool.eq_iff_iff, beq_iff left right, beq_iff right left, eq_comm]

theorem text_beq (a b : String) : (text a == text b) = (a == b) := by
  change same (text a) (text b) = _
  rw [text, text, same]
  simp only [Atom.same, Atom.eq, Atom.magnitude?, Bool.or_self]
  rw [Bool.eq_iff_iff, beq_iff_eq, beq_iff_eq, Atom.text.injEq]

theorem beq_congr {a b c : Data} (left : a.isKey) (right : b.isKey) (key : c.isKey)
    (same : (a == b) = true) : (a == c) = (b == c) := by
  rw [Bool.eq_iff_iff, beq_iff left key, beq_iff right key, (beq_iff left right).mp same]

end Data

namespace Registry

variable {β : Type} {r : Registry β} {name other : Data} {item : β}

theorem has_eq_isSome (r : Registry β) (name : Data) : r.has name = (r.get? name).isSome := by
  rw [has, get?, Option.isSome_map, Bool.eq_iff_iff, List.any_eq_true, List.find?_isSome]

theorem has_eq_any_keys (r : Registry β) (name : Data) : r.has name = r.keys.any (· == name) := by
  rw [has, keys, List.any_map]
  rfl

private theorem map_putEntry (entries : List (Key × β)) (name : Key) (item : β) :
    (putEntry entries name item).map (·.1.val) =
      if entries.any (fun entry => entry.1.val == name.val) then entries.map (·.1.val)
      else entries.map (·.1.val) ++ [name.val] := by
  induction entries with
  | nil => rfl
  | cons entry rest ih =>
    rw [putEntry, List.any_cons]
    cases entry.1.val == name.val with
    | true => rfl
    | false =>
      simp only [Bool.false_eq_true, if_false, List.map_cons, ih, Bool.false_or]
      split <;> rfl

theorem keys_put (r : Registry β) (name : Key) (item : β) :
    (r.put name item).keys = if r.has name then r.keys else r.keys ++ [name.val] :=
  map_putEntry r.entries name item

private theorem find?_putEntry (entries : List (Key × β)) (name : Key) (otherKey : other.isKey) :
    ((putEntry entries name item).find? fun entry => entry.1.val == other).map Prod.snd =
      if name.val == other then some item
      else (entries.find? fun entry => entry.1.val == other).map Prod.snd := by
  induction entries with
  | nil =>
    rw [putEntry, List.find?_cons]
    cases name.val == other <;> rfl
  | cons entry rest ih =>
    have entryKey := entry.1.property
    rw [putEntry]
    cases same : entry.1.val == name.val with
    | true =>
      simp only [if_true, List.find?_cons, Data.beq_congr entryKey name.property otherKey same]
      cases name.val == other <;> rfl
    | false =>
      simp only [Bool.false_eq_true, if_false, List.find?_cons]
      cases found : entry.1.val == other with
      | false => exact ih
      | true =>
        have different : (name.val == other) = false := by
          rw [Data.beq_comm name.property otherKey,
            ← Data.beq_congr entryKey otherKey name.property found, same]
        rw [different]
        rfl

theorem get?_put (r : Registry β) (name : Key) (otherKey : other.isKey) (item : β) :
    (r.put name item).get? other = if name.val == other then some item else r.get? other :=
  find?_putEntry r.entries name otherKey

theorem keys_without (r : Registry β) (name : Data) :
    (r.without name).keys = r.keys.filter fun key => !(key == name) := by
  rw [keys, without, keys, List.filter_map]
  rfl

theorem get?_without (key : name.isKey) (otherKey : other.isKey) :
    (r.without name).get? other = if name == other then none else r.get? other := by
  have alike : ∀ entry ∈ r.entries, (entry.1.val == other) = true →
      (entry.1.val == name) = (name == other) := by
    intro entry member looked
    rw [Data.beq_congr entry.1.property otherKey key looked, Data.beq_comm otherKey key]
  rw [get?, without, List.find?_filter]
  cases same : name == other with
  | true =>
    rw [if_pos rfl, Option.map_eq_none_iff, List.find?_eq_none]
    intro entry member found
    have ⟨kept, looked⟩ : ¬(entry.1.val == name) = true ∧ (entry.1.val == other) = true := by
      simpa using found
    exact kept ((alike entry member looked).trans same)
  | false =>
    rw [if_neg Bool.false_ne_true, get?]
    congr 1
    refine List.find?_congr fun entry member => ?_
    cases looked : entry.1.val == other with
    | false => simp
    | true => simp [(alike entry member looked).trans same]

/-! What is asked of it as a common registry. -/

theorem lookup_of_isKey (r : Registry β) (key : name.isKey) :
    CommonRegistry.lookup r name = .ok (r.get? name) := by
  simp only [CommonRegistry.lookup, requireKey, key, dite_true]
  rfl

theorem lookup_of_not_isKey (r : Registry β) (noKey : ¬name.isKey) :
    CommonRegistry.lookup r name = .error (.fault .wrongType) := by
  simp only [CommonRegistry.lookup, requireKey, noKey]
  rfl

theorem common_get? (r : Registry β) (key : name.isKey) :
    CommonRegistry.get? r name = r.get? name := by
  rw [CommonRegistry.get?, lookup_of_isKey r key]

theorem isKey_of_common_get? (held : CommonRegistry.get? r name = some item) : name.isKey := by
  by_contra noKey
  rw [CommonRegistry.get?, lookup_of_not_isKey r noKey] at held
  cases held

theorem common_has (r : Registry β) (key : name.isKey) :
    CommonRegistry.has r name = r.has name := by
  rw [CommonRegistry.has, common_get? r key, has_eq_isSome]

theorem enters_put (r : Registry β) (name : Key) (item : β) :
    CommonRegistry.Enters r name.val item (r.put name item) where
  keys_eq := by
    rw [common_has r name.property]
    exact keys_put r name item
  get?_eq other otherKey := by
    rw [common_get? _ otherKey, common_get? _ otherKey, get?_put r name otherKey]

theorem drops_without (r : Registry β) (key : name.isKey) :
    CommonRegistry.Drops r name (r.without name) where
  keys_eq := keys_without r name
  get?_eq other otherKey := by
    rw [common_get? _ otherKey, common_get? _ otherKey, get?_without key otherKey]

instance : LawfulRegistry (Registry β) where
  keys_empty := rfl
  keys_clear _ := rfl
  isKey_of_mem r key member := by
    obtain ⟨entry, _, rfl⟩ := List.mem_map.mp member
    exact entry.1.property
  has_iff r name key := by
    rw [common_has r key, has_eq_any_keys]
    rfl
  lookup_key r name key := ⟨_, lookup_of_isKey r key⟩
  lookup_noKey r name noKey := ⟨_, lookup_of_not_isKey r noKey⟩
  register_noKey r name item overwrite noKey := by
    refine ⟨.fault .wrongType, ?_⟩
    simp only [CommonRegistry.register, requireKey, noKey]
    rfl
  register_taken r name item key taken := by
    rw [common_has r key] at taken
    simp only [CommonRegistry.register, requireKey, key, taken]
    rfl
  register_allowed r name item overwrite key allowed := by
    rw [common_has r key] at allowed
    refine ⟨_, ?_, enters_put r ⟨name, key⟩ item⟩
    simp only [CommonRegistry.register, requireKey, key]
    cases overwrite <;> cases taken : r.has name <;> first | rfl | exact absurd (allowed taken) nofun
  unregister_absent r name absent := by
    by_cases key : name.isKey
    · rw [common_get? r key] at absent
      refine ⟨.registry (.absent name none), ?_⟩
      simp only [CommonRegistry.unregister, requireKey, key, dite_true]
      change (match r.get? name with | some item => _ | none => _) = _
      rw [absent]
      rfl
    · refine ⟨.fault .wrongType, ?_⟩
      simp only [CommonRegistry.unregister, requireKey, key]
      rfl
  unregister_held r name item held := by
    have key := isKey_of_common_get? held
    rw [common_get? r key] at held
    refine ⟨_, ?_, drops_without r key⟩
    simp only [CommonRegistry.unregister, requireKey, key, dite_true]
    change (match r.get? name with | some item => _ | none => _) = _
    rw [held]
    rfl

end Registry

end Assay
