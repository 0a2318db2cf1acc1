import Assay.Proofs.Fields
import Assay.Proofs.Layout

/-!
Frames: what a change to a store leaves alone. A check makes no mappings; a store keeps another
apart from some mappings when all other containers are as they were, and then every layout without
those mappings is still held.
-/

set_option autoImplicit false
set_option relaxedAutoImplicit false

namespace Assay

namespace Store

/-- A later store has the containers of an earlier one unchanged, some mappings apart, and at most
sequences beside them. -/
structure Keeps (touched : List Address) (before after : Store) : Prop where
  sequences : before.sequences.size ≤ after.sequences.size
  mappings : after.mappings.size = before.mappings.size
  items : ∀ a, a < before.sequences.size → after.items a = before.items a
  entries : ∀ a, a ∉ touched → after.entries a = before.entries a

theorem Keeps.refl (touched : List Address) (store : Store) : Keeps touched store store :=
  ⟨Nat.le_refl _, rfl, fun _ _ => rfl, fun _ _ => rfl⟩

theorem Keeps.trans {touched : List Address} {first second third : Store}
    (early : Keeps touched first second) (late : Keeps touched second third) :
    Keeps touched first third where
  sequences := Nat.le_trans early.sequences late.sequences
  mappings := late.mappings.trans early.mappings
  items a bound :=
    (late.items a (Nat.lt_of_lt_of_le bound early.sequences)).trans (early.items a bound)
  entries a apart := (late.entries a apart).trans (early.entries a apart)

theorem Keeps.mono {touched more : List Address} {before after : Store}
    (kept : Keeps touched before after) (subset : touched ⊆ more) : Keeps more before after :=
  ⟨kept.sequences, kept.mappings, kept.items,
    fun a apart => kept.entries a fun member => apart (subset member)⟩

theorem entries_setEntries (store : Store) (a b : Address) (entries : Entries) :
    (store.setEntries a entries).entries b =
      if a = b ∧ a < store.mappings.size then entries else store.entries b := by
  simp only [Store.entries, setEntries, Array.getElem?_setIfInBounds]
  split
  · rename_i same
    subst same
    by_cases bound : a < store.mappings.size
    · simp [bound]
    · simp [bound]
  · rename_i other
    simp [other]

theorem entries_setEntries_ne (store : Store) {a b : Address} (other : a ≠ b) (entries : Entries) :
    (store.setEntries a entries).entries b = store.entries b := by
  rw [entries_setEntries, if_neg fun h => other h.1]

theorem entries_setEntries_same (store : Store) {a : Address} (bound : a < store.mappings.size)
    (entries : Entries) : (store.setEntries a entries).entries a = entries := by
  rw [entries_setEntries, if_pos ⟨rfl, bound⟩]

theorem entries_of_size_le {store : Store} {a : Address} (beyond : store.mappings.size ≤ a) :
    store.entries a = [] := by
  simp [Store.entries, beyond]

@[simp]
theorem items_setEntries (store : Store) (a b : Address) (entries : Entries) :
    (store.setEntries a entries).items b = store.items b := rfl

@[simp]
theorem size_sequences_setEntries (store : Store) (a : Address) (entries : Entries) :
    (store.setEntries a entries).sequences.size = store.sequences.size := rfl

@[simp]
theorem size_mappings_setEntries (store : Store) (a : Address) (entries : Entries) :
    (store.setEntries a entries).mappings.size = store.mappings.size := by
  simp [setEntries]

theorem keeps_setEntries (store : Store) (a : Address) (entries : Entries) :
    Keeps [a] store (store.setEntries a entries) where
  sequences := Nat.le_refl _
  mappings := size_mappings_setEntries store a entries
  items _ _ := rfl
  entries _ apart := entries_setEntries_ne store (fun same => apart (by simp [same])) entries

theorem keeps_setEntries_self (store : Store) (a : Address) :
    Keeps [] store (store.setEntries a (store.entries a)) where
  sequences := Nat.le_refl _
  mappings := size_mappings_setEntries store a _
  items _ _ := rfl
  entries b _ := by
    rw [entries_setEntries]
    split
    · rename_i here
      rw [here.1]
    · rfl

theorem setEntries_cases {store : Store} {a : Address} {entries : Entries} (b : Address)
    {P : Entries → Prop} (old : P (store.entries b)) (new : a = b → P entries) :
    P ((store.setEntries a entries).entries b) := by
  rw [entries_setEntries]
  split
  · rename_i here
    exact new here.1
  · exact old

theorem entries_pruned (store : Store) (a : Address) (names : List String) :
    (store.setEntries a ((store.entries a).restrict names)).entries a =
      (store.entries a).restrict names := by
  by_cases bound : a < store.mappings.size
  · exact entries_setEntries_same store bound _
  · rw [entries_setEntries, if_neg fun h => bound h.2, entries_of_size_le (Nat.le_of_not_lt bound)]
    rfl

theorem items_newSeq (store : Store) (kind : SeqKind) (items : List Value) :
    (store.newSeq kind items).2.items store.sequences.size = items := by
  simp [newSeq, Store.items]

theorem keeps_newSeq (store : Store) (kind : SeqKind) (items : List Value) :
    Keeps [] store (store.newSeq kind items).2 where
  sequences := by simp [newSeq]
  mappings := rfl
  items a bound := by simp [newSeq, Store.items, Array.getElem?_push_lt, bound]
  entries _ _ := rfl

theorem holds_of_keeps {touched : List Address} {before after : Store} {l : Layout}
    (kept : Keeps touched before after) (held : before.Holds l)
    (apart : ∀ a ∈ l.mappings, a ∉ touched) : after.Holds l := by
  intro part member
  have stands := held part member
  cases part with
  | atom _ => trivial
  | seq _ a _ =>
    exact ⟨Nat.lt_of_lt_of_le stands.1 kept.sequences, (kept.items a stands.1).trans stands.2⟩
  | map _ a _ =>
    have listed : a ∈ l.mappings := List.mem_filterMap.mpr ⟨_, member, rfl⟩
    exact ⟨kept.mappings ▸ stands.1, (kept.entries a (apart a listed)).trans stands.2⟩

/-- A value is tree-shaped when it is finite and no mapping is reached in it in two ways. -/
def TreeShaped (store : Store) (v : Value) : Prop :=
  ∃ l : Layout, l.value = v ∧ store.Holds l ∧ l.mappings.Nodup

end Store

end Assay
