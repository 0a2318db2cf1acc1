import Assay.Proofs.Frame

/-!
Thawing: data put into new containers. The new value is tree-shaped and freezes back to the data
that it was made of, and the containers that were there before stay as they are.
-/

set_option autoImplicit false
set_option relaxedAutoImplicit false

namespace Assay

namespace Data

mutual

/-- Data of which nothing was cut off. -/
def Whole : Data → Prop
  | .atom _ => True
  | .seq _ items => ItemsWhole items
  | .map _ entries => EntriesWhole entries
  | .endless => False

def ItemsWhole : List Data → Prop
  | [] => True
  | item :: rest => Whole item ∧ ItemsWhole rest

def EntriesWhole : List (Data × Data) → Prop
  | [] => True
  | (k, v) :: rest => Whole k ∧ Whole v ∧ EntriesWhole rest

end

end Data

namespace Store

open Layout

/-- A later store has every container of an earlier one, and perhaps new ones beside them. -/
structure Grows (before after : Store) : Prop where
  sequences : before.sequences.size ≤ after.sequences.size
  mappings : before.mappings.size ≤ after.mappings.size
  items : ∀ a, a < before.sequences.size → after.items a = before.items a
  entries : ∀ a, a < before.mappings.size → after.entries a = before.entries a

theorem Grows.refl (store : Store) : Grows store store :=
  ⟨Nat.le_refl _, Nat.le_refl _, fun _ _ => rfl, fun _ _ => rfl⟩

theorem Grows.trans {first second third : Store} (early : Grows first second)
    (late : Grows second third) : Grows first third where
  sequences := Nat.le_trans early.sequences late.sequences
  mappings := Nat.le_trans early.mappings late.mappings
  items a bound :=
    (late.items a (Nat.lt_of_lt_of_le bound early.sequences)).trans (early.items a bound)
  entries a bound :=
    (late.entries a (Nat.lt_of_lt_of_le bound early.mappings)).trans (early.entries a bound)

theorem grows_newSeq (store : Store) (kind : SeqKind) (items : List Value) :
    Grows store (store.newSeq kind items).2 where
  sequences := by simp [newSeq]
  mappings := Nat.le_refl _
  items a bound := by simp [newSeq, Store.items, Array.getElem?_push_lt, bound]
  entries _ _ := rfl

theorem grows_newMap (store : Store) (kind : MapKind) (entries : Entries) :
    Grows store (store.newMap kind entries).2 where
  sequences := Nat.le_refl _
  mappings := by simp [newMap]
  items _ _ := rfl
  entries a bound := by simp [newMap, Store.entries, Array.getElem?_push_lt, bound]

theorem holds_of_grows {before after : Store} {l : Layout} (grown : Grows before after)
    (held : before.Holds l) : after.Holds l := by
  intro part member
  have stands := held part member
  cases part with
  | atom _ => trivial
  | seq _ a _ =>
    exact ⟨Nat.lt_of_lt_of_le stands.1 grown.sequences, (grown.items a stands.1).trans stands.2⟩
  | map _ a _ =>
    exact ⟨Nat.lt_of_lt_of_le stands.1 grown.mappings, (grown.entries a stands.1).trans stands.2⟩

/-- A list of layouts in new containers: they are held, and no mapping stands in them twice. -/
structure Fresh (before after : Store) (ls : List Layout) : Prop where
  grows : Grows before after
  held : ∀ l ∈ ls, after.Holds l
  new : ∀ a ∈ ls.flatMap Layout.mappings, before.mappings.size ≤ a
  nodup : (ls.flatMap Layout.mappings).Nodup

theorem fresh_nil (store : Store) : Fresh store store [] :=
  ⟨Grows.refl store, by simp, by simp, by simp⟩

theorem Fresh.append {first second third : Store} {ls ks : List Layout}
    (early : Fresh first second ls) (late : Fresh second third ks) :
    Fresh first third (ls ++ ks) where
  grows := early.grows.trans late.grows
  held l member := by
    rcases List.mem_append.mp member with member | member
    · exact holds_of_grows late.grows (early.held l member)
    · exact late.held l member
  new a member := by
    rw [List.flatMap_append] at member
    rcases List.mem_append.mp member with member | member
    · exact early.new a member
    · exact Nat.le_trans early.grows.mappings (late.new a member)
  nodup := by
    rw [List.flatMap_append, List.nodup_append]
    refine ⟨early.nodup, late.nodup, ?_⟩
    rintro a left b right rfl
    obtain ⟨l, member, inside⟩ := List.mem_flatMap.mp left
    have below := lt_of_mem_mappings (early.held l member) inside
    exact Nat.lt_irrefl a (Nat.lt_of_lt_of_le below (late.new a right))

theorem fresh_newSeq {before between : Store} {ls : List Layout} (fresh : Fresh before between ls)
    (kind : SeqKind) :
    Fresh before (between.newSeq kind (ls.map value)).2 [.seq kind between.sequences.size ls] where
  grows := fresh.grows.trans (grows_newSeq between kind _)
  held l member := by
    rw [List.mem_singleton] at member
    rw [member, holds_seq]
    refine ⟨⟨by simp [newSeq], items_newSeq between kind _⟩, fun item inside => ?_⟩
    exact holds_of_grows (grows_newSeq between kind _) (fresh.held item inside)
  new := by simpa using fresh.new
  nodup := by simpa using fresh.nodup

theorem entries_newMap (store : Store) (kind : MapKind) (entries : Entries) :
    (store.newMap kind entries).2.entries store.mappings.size = entries := by
  simp [newMap, Store.entries]

theorem fresh_newMap {before between : Store} {es : List (Layout × Layout)}
    (fresh : Fresh before between (es.flatMap fun e => [e.1, e.2])) (kind : MapKind) :
    Fresh before (between.newMap kind (es.map entryValue)).2
      [.map kind between.mappings.size es] := by
  have listed : (es.flatMap fun e => [e.1, e.2]).flatMap Layout.mappings =
      es.flatMap fun e => e.1.mappings ++ e.2.mappings := by
    simp [List.flatMap_assoc]
  have grown := grows_newMap between kind (es.map entryValue)
  have inside : ∀ e ∈ es, between.Holds e.1 ∧ between.Holds e.2 := fun e member =>
    ⟨fresh.held _ (List.mem_flatMap.mpr ⟨e, member, by simp⟩),
      fresh.held _ (List.mem_flatMap.mpr ⟨e, member, by simp⟩)⟩
  refine ⟨fresh.grows.trans grown, ?_, ?_, ?_⟩
  · intro l member
    rw [List.mem_singleton] at member
    rw [member, holds_map]
    refine ⟨⟨by simp [newMap], entries_newMap between kind _⟩, fun e member => ?_⟩
    exact ⟨holds_of_grows grown (inside e member).1, holds_of_grows grown (inside e member).2⟩
  · intro a member
    rw [List.flatMap_singleton, mappings_map, List.mem_cons] at member
    rcases member with rfl | member
    · exact fresh.grows.mappings
    · exact fresh.new a (listed ▸ member)
  · rw [List.flatMap_singleton, mappings_map, List.nodup_cons]
    refine ⟨fun member => ?_, listed ▸ fresh.nodup⟩
    obtain ⟨e, there, side⟩ := List.mem_flatMap.mp member
    rcases List.mem_append.mp side with side | side
    · exact Nat.lt_irrefl _ (lt_of_mem_mappings (inside e there).1 side)
    · exact Nat.lt_irrefl _ (lt_of_mem_mappings (inside e there).2 side)

mutual

theorem fresh_thawFrom : ∀ (d : Data) (store : Store), d.Whole →
    ∃ l : Layout, (thawFrom d store).1 = l.value ∧ l.data = d ∧
      Fresh store (thawFrom d store).2 [l]
  | .atom a, store, _ =>
    ⟨.atom a, rfl, rfl, Grows.refl store, by simp [thawFrom], by simp, by simp⟩
  | .seq kind items, store, whole => by
    obtain ⟨ls, values, contents, fresh⟩ := fresh_thawItems items store whole
    refine ⟨.seq kind (thawItems items store).2.sequences.size ls, rfl, ?_, ?_⟩
    · rw [data_seq, contents]
    · have new := fresh_newSeq fresh kind
      rwa [← values] at new
  | .map kind entries, store, whole => by
    obtain ⟨es, values, contents, fresh⟩ := fresh_thawEntries entries store whole
    refine ⟨.map kind (thawEntries entries store).2.mappings.size es, rfl, ?_, ?_⟩
    · rw [data_map, contents]
    · have new := fresh_newMap fresh kind
      rwa [← values] at new

private theorem fresh_thawItems : ∀ (items : List Data) (store : Store), Data.ItemsWhole items →
    ∃ ls : List Layout, (thawItems items store).1 = ls.map value ∧ ls.map data = items ∧
      Fresh store (thawItems items store).2 ls
  | [], store, _ => ⟨[], rfl, rfl, fresh_nil store⟩
  | item :: rest, store, whole => by
    obtain ⟨l, first, content, fresh⟩ := fresh_thawFrom item store whole.1
    obtain ⟨ls, values, contents, later⟩ := fresh_thawItems rest (thawFrom item store).2 whole.2
    refine ⟨l :: ls, ?_, ?_, fresh.append later⟩
    · rw [thawItems, List.map_cons, ← first, ← values]
    · rw [List.map_cons, content, contents]

private theorem fresh_thawEntries : ∀ (entries : List (Data × Data)) (store : Store),
    Data.EntriesWhole entries →
    ∃ es : List (Layout × Layout), (thawEntries entries store).1 = es.map entryValue ∧
      es.map (fun e => (e.1.data, e.2.data)) = entries ∧
        Fresh store (thawEntries entries store).2 (es.flatMap fun e => [e.1, e.2])
  | [], store, _ => ⟨[], rfl, rfl, fresh_nil store⟩
  | (k, v) :: rest, store, whole => by
    obtain ⟨l, key, named, fresh⟩ := fresh_thawFrom k store whole.1
    obtain ⟨m, value, content, next⟩ := fresh_thawFrom v (thawFrom k store).2 whole.2.1
    obtain ⟨es, values, contents, later⟩ :=
      fresh_thawEntries rest (thawFrom v (thawFrom k store).2).2 whole.2.2
    refine ⟨(l, m) :: es, ?_, ?_, ?_⟩
    · rw [thawEntries, List.map_cons, ← values, entryValue, ← key, ← value]
    · rw [List.map_cons, named, content, contents]
    · exact (fresh.append next).append later

end

/-- Freezing a thawed value gives its data back. -/
theorem freeze_thaw (store : Store) {d : Data} (whole : d.Whole) :
    (store.thaw d).2.freeze (store.thaw d).1 = d := by
  obtain ⟨l, value, content, fresh⟩ := fresh_thawFrom d store whole
  rw [thaw, value, freeze_of_holds (fresh.held l (List.mem_singleton_self l)), content]

end Store

end Assay
