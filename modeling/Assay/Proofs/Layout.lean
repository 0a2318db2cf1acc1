import Assay.Value.Data
import Mathlib.Data.Finset.Card
import Mathlib.Data.List.Nodup

/-!
Layouts: values drawn as trees together with the addresses at which a store keeps their containers.
A store that holds a layout gives back its data when the value is frozen, and a change to the store
elsewhere leaves the layout in place. A value is tree-shaped when it has a layout in which no
mapping stands twice.
-/

set_option autoImplicit false
set_option relaxedAutoImplicit false

namespace Assay

namespace Value

theorem text_ne_null (s : String) : text s ≠ .null := by
  intro same
  cases same

theorem seq_ne_atom (kind : SeqKind) (a : Address) (b : Atom) : seq kind a ≠ .atom b := by
  intro same
  cases same

theorem map_ne_atom (kind : MapKind) (a : Address) (b : Atom) : map kind a ≠ .atom b := by
  intro same
  cases same

end Value

/-- A value with all its contents and the addresses of its containers. -/
inductive Layout where
  | atom (value : Atom)
  | seq (kind : SeqKind) (address : Address) (items : List Layout)
  | map (kind : MapKind) (address : Address) (entries : List (Layout × Layout))

namespace Layout

theorem ind {P : Layout → Prop} (atom : ∀ a, P (.atom a))
    (seq : ∀ kind a items, (∀ item ∈ items, P item) → P (.seq kind a items))
    (map : ∀ kind a entries, (∀ entry ∈ entries, P entry.1 ∧ P entry.2) → P (.map kind a entries))
    (l : Layout) : P l :=
  @Layout.rec P (fun items => ∀ item ∈ items, P item)
    (fun entries => ∀ entry ∈ entries, P entry.1 ∧ P entry.2) (fun entry => P entry.1 ∧ P entry.2)
    atom seq map (by simp) (fun _ _ first rest => List.forall_mem_cons.mpr ⟨first, rest⟩) (by simp)
    (fun _ _ first rest => List.forall_mem_cons.mpr ⟨first, rest⟩) (fun _ _ k v => ⟨k, v⟩) l

attribute [induction_eliminator] ind

def value : Layout → Value
  | .atom a => .atom a
  | .seq kind a _ => .seq kind a
  | .map kind a _ => .map kind a

def entryValue (entry : Layout × Layout) : Value × Value := (entry.1.value, entry.2.value)

mutual

/-- The layout without its addresses. -/
def data : Layout → Data
  | .atom a => .atom a
  | .seq kind _ items => .seq kind (itemsData items)
  | .map kind _ entries => .map kind (entriesData entries)

def itemsData : List Layout → List Data
  | [] => []
  | item :: rest => data item :: itemsData rest

def entriesData : List (Layout × Layout) → List (Data × Data)
  | [] => []
  | (k, v) :: rest => (data k, data v) :: entriesData rest

end

mutual

/-- A layout and all layouts inside it. -/
def parts : Layout → List Layout
  | .atom a => [.atom a]
  | .seq kind a items => .seq kind a items :: itemsParts items
  | .map kind a entries => .map kind a entries :: entriesParts entries

def itemsParts : List Layout → List Layout
  | [] => []
  | item :: rest => parts item ++ itemsParts rest

def entriesParts : List (Layout × Layout) → List Layout
  | [] => []
  | (k, v) :: rest => parts k ++ parts v ++ entriesParts rest

end

def mapping? : Layout → Option Address
  | .map _ a _ => some a
  | _ => none

/-- All mappings, each as often as it stands in the layout. -/
def mappings (l : Layout) : List Address := l.parts.filterMap mapping?

theorem map_of_value {l : Layout} {kind : MapKind} {a : Address} (same : l.value = .map kind a) :
    ∃ entries, l = .map kind a entries := by
  cases l with
  | atom _ => cases same
  | seq _ _ _ => cases same
  | map _ _ entries =>
    obtain ⟨rfl, rfl⟩ := Value.map.inj same
    exact ⟨entries, rfl⟩

theorem itemsData_eq (items : List Layout) : itemsData items = items.map data := by
  induction items with
  | nil => rfl
  | cons item rest ih => simp only [itemsData, ih, List.map_cons]

theorem entriesData_eq (entries : List (Layout × Layout)) :
    entriesData entries = entries.map fun entry => (entry.1.data, entry.2.data) := by
  induction entries with
  | nil => rfl
  | cons entry rest ih => simp only [entriesData, ih, List.map_cons]

@[simp]
theorem data_seq (kind : SeqKind) (a : Address) (items : List Layout) :
    (seq kind a items).data = .seq kind (items.map data) := by
  rw [data, itemsData_eq]

@[simp]
theorem data_map (kind : MapKind) (a : Address) (entries : List (Layout × Layout)) :
    (map kind a entries).data = .map kind (entries.map fun e => (e.1.data, e.2.data)) := by
  rw [data, entriesData_eq]

theorem itemsParts_eq (items : List Layout) : itemsParts items = items.flatMap parts := by
  induction items with
  | nil => rfl
  | cons item rest ih => simp only [itemsParts, ih, List.flatMap_cons]

theorem entriesParts_eq (entries : List (Layout × Layout)) :
    entriesParts entries = entries.flatMap fun entry => entry.1.parts ++ entry.2.parts := by
  induction entries with
  | nil => rfl
  | cons entry rest ih => simp only [entriesParts, ih, List.flatMap_cons]

@[simp]
theorem mappings_atom (a : Atom) : (atom a).mappings = [] := rfl

@[simp]
theorem mappings_seq (kind : SeqKind) (a : Address) (items : List Layout) :
    (seq kind a items).mappings = items.flatMap mappings := by
  rw [mappings, parts, itemsParts_eq, List.filterMap_cons_none rfl, List.filterMap_flatMap]
  rfl

@[simp]
theorem mappings_map (kind : MapKind) (a : Address) (entries : List (Layout × Layout)) :
    (map kind a entries).mappings = a :: entries.flatMap fun e => e.1.mappings ++ e.2.mappings := by
  have here : mapping? (map kind a entries) = some a := rfl
  rw [mappings, parts, entriesParts_eq, List.filterMap_cons_some here, List.filterMap_flatMap]
  simp only [List.filterMap_append, mappings]

theorem self_mem_parts (l : Layout) : l ∈ l.parts := by
  cases l <;> simp [parts]

theorem mem_parts_trans {l middle inner : Layout} (outer : middle ∈ l.parts)
    (member : inner ∈ middle.parts) : inner ∈ l.parts := by
  induction l with
  | atom a =>
    rw [parts, List.mem_singleton] at outer
    rwa [outer] at member
  | seq kind a items ih =>
    rw [parts, itemsParts_eq, List.mem_cons, List.mem_flatMap] at outer
    rcases outer with rfl | ⟨item, inside, outer⟩
    · exact member
    · rw [parts, itemsParts_eq, List.mem_cons, List.mem_flatMap]
      exact Or.inr ⟨item, inside, ih item inside outer⟩
  | map kind a entries ih =>
    rw [parts, entriesParts_eq, List.mem_cons, List.mem_flatMap] at outer
    rcases outer with rfl | ⟨entry, inside, outer⟩
    · exact member
    · rw [parts, entriesParts_eq, List.mem_cons, List.mem_flatMap]
      refine Or.inr ⟨entry, inside, List.mem_append.mpr ?_⟩
      rcases List.mem_append.mp outer with outer | outer
      · exact Or.inl ((ih entry inside).1 outer)
      · exact Or.inr ((ih entry inside).2 outer)

theorem sizeOf_le_of_mem_parts {l part : Layout} (member : part ∈ l.parts) :
    sizeOf part ≤ sizeOf l := by
  induction l with
  | atom a =>
    rw [parts, List.mem_singleton] at member
    rw [member]
  | seq kind a items ih =>
    rw [parts, itemsParts_eq, List.mem_cons, List.mem_flatMap] at member
    rcases member with rfl | ⟨item, inside, member⟩
    · exact Nat.le_refl _
    · have smaller := List.sizeOf_lt_of_mem inside
      have bound := ih item inside member
      rw [Layout.seq.sizeOf_spec]
      omega
  | map kind a entries ih =>
    rw [parts, entriesParts_eq, List.mem_cons, List.mem_flatMap] at member
    rcases member with rfl | ⟨entry, inside, member⟩
    · exact Nat.le_refl _
    · have smaller := List.sizeOf_lt_of_mem inside
      rw [Prod.mk.sizeOf_spec] at smaller
      have bounds := ih entry inside
      rw [Layout.map.sizeOf_spec]
      rcases List.mem_append.mp member with member | member
      · have bound := bounds.1 member
        omega
      · have bound := bounds.2 member
        omega

end Layout

namespace Store

open Layout

/-- Whether the outermost container of a layout stands in a store at its address. -/
def HoldsPart (store : Store) : Layout → Prop
  | .atom _ => True
  | .seq _ a items => a < store.sequences.size ∧ store.items a = items.map Layout.value
  | .map _ a entries => a < store.mappings.size ∧ store.entries a = entries.map entryValue

/-- A store holds a layout when every container of it stands at its address. -/
def Holds (store : Store) (l : Layout) : Prop := ∀ part ∈ l.parts, store.HoldsPart part

@[simp]
theorem holds_atom (store : Store) (a : Atom) : store.Holds (.atom a) := by
  intro part member
  rw [parts, List.mem_singleton] at member
  rw [member]
  trivial

theorem holds_seq (store : Store) (kind : SeqKind) (a : Address) (items : List Layout) :
    store.Holds (.seq kind a items) ↔
      (a < store.sequences.size ∧ store.items a = items.map Layout.value) ∧
        ∀ item ∈ items, store.Holds item := by
  simp only [Holds, parts, itemsParts_eq, List.forall_mem_cons, HoldsPart, List.mem_flatMap]
  constructor
  · exact fun h => ⟨h.1, fun item inside part member => h.2 part ⟨item, inside, member⟩⟩
  · exact fun h => ⟨h.1, fun part ⟨item, inside, member⟩ => h.2 item inside part member⟩

theorem holds_map (store : Store) (kind : MapKind) (a : Address)
    (entries : List (Layout × Layout)) :
    store.Holds (.map kind a entries) ↔
      (a < store.mappings.size ∧ store.entries a = entries.map entryValue) ∧
        ∀ entry ∈ entries, store.Holds entry.1 ∧ store.Holds entry.2 := by
  simp only [Holds, parts, entriesParts_eq, List.forall_mem_cons, HoldsPart, List.mem_flatMap,
    List.mem_append]
  constructor
  · intro h
    refine ⟨h.1, fun entry inside => ⟨?_, ?_⟩⟩
    · exact fun part member => h.2 part ⟨entry, inside, Or.inl member⟩
    · exact fun part member => h.2 part ⟨entry, inside, Or.inr member⟩
  · rintro ⟨here, inside⟩
    refine ⟨here, fun part ⟨entry, member, side⟩ => ?_⟩
    rcases side with side | side
    · exact (inside entry member).1 part side
    · exact (inside entry member).2 part side

private theorem eq_of_map_eq {α β : Type} {f : α → β} {xs ys : List α}
    (separates : ∀ x ∈ xs, ∀ y ∈ ys, f x = f y → x = y) (same : xs.map f = ys.map f) :
    xs = ys := by
  induction xs generalizing ys with
  | nil =>
    cases ys with
    | nil => rfl
    | cons y ys => simp at same
  | cons x xs ih =>
    cases ys with
    | nil => simp at same
    | cons y ys =>
      simp only [List.map_cons, List.cons.injEq] at same
      have first := separates x List.mem_cons_self y List.mem_cons_self same.1
      have rest := ih (fun x member y other =>
        separates x (List.mem_cons_of_mem _ member) y (List.mem_cons_of_mem _ other)) same.2
      rw [first, rest]

theorem holds_unique {store : Store} {l l' : Layout} (held : store.Holds l)
    (other : store.Holds l') (same : l.value = l'.value) : l = l' := by
  induction l generalizing l' with
  | atom a =>
    cases l' with
    | atom b => rw [Value.atom.inj same]
    | seq _ _ _ => simp [value] at same
    | map _ _ _ => simp [value] at same
  | seq kind a items ih =>
    cases l' with
    | atom _ => simp [value] at same
    | map _ _ _ => simp [value] at same
    | seq kind' b others =>
      obtain ⟨rfl, rfl⟩ := Value.seq.inj same
      obtain ⟨⟨_, here⟩, inside⟩ := (holds_seq store kind a items).mp held
      obtain ⟨⟨_, there⟩, beside⟩ := (holds_seq store kind a others).mp other
      have equal : items = others := eq_of_map_eq
        (fun item member other' member' => ih item member (inside item member)
          (beside other' member')) (here.symm.trans there)
      rw [equal]
  | map kind a entries ih =>
    cases l' with
    | atom _ => simp [value] at same
    | seq _ _ _ => simp [value] at same
    | map kind' b others =>
      obtain ⟨rfl, rfl⟩ := Value.map.inj same
      obtain ⟨⟨_, here⟩, inside⟩ := (holds_map store kind a entries).mp held
      obtain ⟨⟨_, there⟩, beside⟩ := (holds_map store kind a others).mp other
      have equal : entries = others := by
        refine eq_of_map_eq (f := entryValue) ?_ (here.symm.trans there)
        intro entry member other' member' equalValues
        obtain ⟨keys, values⟩ := Prod.mk.inj equalValues
        have first := (ih entry member).1 (inside entry member).1 (beside other' member').1 keys
        have second := (ih entry member).2 (inside entry member).2 (beside other' member').2 values
        exact Prod.ext first second
      rw [equal]

theorem holds_of_mem_parts {store : Store} {l part : Layout} (held : store.Holds l)
    (member : part ∈ l.parts) : store.Holds part :=
  fun _ inner => held _ (mem_parts_trans member inner)

theorem lt_of_mem_mappings {store : Store} {l : Layout} (held : store.Holds l) {a : Address}
    (member : a ∈ l.mappings) : a < store.mappings.size := by
  obtain ⟨part, inside, here⟩ := List.mem_filterMap.mp member
  have stands := held part inside
  cases part with
  | atom _ => cases here
  | seq _ _ _ => cases here
  | map kind b entries =>
    obtain rfl := Option.some.inj here
    exact stands.1

end Store

namespace Layout

/-- Where a container stands: among the sequences or among the mappings, and its address. -/
def place? : Layout → Option (Bool × Address)
  | .atom _ => none
  | .seq _ a _ => some (false, a)
  | .map _ a _ => some (true, a)

def places (l : Layout) : Finset (Bool × Address) := (l.parts.filterMap place?).toFinset

theorem mem_places (l : Layout) (place : Bool × Address) :
    place ∈ l.places ↔ ∃ part ∈ l.parts, part.place? = some place := by
  rw [places, List.mem_toFinset, List.mem_filterMap]

private theorem eq_of_place {store : Store} {l part : Layout} {place : Bool × Address}
    (held : store.Holds l) (inner : store.Holds part) (here : l.place? = some place)
    (there : part.place? = some place) : sizeOf l ≤ sizeOf part := by
  cases l with
  | atom a => simp [place?] at here
  | seq kind a items =>
    cases part with
    | atom _ => simp [place?] at there
    | map _ _ _ => simp [place?, ← here] at there
    | seq kind' b others =>
      simp only [place?, Option.some.injEq, ← here, Prod.mk.injEq, true_and] at there
      subst there
      have same : Layout.seq kind b items = .seq kind b others :=
        Store.holds_unique held
          ((store.holds_seq kind b others).mpr ((store.holds_seq kind' b others).mp inner)) rfl
      obtain ⟨_, _, rfl⟩ := Layout.seq.inj same
      simp only [Layout.seq.sizeOf_spec]
      cases kind <;> cases kind' <;> simp
  | map kind a entries =>
    cases part with
    | atom _ => simp [place?] at there
    | seq _ _ _ => simp [place?, ← here] at there
    | map kind' b others =>
      simp only [place?, Option.some.injEq, ← here, Prod.mk.injEq, true_and] at there
      subst there
      have same : Layout.map kind b entries = .map kind b others :=
        Store.holds_unique held
          ((store.holds_map kind b others).mpr ((store.holds_map kind' b others).mp inner)) rfl
      obtain ⟨_, _, rfl⟩ := Layout.map.inj same
      simp only [Layout.map.sizeOf_spec]
      cases kind <;> cases kind' <;> simp

/-- No container of a held layout stands inside itself, so one level down there are fewer places. -/
theorem card_places_lt {store : Store} {l part : Layout} {place : Bool × Address}
    (held : store.Holds l) (here : l.place? = some place) (member : part ∈ l.parts)
    (smaller : sizeOf part < sizeOf l) : part.places.card < l.places.card := by
  apply Finset.card_lt_card
  rw [Finset.ssubset_iff_of_subset]
  · refine ⟨place, (mem_places l place).mpr ⟨l, self_mem_parts l, here⟩, ?_⟩
    intro inside
    obtain ⟨inner, innerMember, there⟩ := (mem_places part place).mp inside
    have bound := sizeOf_le_of_mem_parts innerMember
    have large := eq_of_place held
      (Store.holds_of_mem_parts held (mem_parts_trans member innerMember)) here there
    omega
  · intro other inside
    obtain ⟨inner, innerMember, there⟩ := (mem_places part other).mp inside
    exact (mem_places l other).mpr ⟨inner, mem_parts_trans member innerMember, there⟩

theorem card_item_lt {store : Store} {kind : SeqKind} {a : Address} {items : List Layout}
    (held : store.Holds (.seq kind a items)) {item : Layout} (member : item ∈ items) :
    item.places.card < (seq kind a items).places.card := by
  apply card_places_lt held rfl
  · rw [parts, itemsParts_eq]
    exact List.mem_cons_of_mem _ (List.mem_flatMap.mpr ⟨item, member, self_mem_parts item⟩)
  · have smaller := List.sizeOf_lt_of_mem member
    rw [Layout.seq.sizeOf_spec]
    omega

theorem card_entry_lt {store : Store} {kind : MapKind} {a : Address}
    {entries : List (Layout × Layout)} (held : store.Holds (.map kind a entries))
    {entry : Layout × Layout} (member : entry ∈ entries) :
    entry.1.places.card < (map kind a entries).places.card ∧
      entry.2.places.card < (map kind a entries).places.card := by
  have smaller := List.sizeOf_lt_of_mem member
  rw [Prod.mk.sizeOf_spec] at smaller
  have inside : ∀ part ∈ entry.1.parts ++ entry.2.parts, part ∈ (map kind a entries).parts := by
    intro part inner
    rw [parts, entriesParts_eq]
    exact List.mem_cons_of_mem _ (List.mem_flatMap.mpr ⟨entry, member, inner⟩)
  constructor
  · apply card_places_lt held rfl (inside _ (List.mem_append_left _ (self_mem_parts entry.1)))
    rw [Layout.map.sizeOf_spec]
    omega
  · apply card_places_lt held rfl (inside _ (List.mem_append_right _ (self_mem_parts entry.2)))
    rw [Layout.map.sizeOf_spec]
    omega

theorem card_places_pos {l : Layout} {place : Bool × Address} (here : l.place? = some place) :
    0 < l.places.card :=
  Finset.card_pos.mpr ⟨place, (mem_places l place).mpr ⟨l, self_mem_parts l, here⟩⟩

end Layout

namespace Store

open Layout

theorem card_places_le_depth {store : Store} {l : Layout} (held : store.Holds l) :
    l.places.card ≤ store.depth := by
  have covered : l.places ⊆ (Finset.range store.sequences.size).image (Prod.mk false) ∪
      (Finset.range store.mappings.size).image (Prod.mk true) := by
    intro place inside
    obtain ⟨part, member, here⟩ := (mem_places l place).mp inside
    have stands := held part member
    cases part with
    | atom _ => simp [place?] at here
    | seq _ a _ =>
      rw [place?, Option.some.injEq] at here
      rw [← here]
      exact Finset.mem_union_left _ (Finset.mem_image_of_mem _ (Finset.mem_range.mpr stands.1))
    | map _ a _ =>
      rw [place?, Option.some.injEq] at here
      rw [← here]
      exact Finset.mem_union_right _ (Finset.mem_image_of_mem _ (Finset.mem_range.mpr stands.1))
  calc
    l.places.card ≤ _ := Finset.card_le_card covered
    _ ≤ _ := Finset.card_union_le _ _
    _ ≤ (Finset.range store.sequences.size).card + (Finset.range store.mappings.size).card :=
      Nat.add_le_add Finset.card_image_le Finset.card_image_le
    _ = store.depth := by simp only [Finset.card_range, depth]

theorem freezeWithin_of_holds {store : Store} {l : Layout} (held : store.Holds l) (fuel : Nat)
    (enough : l.places.card ≤ fuel) : store.freezeWithin fuel l.value = l.data := by
  induction l generalizing fuel with
  | atom a => cases fuel <;> rfl
  | seq kind a items ih =>
    obtain ⟨⟨_, here⟩, inside⟩ := (holds_seq store kind a items).mp held
    cases fuel with
    | zero => exact absurd enough (Nat.not_le_of_lt (card_places_pos rfl))
    | succ fuel =>
      simp only [value, freezeWithin, here, List.map_map, data_seq, Data.seq.injEq, true_and]
      apply List.map_congr_left
      intro item member
      have fewer := card_item_lt held member
      exact ih item member (inside item member) fuel (by omega)
  | map kind a entries ih =>
    obtain ⟨⟨_, here⟩, inside⟩ := (holds_map store kind a entries).mp held
    cases fuel with
    | zero => exact absurd enough (Nat.not_le_of_lt (card_places_pos rfl))
    | succ fuel =>
      simp only [value, freezeWithin, here, List.map_map, data_map, Data.map.injEq, true_and]
      apply List.map_congr_left
      intro entry member
      have fewer := card_entry_lt held member
      have key := (ih entry member).1 (inside entry member).1 fuel (by omega)
      have content := (ih entry member).2 (inside entry member).2 fuel (by omega)
      exact Prod.ext key content

/-- Freezing a value of which a layout is held gives the data of the layout. -/
theorem freeze_of_holds {store : Store} {l : Layout} (held : store.Holds l) :
    store.freeze l.value = l.data :=
  freezeWithin_of_holds held _ (card_places_le_depth held)

theorem freeze_atom (store : Store) (a : Atom) : store.freeze (.atom a) = .atom a := by
  rw [freeze]
  cases store.depth <;> rfl

theorem freeze_ne_atom {store : Store} {w : Value} (container : ∀ b, w ≠ .atom b) (a : Atom) :
    store.freeze w ≠ .atom a := by
  rw [freeze]
  cases w with
  | atom b => exact absurd rfl (container b)
  | seq kind address | map kind address => cases store.depth <;> simp [freezeWithin]

theorem not_same_atom {store : Store} {w : Value} (container : ∀ b, w ≠ .atom b) (a : Atom) :
    ¬store.same (.atom a) w ∧ ¬store.same w (.atom a) := by
  have differs := container a
  rw [same, same, freeze_atom, beq_eq_false_iff_ne.mpr differs,
    beq_eq_false_iff_ne.mpr differs.symm, Bool.false_or, Bool.false_or]
  change ¬Data.same (.atom a) (store.freeze w) ∧ ¬Data.same (store.freeze w) (.atom a)
  cases frozen : store.freeze w with
  | atom b => exact absurd frozen (freeze_ne_atom container b)
  | seq _ _ | map _ _ | endless => simp [Data.same]

theorem eq_of_equal_text {store : Store} {s : String} {w : Value}
    (equal : store.equal (.text s) w) : w = .text s := by
  cases w with
  | atom b =>
    cases b with
    | text t =>
      simp only [Store.equal, Atom.eq, Atom.magnitude?, beq_iff_eq, Atom.text.injEq] at equal
      rw [equal]
    | null | bytes _ | mode _ | pattern _ | object _ | bool _ | number _ | decimal _ =>
      simp [Store.equal, Atom.eq, Atom.magnitude?] at equal
  | seq kind a => exact absurd equal (not_same_atom (Value.seq_ne_atom kind a) (.text s)).1
  | map kind a => exact absurd equal (not_same_atom (Value.map_ne_atom kind a) (.text s)).1

end Store

end Assay
