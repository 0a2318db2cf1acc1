import Assay.Proofs.BuiltIn

/-!
Transport: what a checker decides about a value is decided alike in a later store. The options of a
checker may hold containers too, so this takes that these have the contents that they had. They have
when nothing that is reached from them was touched meanwhile.
-/

set_option autoImplicit false
set_option relaxedAutoImplicit false

namespace Assay

namespace Data

variable {ls : List Layout} {f g : Value → Data}

private theorem pairwise_congr (agrees : ∀ l ∈ ls, ∀ v, same l.data (f v) = same l.data (g v))
    (vs : List Value) :
    pairwise (ls.map Layout.data) (vs.map f) = pairwise (ls.map Layout.data) (vs.map g) := by
  induction ls generalizing vs with
  | nil => cases vs <;> simp [pairwise]
  | cons l rest ih =>
    cases vs with
    | nil => rfl
    | cons v vs =>
      simp only [List.map_cons, pairwise]
      rw [agrees l List.mem_cons_self v,
        ih (fun l member => agrees l (List.mem_cons_of_mem _ member)) vs]

private theorem within_congr (agrees : ∀ l ∈ ls, ∀ v, same l.data (f v) = same l.data (g v))
    (vs : List Value) :
    within (ls.map Layout.data) (vs.map f) = within (ls.map Layout.data) (vs.map g) := by
  induction ls with
  | nil => simp [within]
  | cons l rest ih =>
    simp only [List.map_cons, within, List.any_map, Function.comp_def]
    rw [ih fun l member => agrees l (List.mem_cons_of_mem _ member)]
    simp only [agrees l List.mem_cons_self]

variable {es : List (Layout × Layout)}

private theorem entriesWithin_congr
    (agrees : ∀ e ∈ es, ∀ v, same e.1.data (f v) = same e.1.data (g v) ∧
      same e.2.data (f v) = same e.2.data (g v)) (entries : Entries) :
    entriesWithin (es.map fun e => (e.1.data, e.2.data)) (entries.map fun e => (f e.1, f e.2)) =
      entriesWithin (es.map fun e => (e.1.data, e.2.data))
        (entries.map fun e => (g e.1, g e.2)) := by
  induction es with
  | nil => simp [entriesWithin]
  | cons e rest ih =>
    simp only [List.map_cons, entriesWithin, List.any_map, Function.comp_def]
    rw [ih fun e member => agrees e (List.mem_cons_of_mem _ member)]
    simp only [(agrees e List.mem_cons_self _).1, (agrees e List.mem_cons_self _).2]

private theorem sameKeys_congr
    (agrees : ∀ e ∈ es, ∀ v, same e.1.data (f v) = same e.1.data (g v)) (entries : Entries) :
    sameKeys (es.map fun e => (e.1.data, e.2.data)) (entries.map fun e => (f e.1, f e.2)) =
      sameKeys (es.map fun e => (e.1.data, e.2.data))
        (entries.map fun e => (g e.1, g e.2)) := by
  induction es generalizing entries with
  | nil => cases entries <;> simp [sameKeys]
  | cons e rest ih =>
    cases entries with
    | nil => rfl
    | cons entry entries =>
      simp only [List.map_cons, sameKeys]
      rw [agrees e List.mem_cons_self,
        ih (fun e member => agrees e (List.mem_cons_of_mem _ member)) entries]

end Data

namespace Store

open Layout

/-- What a value holds, at any depth: itself, items, keys and values of entries. -/
inductive Reaches (store : Store) : Value → Value → Prop
  | self (v : Value) : Reaches store v v
  | item {kind : SeqKind} {a : Address} {x w : Value} (member : x ∈ store.items a)
      (below : Reaches store x w) : Reaches store (.seq kind a) w
  | key {kind : MapKind} {a : Address} {entry : Value × Value} {w : Value}
      (member : entry ∈ store.entries a) (below : Reaches store entry.1 w) :
      Reaches store (.map kind a) w
  | value {kind : MapKind} {a : Address} {entry : Value × Value} {w : Value}
      (member : entry ∈ store.entries a) (below : Reaches store entry.2 w) :
      Reaches store (.map kind a) w

theorem Reaches.trans {store : Store} {v w x : Value} (first : store.Reaches v w)
    (second : store.Reaches w x) : store.Reaches v x := by
  induction first with
  | self v => exact second
  | item member _ ih => exact .item member (ih second)
  | key member _ ih => exact .key member (ih second)
  | value member _ ih => exact .value member (ih second)

def Stands (store : Store) : Value → Prop
  | .atom _ => True
  | .seq _ a => a < store.sequences.size
  | .map _ a => a < store.mappings.size

theorem stands_of_holds {store : Store} {l : Layout} (held : store.Holds l) :
    store.Stands l.value := by
  have here := held l l.self_mem_parts
  cases l with
  | atom a => trivial
  | seq kind a items => exact here.1
  | map kind a entries => exact here.1

private theorem item_of_holds {store : Store} {l : Layout} (held : store.Holds l) {kind : SeqKind}
    {a : Address} (same : l.value = .seq kind a) {x : Value} (member : x ∈ store.items a) :
    ∃ item : Layout, item.value = x ∧ store.Holds item ∧ item.parts ⊆ l.parts := by
  cases l with
  | atom _ => cases same
  | map _ _ _ => cases same
  | seq kind' b items =>
    obtain ⟨rfl, rfl⟩ := Value.seq.inj same
    obtain ⟨⟨_, here⟩, inside⟩ := (store.holds_seq kind' b items).mp held
    rw [here] at member
    obtain ⟨item, listed, value⟩ := List.mem_map.mp member
    refine ⟨item, value, inside item listed, fun part below => ?_⟩
    rw [parts, itemsParts_eq]
    exact List.mem_cons_of_mem _ (List.mem_flatMap.mpr ⟨item, listed, below⟩)

private theorem entry_of_holds {store : Store} {l : Layout} (held : store.Holds l) {kind : MapKind}
    {a : Address} (same : l.value = .map kind a) {entry : Value × Value}
    (member : entry ∈ store.entries a) :
    ∃ key value : Layout, entryValue (key, value) = entry ∧
      (store.Holds key ∧ key.parts ⊆ l.parts) ∧ store.Holds value ∧ value.parts ⊆ l.parts := by
  obtain ⟨entries, rfl⟩ := map_of_value same
  obtain ⟨⟨_, here⟩, inside⟩ := (store.holds_map kind a entries).mp held
  rw [here] at member
  obtain ⟨⟨key, value⟩, listed, pair⟩ := List.mem_map.mp member
  have within : key.parts ++ value.parts ⊆ (Layout.map kind a entries).parts := by
    intro part below
    rw [parts, entriesParts_eq]
    exact List.mem_cons_of_mem _ (List.mem_flatMap.mpr ⟨_, listed, below⟩)
  exact ⟨key, value, pair,
    ⟨(inside _ listed).1, List.Subset.trans (List.subset_append_left _ _) within⟩,
    (inside _ listed).2, List.Subset.trans (List.subset_append_right _ _) within⟩

theorem part_of_reaches {store : Store} {l : Layout} (held : store.Holds l) {w : Value}
    (reached : store.Reaches l.value w) : ∃ part ∈ l.parts, part.value = w := by
  generalize same : l.value = v at reached
  induction reached generalizing l with
  | self v => exact ⟨l, l.self_mem_parts, same⟩
  | item member _ ih =>
    obtain ⟨item, rfl, stands, within⟩ := item_of_holds held same member
    obtain ⟨part, below, found⟩ := ih stands rfl
    exact ⟨part, within below, found⟩
  | key member _ ih =>
    obtain ⟨key, value, rfl, ⟨stands, within⟩, _⟩ := entry_of_holds held same member
    obtain ⟨part, below, found⟩ := ih stands rfl
    exact ⟨part, within below, found⟩
  | value member _ ih =>
    obtain ⟨key, value, rfl, _, stands, within⟩ := entry_of_holds held same member
    obtain ⟨part, below, found⟩ := ih stands rfl
    exact ⟨part, within below, found⟩

theorem stands_of_reaches {store : Store} {l : Layout} (held : store.Holds l) {w : Value}
    (reached : store.Reaches l.value w) : store.Stands w := by
  obtain ⟨part, member, rfl⟩ := part_of_reaches held reached
  exact stands_of_holds (holds_of_mem_parts held member)

theorem mem_mappings_of_reaches {store : Store} {l : Layout} (held : store.Holds l)
    {kind : MapKind} {a : Address} (reached : store.Reaches l.value (.map kind a)) :
    a ∈ l.mappings := by
  obtain ⟨part, member, same⟩ := part_of_reaches held reached
  obtain ⟨entries, rfl⟩ := map_of_value same
  exact List.mem_filterMap.mpr ⟨_, member, rfl⟩

/-- Nothing that a value holds is a mapping out of a list, and all of it is there. -/
def Clear (store : Store) (touched : List Address) (v : Value) : Prop :=
  ∀ w, store.Reaches v w → store.Stands w ∧ ∀ kind a, w = .map kind a → a ∉ touched

theorem clear_atom (store : Store) (touched : List Address) (a : Atom) :
    store.Clear touched (.atom a) := by
  intro w reached
  cases reached
  exact ⟨trivial, nofun⟩

theorem Clear.mono {store : Store} {touched more : List Address} {w : Value}
    (clear : store.Clear more w) (fewer : touched ⊆ more) :
    store.Clear touched w :=
  fun x reached => (clear x reached).imp_right fun free kind a same member =>
    free kind a same (fewer member)

theorem clear_of_holds {store : Store} {l : Layout} (held : store.Holds l) {touched : List Address}
    (apart : List.Disjoint l.mappings touched) : store.Clear touched l.value :=
  fun _ reached => ⟨stands_of_reaches held reached, fun _ _ same member =>
    apart (mem_mappings_of_reaches held (same ▸ reached)) member⟩

variable {touched : List Address} {before after : Store}

theorem Stands.of_keeps {changed : List Address} (kept : Keeps changed before after) {v : Value}
    (stands : before.Stands v) : after.Stands v := by
  cases v with
  | atom a => trivial
  | seq kind a => exact Nat.lt_of_lt_of_le stands kept.sequences
  | map kind a => exact Nat.lt_of_lt_of_eq stands kept.mappings.symm

theorem Clear.item {kind : SeqKind} {a : Address} (clear : before.Clear touched (.seq kind a))
    {x : Value} (member : x ∈ before.items a) : before.Clear touched x :=
  fun w reached => clear w (.item member reached)

theorem Clear.entry {kind : MapKind} {a : Address} (clear : before.Clear touched (.map kind a))
    {entry : Value × Value} (member : entry ∈ before.entries a) :
    before.Clear touched entry.1 ∧ before.Clear touched entry.2 :=
  ⟨fun w reached => clear w (.key member reached), fun w reached => clear w (.value member reached)⟩

theorem Clear.of_keeps {changed : List Address} (kept : Keeps changed before after)
    (fewer : ∀ a, after.entries a ⊆ before.entries a) {v : Value}
    (clear : before.Clear touched v) : after.Clear touched v := by
  intro w reached
  induction reached with
  | self v =>
    obtain ⟨stands, free⟩ := clear v (.self v)
    exact ⟨stands.of_keeps kept, free⟩
  | @item kind a x w member _ ih =>
    rw [kept.items a (clear _ (.self _)).1] at member
    exact ih (clear.item member)
  | key member _ ih => exact ih (clear.entry (fewer _ member)).1
  | value member _ ih => exact ih (clear.entry (fewer _ member)).2

theorem items_of_clear (kept : Keeps touched before after) {kind : SeqKind} {a : Address}
    (clear : before.Clear touched (.seq kind a)) : after.items a = before.items a :=
  kept.items a (clear _ (.self _)).1

theorem entries_of_clear (kept : Keeps touched before after) {kind : MapKind} {a : Address}
    (clear : before.Clear touched (.map kind a)) : after.entries a = before.entries a :=
  kept.entries a ((clear _ (.self _)).2 kind a rfl)

theorem Clear.later (kept : Keeps touched before after) {v : Value}
    (clear : before.Clear touched v) : after.Clear touched v := by
  have reached : ∀ w, after.Reaches v w → before.Reaches v w := by
    intro w reaches
    induction reaches with
    | self v => exact .self v
    | item member _ ih =>
      rw [items_of_clear kept clear] at member
      exact .item member (ih (clear.item member))
    | key member _ ih =>
      rw [entries_of_clear kept clear] at member
      exact .key member (ih (clear.entry member).1)
    | value member _ ih =>
      rw [entries_of_clear kept clear] at member
      exact .value member (ih (clear.entry member).2)
  exact fun w reaches => (clear w (reached w reaches)).imp_left fun stands => stands.of_keeps kept

theorem freezeWithin_of_clear (kept : Keeps touched before after) (fuel : Nat) {v : Value}
    (clear : before.Clear touched v) : after.freezeWithin fuel v = before.freezeWithin fuel v := by
  induction fuel generalizing v with
  | zero => cases v <;> rfl
  | succ fuel ih =>
    cases v with
    | atom a => rfl
    | seq kind a =>
      rw [freezeWithin, freezeWithin, items_of_clear kept clear, Data.seq.injEq]
      exact ⟨rfl, List.map_congr_left fun x member => ih (clear.item member)⟩
    | map kind a =>
      rw [freezeWithin, freezeWithin, entries_of_clear kept clear, Data.map.injEq]
      refine ⟨rfl, List.map_congr_left fun entry member => ?_⟩
      rw [ih (clear.entry member).1, ih (clear.entry member).2]

/-- Two values in two stores have the same contents, as far as they may be followed. -/
def Resembles (store : Store) (v : Value) (store' : Store) (v' : Value) : Prop :=
  ∀ n, store'.freezeWithin n v' = store.freezeWithin n v

theorem resembles_of_holds {l : Layout} (held : before.Holds l) (holds : after.Holds l) :
    before.Resembles l.value after l.value := by
  intro n
  induction n generalizing l with
  | zero => cases l <;> rfl
  | succ n ih =>
    cases l with
    | atom a => rfl
    | seq kind a items =>
      obtain ⟨⟨_, here⟩, inside⟩ := (before.holds_seq kind a items).mp held
      obtain ⟨⟨_, there⟩, inside'⟩ := (after.holds_seq kind a items).mp holds
      rw [value, freezeWithin, freezeWithin, here, there, List.map_map, List.map_map,
        Data.seq.injEq]
      exact ⟨rfl, List.map_congr_left fun item member =>
        ih (inside item member) (inside' item member)⟩
    | map kind a entries =>
      obtain ⟨⟨_, here⟩, inside⟩ := (before.holds_map kind a entries).mp held
      obtain ⟨⟨_, there⟩, inside'⟩ := (after.holds_map kind a entries).mp holds
      rw [value, freezeWithin, freezeWithin, here, there, List.map_map, List.map_map,
        Data.map.injEq]
      refine ⟨rfl, List.map_congr_left fun entry member => Prod.ext ?_ ?_⟩
      · exact ih (inside entry member).1 (inside' entry member).1
      · exact ih (inside entry member).2 (inside' entry member).2

theorem resembles_of_clear (kept : Keeps touched before after) {v : Value}
    (clear : before.Clear touched v) : before.Resembles v after v :=
  fun n => freezeWithin_of_clear kept n clear

theorem truthy_of_resembles {v v' : Value} (like : before.Resembles v after v') :
    after.truthy v' = before.truthy v := by
  have whole := like 1
  cases v with
  | atom a =>
    cases v' with
    | atom b =>
      rw [freezeWithin, freezeWithin, Data.atom.injEq] at whole
      rw [whole]
      cases a with
      | decimal d => cases d <;> rfl
      | null | bool _ | number _ | text _ | bytes _ | mode _ | pattern _ | object _ => rfl
    | seq kind b | map kind b => cases whole
  | seq kind a =>
    cases v' with
    | atom b | map other b => cases whole
    | seq other b =>
      have empty := congrArg List.isEmpty (Data.seq.inj whole).2
      rw [List.isEmpty_map, List.isEmpty_map] at empty
      rw [truthy, truthy, empty]
  | map kind a =>
    cases v' with
    | atom b | seq other b => cases whole
    | map other b =>
      have empty := congrArg List.isEmpty (Data.map.inj whole).2
      rw [List.isEmpty_map, List.isEmpty_map] at empty
      rw [truthy, truthy, empty]

/-- A held value is compared with a value of which enough levels are followed; to follow more of
them makes no difference. -/
theorem same_freezeWithin {store : Store} {l : Layout} (held : store.Holds l) {n m : Nat}
    (enough : l.places.card ≤ n) (plenty : l.places.card ≤ m) (v : Value) :
    Data.same l.data (store.freezeWithin n v) = Data.same l.data (store.freezeWithin m v) := by
  induction l generalizing n m v with
  | atom a =>
    cases v with
    | atom b => cases n <;> cases m <;> rfl
    | seq kind b | map kind b => cases n <;> cases m <;> simp [freezeWithin, data, Data.same]
  | seq kind a items ih =>
    have positive := card_places_pos (l := .seq kind a items) rfl
    obtain ⟨n, rfl⟩ := Nat.exists_eq_succ_of_ne_zero (by omega : n ≠ 0)
    obtain ⟨m, rfl⟩ := Nat.exists_eq_succ_of_ne_zero (by omega : m ≠ 0)
    cases v with
    | atom b | map other b => simp [freezeWithin, Data.same]
    | seq other b =>
      have inside := ((holds_seq store kind a items).mp held).2
      have agrees : ∀ item ∈ items, ∀ w, Data.same item.data (store.freezeWithin n w) =
          Data.same item.data (store.freezeWithin m w) := by
        intro item member w
        have fewer := card_item_lt held member
        exact ih item member (inside item member) (by omega) (by omega) w
      have pairs := Data.pairwise_congr agrees (store.items b)
      have members := Data.within_congr agrees (store.items b)
      cases kind <;> cases other <;>
        simp [freezeWithin, Data.same, pairs, members]
  | map kind a entries ih =>
    have positive := card_places_pos (l := .map kind a entries) rfl
    obtain ⟨n, rfl⟩ := Nat.exists_eq_succ_of_ne_zero (by omega : n ≠ 0)
    obtain ⟨m, rfl⟩ := Nat.exists_eq_succ_of_ne_zero (by omega : m ≠ 0)
    cases v with
    | atom b | seq other b => simp [freezeWithin, Data.same]
    | map other b =>
      have inside := ((holds_map store kind a entries).mp held).2
      have agrees : ∀ entry ∈ entries, ∀ w,
          Data.same entry.1.data (store.freezeWithin n w) =
              Data.same entry.1.data (store.freezeWithin m w) ∧
            Data.same entry.2.data (store.freezeWithin n w) =
              Data.same entry.2.data (store.freezeWithin m w) := by
        intro entry member w
        have fewer := card_entry_lt held member
        exact ⟨(ih entry member).1 (inside entry member).1 (by omega) (by omega) w,
          (ih entry member).2 (inside entry member).2 (by omega) (by omega) w⟩
      have members := Data.entriesWithin_congr agrees (store.entries b)
      have keys := Data.sameKeys_congr (fun entry member w => (agrees entry member w).1)
        (store.entries b)
      simp [freezeWithin, Data.same, members, keys]

theorem same_of_resembles {l : Layout} (held : before.Holds l) (holds : after.Holds l) {v : Value}
    (like : before.Resembles v after v) : after.same l.value v = before.same l.value v := by
  have later : (after.freeze l.value == after.freeze v) =
      Data.same l.data (before.freezeWithin after.depth v) := by
    rw [freeze_of_holds holds, freeze, like]
    rfl
  have earlier : (before.freeze l.value == before.freeze v) =
      Data.same l.data (before.freezeWithin before.depth v) := by
    rw [freeze_of_holds held, freeze]
    rfl
  rw [same, same, later, earlier, same_freezeWithin held (card_places_le_depth holds)
    (card_places_le_depth held)]

private theorem equal_of_like {l : Layout} (held : before.Holds l) (holds : after.Holds l)
    {v : Value} (like : before.Resembles v after v) :
    after.equal l.value v = before.equal l.value v := by
  have compared := same_of_resembles held holds like
  cases l with
  | atom a =>
    cases v with
    | atom b => rfl
    | seq kind b | map kind b => exact compared
  | seq kind a items | map kind a entries => exact compared

private theorem itemsEqual_of_like {ls : List Layout} (held : ∀ l ∈ ls, before.Holds l)
    (holds : ∀ l ∈ ls, after.Holds l) {vs : List Value}
    (like : ∀ v ∈ vs, before.Resembles v after v) :
    itemsEqual after (ls.map Layout.value) vs = itemsEqual before (ls.map Layout.value) vs := by
  induction ls generalizing vs with
  | nil => cases vs <;> rfl
  | cons l rest ih =>
    cases vs with
    | nil => rfl
    | cons v vs =>
      rw [List.map_cons, itemsEqual, itemsEqual,
        equal_of_like (held l List.mem_cons_self) (holds l List.mem_cons_self)
          (like v List.mem_cons_self),
        ih (fun l member => held l (List.mem_cons_of_mem _ member))
          (fun l member => holds l (List.mem_cons_of_mem _ member))
          (fun v member => like v (List.mem_cons_of_mem _ member))]

end Store

namespace Checker

/-- The values that the options of a checker hold, and the items that it expects of an array. -/
def holdings : Checker → List Value
  | .boolean o | .number o | .string o _ => OptionName.all.map o.get
  | .array o expected => OptionName.all.map o.get ++ expected.getD []
  | .extended base _ => holdings base

variable {touched : List Address} {before after : Store}

theorem mem_holdings_get (c : Checker) (name : OptionName) : c.options.get name ∈ c.holdings := by
  have named : name ∈ OptionName.all := by cases name <;> decide
  induction c with
  | boolean o | number o | string o shape => exact List.mem_map_of_mem named
  | array o expected => exact List.mem_append_left _ (List.mem_map_of_mem named)
  | extended base extension ih => exact ih

private theorem accepted_of_resembles {o : Options}
    (like : ∀ name, before.Resembles (o.get name) after (o.get name)) (n : Number) :
    n.accepted o after = n.accepted o before := by
  have switch : ∀ name, after.truthy (o.get name) = before.truthy (o.get name) :=
    fun name => Store.truthy_of_resembles (like name)
  have isFloat := switch .isFloat
  have isInteger := switch .isInteger
  have isPositive := switch .isPositive
  have isNegative := switch .isNegative
  have isNotNull := switch .isNotNull
  simp only [Options.get] at isFloat isInteger isPositive isNegative isNotNull
  simp only [Number.accepted, isFloat, isInteger, isPositive, isNegative, isNotNull]

private theorem seq_of_array? {l : Layout} {a : Address} (array : l.value.array? = some a) :
    ∃ kind items, l = .seq kind a items := by
  cases l with
  | atom _ => cases array
  | map _ _ _ => cases array
  | seq kind b items =>
    cases kind with
    | list | tuple => exact ⟨_, items, by rw [Option.some.inj array]⟩
    | set => cases array

section

variable {c : Checker} {l : Layout} (held : before.Holds l) (holds : after.Holds l)

include held holds

private theorem accepts_of_resembles (like : ∀ v ∈ c.holdings, before.Resembles v after v) :
    accepts after c l.value = accepts before c l.value := by
  induction c with
  | boolean o => rfl
  | string o shape => rfl
  | number o =>
    have options := fun name => like _ (mem_holdings_get (.number o) name)
    rw [accepts, accepts]
    cases l.value.number? with
    | none => rfl
    | some n => exact accepted_of_resembles options n
  | array o expected =>
    rw [accepts, accepts]
    cases array : l.value.array? with
    | none => rfl
    | some a =>
      obtain ⟨kind, items, rfl⟩ := seq_of_array? array
      rw [Option.all_some, Option.all_some, ((after.holds_seq kind a items).mp holds).1.2,
        ((before.holds_seq kind a items).mp held).1.2]
  | extended base extension ih => exact ih like

private theorem matchesExact_of_resembles (like : ∀ v ∈ c.holdings, before.Resembles v after v) :
    c.matchesExact after l.value = c.matchesExact before l.value := by
  have exact := like _ (mem_holdings_get c .value)
  cases c with
  | boolean o | number o | string o shape | extended base extension =>
    exact Store.equal_of_like held holds exact
  | array o expected =>
    rw [matchesExact, matchesExact]
    cases array : l.value.array? with
    | none => rfl
    | some a =>
      obtain ⟨kind, items, rfl⟩ := seq_of_array? array
      obtain ⟨⟨_, here⟩, inside⟩ := (before.holds_seq kind a items).mp held
      obtain ⟨⟨_, there⟩, beside⟩ := (after.holds_seq kind a items).mp holds
      rw [Option.any_some, Option.any_some, here, there]
      exact Store.itemsEqual_of_like inside beside fun v member =>
        like v (List.mem_append_right _ member)

theorem admits_of_resembles (like : ∀ v ∈ c.holdings, before.Resembles v after v) (mode : Mode) :
    c.admits after mode l.value = c.admits before mode l.value := by
  have mandatory : after.truthy c.options.mandatory = before.truthy c.options.mandatory :=
    Store.truthy_of_resembles (like _ (mem_holdings_get c .mandatory))
  rw [admits, admits, mandatory, accepts_of_resembles held holds like,
    matchesExact_of_resembles held holds like]

end

def basic : Checker → Checker
  | .extended base _ => base
  | c => c

private theorem checkBasic_congr (c : Checker) {v : Value} {ctx ctx' : Context}
    {store store' : Store} (path : ctx'.path = ctx.path)
    (agrees : c.admits store' ctx'.mode v = c.admits store ctx.mode v) :
    (∃ r after r' after', c.checkBasic v ctx store = .ok r after ∧ c.answer v store = .ok r after ∧
        c.checkBasic v ctx' store' = .ok r' after' ∧ c.answer v store' = .ok r' after') ∨
      ∃ failure, c.checkBasic v ctx store = .error failure store ∧
        c.checkBasic v ctx' store' = .error failure store' := by
  rw [checkBasic_eq, checkBasic_eq, agrees, failure_congr path]
  by_cases admitted : c.admits store ctx.mode v
  · left
    rw [if_pos admitted, if_pos admitted]
    obtain ⟨r, after, answered⟩ := c.answer_total v store
    obtain ⟨r', after', answered'⟩ := c.answer_total v store'
    exact ⟨r, after, r', after', answered, answered, answered', answered'⟩
  · right
    rw [if_neg admitted, if_neg admitted]
    exact ⟨_, rfl, rfl⟩

private theorem store_of_answer_string {o : Options} {shape : Option Pattern} {v r : Value}
    {before after : Store} (answered : (string o shape).answer v before = .ok r after) :
    after = before := by
  rcases answer_cases answered with ⟨_, _, same⟩ | ⟨_, _, _, same⟩ | ⟨_, _, kept⟩
  · exact same
  · exact same
  · cases kept
    rfl

theorem Made.check_congr {c : Checker} (made : c.Made) {v : Value} {ctx ctx' : Context}
    {store store' : Store} (path : ctx'.path = ctx.path)
    (agrees : c.basic.admits store' ctx'.mode v = c.basic.admits store ctx.mode v) :
    (∃ r after r' after', c.check v ctx store = .ok r after ∧
        c.check v ctx' store' = .ok r' after') ∨
      ∃ failure, c.check v ctx store = .error failure store ∧
        c.check v ctx' store' = .error failure store' := by
  cases made with
  | boolean | number | string | array =>
    rcases checkBasic_congr _ path agrees with
      ⟨r, after, r', after', checked, _, checked', _⟩ | ⟨failure, failed, failed'⟩
    · exact Or.inl ⟨r, after, r', after', checked, checked'⟩
    · exact Or.inr ⟨failure, failed, failed'⟩
  | @ipv6 o exact =>
    rw [check_ipv6, check_ipv6, path]
    rcases checkBasic_congr (.string o (some Shapes.ipv6)) path agrees with
      ⟨r, after, r', after', checked, answered, checked', answered'⟩ | ⟨failure, failed, failed'⟩
    · rw [checked, checked', store_of_answer_string answered, store_of_answer_string answered']
      by_cases accepted : (decide (v = .null) || AddressV6.acceptsValue v) = true
      · left
        simp only [if_pos accepted]
        exact ⟨r, store, r', store', rfl, rfl⟩
      · right
        simp only [if_neg accepted]
        exact ⟨_, rfl, rfl⟩
    · rw [failed, failed']
      exact Or.inr ⟨failure, rfl, rfl⟩
  | @siret o exact =>
    rw [check_siret, check_siret, path]
    rcases checkBasic_congr (.string o (some Shapes.siret)) path agrees with
      ⟨r, after, r', after', checked, answered, checked', answered'⟩ | ⟨failure, failed, failed'⟩
    · rw [checked, checked', store_of_answer_string answered, store_of_answer_string answered']
      by_cases null : v = .null
      · left
        simp only [if_pos null]
        exact ⟨r, store, r', store', rfl, rfl⟩
      · simp only [if_neg null]
        cases v.text? with
        | none => exact Or.inr ⟨_, rfl, rfl⟩
        | some s =>
          simp only
          cases Luhn.validText (Text.dropBlanks s.toList) with
          | error failure => exact Or.inr ⟨_, rfl, rfl⟩
          | ok verdict =>
            cases verdict with
            | false => exact Or.inr ⟨_, rfl, rfl⟩
            | true => exact Or.inl ⟨_, _, _, _, rfl, rfl⟩
    · rw [failed, failed']
      exact Or.inr ⟨failure, rfl, rfl⟩

theorem Made.store_of_error {c : Checker} (made : c.Made) {v : Value} {ctx : Context}
    {before after : Store} {failure : Failure}
    (failed : c.check v ctx before = .error failure after) : after = before := by
  rcases made.check_congr (Eq.refl ctx.path) (Eq.refl (c.basic.admits before ctx.mode v)) with
    ⟨r, later, _, _, checked, _⟩ | ⟨other, refused, _⟩
  · rw [checked] at failed
    cases failed
  · rw [refused] at failed
    cases failed
    rfl

/-- Two calls of a built-in checker for a held value come out alike when what its options hold has
the contents that it had. -/
theorem Made.check_of_resembles {c : Checker} (made : c.Made) {l : Layout} (held : before.Holds l)
    (holds : after.Holds l) (like : ∀ v ∈ c.holdings, before.Resembles v after v)
    {ctx ctx' : Context} (path : ctx'.path = ctx.path)
    (lenient : ctx'.mode.partialCheck = ctx.mode.partialCheck) :
    (∃ r between r' between', c.check l.value ctx before = .ok r between ∧
        c.check l.value ctx' after = .ok r' between') ∨
      ∃ failure, c.check l.value ctx before = .error failure before ∧
        c.check l.value ctx' after = .error failure after := by
  have options : c.basic.holdings = c.holdings := by cases c <;> rfl
  have agrees := admits_of_resembles (c := c.basic) held holds (by rwa [options]) ctx'.mode
  refine made.check_congr path (agrees.trans ?_)
  rw [admits, admits, lenient]

theorem Made.check_of_clear {c : Checker} (made : c.Made) {l : Layout}
    (kept : Store.Keeps touched before after) (held : before.Holds l) (holds : after.Holds l)
    (clear : ∀ v ∈ c.holdings, before.Clear touched v) {ctx ctx' : Context}
    (path : ctx'.path = ctx.path) (lenient : ctx'.mode.partialCheck = ctx.mode.partialCheck) :
    (∃ r between r' between', c.check l.value ctx before = .ok r between ∧
        c.check l.value ctx' after = .ok r' between') ∨
      ∃ failure, c.check l.value ctx before = .error failure before ∧
        c.check l.value ctx' after = .error failure after :=
  made.check_of_resembles held holds
    (fun v member => Store.resembles_of_clear kept (clear v member)) path lenient

end Checker

end Assay
