import Assay.Proofs.Resemblance
import Assay.Proofs.Thaw
import Mathlib.Logic.Relation

/-!
Tampering: what a caller can do to a checker that it has made. A caller reaches the containers that
it handed in and those that it was given back, and changes them as it likes. A checker is immune to
this when none of the containers that it consults can be changed.
-/

set_option autoImplicit false
set_option relaxedAutoImplicit false

namespace Assay

namespace Value

/-- Where the contents of a container are kept: among the sequences or among the mappings, and under
which address. -/
def place? : Value → Option (Bool × Address)
  | .atom _ => none
  | .seq _ a => some (false, a)
  | .map _ a => some (true, a)

/-- Whether a value is a container that can be changed. -/
def isOpen : Value → Bool
  | .seq .list _ => true
  | v => v.fields?.isSome

theorem place_of_fields {v : Value} {a : Address} (fields : v.fields? = some a) :
    v.isOpen ∧ v.place? = some (true, a) := by
  cases v with
  | atom b => cases fields
  | seq kind b => cases fields
  | map kind b =>
    cases kind with
    | plain | ordered => exact ⟨rfl, congrArg (fun b => some (true, b)) (Option.some.inj fields)⟩
    | view => cases fields

end Value

/-- What a caller has in its hands: a store, and values in it. -/
structure Scene where
  store : Store
  known : List Value

namespace Scene

/-- A value that a caller can lay its hands on: it knows it, or it is held by one that it knows. -/
def Has (scene : Scene) (v : Value) : Prop :=
  (∃ a, v = .atom a) ∨ ∃ k ∈ scene.known, scene.store.Reaches k v

/-- What a caller can do: change a list or a mapping, make a new container, keep a value for later,
and call a checker, which may answer or refuse. -/
inductive Moves (c : Checker) : Scene → Scene → Prop
  | items {scene : Scene} {a : Address} {items : List Value} (list : scene.Has (.seq .list a))
      (has : ∀ x ∈ items, scene.Has x) :
      Moves c scene ⟨scene.store.setItems a items, scene.known⟩
  | entries {scene : Scene} {v : Value} {a : Address} {entries : Entries} (mapping : scene.Has v)
      (fields : v.fields? = some a) (has : ∀ e ∈ entries, scene.Has e.1 ∧ scene.Has e.2) :
      Moves c scene ⟨scene.store.setEntries a entries, scene.known⟩
  | newSeq {scene : Scene} (kind : SeqKind) {items : List Value}
      (has : ∀ x ∈ items, scene.Has x) :
      Moves c scene ⟨(scene.store.newSeq kind items).2,
        (scene.store.newSeq kind items).1 :: scene.known⟩
  | newMap {scene : Scene} (kind : MapKind) {entries : Entries}
      (has : ∀ e ∈ entries, scene.Has e.1 ∧ scene.Has e.2) :
      Moves c scene ⟨(scene.store.newMap kind entries).2,
        (scene.store.newMap kind entries).1 :: scene.known⟩
  | keep {scene : Scene} {v : Value} (has : scene.Has v) :
      Moves c scene ⟨scene.store, v :: scene.known⟩
  | call {scene : Scene} {v : Value} {ctx : Context} {r : Value} {after : Store}
      (has : scene.Has v) (checked : c.check v ctx scene.store = .ok r after) :
      Moves c scene ⟨after, r :: scene.known⟩
  | refused {scene : Scene} {v : Value} {ctx : Context} {failure : Failure} {after : Store}
      (has : scene.Has v) (failed : c.check v ctx scene.store = .error failure after) :
      Moves c scene ⟨after, scene.known⟩

end Scene

/-- A checker is immune when it answers a value as at first, or one with the same contents, whatever
the caller has done since. -/
def Checker.Immune (c : Checker) (scene : Scene) : Prop :=
  ∀ later, Relation.ReflTransGen (Scene.Moves c) scene later → ∀ v v',
    scene.store.Resembles v later.store v' → scene.store.Clear [] v → later.store.Clear [] v' →
      ∀ ctx, Checker.Alike (c.check v ctx scene.store) (c.check v' ctx later.store)

namespace Layout

/-- All containers of a layout are of the given kinds. -/
def MadeOf (seqs : SeqKind → Prop) (maps : MapKind → Prop) (l : Layout) : Prop :=
  (∀ kind a items, .seq kind a items ∈ l.parts → seqs kind) ∧
    ∀ kind a entries, .map kind a entries ∈ l.parts → maps kind

/-- No container of a layout can be changed. -/
def Sealed (l : Layout) : Prop := ∀ part ∈ l.parts, part.value.isOpen = false

theorem place_value (l : Layout) : l.value.place? = l.place? := by
  cases l <;> rfl

theorem sealed_of_madeOf {seqs : SeqKind → Prop} {maps : MapKind → Prop} {l : Layout}
    (of : l.MadeOf seqs maps) (list : ¬seqs .list) (plain : ¬maps .plain)
    (ordered : ¬maps .ordered) : l.Sealed := by
  intro part member
  cases part with
  | atom a => rfl
  | seq kind a items =>
    have allowed := of.1 kind a items member
    cases kind with
    | list => exact absurd allowed list
    | tuple | set => rfl
  | map kind a entries =>
    have allowed := of.2 kind a entries member
    cases kind with
    | plain => exact absurd allowed plain
    | ordered => exact absurd allowed ordered
    | view => rfl

end Layout

namespace Store

open Layout

/-- Among values every container is of one kind wherever it is met. -/
def Kinded (store : Store) (values : List Value) : Prop :=
  ∀ v ∈ values, ∀ w ∈ values, ∀ x y place, store.Reaches v x → store.Reaches w y →
    x.place? = some place → y.place? = some place → x = y

/-- No container of some layouts is met by way of a value as one that can be changed. -/
def Avoids (store : Store) (ls : Set Layout) (v : Value) : Prop :=
  ∀ w, store.Reaches v w → w.isOpen → ∀ l ∈ ls, ∀ part ∈ l.parts, part.place? ≠ w.place?

variable {ls : Set Layout} {before after : Store} {v : Value}

theorem Avoids.of_reaches (avoids : before.Avoids ls v) {w : Value}
    (reached : before.Reaches v w) : before.Avoids ls w :=
  fun x below => avoids x (reached.trans below)

theorem avoids_atom (store : Store) (ls : Set Layout) (a : Atom) : store.Avoids ls (.atom a) := by
  intro w reached
  cases reached
  exact nofun

theorem Avoids.of_fewer (avoids : before.Avoids ls v)
    (items : ∀ a, ∀ x ∈ after.items a, x ∈ before.items a ∨ before.Avoids ls x)
    (entries : ∀ a, ∀ e ∈ after.entries a,
      e ∈ before.entries a ∨ before.Avoids ls e.1 ∧ before.Avoids ls e.2) :
    after.Avoids ls v := by
  intro w reached
  induction reached with
  | self v => exact avoids v (.self v)
  | @item kind a x w member _ ih =>
    rcases items a x member with there | safe
    · exact ih (avoids.of_reaches (.item there (.self x)))
    · exact ih safe
  | @key kind a e w member _ ih =>
    rcases entries a e member with there | safe
    · exact ih (avoids.of_reaches (.key there (.self e.1)))
    · exact ih safe.1
  | @value kind a e w member _ ih =>
    rcases entries a e member with there | safe
    · exact ih (avoids.of_reaches (.value there (.self e.2)))
    · exact ih safe.2

theorem items_setItems (store : Store) (a b : Address) (items : List Value) :
    (store.setItems a items).items b =
      if a = b ∧ a < store.sequences.size then items else store.items b := by
  simp only [Store.items, setItems, Array.getElem?_setIfInBounds]
  split
  · rename_i same
    subst same
    by_cases bound : a < store.sequences.size
    · simp [bound]
    · simp [bound]
  · rename_i other
    simp [other]

theorem size_sequences_setItems (store : Store) (a : Address) (items : List Value) :
    (store.setItems a items).sequences.size = store.sequences.size := by
  simp [setItems]

theorem items_newSeq_eq (store : Store) (kind : SeqKind) (items : List Value) (b : Address) :
    (store.newSeq kind items).2.items b =
      if b = store.sequences.size then items else store.items b := by
  simp only [Store.items, newSeq, Array.getElem?_push]
  split <;> rfl

theorem entries_newMap_eq (store : Store) (kind : MapKind) (entries : Entries) (b : Address) :
    (store.newMap kind entries).2.entries b =
      if b = store.mappings.size then entries else store.entries b := by
  simp only [Store.entries, newMap, Array.getElem?_push]
  split <;> rfl

theorem holds_setItems {l : Layout} (held : before.Holds l) {a : Address}
    (apart : ∀ part ∈ l.parts, part.place? ≠ some (false, a)) (items : List Value) :
    (before.setItems a items).Holds l := by
  intro part member
  have stands := held part member
  cases part with
  | atom b => trivial
  | map kind b entries => exact stands
  | seq kind b inner =>
    have other : a ≠ b := fun same => apart _ member (congrArg (fun b => some (false, b)) same.symm)
    refine ⟨size_sequences_setItems before a items ▸ stands.1, ?_⟩
    rw [items_setItems, if_neg fun here => other here.1]
    exact stands.2

theorem holds_setEntries {l : Layout} (held : before.Holds l) {a : Address}
    (apart : ∀ part ∈ l.parts, part.place? ≠ some (true, a)) (entries : Entries) :
    (before.setEntries a entries).Holds l := by
  intro part member
  have stands := held part member
  cases part with
  | atom b => trivial
  | seq kind b items => exact stands
  | map kind b inner =>
    have other : a ≠ b := fun same => apart _ member (congrArg (fun b => some (true, b)) same.symm)
    refine ⟨size_mappings_setEntries before a entries ▸ stands.1, ?_⟩
    rw [entries_setEntries_ne before other]
    exact stands.2

end Store

namespace Scene

open Checker

/-- Layouts without a container that can be changed stand in a store, and the caller meets none of
their containers as one that can be changed. -/
structure Guarded (ls : Set Layout) (scene : Scene) : Prop where
  held : ∀ l ∈ ls, scene.store.Holds l
  closed : ∀ l ∈ ls, l.Sealed
  apart : ∀ k ∈ scene.known, scene.store.Avoids ls k

variable {ls : Set Layout} {scene later : Scene} {c : Checker}

theorem Guarded.avoids (guarded : Guarded ls scene) {v : Value} (has : scene.Has v) :
    scene.store.Avoids ls v := by
  rcases has with ⟨a, rfl⟩ | ⟨k, known, reached⟩
  · exact scene.store.avoids_atom ls a
  · exact (guarded.apart k known).of_reaches reached

theorem Guarded.avoids_value (guarded : Guarded ls scene) {l : Layout} (member : l ∈ ls) :
    scene.store.Avoids ls l.value := by
  intro w reached changeable
  obtain ⟨part, inside, rfl⟩ := Store.part_of_reaches (guarded.held l member) reached
  rw [guarded.closed l member part inside] at changeable
  cases changeable

private theorem Guarded.newSeq (guarded : Guarded ls scene) (kind : SeqKind) {items : List Value}
    (safe : ∀ x ∈ items, scene.store.Avoids ls x) :
    Guarded ls ⟨(scene.store.newSeq kind items).2,
      (scene.store.newSeq kind items).1 :: scene.known⟩ := by
  have kept : ∀ v, scene.store.Avoids ls v → (scene.store.newSeq kind items).2.Avoids ls v := by
    refine fun v avoids => avoids.of_fewer (fun a x member => ?_) fun a e member => Or.inl member
    rw [Store.items_newSeq_eq] at member
    split at member
    · exact Or.inr (safe x member)
    · exact Or.inl member
  refine ⟨fun l member => Store.holds_of_grows (Store.grows_newSeq _ kind items)
    (guarded.held l member), guarded.closed, ?_⟩
  refine List.forall_mem_cons.mpr ⟨?_, fun k known => kept k (guarded.apart k known)⟩
  intro w reached changeable l member part inside place
  cases reached with
  | self =>
    have stands := guarded.held l member part inside
    cases part with
    | atom a => cases place
    | map other a entries => cases place
    | seq other a inner =>
      cases place
      exact Nat.lt_irrefl _ stands.1
  | @item _ _ x _ listed below =>
    rw [Store.items_newSeq] at listed
    exact kept x (safe x listed) w below changeable l member part inside place

private theorem Guarded.newMap (guarded : Guarded ls scene) (kind : MapKind) {entries : Entries}
    (safe : ∀ e ∈ entries, scene.store.Avoids ls e.1 ∧ scene.store.Avoids ls e.2) :
    Guarded ls ⟨(scene.store.newMap kind entries).2,
      (scene.store.newMap kind entries).1 :: scene.known⟩ := by
  have kept : ∀ v, scene.store.Avoids ls v → (scene.store.newMap kind entries).2.Avoids ls v := by
    refine fun v avoids => avoids.of_fewer (fun a x member => Or.inl member) fun a e member => ?_
    rw [Store.entries_newMap_eq] at member
    split at member
    · exact Or.inr (safe e member)
    · exact Or.inl member
  refine ⟨fun l member => Store.holds_of_grows (Store.grows_newMap _ kind entries)
    (guarded.held l member), guarded.closed, ?_⟩
  refine List.forall_mem_cons.mpr ⟨?_, fun k known => kept k (guarded.apart k known)⟩
  intro w reached changeable l member part inside place
  cases reached with
  | self =>
    have stands := guarded.held l member part inside
    cases part with
    | atom a => cases place
    | seq other a items => cases place
    | map other a inner =>
      cases place
      exact Nat.lt_irrefl _ stands.1
  | @key _ _ e _ listed below =>
    rw [Store.entries_newMap] at listed
    exact kept e.1 (safe e listed).1 w below changeable l member part inside place
  | @value _ _ e _ listed below =>
    rw [Store.entries_newMap] at listed
    exact kept e.2 (safe e listed).2 w below changeable l member part inside place

theorem Guarded.step (made : c.Made) (consulted : ∀ w ∈ c.consulted, ∃ l ∈ ls, l.value = w)
    (guarded : Guarded ls scene) (move : Moves c scene later) : Guarded ls later := by
  cases move with
  | @items a items list has =>
    have free := fun l member part inside =>
      guarded.avoids list _ (.self _) rfl l member part inside
    refine ⟨fun l member => Store.holds_setItems (guarded.held l member) (free l member) items,
      guarded.closed, fun k known => (guarded.apart k known).of_fewer (fun b x member => ?_)
        fun b e member => Or.inl member⟩
    rw [Store.items_setItems] at member
    split at member
    · exact Or.inr (guarded.avoids (has x member))
    · exact Or.inl member
  | @entries v a entries mapping fields has =>
    obtain ⟨changeable, place⟩ := Value.place_of_fields fields
    have free : ∀ l ∈ ls, ∀ part ∈ l.parts, part.place? ≠ some (true, a) :=
      fun l member part inside =>
        place ▸ guarded.avoids mapping _ (.self _) changeable l member part inside
    refine ⟨fun l member => Store.holds_setEntries (guarded.held l member) (free l member) entries,
      guarded.closed, fun k known => (guarded.apart k known).of_fewer
        (fun b x member => Or.inl member) fun b e member => ?_⟩
    rw [Store.entries_setEntries] at member
    split at member
    · exact Or.inr ⟨guarded.avoids (has e member).1, guarded.avoids (has e member).2⟩
    · exact Or.inl member
  | newSeq kind has => exact guarded.newSeq kind fun x member => guarded.avoids (has x member)
  | newMap kind has =>
    exact guarded.newMap kind fun e member =>
      ⟨guarded.avoids (has e member).1, guarded.avoids (has e member).2⟩
  | keep has =>
    exact ⟨guarded.held, guarded.closed,
      List.forall_mem_cons.mpr ⟨guarded.avoids has, guarded.apart⟩⟩
  | @call v ctx r after has checked =>
    rcases made.check_twice checked checked with ⟨rfl, _, _, result⟩ | ⟨items, among, new, _⟩
    · refine ⟨guarded.held, guarded.closed, List.forall_mem_cons.mpr ⟨?_, guarded.apart⟩⟩
      rcases result with rfl | ⟨a, rfl⟩
      · exact guarded.avoids has
      · exact scene.store.avoids_atom ls a
    · obtain ⟨rfl, rfl⟩ := Prod.mk.inj new
      refine guarded.newSeq .list fun x member => ?_
      obtain ⟨l, listed, rfl⟩ := consulted x (among x member)
      exact guarded.avoids_value listed
  | refused has failed =>
    rw [made.store_of_error failed]
    exact guarded

theorem Guarded.run (made : c.Made) (consulted : ∀ w ∈ c.consulted, ∃ l ∈ ls, l.value = w)
    (guarded : Guarded ls scene) (run : Relation.ReflTransGen (Moves c) scene later) :
    Guarded ls later := by
  induction run with
  | refl => exact guarded
  | tail _ move ih => exact ih.step made consulted move

/-- A checker is immune when the layouts of what it consults are guarded. -/
theorem Guarded.immune (made : c.Made) (consulted : ∀ w ∈ c.consulted, ∃ l ∈ ls, l.value = w)
    (guarded : Guarded ls scene) : c.Immune scene := by
  intro later run v v' like clear clear' ctx
  have final := guarded.run made consulted run
  refine made.check_alike (fun w member => ?_) like clear clear' ctx
  obtain ⟨l, listed, rfl⟩ := consulted w member
  exact ⟨l, rfl, guarded.held l listed, final.held l listed⟩

end Scene

/-- The values that are given with options. -/
def OptionsSource.values : OptionsSource → Keywords → List Value
  | source, keywords =>
    (match source with
      | .absent | .other _ => []
      | .record o => OptionName.all.map o.get
      | .mapping entries => entries.map Prod.snd) ++ keywords.map Prod.snd

namespace Checker

private theorem guarded_at_first {store : Store} {c : Checker} {known : List Value}
    (closed : ∀ w ∈ c.consulted, ∃ l : Layout, l.value = w ∧ store.Holds l ∧ l.Sealed)
    (kinded : store.Kinded (c.consulted ++ known)) :
    Scene.Guarded {l | l.value ∈ c.consulted ∧ store.Holds l} ⟨store, known⟩ where
  held l member := member.2
  closed l member := by
    obtain ⟨l', same, held, shut⟩ := closed l.value member.1
    rwa [← Store.holds_unique held member.2 same]
  apart k member w reached changeable l listed part inside place := by
    obtain ⟨l', same, held, shut⟩ := closed l.value listed.1
    obtain rfl := Store.holds_unique held listed.2 same
    have met := Store.reaches_of_mem_parts held inside
    cases there : w.place? with
    | none => cases w <;> cases there; cases changeable
    | some place' =>
      have one := kinded _ (List.mem_append_left _ listed.1) k (List.mem_append_right _ member)
        part.value w place' met reached (by rw [Layout.place_value, place, there]) there
      rw [← one, shut part inside] at changeable
      cases changeable

def twoNested (w w' : Value) : Store where
  sequences := #[[w], [], [w'], []]
  mappings := #[[], []]

theorem make_oneItem (w w' : Value) :
    Kinds.builtin.make (twoNested w w') (.text "array") (.record { value := .seq .list 0 }) [] =
      .ok (oneItem w) :=
  make_array (twoNested w w') (o := { value := .seq .list 0 }) (Or.inr rfl) rfl

private theorem reached_oneItem {w w' x y : Value} (inner : w = .seq .list 1 ∨ ∃ k, w = .map k 0)
    (start : (∃ a, x = .atom a) ∨ x = w ∨ x = .seq .list 0)
    (reached : (twoNested w w').Reaches x y) :
    (∃ a, y = .atom a) ∨ y = w ∨ y = .seq .list 0 := by
  induction reached with
  | self x => exact start
  | item member _ ih =>
    rcases start with ⟨a, same⟩ | same | same
    · cases same
    · rcases inner with rfl | ⟨k, rfl⟩
      · cases same
        cases member
      · cases same
    · cases same
      exact ih (Or.inr (Or.inl (List.mem_singleton.mp member)))
  | key member _ _ | value member _ _ =>
    rcases start with ⟨a, same⟩ | same | same
    · cases same
    · rcases inner with rfl | ⟨k, rfl⟩
      · cases same
      · cases same
        cases member
    · cases same

private abbrev givenOne : List Value := (OptionsSource.record { value := .seq .list 0 }).values []

private theorem kinded_oneItem {w w' : Value} (inner : w = .seq .list 1 ∨ ∃ k, w = .map k 0) :
    (twoNested w w').Kinded ((oneItem w).consulted ++ (givenOne ++ [])) := by
  have known : ∀ v ∈ (oneItem w).consulted ++ (givenOne ++ []),
      (∃ a, v = .atom a) ∨ v = w ∨ v = .seq .list 0 := by
    simp only [consulted, Option.getD_some, OptionsSource.values, OptionName.all, Options.get,
      List.map_cons, List.map_nil, List.append_nil, List.cons_append, List.nil_append,
      List.forall_mem_cons, Value.atom.injEq, exists_eq', true_or, or_true, true_and]
    exact fun v member => absurd member List.not_mem_nil
  intro v member v' member' x y place reached reached' here there
  have first := reached_oneItem inner (known v member) reached
  have second := reached_oneItem inner (known v' member') reached'
  rcases first with ⟨a, rfl⟩ | rfl | rfl
  · cases here
  · rcases second with ⟨a, rfl⟩ | rfl | rfl
    · cases there
    · rfl
    · rcases inner with rfl | ⟨k, rfl⟩ <;> cases here <;> cases there
  · rcases second with ⟨a, rfl⟩ | rfl | rfl
    · cases there
    · rcases inner with rfl | ⟨k, rfl⟩ <;> cases here <;> cases there
    · rfl

private theorem not_immune_oneItem {w : Value} {l : Layout} (changed : Store) {known : List Value}
    (held : (twoNested w l.value).Holds l) (holds : changed.Holds l)
    (beside : 2 < changed.sequences.size ∧ changed.items 2 = [l.value])
    (equal : (twoNested w l.value).equal l.value w = true)
    (differs : changed.equal l.value w = false)
    (move : Scene.Moves (oneItem w) ⟨twoNested w l.value, known⟩ ⟨changed, known⟩) :
    ¬(oneItem w).Immune ⟨twoNested w l.value, known⟩ := by
  intro immune
  have before : (twoNested w l.value).Holds (.seq .list 2 [l]) :=
    ((twoNested w l.value).holds_seq .list 2 [l]).mpr
      ⟨⟨by simp [twoNested], rfl⟩, by simpa using held⟩
  have after : changed.Holds (.seq .list 2 [l]) :=
    (changed.holds_seq .list 2 [l]).mpr ⟨beside, by simpa using holds⟩
  have answers := immune _ (.single move) (.seq .list 2) (.seq .list 2)
    (Store.resembles_of_holds before after)
    (Store.clear_of_holds before (List.disjoint_nil_right _))
    (Store.clear_of_holds after (List.disjoint_nil_right _)) {}
  rw [check_oneItem rfl, check_oneItem beside.2, equal, differs, if_pos rfl,
    if_neg Bool.false_ne_true] at answers
  cases answers

private theorem has_item {w w' : Value} : Scene.Has ⟨twoNested w w', givenOne ++ []⟩ w :=
  Or.inr ⟨.seq .list 0, by simp [OptionsSource.values, OptionName.all, Options.get],
    .item (List.mem_singleton_self w) (.self w)⟩

private theorem not_immune_list :
    ¬(oneItem (.seq .list 1)).Immune ⟨twoNested (.seq .list 1) (.seq .list 3), givenOne ++ []⟩ := by
  refine not_immune_oneItem (l := .seq .list 3 [])
    ((twoNested (.seq .list 1) (.seq .list 3)).setItems 1 [.null]) ?_ ?_ ⟨by decide, rfl⟩ ?_ ?_
    (.items has_item ?_)
  · exact (Store.holds_seq _ _ _ _).mpr ⟨⟨by decide, rfl⟩, nofun⟩
  · exact (Store.holds_seq _ _ _ _).mpr ⟨⟨by decide, rfl⟩, nofun⟩
  · change Data.same (.seq .list []) (.seq .list []) = true
    simp [Data.same, Data.pairwise]
  · change Data.same (.seq .list []) (.seq .list [.null]) = false
    simp [Data.same, Data.pairwise]
  · exact List.forall_mem_singleton.mpr (Or.inl ⟨.null, rfl⟩)

private theorem not_immune_map {kind : MapKind} (fields : (Value.map kind 0).fields? = some 0) :
    ¬(oneItem (.map kind 0)).Immune ⟨twoNested (.map kind 0) (.map kind 1), givenOne ++ []⟩ := by
  have other : (Value.map kind 1 == .map kind 0) = false := by simp
  have frozen : ∀ store : Store, store.equal (.map kind 1) (.map kind 0) =
      (store.freeze (.map kind 1) == store.freeze (.map kind 0)) := by
    intro store
    change store.same _ _ = _
    rw [Store.same, other, Bool.false_or]
  refine not_immune_oneItem (l := .map kind 1 [])
    ((twoNested (.map kind 0) (.map kind 1)).setEntries 0 [(.null, .null)]) ?_ ?_
    ⟨by simp [twoNested], rfl⟩ ?_ ?_ (.entries has_item fields ?_)
  · exact (Store.holds_map _ _ _ _).mpr
      ⟨⟨by simp [twoNested], rfl⟩, fun _ member => absurd member List.not_mem_nil⟩
  · exact (Store.holds_map _ _ _ _).mpr
      ⟨⟨by simp [twoNested], rfl⟩, fun _ member => absurd member List.not_mem_nil⟩
  · rw [Layout.value, frozen]
    change Data.same (.map kind []) (.map kind []) = true
    simp [Data.same, Data.entriesWithin, Data.sameKeys]
  · rw [Layout.value, frozen]
    change Data.same (.map kind []) (.map kind [(.null, .null)]) = false
    simp [Data.same]
  · exact List.forall_mem_singleton.mpr ⟨Or.inl ⟨.null, rfl⟩, Or.inl ⟨.null, rfl⟩⟩

private theorem layouts_oneItem {store : Store} {l : Layout} {P : Layout → Prop}
    (held : store.Holds l) (absent : P (.atom (.bool false))) (of : P l) :
    ∀ w ∈ (oneItem l.value).consulted, ∃ l : Layout, l.value = w ∧ store.Holds l ∧ P l :=
  List.forall_mem_cons.mpr ⟨⟨.atom (.bool false), rfl, store.holds_atom _, absent⟩,
    List.forall_mem_singleton.mpr ⟨l, rfl, held, of⟩⟩

section

variable {seqs : SeqKind → Prop} {maps : MapKind → Prop}

private theorem madeOf_atom (a : Atom) : (Layout.atom a).MadeOf seqs maps := by
  constructor <;> intro _ _ _ member <;> simp [Layout.parts] at member

private theorem madeOf_list (allowed : seqs .list) (a : Address) :
    (Layout.seq .list a []).MadeOf seqs maps := by
  refine ⟨fun other b items member => ?_, fun _ _ _ member => ?_⟩
  · obtain ⟨rfl, _⟩ := Layout.seq.inj (List.mem_singleton.mp member)
    exact allowed
  · simp [Layout.parts, Layout.itemsParts] at member

private theorem madeOf_map {kind : MapKind} (allowed : maps kind) (a : Address) :
    (Layout.map kind a []).MadeOf seqs maps := by
  refine ⟨fun _ _ _ member => ?_, fun other b entries member => ?_⟩
  · simp [Layout.parts, Layout.entriesParts] at member
  · obtain ⟨rfl, _⟩ := Layout.map.inj (List.mem_singleton.mp member)
    exact allowed

end

/-- The checkers of which all consulted containers are of the given kinds are immune exactly when
none of these kinds can be changed. -/
theorem immune_iff (seqs : SeqKind → Prop) (maps : MapKind → Prop) :
    (∀ (store : Store) (kind : Data) (source : OptionsSource) (keywords : Keywords) (c : Checker),
      Kinds.builtin.make store kind source keywords = .ok c →
        (∀ w ∈ c.consulted, ∃ l : Layout, l.value = w ∧ store.Holds l ∧ l.MadeOf seqs maps) →
          ∀ others, store.Kinded (c.consulted ++ (source.values keywords ++ others)) →
            c.Immune ⟨store, source.values keywords ++ others⟩) ↔
      ¬seqs .list ∧ ¬maps .plain ∧ ¬maps .ordered := by
  constructor
  · intro immune
    have sample := fun w w' inner within =>
      immune (twoNested w w') _ _ _ _ (make_oneItem w w') within [] (kinded_oneItem inner)
    have nested : seqs .list → (oneItem (.seq .list 1)).Immune
        ⟨twoNested (.seq .list 1) (.seq .list 3), givenOne ++ []⟩ := fun allowed =>
      have held : (twoNested (.seq .list 1) (.seq .list 3)).Holds (.seq .list 1 []) :=
        (Store.holds_seq _ _ _ _).mpr ⟨⟨by decide, rfl⟩, nofun⟩
      sample _ _ (Or.inl rfl) (layouts_oneItem held (madeOf_atom _) (madeOf_list allowed 1))
    have mapping : ∀ kind, maps kind → (oneItem (.map kind 0)).Immune
        ⟨twoNested (.map kind 0) (.map kind 1), givenOne ++ []⟩ := fun kind allowed =>
      have held : (twoNested (.map kind 0) (.map kind 1)).Holds (.map kind 0 []) :=
        (Store.holds_map _ _ _ _).mpr ⟨⟨by simp [twoNested], rfl⟩, nofun⟩
      sample _ _ (Or.inr ⟨kind, rfl⟩)
        (layouts_oneItem held (madeOf_atom _) (madeOf_map allowed 0))
    exact ⟨fun list => not_immune_list (nested list),
      fun plain => not_immune_map rfl (mapping .plain plain),
      fun ordered => not_immune_map rfl (mapping .ordered ordered)⟩
  · rintro ⟨list, plain, ordered⟩ store kind source keywords c made within others kinded
    have form : c.Made := BuiltIn.made ⟨store, kind, source, keywords, made⟩
    refine (guarded_at_first (fun w member => ?_) kinded).immune form fun w member => ?_
    · obtain ⟨l, same, held, of⟩ := within w member
      exact ⟨l, same, held, Layout.sealed_of_madeOf of list plain ordered⟩
    · obtain ⟨l, rfl, held, _⟩ := within w member
      exact ⟨l, ⟨member, held⟩, rfl⟩

/-- The list in the exact value of an array checker stays in the hands of the caller. When the caller
changes it, the list that the checker accepted is refused. -/
theorem not_immune : ¬∀ (store : Store) (kind : Data) (source : OptionsSource)
    (keywords : Keywords) (c : Checker), Kinds.builtin.make store kind source keywords = .ok c →
      (∀ w ∈ c.consulted, ∃ l : Layout, l.value = w ∧ store.Holds l) →
        store.Kinded (c.consulted ++ source.values keywords) →
          c.Immune ⟨store, source.values keywords⟩ := by
  intro immune
  have held : (twoNested (.seq .list 1) (.seq .list 3)).Holds (.seq .list 1 []) :=
    (Store.holds_seq _ _ _ _).mpr ⟨⟨by decide, rfl⟩, nofun⟩
  have consults := layouts_oneItem (P := fun _ => True) held trivial trivial
  refine not_immune_list (immune (twoNested (.seq .list 1) (.seq .list 3)) _ _ _ _
    (make_oneItem _ _) (fun w member => ?_) (kinded_oneItem (Or.inl rfl)))
  obtain ⟨l, same, stands, _⟩ := consults w member
  exact ⟨l, same, stands⟩

end Checker

end Assay
