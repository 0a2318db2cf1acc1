import Assay.Proofs.Kinship
import Assay.Proofs.Rerun

/-!
Trials: a tree-shaped value that is checked against a schema whose leaves are built-in checkers. The
mappings of branches are those at a path and below it, or those elsewhere. A check that comes to a
branch finds the mappings there and below as they were given, and what it does at one field leaves
those at the others alone.
-/

set_option autoImplicit false
set_option relaxedAutoImplicit false

namespace Assay

namespace Store

theorem Keeps.narrow {touched : List Address} {before after : Store}
    (kept : Keeps touched before after) :
    Keeps (touched.filter fun a => after.entries a ≠ before.entries a) before after := by
  refine ⟨kept.sequences, kept.mappings, kept.items, fun a apart => ?_⟩
  by_cases member : a ∈ touched
  · by_contra differs
    exact apart (List.mem_filter.mpr ⟨member, by simpa using differs⟩)
  · exact kept.entries a member

theorem valueAt_of_valueOf? {store : Store} {v w : Value} {up : List String} {a : Address}
    {name : String} (mapping : (store.valueAt v up).fields? = some a)
    (found : (store.entries a).valueOf? name = some w) : store.valueAt v (up ++ [name]) = w := by
  rw [valueAt_concat, field_of_fields? mapping, Entries.get, found, Option.getD_some]

end Store

namespace Schema

theorem OptionsKept.still {schema : Schema} {store now after : Store}
    (spared : schema.OptionsKept store now) (kept : Store.Keeps [] now after) :
    schema.OptionsKept store after := by
  intro c listed option held w reached
  obtain ⟨stands, same⟩ := spared c listed option held w reached
  exact ⟨stands, fun kind a shape => (kept.entries a List.not_mem_nil).trans (same kind a shape)⟩

/-- A tree-shaped value that is checked against a schema whose leaves are built-in checkers. -/
structure Trial (schema : Schema) where
  built : schema.BuiltIn
  store : Store
  value : Value
  shaped : store.TreeShaped value

namespace Trial

variable {schema : Schema} (trial : Trial schema)

abbrev given (path : List String) : Value := trial.store.valueAt trial.value path

def mappingOf : List String × Tree Leaf → Option Address
  | (path, .branch _) => (trial.given path).fields?
  | (_, .leaf _) => none

/-- The mappings of the branches at a path and below it. -/
def inside (path : List String) : List Address :=
  (schema.root.nodes.filter fun node => path <+: node.1).filterMap trial.mappingOf

/-- The mappings of the branches elsewhere than at a path or below it. -/
def outside (path : List String) : List Address :=
  (schema.root.nodes.filter fun node => ¬path <+: node.1).filterMap trial.mappingOf

/-- In the course of the check no mapping has changed but those of branches. -/
abbrev During (now : Store) : Prop :=
  Store.Keeps (Tree.entered (schema.root.agenda trial.store [] none trial.value)) trial.store now

/-- No option of a checker holds a mapping that has changed. -/
abbrev Spared (now : Store) : Prop := schema.OptionsKept trial.store now

/-- A mapping is that of the branch at a path. -/
structure Enters (path : List String) (fields : List (String × Tree Leaf)) (a : Address) :
    Prop where
  branch : schema.root.at? path = some (.branch fields)
  mapping : (trial.given path).fields? = some a

variable {trial} {path other : List String} {a : Address} {fields : List (String × Tree Leaf)}

theorem mem_mappings {P : List String × Tree Leaf → Bool} :
    a ∈ (schema.root.nodes.filter P).filterMap trial.mappingOf ↔
      ∃ q fields, P (q, .branch fields) = true ∧ trial.Enters q fields a := by
  have distinct := trial.built.distinct
  rw [List.mem_filterMap]
  constructor
  · rintro ⟨⟨q, sub⟩, listed, mapping⟩
    obtain ⟨member, here⟩ := List.mem_filter.mp listed
    cases sub with
    | leaf leaf => cases mapping
    | branch fields => exact ⟨q, fields, here, (Tree.mem_nodes_iff distinct).mp member, mapping⟩
  · rintro ⟨q, fields, here, there, mapping⟩
    exact ⟨(q, .branch fields),
      List.mem_filter.mpr ⟨(Tree.mem_nodes_iff distinct).mpr there, here⟩, mapping⟩

theorem mem_inside :
    a ∈ trial.inside path ↔ ∃ q fields, path <+: q ∧ trial.Enters q fields a := by
  simp only [inside, mem_mappings, decide_eq_true_eq]

theorem mem_outside :
    a ∈ trial.outside path ↔ ∃ q fields, ¬path <+: q ∧ trial.Enters q fields a := by
  simp only [outside, mem_mappings, decide_eq_true_eq]

theorem inside_mono (below : path <+: other) : trial.inside other ⊆ trial.inside path := by
  intro b member
  obtain ⟨q, fields, further, enters⟩ := mem_inside.mp member
  exact mem_inside.mpr ⟨q, fields, below.trans further, enters⟩

theorem outside_mono (below : path <+: other) :
    trial.outside path ⊆ trial.outside other := by
  intro b member
  obtain ⟨q, fields, apart, enters⟩ := mem_outside.mp member
  exact mem_outside.mpr ⟨q, fields, fun further => apart (below.trans further), enters⟩

theorem not_below (path : List String) (name : String) : ¬path ++ [name] <+: path := by
  intro below
  have longer := below.length_le
  rw [List.length_append] at longer
  exact absurd longer (by simp)

theorem name_unique {name other : String} {q : List String} (one : path ++ [name] <+: q)
    (two : path ++ [other] <+: q) : name = other := by
  have same := (List.prefix_of_prefix_length_le one two (by simp)).eq_of_length (by simp)
  exact List.singleton_inj.mp (List.append_cancel_left same)

theorem inside_subset_outside {name other : String} (differs : name ≠ other) :
    trial.inside (path ++ [name]) ⊆ trial.outside (path ++ [other]) := by
  intro b member
  obtain ⟨q, fields, below, enters⟩ := mem_inside.mp member
  exact mem_outside.mpr ⟨q, fields, fun both => differs (name_unique below both), enters⟩

theorem Enters.path_unique (enters : trial.Enters path fields a)
    {others : List (String × Tree Leaf)} (enters' : trial.Enters other others a) :
    path = other :=
  (Tree.branch_unique (trial.built.nodup_entered trial.shaped) enters.branch enters'.branch
    enters.mapping enters'.mapping).1

namespace Enters

variable (enters : trial.Enters path fields a)

include enters

theorem bound : a ∈ Tree.entered (schema.root.agenda trial.store [] none trial.value) ∧
    a < trial.store.mappings.size :=
  Tree.bound_of_branch trial.shaped enters.branch enters.mapping

theorem mem_inside : a ∈ trial.inside path :=
  Trial.mem_inside.mpr ⟨path, fields, List.prefix_rfl, enters⟩

theorem not_mem_outside : a ∉ trial.outside path := by
  intro member
  obtain ⟨q, others, apart, enters'⟩ := mem_outside.mp member
  obtain rfl := enters.path_unique enters'
  exact apart List.prefix_rfl

theorem not_mem_below (name : String) : a ∉ trial.inside (path ++ [name]) := by
  intro member
  obtain ⟨q, others, below, enters'⟩ := Trial.mem_inside.mp member
  obtain rfl := enters.path_unique enters'
  exact not_below path name below

theorem mem_above (name : String) : a ∈ trial.outside (path ++ [name]) :=
  mem_outside.mpr ⟨path, fields, not_below path name, enters⟩

theorem keeps_stored (ctx : Context) (r : Value) (store : Store) :
    Store.Keeps (trial.inside path) store (Tree.stored ctx (some a) r store) := by
  rw [Tree.stored]
  split
  · exact Store.Keeps.refl _ store
  · exact (store.keeps_setEntries a _).mono
      (List.cons_subset.mpr ⟨enters.mem_inside, List.nil_subset _⟩)

theorem keeps_pruned (names : List String) (store : Store) :
    Store.Keeps (trial.inside path) store
      (store.setEntries a ((store.entries a).restrict names)) :=
  (store.keeps_setEntries a _).mono (List.cons_subset.mpr ⟨enters.mem_inside, List.nil_subset _⟩)

end Enters

theorem inside_subset_entered :
    trial.inside path ⊆ Tree.entered (schema.root.agenda trial.store [] none trial.value) := by
  intro b member
  obtain ⟨q, fields, _, enters⟩ := mem_inside.mp member
  exact enters.bound.1

theorem outside_subset_entered :
    trial.outside path ⊆ Tree.entered (schema.root.agenda trial.store [] none trial.value) := by
  intro b member
  obtain ⟨q, fields, _, enters⟩ := mem_outside.mp member
  exact enters.bound.1

variable {now : Store}

/-- The value at the path of a leaf stays as it is in the course of a check. -/
theorem leaf_during (kept : trial.During now) {leaf : Leaf}
    (there : schema.root.at? path = some (.leaf leaf)) :
    ∃ l : Layout, l.value = trial.given path ∧ now.Holds l ∧
      trial.store.Resembles l.value now l.value := by
  obtain ⟨inner, asked⟩ := Tree.ask_mem_agenda trial.store there [] none trial.value
  obtain ⟨part, value, stands⟩ := Tree.given_stands trial.built.distinct trial.shaped asked
  exact ⟨part, value, stands now kept,
    Store.resembles_of_holds (stands trial.store (Store.Keeps.refl _ _)) (stands now kept)⟩

theorem option_during (kept : trial.During now) (spared : trial.Spared now) {c : Checker}
    (listed : .checker c ∈ schema.root.leaves) {option : Value} (held : option ∈ c.holdings) :
    trial.store.Resembles option now option ∧ now.Clear [] option := by
  have clear := clear_of_optionsKept (v := trial.value) spared c listed option held
  exact ⟨Store.resembles_of_clear kept.narrow clear,
    (clear.later kept.narrow).mono (List.nil_subset _)⟩

end Trial

/-- A check that has not come yet to the mappings at a path and below it. -/
structure Trial.Awaits {schema : Schema} (trial : Trial schema) (path : List String)
    (now : Store) : Prop where
  kept : trial.During now
  fresh : ∀ b ∈ trial.inside path, now.entries b = trial.store.entries b

/-- A check that has entered the mapping of a branch, with some fields still to be checked. -/
structure Trial.Underway {schema : Schema} (trial : Trial schema) (path : List String)
    (a : Address) (rest : List String) (now : Store) : Prop where
  kept : trial.During now
  texts : ∀ entry ∈ now.entries a, ∃ name, entry.1 = .text name
  fresh : ∀ name ∈ rest, ∀ b ∈ trial.inside (path ++ [name]),
    now.entries b = trial.store.entries b

theorem Trial.Underway.awaits {schema : Schema} {trial : Trial schema} {now : Store}
    {path rest : List String} {a : Address} {name : String}
    (underway : trial.Underway path a (name :: rest) now) : trial.Awaits (path ++ [name]) now where
  kept := underway.kept
  fresh := underway.fresh name List.mem_cons_self

namespace Trial.Underway

variable {schema : Schema} {trial : Trial schema} {now after : Store} {path rest : List String}
  {a : Address} {first : String}

theorem call (underway : trial.Underway path a rest now)
    (kept : Store.Keeps [] now after) : trial.Underway path a rest after where
  kept := underway.kept.trans (kept.mono (List.nil_subset _))
  texts := by
    rw [kept.entries a List.not_mem_nil]
    exact underway.texts
  fresh name member b inner := by
    rw [kept.entries b List.not_mem_nil]
    exact underway.fresh name member b inner

theorem next (underway : trial.Underway path a (first :: rest) now) :
    trial.Underway path a rest now where
  kept := underway.kept
  texts := underway.texts
  fresh name member := underway.fresh name (List.mem_cons_of_mem first member)

variable {fields : List (String × Tree Leaf)} (enters : trial.Enters path fields a)

include enters

theorem put (underway : trial.Underway path a rest now) (key : String) (r : Value) :
    trial.Underway path a rest (now.setEntries a ((now.entries a).put key r)) where
  kept := underway.kept.trans ((Store.keeps_setEntries now a _).mono
    (List.cons_subset.mpr ⟨enters.bound.1, List.nil_subset _⟩))
  texts entry member := by
    refine Store.setEntries_cases (P := fun listed => entry ∈ listed → _) a ?_ (fun _ => ?_) member
    · exact underway.texts entry
    · intro inside
      rcases Entries.mem_put inside with old | rfl
      · exact underway.texts entry old
      · exact ⟨key, rfl⟩
  fresh name member b inner := by
    have differs : a ≠ b := fun same => enters.not_mem_below name (same ▸ inner)
    rw [Store.entries_setEntries_ne now differs]
    exact underway.fresh name member b inner

theorem below (underway : trial.Underway path a rest now) (other : first ∉ rest)
    (kept : Store.Keeps (trial.inside (path ++ [first])) now after) :
    trial.Underway path a rest after where
  kept := underway.kept.trans (kept.mono inside_subset_entered)
  texts := by
    rw [kept.entries a (enters.not_mem_below first)]
    exact underway.texts
  fresh name member b inner := by
    have apart : b ∉ trial.inside (path ++ [first]) := by
      intro clash
      obtain ⟨q, fields, here, enters⟩ := mem_inside.mp inner
      obtain ⟨q', fields', here', enters'⟩ := mem_inside.mp clash
      obtain rfl := enters.path_unique enters'
      exact other (name_unique here' here ▸ member)
    rw [kept.entries b apart]
    exact underway.fresh name member b inner

theorem start (awaits : trial.Awaits path now) (names : List String) :
    trial.Underway path a rest (now.setEntries a ((now.entries a).restrict names)) where
  kept := awaits.kept.trans ((Store.keeps_setEntries now a _).mono
    (List.cons_subset.mpr ⟨enters.bound.1, List.nil_subset _⟩))
  texts entry member := by
    rw [Store.entries_pruned] at member
    obtain ⟨name, _, same⟩ := List.any_eq_true.mp (List.mem_filter.mp member).2
    exact ⟨name, beq_iff_eq.mp same⟩
  fresh name _ b inner := by
    have differs : a ≠ b := fun same => enters.not_mem_below name (same ▸ inner)
    rw [Store.entries_setEntries_ne now differs]
    exact awaits.fresh b (inside_mono (List.prefix_append path [name]) inner)

end Trial.Underway

end Schema

end Assay
