import Assay.Proofs.Order
import Assay.Proofs.Transport
import Assay.Proofs.WriteBack

/-!
Interruption: what a check leaves behind when it fails on its way. The nodes of the schema before
the one at which it fails have been dealt with, in the order of definition: mappings of branches are
pruned, and the results of leaves are put back when values may be replaced. Nothing else has
changed.
-/

set_option autoImplicit false
set_option relaxedAutoImplicit false

namespace Assay

namespace Schema

/-- What a check has made of a value when it has dealt with some nodes: it has pruned the mappings
of their branches, and under the name of each field with one of their leaves stands what the leaf
gave when it was called, if that is put back. All other fields and containers are as they were. -/
structure Midway (schema : Schema) (mode : Mode) (v : Value)
    (passed : List (List String × Tree Leaf)) (before after : Store) : Prop where
  pruned : ∀ path fields, (path, .branch fields) ∈ passed →
    ∃ a, (before.valueAt v path).fields? = some a ∧
      (after.entries a).map Prod.fst =
        ((before.entries a).restrict (fields.map Prod.fst)).map Prod.fst
  given : ∀ up name leaf a, (up ++ [name], .leaf leaf) ∈ passed →
    (before.valueAt v up).fields? = some a →
      ∃ call ∈ schema.calls mode v before, call.path = up ++ [name] ∧ call.content = leaf ∧
        call.given = (before.entries a).get name ∧
          ∃ r between, leaf.call call.given call.ctx call.store = .ok r between ∧
            (after.entries a).valueOf? name =
              if r = .null || !mode.sanitize then (before.entries a).valueOf? name else some r
  kept : ∀ up fields name a, (up, .branch fields) ∈ passed →
    (before.valueAt v up).fields? = some a → name ∈ fields.map Prod.fst →
      (∀ leaf, (up ++ [name], .leaf leaf) ∉ passed) →
        (after.entries a).valueOf? name = (before.entries a).valueOf? name
  others : ∀ a, (∀ path fields, (path, .branch fields) ∈ passed →
    (before.valueAt v path).fields? ≠ some a) → after.entries a = before.entries a
  items : ∀ a, a < before.sequences.size → after.items a = before.items a

/-- A node at which a check of a value fails: there is no mapping for a branch, or a leaf fails when
it is called. -/
def FailsAt (mode : Mode) (v : Value) (before after : Store) (failure : Failure) :
    List String × Tree Leaf → Prop
  | (path, .branch _) =>
    (before.valueAt v path).fields? = none ∧ failure = .invalid (Path.dotted path)
  | (path, .leaf leaf) =>
    leaf.call (before.valueAt v path) { path := Path.dotted path, mode } after =
      .error failure after

variable {schema : Schema} {store after : Store} {v : Value} {mode : Mode}
  {passed later : List (List String × Tree Leaf)}

private theorem tame_passed (built : schema.BuiltIn)
    (names : mode.sanitize = true → schema.root.LeafNames fun name => '.' ∉ name.toList)
    (split : schema.root.nodes = passed ++ later) :
    ∀ step ∈ passed.map (Tree.stepAt store [] none v), step.Tame Leaf.call (top mode) := by
  have steps := Tree.agenda_eq_map store schema.root [] none v
  rw [split, List.map_append] at steps
  exact built.tame_early mode names steps

private theorem keys_passed (built : schema.BuiltIn)
    (names : mode.sanitize = true → schema.root.LeafNames fun name => '.' ∉ name.toList)
    (nodup : (Tree.entered (schema.root.agenda store [] none v)).Nodup)
    (split : schema.root.nodes = passed ++ later)
    (ran : Step.runAll Leaf.call (top mode) (passed.map (Tree.stepAt store [] none v)) store =
      .ok () after) {path : List String} {fields : List (String × Tree Leaf)}
    (member : (path, .branch fields) ∈ passed) :
    ∃ a, (store.valueAt v path).fields? = some a ∧ (after.entries a).map Prod.fst =
      ((store.entries a).restrict (fields.map Prod.fst)).map Prod.fst := by
  have listed : ∀ node ∈ passed, node ∈ schema.root.nodes := fun node inside =>
    split ▸ List.mem_append_left later inside
  have enters : .enter path (store.valueAt v path).fields? (fields.map Prod.fst) ∈
      passed.map (Tree.stepAt store [] none v) := List.mem_map.mpr ⟨_, member, rfl⟩
  obtain ⟨a, mapping⟩ := Step.mapping_of_runAll ran enters
  have there := (Tree.mem_nodes_iff built.distinct).mp (listed _ member)
  have fits : ∀ step ∈ passed.map (Tree.stepAt store [] none v),
      step.Fits store a (fields.map Prod.fst) := by
    intro step inside
    obtain ⟨node, found, rfl⟩ := List.mem_map.mp inside
    exact fits_agenda built nodup there mapping _ (Tree.stepAt_mem_agenda (listed node found))
  have entered : a ∈ Tree.entered (passed.map (Tree.stepAt store [] none v)) :=
    List.mem_filterMap.mpr ⟨_, enters, mapping⟩
  obtain ⟨keys, full⟩ := Step.keys_runAll (tame_passed built names split) fits rfl ran
  rw [full (Or.inr entered)] at keys
  exact ⟨a, mapping, keys⟩

private theorem given_passed (built : schema.BuiltIn)
    (names : mode.sanitize = true → schema.root.LeafNames fun name => '.' ∉ name.toList)
    (nodup : (Tree.entered (schema.root.agenda store [] none v)).Nodup)
    (split : schema.root.nodes = passed ++ later)
    (ran : Step.runAll Leaf.call (top mode) (passed.map (Tree.stepAt store [] none v)) store =
      .ok () after) {up : List String} {name : String} {leaf : Leaf} {a : Address}
    (member : (up ++ [name], .leaf leaf) ∈ passed)
    (mapping : (store.valueAt v up).fields? = some a) :
    ∃ call ∈ schema.calls mode v store, call.path = up ++ [name] ∧ call.content = leaf ∧
      call.given = (store.entries a).get name ∧
        ∃ r between, leaf.call call.given call.ctx call.store = .ok r between ∧
          (after.entries a).valueOf? name =
            if r = .null || !mode.sanitize then (store.entries a).valueOf? name else some r := by
  have tame : ∀ step ∈ passed.map (Tree.stepAt store [] none v), step.Tame Leaf.call (top mode) :=
    tame_passed built names split
  obtain ⟨fields, above, found⟩ := Tree.branch_mem_passed built.distinct split member
  have there : schema.root.at? up = some (.branch fields) := by
    rw [← Tree.mem_nodes_iff built.distinct, split]
    exact List.mem_append_left later above
  obtain ⟨early, late, rfl⟩ := List.append_of_mem member
  rw [List.append_assoc, List.cons_append] at split
  have steps : schema.root.agenda store [] none v = early.map (Tree.stepAt store [] none v) ++
      .ask (up ++ [name]) (some (a, name)) ((store.entries a).get name) leaf ::
        (late ++ later).map (Tree.stepAt store [] none v) := by
    rw [Tree.agenda_eq_map, split, List.map_append, List.map_cons, Tree.stepAt_field mapping]
  -- No other step has to do with the entry, so what the leaf gave stays there.
  have spares := Tree.spares_of_split built.distinct nodup there mapping
    (Tree.name_mem_of_lookup found) steps rfl
  rw [List.map_append, ← List.append_assoc] at spares
  rw [List.map_append, List.map_cons, Tree.stepAt_field mapping] at ran tame
  obtain ⟨middle, r, between, first, called, _, stands⟩ := Step.valueOf?_runAll_ask tame
    (fun step listed => spares step (List.mem_append_left _ listed)) rfl ran
  refine ⟨⟨up ++ [name], leaf, (store.entries a).get name, (top mode).descend (up ++ [name]),
    middle⟩, ?_, rfl, rfl, rfl, r, between, called, stands⟩
  rw [built.calls_eq_calls names nodup, steps, Step.calls_append, first]
  exact List.mem_append_right _ List.mem_cons_self

private theorem branch_of_touched (built : schema.BuiltIn)
    (split : schema.root.nodes = passed ++ later) {a : Address}
    (touched : a ∈ (passed.map (Tree.stepAt store [] none v)).filterMap Step.touched?) :
    ∃ path fields, (path, .branch fields) ∈ passed ∧ (store.valueAt v path).fields? = some a := by
  obtain ⟨step, listed, touches⟩ := List.mem_filterMap.mp touched
  obtain ⟨⟨path, sub⟩, member, rfl⟩ := List.mem_map.mp listed
  cases sub with
  | branch fields => exact ⟨path, fields, member, touches⟩
  | leaf leaf =>
    rw [Tree.stepAt, Step.touched?] at touches
    rcases List.eq_nil_or_concat' path with rfl | ⟨up, name, rfl⟩
    · cases touches
    · rw [Store.placeAt_concat, Option.map_map] at touches
      obtain ⟨b, mapping, rfl⟩ := Option.map_eq_some_iff.mp touches
      obtain ⟨fields, above, _⟩ := Tree.branch_mem_passed built.distinct split member
      exact ⟨up, fields, above, mapping⟩

theorem midway_of_run (built : schema.BuiltIn)
    (names : mode.sanitize = true → schema.root.LeafNames fun name => '.' ∉ name.toList)
    (nodup : (Tree.entered (schema.root.agenda store [] none v)).Nodup)
    (split : schema.root.nodes = passed ++ later)
    (ran : Step.runAll Leaf.call (top mode) (passed.map (Tree.stepAt store [] none v)) store =
      .ok () after) : schema.Midway mode v passed store after := by
  have tame : ∀ step ∈ passed.map (Tree.stepAt store [] none v), step.Tame Leaf.call (top mode) :=
    tame_passed built names split
  have kept := Step.keeps_runAll tame ran
  refine ⟨fun _ _ member => keys_passed built names nodup split ran member,
    fun _ _ _ _ member mapping => given_passed built names nodup split ran member mapping,
    ?_, ?_, kept.items⟩
  · intro up fields name a above mapping described asked
    have listed : ∀ node ∈ passed, node ∈ schema.root.nodes := fun node inside =>
      split ▸ List.mem_append_left later inside
    refine Step.valueOf?_runAll tame (fun step inside => ?_) ran
    obtain ⟨node, member, rfl⟩ := List.mem_map.mp inside
    exact Tree.spares_stepAt built.distinct nodup
      ((Tree.mem_nodes_iff built.distinct).mp (listed _ above)) mapping described
      (listed node member) fun leaf same => asked leaf (same ▸ member)
  · intro a apart
    refine kept.entries a fun touched => ?_
    obtain ⟨path, fields, member, mapping⟩ := branch_of_touched built split touched
    exact apart path fields member mapping

theorem failsAt_of_run {node : List String × Tree Leaf} {failure : Failure}
    (stopped : (Tree.stepAt store [] none v node).run Leaf.call (top mode) after =
      .error failure after) : FailsAt mode v store after failure node := by
  obtain ⟨path, sub⟩ := node
  rcases Step.run_error stopped with
    ⟨other, described, entered, rfl, _⟩ | ⟨other, place, given, leaf, asked, called⟩
  · cases sub with
    | leaf leaf => cases entered
    | branch fields =>
      rw [Tree.stepAt, List.nil_append] at entered
      injection entered with paths mapping _
      rw [← paths, Context.descend_top]
      exact ⟨mapping, rfl⟩
  · cases sub with
    | branch fields => cases asked
    | leaf content =>
      rw [Tree.stepAt, List.nil_append] at asked
      injection asked with paths _ values contents
      subst paths values contents
      rw [Context.descend_top] at called
      exact called

/-- A check that fails has taken the steps for the nodes before the one where it fails. -/
theorem exists_node_of_error {failure : Failure} (built : schema.BuiltIn)
    (names : mode.sanitize = true → schema.root.LeafNames fun name => '.' ∉ name.toList)
    (nodup : (Tree.entered (schema.root.agenda store [] none v)).Nodup)
    (failed : schema.check mode v store = .error failure after) :
    ∃ passed node later, schema.root.nodes = passed ++ node :: later ∧
      Step.runAll Leaf.call (top mode) (passed.map (Tree.stepAt store [] none v)) store =
          .ok () after ∧
        (Tree.stepAt store [] none v node).run Leaf.call (top mode) after =
          .error failure after := by
  obtain ⟨passed, node, later, between, split, ran, stopped⟩ :=
    Tree.runAll_agenda_error ((built.check_error_iff names nodup failure after).mp failed)
  have member : node ∈ schema.root.nodes := split ▸ List.mem_append_right passed List.mem_cons_self
  obtain rfl := built.store_of_run_error (Tree.stepAt_mem_agenda member) stopped
  exact ⟨passed, node, later, split, ran, stopped⟩

/-- A check that fails does so at a node. Then it has dealt with the nodes before, in the order of
definition, and has changed nothing else. -/
theorem check_interrupted {failure : Failure} (built : schema.BuiltIn)
    (names : mode.sanitize = true → schema.root.LeafNames fun name => '.' ∉ name.toList)
    (shaped : store.TreeShaped v) (failed : schema.check mode v store = .error failure after) :
    ∃ passed node later, schema.root.nodes = passed ++ node :: later ∧
      FailsAt mode v store after failure node ∧ schema.Midway mode v passed store after := by
  have nodup := built.nodup_entered shaped
  obtain ⟨passed, node, later, split, ran, stopped⟩ :=
    exists_node_of_error built names nodup failed
  exact ⟨passed, node, later, split, failsAt_of_run stopped,
    midway_of_run built names nodup split ran⟩

abbrev emptyList : Checker := .array { value := .seq .list 0 } (some [])

def listAndMapping : Schema where
  root := .branch [("a", .leaf (.checker emptyList)), ("b", .branch [])]

def tupleAndNumber : Store where
  sequences := #[[], []]
  mappings := #[[(.text "a", .seq .tuple 1), (.text "z", .int 1), (.text "b", .int 5)]]

def listAndNumber : Store where
  sequences := #[[], [], []]
  mappings := #[[(.text "a", .seq .list 2), (.text "b", .int 5)]]

theorem listAndMapping_builtIn : listAndMapping.BuiltIn := by
  refine ⟨⟨by decide, trivial, ⟨by simp, trivial⟩, trivial⟩, fun leaf member => ?_⟩
  simp only [listAndMapping, Tree.leaves, Tree.fieldLeaves, List.append_nil,
    List.mem_singleton] at member
  exact ⟨_, member,
    Checker.builtIn_array tupleAndNumber (o := { value := .seq .list 0 }) (Or.inr rfl) rfl⟩

theorem tupleAndNumber_treeShaped : tupleAndNumber.TreeShaped (.map .plain 0) := by
  refine ⟨.map .plain 0 [(.atom (.text "a"), .seq .tuple 1 []),
    (.atom (.text "z"), .atom (.number (.int 1))), (.atom (.text "b"), .atom (.number (.int 5)))],
    rfl, ?_, by simp⟩
  simp [Store.holds_map, Store.holds_seq, tupleAndNumber, Store.entries, Store.items,
    Layout.entryValue, Layout.value]

theorem listAndMapping_names : listAndMapping.root.LeafNames fun name => '.' ∉ name.toList :=
  Tree.leafNames_of_paths listAndMapping_builtIn.distinct [["a"]] rfl (by decide)

theorem listAndMapping_options : ∀ c, .checker c ∈ listAndMapping.root.leaves →
    ∀ option ∈ c.holdings, ∀ w, tupleAndNumber.Reaches option w →
      tupleAndNumber.Stands w ∧ ∀ kind a, w ≠ .map kind a := by
  intro c listed option held w reached
  have leaves : listAndMapping.root.leaves = [.checker emptyList] := rfl
  rw [leaves, List.mem_singleton] at listed
  obtain rfl := Leaf.checker.inj listed
  have value : (∃ a, option = .atom a) ∨ option = .seq .list 0 := by
    rw [Checker.holdings, Option.getD_some, List.append_nil] at held
    obtain ⟨name, _, rfl⟩ := List.mem_map.mp held
    cases name
    case value => exact Or.inr rfl
    all_goals exact Or.inl ⟨_, rfl⟩
  rcases value with ⟨a, rfl⟩ | rfl
  · cases reached
    exact ⟨trivial, nofun⟩
  · cases reached with
    | self => exact ⟨Nat.zero_lt_succ 1, nofun⟩
    | item inside _ => cases inside

theorem check_interrupted_tuple :
    listAndMapping.BuiltIn ∧ (listAndMapping.root.LeafNames fun name => '.' ∉ name.toList) ∧
      tupleAndNumber.TreeShaped (.map .plain 0) ∧
        listAndMapping.check ⟨true, false⟩ (.map .plain 0) tupleAndNumber =
          .error (.invalid "b") listAndNumber ∧
          ∃ passed node later, listAndMapping.root.nodes = passed ++ node :: later ∧
            FailsAt ⟨true, false⟩ (.map .plain 0) tupleAndNumber listAndNumber (.invalid "b") node ∧
              listAndMapping.Midway ⟨true, false⟩ (.map .plain 0) passed tupleAndNumber
                listAndNumber :=
  have built := listAndMapping_builtIn
  have names := listAndMapping_names
  have shaped := tupleAndNumber_treeShaped
  ⟨built, names, shaped, rfl, check_interrupted built (fun _ => names) shaped rfl⟩

end Schema

end Assay
