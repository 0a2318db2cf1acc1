import Assay.Proofs.Interruption
import Assay.Proofs.Parts
import Assay.Proofs.Trace

/-!
Where a check fails. The path in the report of a refusal is made of the names on the way down, with
dots between them. Where names are not empty and have no dots in them it can be taken apart again,
and then it leads to one node of the schema, the first one that does not find what it asks for.
-/

set_option autoImplicit false
set_option relaxedAutoImplicit false

namespace Assay

namespace Path

/-- A name that leaves its mark in a dotted path: it is not empty and has no dot in it. -/
def Plain (name : String) : Prop := name ≠ "" ∧ '.' ∉ name.toList

instance (name : String) : Decidable (Plain name) := inferInstanceAs (Decidable (_ ∧ _))

/-- The names between the dots of a path; the empty path has none. -/
def segments (path : String) : List String :=
  if path = "" then [] else (Text.splitAt '.' path.toList).map String.ofList

theorem dotted_of_plain {path : List String} (plain : ∀ name ∈ path, Plain name) :
    dotted path = ".".intercalate path := by
  rw [dotted]
  cases path with
  | nil => rfl
  | cons first rest =>
    rw [List.dropWhile_cons_of_neg (by simpa using (plain first List.mem_cons_self).1)]

/-- A dotted path is taken apart into the names that it is made of. -/
theorem segments_dotted {path : List String} (plain : ∀ name ∈ path, Plain name) :
    segments (dotted path) = path := by
  rw [dotted_of_plain plain]
  cases path with
  | nil => rfl
  | cons first rest =>
    have joined : (".".intercalate (first :: rest)).toList =
        ['.'].intercalate (first.toList :: rest.map String.toList) :=
      String.toList_intercalate
    have present : ".".intercalate (first :: rest) ≠ "" := by
      intro empty
      rw [empty] at joined
      have first_empty : first.toList = [] := by
        cases rest with
        | nil => simpa using joined.symm
        | cons => simp [List.intercalate_cons_cons] at joined
      exact (plain first List.mem_cons_self).1 (String.toList_eq_nil_iff.mp first_empty)
    rw [segments, if_neg present, joined, Text.splitAt_intercalate]
    · rw [← List.map_cons, List.map_map]
      simp
    · intro part member
      rw [← List.map_cons] at member
      obtain ⟨name, listed, rfl⟩ := List.mem_map.mp member
      exact (plain name listed).2

end Path

/-- The names of all fields of a tree leave their marks in dotted paths. -/
def Tree.PlainNames {α : Type} (t : Tree α) : Prop :=
  ∀ node ∈ t.nodes, ∀ name ∈ node.1, Path.Plain name

namespace Tree

variable {α : Type} {t : Tree α}

theorem PlainNames.leafNames (plain : t.PlainNames) (distinct : t.Distinct) :
    t.LeafNames fun name => '.' ∉ name.toList := by
  intro up name content there
  have listed := (mem_nodes_iff distinct).mpr there
  exact (plain _ listed name (List.mem_append_right up (List.mem_singleton_self name))).2

theorem eq_of_path_eq (distinct : t.Distinct) {node other : List String × Tree α}
    (member : node ∈ t.nodes) (member' : other ∈ t.nodes) (same : other.1 = node.1) :
    other = node := by
  have here := (mem_nodes_iff distinct).mp member
  have there := (mem_nodes_iff distinct).mp member'
  rw [same, here] at there
  exact Prod.ext same (Option.some.inj there).symm

end Tree

namespace Schema

/-- A node finds what it asks for: a mapping that can be changed for a branch, and for a leaf a
value that it accepted when it was called, with the contents that it had in the beginning. -/
def PassesAt (schema : Schema) (mode : Mode) (v : Value) (ground : Store) :
    List String × Tree Leaf → Prop
  | (path, .branch _) => ∃ a, (ground.valueAt v path).fields? = some a
  | (path, .leaf leaf) => ∃ call ∈ schema.calls mode v ground,
    call.leafNode = (path, leaf) ∧ call.given = ground.valueAt v path ∧
      ground.Resembles call.given call.store call.given ∧ call.Returns Leaf.call

/-- A node does not find what it asks for: there is no mapping that can be changed for a branch, or
a leaf refuses the value at its path, which has the contents that it had in the beginning. What is
refused is missing when it is absent, and invalid otherwise. -/
def RefusesAt (mode : Mode) (v : Value) (ground now : Store) (failure : Failure) :
    List String × Tree Leaf → Prop
  | (path, .branch _) =>
    (ground.valueAt v path).fields? = none ∧ failure = .invalid (Path.dotted path)
  | (path, .leaf leaf) =>
    leaf.call (ground.valueAt v path) { path := Path.dotted path, mode } now =
        .error failure now ∧
      ground.Resembles (ground.valueAt v path) now (ground.valueAt v path) ∧
        failure = if ground.valueAt v path = .null then .missing (Path.dotted path)
          else .invalid (Path.dotted path)

/-- What a refusal says about a check: its path leads to one node of the schema, the first one that
does not find what it asks for, and the message and the context are made of the path and the kind.
-/
structure Located (schema : Schema) (mode : Mode) (v : Value) (ground now : Store)
    (failure : Failure) (report : Report) (passed : List (List String × Tree Leaf))
    (node : List String × Tree Leaf) : Prop where
  told : failure.report? = some report
  found : ∀ other ∈ schema.root.nodes, other.1 = Path.segments report.path ↔ other = node
  passes : ∀ other ∈ passed, schema.PassesAt mode v ground other
  refuses : RefusesAt mode v ground now failure node
  message : report.message =
    Path.shown report.path "value" ++ " is " ++ report.errorClass.kind?.getD ""
  context : report.context = [(.text "kind", .text (report.errorClass.kind?.getD "")),
    (.text "path", .text report.path)]

variable {schema : Schema} {store after : Store} {v : Value} {mode : Mode}

private theorem resembles_of_ask (built : schema.BuiltIn) (shaped : store.TreeShaped v)
    {path : List String} {place : Option (Address × String)} {given : Value} {leaf : Leaf}
    (asked : .ask path place given leaf ∈ schema.root.agenda store [] none v) {now : Store}
    (kept : Store.Keeps (Tree.entered (schema.root.agenda store [] none v)) store now) :
    store.Resembles given now given := by
  obtain ⟨part, rfl, stands⟩ := Tree.given_stands built.distinct shaped asked
  exact Store.resembles_of_holds (stands store (Store.Keeps.refl _ store)) (stands now kept)

private theorem passesAt_of_run (built : schema.BuiltIn)
    (names : mode.sanitize = true → schema.root.LeafNames fun name => '.' ∉ name.toList)
    (shaped : store.TreeShaped v) {passed later : List (List String × Tree Leaf)}
    (split : schema.root.nodes = passed ++ later)
    (ran : Step.runAll Leaf.call (top mode) (passed.map (Tree.stepAt store [] none v)) store =
      .ok () after) : ∀ node ∈ passed, schema.PassesAt mode v store node := by
  intro ⟨path, sub⟩ member
  have agenda : schema.root.agenda store [] none v =
      passed.map (Tree.stepAt store [] none v) ++ later.map (Tree.stepAt store [] none v) := by
    rw [Tree.agenda_eq_map, split, List.map_append]
  cases sub with
  | branch fields =>
    have enters : .enter path (store.valueAt v path).fields? (fields.map Prod.fst) ∈
        passed.map (Tree.stepAt store [] none v) := List.mem_map.mpr ⟨_, member, rfl⟩
    exact Step.mapping_of_runAll ran enters
  | leaf leaf =>
    have listed : (path, leaf) ∈ (Step.calls Leaf.call (top mode)
        (passed.map (Tree.stepAt store [] none v)) store).map Call.leafNode := by
      rw [Tree.leafNodes_of_run ran]
      exact List.mem_filterMap.mpr ⟨_, member, rfl⟩
    obtain ⟨call, inside, here⟩ := List.mem_map.mp listed
    have made : call ∈ schema.calls mode v store := by
      rw [built.calls_eq_calls names (built.nodup_entered shaped), agenda, Step.calls_append]
      exact List.mem_append_left _ inside
    obtain ⟨first, last, cut⟩ := List.append_of_mem inside
    obtain ⟨_, early, place, late, steps, earlier, _⟩ := Step.split_of_calls cut
    rw [steps, List.append_assoc] at agenda
    have asked : .ask call.path place call.given call.content ∈
        schema.root.agenda store [] none v :=
      agenda ▸ List.mem_append_right early List.mem_cons_self
    have given := (Tree.at?_of_ask built.distinct asked).2
    obtain ⟨rfl, _⟩ := Prod.mk.inj here
    exact ⟨call, made, here, given,
      resembles_of_ask built shaped asked (built.keeps_early mode names agenda earlier),
      Step.returns_of_runAll ran inside⟩

private theorem refusesAt_of_failsAt (built : schema.BuiltIn)
    (names : mode.sanitize = true → schema.root.LeafNames fun name => '.' ∉ name.toList)
    (shaped : store.TreeShaped v) {passed later : List (List String × Tree Leaf)}
    {node : List String × Tree Leaf} (split : schema.root.nodes = passed ++ node :: later)
    (ran : Step.runAll Leaf.call (top mode) (passed.map (Tree.stepAt store [] none v)) store =
      .ok () after) {failure : Failure} (fails : FailsAt mode v store after failure node)
    (refused : failure.isRefusal) : RefusesAt mode v store after failure node := by
  have agenda := Tree.agenda_of_split store split [] none v
  have kept := built.keeps_early mode names agenda ran
  obtain ⟨path, sub⟩ := node
  cases sub with
  | branch fields => exact fails
  | leaf leaf =>
    have asked : .ask path (store.placeAt none v path) (store.valueAt v path) leaf ∈
        schema.root.agenda store [] none v :=
      agenda ▸ List.mem_append_right _ List.mem_cons_self
    obtain ⟨c, rfl, made⟩ := built.leaves leaf (built.leaf_of_ask asked)
    refine ⟨fails, resembles_of_ask built shaped asked kept, ?_⟩
    rcases made.made.failure_cases fails with told | ⟨_, cause, rfl⟩
    · exact told
    · cases refused

private theorem path_of_refusesAt {path : List String} {sub : Tree Leaf} {failure : Failure}
    (refuses : RefusesAt mode v store after failure (path, sub)) :
    failure = .missing (Path.dotted path) ∨ failure = .invalid (Path.dotted path) := by
  cases sub with
  | branch fields => exact Or.inr refuses.2
  | leaf leaf =>
    obtain ⟨_, _, told⟩ := refuses
    split at told
    · exact Or.inl told
    · exact Or.inr told

private theorem report_of_path {path : String} {failure : Failure}
    (told : failure = .missing path ∨ failure = .invalid path) :
    ∃ report, failure.report? = some report ∧ report.path = path ∧
      report.message = Path.shown path "value" ++ " is " ++ report.errorClass.kind?.getD "" ∧
        report.context = [(.text "kind", .text (report.errorClass.kind?.getD "")),
          (.text "path", .text path)] := by
  rcases told with rfl | rfl <;>
    refine ⟨_, rfl, rfl, rfl, ?_⟩ <;>
    simp [Report.standard, Report.validation, Report.addDefault, Data.text_beq]

/-- When a check refuses a value, the path in the report leads to the first node of the schema that
does not find what it asks for. -/
theorem check_located (built : schema.BuiltIn) (plain : schema.root.PlainNames)
    (shaped : store.TreeShaped v) {failure : Failure}
    (failed : schema.check mode v store = .error failure after) (refused : failure.isRefusal) :
    ∃ report passed node later, schema.root.nodes = passed ++ node :: later ∧
      schema.Located mode v store after failure report passed node := by
  have names := fun _ : mode.sanitize = true => plain.leafNames built.distinct
  obtain ⟨passed, node, later, split, ran, stopped⟩ :=
    exists_node_of_error built names (built.nodup_entered shaped) failed
  have member : node ∈ schema.root.nodes := split ▸ List.mem_append_right passed List.mem_cons_self
  have refuses := refusesAt_of_failsAt built names shaped split ran (failsAt_of_run stopped) refused
  obtain ⟨report, told, path, message, context⟩ := report_of_path (path_of_refusesAt refuses)
  rw [← path] at message context
  refine ⟨report, passed, node, later, split, told, fun other listed => ?_,
    passesAt_of_run built names shaped split ran, refuses, message, context⟩
  rw [path, Path.segments_dotted (plain node member)]
  constructor
  · exact Tree.eq_of_path_eq built.distinct member listed
  · rintro rfl
    rfl

def flagAndInner : Schema where
  root := .branch [("a", .leaf (.checker (.boolean {}))),
    ("b", .branch [("x", .leaf (.checker .mandatoryBoolean))])]

def emptyInner : Store where
  mappings := #[[(.text "a", .bool true), (.text "b", .map .plain 1)], [(.text "z", .int 1)]]

theorem flagAndInner_builtIn : flagAndInner.BuiltIn := by
  refine ⟨⟨by decide, trivial, ⟨by decide, trivial, trivial⟩, trivial⟩, fun leaf member => ?_⟩
  simp only [flagAndInner, Tree.leaves, Tree.fieldLeaves, List.append_nil, List.singleton_append,
    List.mem_cons, List.not_mem_nil, or_false] at member
  rcases member with rfl | rfl
  · exact ⟨_, rfl, Checker.boolean_builtIn⟩
  · exact ⟨_, rfl, Checker.mandatoryBoolean_builtIn⟩

theorem flagAndInner_plainNames : flagAndInner.root.PlainNames := by
  have paths : ∀ path ∈ flagAndInner.root.nodes.map Prod.fst, ∀ name ∈ path, Path.Plain name := by
    decide
  exact fun node member => paths node.1 (List.mem_map.mpr ⟨node, member, rfl⟩)

theorem emptyInner_treeShaped : emptyInner.TreeShaped (.map .plain 0) := by
  refine ⟨.map .plain 0 [(.atom (.text "a"), .atom (.bool true)),
    (.atom (.text "b"), .map .plain 1 [(.atom (.text "z"), .atom (.number (.int 1)))])],
    rfl, ?_, by simp⟩
  simp [Store.holds_map, emptyInner, Store.entries, Layout.entryValue, Layout.value]

theorem check_located_inner :
    flagAndInner.BuiltIn ∧ flagAndInner.root.PlainNames ∧ emptyInner.TreeShaped (.map .plain 0) ∧
      ∃ after, flagAndInner.check {} (.map .plain 0) emptyInner = .error (.missing "b.x") after ∧
        (Failure.missing "b.x").isRefusal ∧
          ∃ report passed node later, flagAndInner.root.nodes = passed ++ node :: later ∧
            flagAndInner.Located {} (.map .plain 0) emptyInner after (.missing "b.x") report passed
              node :=
  have built := flagAndInner_builtIn
  have plain := flagAndInner_plainNames
  have shaped := emptyInner_treeShaped
  ⟨built, plain, shaped, _, rfl, rfl, check_located built plain shaped rfl rfl⟩

end Schema

end Assay
