import Assay.Proofs.BuiltInSchema

/-!
The order of definition. The nodes of a tree are listed from the top, each before what stands under
it and the fields of a branch one after another; an agenda has one step for every node, in this
order. A run that fails has taken the steps of the nodes before some node, and fails at that node.
-/

set_option autoImplicit false
set_option relaxedAutoImplicit false

namespace Assay

namespace Path

/-- A path of field names as a text, with dots between the names. Empty names at its beginning
leave no trace. -/
def dotted (path : List String) : String := ".".intercalate (path.dropWhile (· == ""))

private theorem foldl_child (first : String) (present : first ≠ "") (rest : List String) :
    rest.foldl child first = ".".intercalate (first :: rest) := by
  induction rest generalizing first with
  | nil => rfl
  | cons name rest ih =>
    have longer : first ++ "." ++ name ≠ "" := by
      intro empty
      have lengths := congrArg String.length empty
      simp at lengths
    have joined : child first name = first ++ "." ++ name := by rw [child, if_neg present]
    rw [List.foldl_cons, joined, ih _ longer]
    rfl

theorem foldl_child_eq_dotted (path : List String) : path.foldl child "" = dotted path := by
  induction path with
  | nil => rfl
  | cons name rest ih =>
    have alone : child "" name = name := by rw [child, if_pos rfl]
    rw [List.foldl_cons, alone, dotted, List.dropWhile_cons]
    by_cases empty : name = ""
    · subst empty
      exact ih
    · rw [if_neg (by simpa using empty)]
      exact foldl_child name empty rest

end Path

namespace Context

theorem descend_top (mode : Mode) (path : List String) :
    descend { path := "", mode } path = { path := Path.dotted path, mode } := by
  have along : ∀ (ctx : Context),
      ctx.descend path = { ctx with path := path.foldl Path.child ctx.path } := by
    induction path with
    | nil => exact fun ctx => rfl
    | cons name rest ih => exact fun ctx => ih (ctx.child name)
  rw [along, Path.foldl_child_eq_dotted]

end Context

namespace Store

/-- The field in which the value at a path stands, if a mapping that can be changed holds it. -/
def placeAt (store : Store) : Option (Address × String) → Value → List String →
    Option (Address × String)
  | place, _, [] => place
  | _, v, name :: rest =>
    placeAt store (v.fields?.map fun a => (a, name)) (store.field v name) rest

theorem placeAt_concat (store : Store) (place : Option (Address × String)) (v : Value)
    (up : List String) (name : String) :
    store.placeAt place v (up ++ [name]) =
      (store.valueAt v up).fields?.map fun a => (a, name) := by
  induction up generalizing place v with
  | nil => rfl
  | cons first rest ih => exact ih (v.fields?.map fun a => (a, first)) (store.field v first)

end Store

namespace Tree

variable {α : Type}

mutual

/-- The nodes of a tree with their paths, each before what stands under it. -/
def nodes : Tree α → List (List String × Tree α)
  | .leaf content => [([], .leaf content)]
  | .branch fields => ([], .branch fields) :: fieldNodes fields

def fieldNodes : List (String × Tree α) → List (List String × Tree α)
  | [] => []
  | (name, tree) :: rest =>
    (nodes tree).map (fun node => (name :: node.1, node.2)) ++ fieldNodes rest

end

def leaf? : List String × Tree α → Option (List String × α)
  | (path, .leaf content) => some (path, content)
  | (_, .branch _) => none

/-- The leaves of a tree with their paths, in the order of definition. -/
def leafNodes (t : Tree α) : List (List String × α) := t.nodes.filterMap leaf?

theorem fieldNodes_eq (fields : List (String × Tree α)) :
    fieldNodes fields = fields.flatMap fun field =>
      field.2.nodes.map fun node => (field.1 :: node.1, node.2) := by
  induction fields with
  | nil => rfl
  | cons field rest ih =>
    obtain ⟨name, tree⟩ := field
    rw [fieldNodes, ih, List.flatMap_cons]

theorem mem_nodes_iff {t : Tree α} (distinct : t.Distinct) {path : List String} {sub : Tree α} :
    (path, sub) ∈ t.nodes ↔ t.at? path = some sub := by
  induction t generalizing path with
  | leaf content =>
    rw [nodes, List.mem_singleton, Prod.mk.injEq]
    cases path with
    | nil => simp [at?, eq_comm]
    | cons name rest => simp [at?, field?]
  | branch fields ih =>
    rw [Distinct, fieldsDistinct_iff] at distinct
    rw [nodes, List.mem_cons, Prod.mk.injEq, fieldNodes_eq, List.mem_flatMap]
    cases path with
    | nil => simp [at?, eq_comm]
    | cons name rest =>
      simp only [List.cons_ne_nil, false_and, false_or, List.mem_map, Prod.mk.injEq,
        List.cons.injEq, at?, field?, Option.bind_eq_some_iff]
      constructor
      · rintro ⟨field, member, node, inside, ⟨rfl, rfl⟩, rfl⟩
        exact ⟨field.2, lookup_of_mem distinct.1 member,
          (ih field member (distinct.2 field member)).mp inside⟩
      · rintro ⟨tree, found, there⟩
        have member := mem_of_lookup found
        exact ⟨(name, tree), member, (rest, sub),
          (ih (name, tree) member (distinct.2 (name, tree) member)).mpr there, ⟨rfl, rfl⟩, rfl⟩

theorem pairwise_nodes {t : Tree α} (distinct : t.Distinct) :
    t.nodes.Pairwise fun first second => ¬second.1 <+: first.1 := by
  induction t with
  | leaf content => exact List.pairwise_singleton _ _
  | branch fields ih =>
    rw [Distinct, fieldsDistinct_iff] at distinct
    rw [nodes, List.pairwise_cons, fieldNodes_eq, List.pairwise_flatMap]
    refine ⟨?_, ?_, ?_⟩
    · intro node member below
      obtain ⟨field, _, inside⟩ := List.mem_flatMap.mp member
      obtain ⟨other, _, rfl⟩ := List.mem_map.mp inside
      simp at below
    · intro field member
      rw [List.pairwise_map]
      refine (ih field member (distinct.2 field member)).imp ?_
      intro first second apart below
      exact apart (List.cons_prefix_cons.mp below).2
    · refine (List.pairwise_map.mp distinct.1).imp ?_
      intro first second differs left inside right beside below
      obtain ⟨_, _, rfl⟩ := List.mem_map.mp inside
      obtain ⟨_, _, rfl⟩ := List.mem_map.mp beside
      exact differs (List.cons_prefix_cons.mp below).1.symm

theorem leafNames_of_paths {t : Tree α} (distinct : t.Distinct) {allowed : String → Prop}
    (paths : List (List String)) (listed : t.leafNodes.map Prod.fst = paths)
    (each : ∀ path ∈ paths, ∀ name ∈ path.getLast?, allowed name) : t.LeafNames allowed := by
  intro up name content there
  have node : (up ++ [name], .leaf content) ∈ t.nodes := (mem_nodes_iff distinct).mpr there
  have leaf : (up ++ [name], content) ∈ t.leafNodes := List.mem_filterMap.mpr ⟨_, node, rfl⟩
  refine each (up ++ [name]) (listed ▸ List.mem_map_of_mem leaf) name ?_
  rw [List.getLast?_concat, Option.mem_some_iff]

theorem branch_mem_passed {t : Tree α} (distinct : t.Distinct)
    {passed later : List (List String × Tree α)} (split : t.nodes = passed ++ later)
    {up : List String} {name : String} {sub : Tree α} (member : (up ++ [name], sub) ∈ passed) :
    ∃ fields, (up, .branch fields) ∈ passed ∧ fields.lookup name = some sub := by
  have ordered := pairwise_nodes distinct
  rw [split, List.pairwise_append] at ordered
  have listed : (up ++ [name], sub) ∈ t.nodes := by
    rw [split]
    exact List.mem_append_left later member
  obtain ⟨fields, above, found⟩ := at?_concat ((mem_nodes_iff distinct).mp listed)
  have inside := (mem_nodes_iff distinct).mpr above
  rw [split, List.mem_append] at inside
  refine ⟨fields, inside.resolve_right fun behind => ?_, found⟩
  exact ordered.2.2 _ member _ behind (List.prefix_append up [name])

/-- The step of a check for a node. -/
def stepAt (store : Store) (path : List String) (place : Option (Address × String)) (v : Value) :
    List String × Tree α → Step α
  | (rel, .leaf content) =>
    .ask (path ++ rel) (store.placeAt place v rel) (store.valueAt v rel) content
  | (rel, .branch fields) =>
    .enter (path ++ rel) (store.valueAt v rel).fields? (fields.map Prod.fst)

/-- An agenda has a step for each node, in the order of definition. -/
theorem agenda_eq_map (store : Store) (t : Tree α) (path : List String)
    (place : Option (Address × String)) (v : Value) :
    agenda store t path place v = t.nodes.map (stepAt store path place v) := by
  induction t generalizing path place v with
  | leaf content =>
    rw [agenda, nodes, List.map_singleton, stepAt, List.append_nil]
    rfl
  | branch fields ih =>
    rw [agenda, nodes, List.map_cons, stepAt, List.append_nil, fieldAgenda_eq, fieldNodes_eq,
      List.map_flatMap]
    refine congrArg (Step.enter path v.fields? (fields.map Prod.fst) :: ·)
      (List.flatMap_congr fun field member => ?_)
    rw [ih field member, List.map_map]
    refine List.map_congr_left fun node _ => ?_
    obtain ⟨rel, sub⟩ := node
    cases sub <;> simp [stepAt, Store.placeAt, Store.valueAt]

theorem agenda_of_split (store : Store) {t : Tree α} {passed later : List (List String × Tree α)}
    {node : List String × Tree α} (split : t.nodes = passed ++ node :: later)
    (path : List String) (place : Option (Address × String)) (v : Value) :
    agenda store t path place v = passed.map (stepAt store path place v) ++
      stepAt store path place v node :: later.map (stepAt store path place v) := by
  rw [agenda_eq_map, split, List.map_append, List.map_cons]

theorem agenda_congr {before after : Store} {t : Tree α} (distinct : t.Distinct) {v : Value}
    (same : ∀ up fields a name, t.at? up = some (.branch fields) →
      (before.valueAt v up).fields? = some a → name ∈ fields.map Prod.fst →
        (after.entries a).valueOf? name = (before.entries a).valueOf? name) :
    agenda after t [] none v = agenda before t [] none v := by
  rw [agenda_eq_map, agenda_eq_map]
  refine List.map_congr_left fun node member => ?_
  obtain ⟨path, sub⟩ := node
  have there := (mem_nodes_iff distinct).mp member
  have value := valueAt_congr same there
  have place : after.placeAt none v path = before.placeAt none v path := by
    rcases List.eq_nil_or_concat' path with rfl | ⟨up, name, rfl⟩
    · rfl
    · obtain ⟨fields, above, _⟩ := at?_concat there
      rw [Store.placeAt_concat, Store.placeAt_concat, valueAt_congr same above]
  cases sub with
  | leaf content => rw [stepAt, stepAt, value, place]
  | branch fields => rw [stepAt, stepAt, value]

theorem stepAt_mem_agenda {store : Store} {t : Tree α} {v : Value} {node : List String × Tree α}
    (member : node ∈ t.nodes) : stepAt store [] none v node ∈ agenda store t [] none v := by
  rw [agenda_eq_map]
  exact List.mem_map_of_mem member

theorem stepAt_field {store : Store} {v : Value} {up : List String} {a : Address}
    (mapping : (store.valueAt v up).fields? = some a) (name : String) (content : α) :
    stepAt store [] none v (up ++ [name], .leaf content) =
      .ask (up ++ [name]) (some (a, name)) ((store.entries a).get name) content := by
  rw [stepAt, Store.placeAt_concat, Store.valueAt_concat, mapping, Store.field_of_fields? mapping]
  rfl

theorem spares_stepAt {store : Store} {t : Tree α} {v : Value} (distinct : t.Distinct)
    (nodup : (entered (agenda store t [] none v)).Nodup) {up : List String}
    {fields : List (String × Tree α)} {a : Address} (there : t.at? up = some (.branch fields))
    (mapping : (store.valueAt v up).fields? = some a) {name : String}
    (described : name ∈ fields.map Prod.fst) {node : List String × Tree α}
    (member : node ∈ t.nodes) (apart : ∀ content, node ≠ (up ++ [name], .leaf content)) :
    (stepAt store [] none v node).Spares a name := by
  have listed : stepAt store [] none v node ∈ agenda store t [] none v := stepAt_mem_agenda member
  obtain ⟨path, sub⟩ := node
  cases sub with
  | branch inner =>
    intro entered
    rw [stepAt, entered] at listed
    rw [(enter_of_mapping nodup there mapping listed).2]
    exact described
  | leaf content =>
    refine spares_of_path_ne distinct nodup there mapping described listed ?_
    rintro rfl
    exact apart content rfl

/-- A run of an agenda that fails does so at a node, after the steps for the nodes before it. -/
theorem runAll_agenda_error {call : α → Value → Context → CheckM Value} {ctx : Context}
    {t : Tree α} {ground before after : Store} {v : Value} {failure : Failure}
    (failed : Step.runAll call ctx (agenda ground t [] none v) before = .error failure after) :
    ∃ passed node later between, t.nodes = passed ++ node :: later ∧
      Step.runAll call ctx (passed.map (stepAt ground [] none v)) before = .ok () between ∧
        (stepAt ground [] none v node).run call ctx between = .error failure after := by
  obtain ⟨early, step, late, between, split, ran, stopped⟩ := Step.runAll_error failed
  rw [agenda_eq_map, List.map_eq_append_iff] at split
  obtain ⟨passed, rest, nodes, rfl, steps⟩ := split
  obtain ⟨node, later, rfl, rfl, rfl⟩ := List.map_eq_cons_iff.mp steps
  exact ⟨passed, node, later, between, nodes, ran, stopped⟩

end Tree

end Assay
