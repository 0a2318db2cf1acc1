import Assay.Proofs.Current
import Assay.Proofs.Likeness
import Assay.Proofs.Order

/-!
Fulfilment: whether the value that a check returns satisfies the schema afterwards. The same mapping
may stand at several paths, and a branch takes out of it what another branch describes; so a field
that was found to be right may be gone in the end.
-/

set_option autoImplicit false
set_option relaxedAutoImplicit false

namespace Assay

namespace Schema

/-- A value satisfies a schema and has no more than is described: a mapping at the path of a branch
has described keys only. -/
structure Fulfilled (schema : Schema) (store : Store) (mode : Mode) (v : Value) : Prop extends
    schema.Satisfied store mode v where
  described : ∀ path fields a, schema.root.at? path = some (.branch fields) →
    (store.valueAt v path).fields? = some a →
      (store.entries a).restrict (fields.map Prod.fst) = store.entries a

/-- What one branch describes in a mapping is described by every other branch that has the same
mapping, unless it is absent or a leaf that takes an absent value. -/
def Undisputed (schema : Schema) (store : Store) (mode : Mode) (v : Value) : Prop :=
  ∀ up fields a, schema.root.at? up = some (.branch fields) →
    (store.valueAt v up).fields? = some a →
      ∀ name sub, fields.lookup name = some sub → (store.entries a).get name ≠ .null →
        (∀ other others, schema.root.at? other = some (.branch others) →
          (store.valueAt v other).fields? = some a → name ∈ others.map Prod.fst) ∨
        ∃ leaf, sub = .leaf leaf ∧ ∃ r now,
          leaf.call .null ((top mode).descend (up ++ [name])) store = .ok r now

/-- A value that a checker looks into holds no mapping that a check takes keys out of. -/
def ItemsApart (schema : Schema) (store : Store) (v : Value) : Prop :=
  ∀ path c, schema.root.at? path = some (.leaf (.checker c)) → c.LooksInto →
    ∀ w, store.Reaches (store.valueAt v path) w →
      ∀ kind a, w = .map kind a → ¬schema.Prunes store v a

variable {schema : Schema} {store : Store} {v : Value} {mode : Mode}

private theorem kept_iff (built : schema.BuiltIn) (a : Address) (name : String) :
    (schema.root.agenda store [] none v).all (Step.keepsKey a (.text name)) ↔
      ∀ path fields, schema.root.at? path = some (.branch fields) →
        (store.valueAt v path).fields? = some a → name ∈ fields.map Prod.fst := by
  have named : ∀ names : List String,
      (names.any fun other => Value.text name == .text other) ↔ name ∈ names := by
    intro names
    simp [List.any_eq_true]
  rw [List.all_eq_true]
  constructor
  · intro keeps path fields there mapping
    have member := Tree.enter_mem_agenda store there [] none v
    rw [mapping] at member
    have kept := keeps _ member
    rw [Step.keepsKey, bne_self_eq_false, Bool.false_or] at kept
    exact (named _).mp kept
  · intro describe step member
    rcases Tree.path_of_mem_agenda built.distinct member with
      ⟨path, fields, there, rfl⟩ | ⟨path, leaf, inner, there, rfl, _⟩
    · cases mapping : (store.valueAt v path).fields? with
      | none => rfl
      | some b =>
        by_cases here : b = a
        · subst here
          rw [Step.keepsKey, bne_self_eq_false, Bool.false_or]
          exact (named _).mpr (describe path fields there mapping)
        · rw [Step.keepsKey, bne_iff_ne.mpr here, Bool.true_or]
    · rfl

section

variable (built : schema.BuiltIn) (plain : mode.sanitize = false)
  {steps : List (Step Leaf)} (listed : ∀ step ∈ steps, step ∈ schema.root.agenda store [] none v)
  {after : Store}

include built plain listed

private theorem entries_swept {before : Store}
    (ran : Step.runCurrent Leaf.call (top mode) steps before = .ok () after) :
    Store.Keeps (Tree.entered steps) before after ∧ ∀ a, after.entries a =
      (before.entries a).filter fun entry => steps.all (Step.keepsKey a entry.1) :=
  Step.entries_runCurrent
    (fun step member => built.tame mode (names_of_plain plain) store v step (listed step member))
    plain ran

private theorem keeps_pruned
    (ran : Step.runCurrent Leaf.call (top mode) steps store = .ok () after) :
    Store.Keeps (schema.pruned store v) store after := by
  obtain ⟨kept, entries⟩ := entries_swept built plain listed ran
  refine ⟨kept.sequences, kept.mappings, kept.items, fun a apart => ?_⟩
  rw [entries a, List.filter_eq_self]
  intro entry inside
  rw [List.all_eq_true]
  intro step member
  cases step with
  | ask path place given leaf => rfl
  | enter path mapping names =>
    cases mapping with
    | none => rfl
    | some b =>
      by_cases here : b = a
      · subst here
        have whole : (store.entries b).restrict names = store.entries b := by
          by_contra loses
          refine apart (List.mem_filterMap.mpr ⟨_, listed _ member, ?_⟩)
          rw [Step.pruned?, if_neg loses]
        rw [Step.keepsKey, bne_self_eq_false, Bool.false_or]
        exact List.filter_eq_self.mp whole entry inside
      · rw [Step.keepsKey, bne_iff_ne.mpr here, Bool.true_or]

private theorem clear_swept
    (ran : Step.runCurrent Leaf.call (top mode) steps store = .ok () after) {w : Value}
    (clear : store.Clear (schema.pruned store v) w) :
    after.Clear (schema.pruned store v) w := by
  obtain ⟨kept, entries⟩ := entries_swept built plain listed ran
  refine clear.of_keeps kept fun a => ?_
  rw [entries a]
  exact List.filter_sublist.subset

end

section

variable (built : schema.BuiltIn) (plain : mode.sanitize = false) {after : Store}
  (ran : Step.runCurrent Leaf.call (top mode) (schema.root.agenda store [] none v) store =
    .ok () after)

include built plain ran

private theorem get_after (a : Address) (name : String) :
    (after.entries a).get name =
      if (schema.root.agenda store [] none v).all (Step.keepsKey a (.text name)) then
        (store.entries a).get name else .null := by
  rw [(entries_swept built plain (fun _ member => member) ran).2 a]
  exact Entries.get_filter
    (fun key => (schema.root.agenda store [] none v).all (Step.keepsKey a key)) _ name

private theorem valueAt_after (path : List String) :
    after.valueAt v path = store.valueAt v path ∨ after.valueAt v path = .null := by
  induction path using List.reverseRecOn with
  | nil => exact Or.inl rfl
  | append_singleton up name ih =>
    rw [Store.valueAt_concat, Store.valueAt_concat]
    rcases ih with same | gone
    · rw [same]
      cases mapping : (store.valueAt v up).fields? with
      | none =>
        rw [Store.field, mapping]
        exact Or.inr rfl
      | some a =>
        rw [Store.field_of_fields? mapping, Store.field_of_fields? mapping,
          get_after built plain ran]
        split
        · exact Or.inl rfl
        · exact Or.inr rfl
    · rw [gone]
      exact Or.inr rfl

end

private theorem get_cases (entries : Entries) (name : String) :
    entries.get name = .null ∨ ∃ entry ∈ entries, entry.2 = entries.get name := by
  rw [Entries.get, Entries.valueOf?]
  cases found : List.find? (fun entry => entry.1 == Value.text name) entries with
  | none => exact Or.inl rfl
  | some entry => exact Or.inr ⟨entry, List.mem_of_find?_eq_some found, rfl⟩

private theorem prunes_of_mem_pruned (built : schema.BuiltIn) {a : Address}
    (touched : a ∈ schema.pruned store v) : schema.Prunes store v a := by
  obtain ⟨step, member, here⟩ := List.mem_filterMap.mp touched
  exact prunes_of_mem_agenda built member here

private theorem clear_options (built : schema.BuiltIn) (apart : schema.Apart store v) {c : Checker}
    (listed : .checker c ∈ schema.root.leaves) :
    ∀ w ∈ c.holdings, store.Clear (schema.pruned store v) w := by
  intro w held x reached
  obtain ⟨stood, free⟩ := apart c listed w held x reached
  exact ⟨stood, fun kind a shape touched => free kind a shape (prunes_of_mem_pruned built touched)⟩

private theorem stands_field {v : Value} (stands : ∀ w, store.Reaches v w → store.Stands w)
    (name : String) : ∀ w, store.Reaches (store.field v name) w → store.Stands w := by
  have absent : ∀ w, store.Reaches .null w → store.Stands w := by
    intro w reached
    cases reached
    trivial
  cases mapping : v.fields? with
  | none =>
    rw [Store.field, mapping]
    exact absent
  | some a =>
    rw [Store.field_of_fields? mapping]
    rcases get_cases (store.entries a) name with null | ⟨entry, member, here⟩
    · rw [null]
      exact absent
    · rw [← here]
      cases v with
      | atom b => cases mapping
      | seq kind b => cases mapping
      | map kind b =>
        cases kind with
        | plain | ordered =>
          obtain rfl := Option.some.inj mapping
          exact fun w below => stands w (.value member below)
        | view => cases mapping

private theorem stands_valueAt {v : Value} (stands : ∀ w, store.Reaches v w → store.Stands w)
    (path : List String) : ∀ w, store.Reaches (store.valueAt v path) w → store.Stands w := by
  induction path generalizing v with
  | nil => exact stands
  | cons name rest ih => exact ih (stands_field stands name)

private theorem get_between (built : schema.BuiltIn) (plain : mode.sanitize = false)
    {early late : List (Step Leaf)} (split : schema.root.agenda store [] none v = early ++ late)
    {mid after : Store} (first : Step.runCurrent Leaf.call (top mode) early store = .ok () mid)
    (later : Step.runCurrent Leaf.call (top mode) late mid = .ok () after) (a : Address)
    (name : String) :
    (mid.entries a).get name = (store.entries a).get name ∨
      (mid.entries a).get name = .null ∧ (after.entries a).get name = .null := by
  obtain ⟨_, swept⟩ := entries_swept built plain
    (fun step member => split ▸ List.mem_append_left late member) first
  obtain ⟨_, swept'⟩ := entries_swept built plain
    (fun step member => split ▸ List.mem_append_right early member) later
  rw [swept', Entries.get_filter fun key => late.all (Step.keepsKey a key), swept,
    Entries.get_filter fun key => early.all (Step.keepsKey a key)]
  by_cases keeps : early.all (Step.keepsKey a (.text name))
  · exact Or.inl (if_pos keeps)
  · rw [if_neg keeps, ite_self]
    exact Or.inr ⟨rfl, rfl⟩

section

variable (built : schema.BuiltIn) (plain : mode.sanitize = false) {after : Store}
  (ran : Step.runCurrent Leaf.call (top mode) (schema.root.agenda store [] none v) store =
    .ok () after)

include built plain ran

private theorem exists_asked {path : List String} {leaf : Leaf}
    (there : schema.root.at? path = some (.leaf leaf))
    (same : after.valueAt v path = store.valueAt v path) :
    ∃ early late mid r between,
      schema.root.agenda store [] none v = early ++ late ∧
        Step.runCurrent Leaf.call (top mode) early store = .ok () mid ∧
          Step.runCurrent Leaf.call (top mode) late mid = .ok () after ∧
            leaf.call (store.valueAt v path) ((top mode).descend path) mid = .ok r between := by
  obtain ⟨place, member⟩ := Tree.ask_mem_agenda store there [] none v
  obtain ⟨early, late, split⟩ := List.append_of_mem member
  have whole := ran
  rw [split] at whole
  obtain ⟨mid, first, later⟩ := Step.runCurrent_append_ok whole
  obtain ⟨between, asked, _⟩ := Step.runCurrent_cons_ok later
  have here : (Step.ask ([] ++ path) place (store.valueAt v path) leaf).current mid =
      .ask path place (store.valueAt v path) leaf := by
    rcases Tree.path_of_mem_agenda built.distinct member with
      ⟨_, _, _, enter⟩ | ⟨rel, other, inner, _, step, stood⟩
    · cases enter
    · injection step with paths places _ _
      simp only [List.nil_append] at paths ⊢
      subst paths places
      rcases stood with ⟨rfl, rfl⟩ | ⟨up, name, rfl, rfl⟩
      · rfl
      · cases mapping : (store.valueAt v up).fields? with
        | none => rfl
        | some a =>
          have stands : (mid.entries a).get name = store.valueAt v (up ++ [name]) := by
            rw [Store.valueAt_concat, Store.valueAt_concat, Store.field_of_fields? mapping] at same
            rw [Store.valueAt_concat, Store.field_of_fields? mapping]
            rcases get_between built plain split first later a name with there | ⟨gone, lost⟩
            · exact there
            · rw [gone, ← same]
              rcases valueAt_after built plain ran up with above | above
              · rw [above, Store.field_of_fields? mapping, lost]
              · rw [above]
                rfl
          rw [Option.map_some, Step.current, stands]
  rw [here] at asked
  obtain ⟨r, middle, called, _⟩ := Step.run_ask_ok asked
  exact ⟨early, _, mid, r, middle, split, first, later, called⟩

private theorem accepts_after (apart : schema.Apart store v) (inner : schema.ItemsApart store v)
    (stands : ∀ w, store.Reaches v w → store.Stands w) {path : List String} {leaf : Leaf}
    (there : schema.root.at? path = some (.leaf leaf))
    (same : after.valueAt v path = store.valueAt v path) :
    ∃ r later, leaf.call (after.valueAt v path) ((top mode).descend path) after = .ok r later := by
  obtain ⟨early, late, mid, r, between, split, first, later, called⟩ :=
    exists_asked built plain ran there same
  have early_listed : ∀ step ∈ early, step ∈ schema.root.agenda store [] none v :=
    fun step member => split ▸ List.mem_append_left late member
  have late_listed : ∀ step ∈ late, step ∈ schema.root.agenda store [] none v :=
    fun step member => split ▸ List.mem_append_right early member
  obtain ⟨c, rfl, made⟩ := built.leaves leaf (Tree.mem_leaves_of_at? there)
  have kept := keeps_pruned built plain early_listed first
  have keptAll := keeps_pruned built plain (fun _ member => member) ran
  have keptLate := (entries_swept built plain late_listed later).1
  have onward : Store.Keeps (schema.pruned store v) mid after :=
    ⟨keptLate.sequences, keptLate.mappings, keptLate.items, fun a untouched =>
      (keptAll.entries a untouched).trans (kept.entries a untouched).symm⟩
  have options : ∀ w ∈ c.holdings, mid.Clear (schema.pruned store v) w := fun w held =>
    clear_swept built plain early_listed first
      (clear_options built apart (Tree.mem_leaves_of_at? there) w held)
  rw [same]
  exact made.made.accepts_later onward options
    ((stands_valueAt stands path _ (.self _)).of_keeps kept)
    (fun looks => clear_swept built plain early_listed first fun w reached =>
      ⟨stands_valueAt stands path w reached, fun kind a shape touched =>
        inner path c there looks w reached kind a shape (prunes_of_mem_pruned built touched)⟩)
    called

private theorem absent_after (apart : schema.Apart store v) {path : List String} {leaf : Leaf}
    (there : schema.root.at? path = some (.leaf leaf)) (ctx : Context) :
    (∃ r later, leaf.call .null ctx after = .ok r later) ↔
      ∃ r later, leaf.call .null ctx store = .ok r later := by
  obtain ⟨c, rfl, made⟩ := built.leaves leaf (Tree.mem_leaves_of_at? there)
  have kept := keeps_pruned built plain (fun _ member => member) ran
  rw [Leaf.call_checker]
  rcases made.made.check_of_clear (l := .atom .null) kept (store.holds_atom .null)
      (after.holds_atom .null) (clear_options built apart (Tree.mem_leaves_of_at? there))
      (Eq.refl ctx.path) (Eq.refl ctx.mode.partialCheck) with
    ⟨r, between, r', between', called, called'⟩ | ⟨failure, failed, failed'⟩
  · exact iff_of_true ⟨r', between', called'⟩ ⟨r, between, called⟩
  · change c.check .null ctx store = _ at failed
    change c.check .null ctx after = _ at failed'
    rw [failed, failed']
    exact iff_of_false nofun nofun

private theorem undisputed_of_fulfilled (apart : schema.Apart store v)
    (fulfilled : schema.Fulfilled after mode v) : schema.Undisputed store mode v := by
  intro up fields a branch mapping name sub described present
  by_cases keeps : (schema.root.agenda store [] none v).all (Step.keepsKey a (.text name))
  · exact Or.inl ((kept_iff built a name).mp keeps)
  · have there := Tree.at?_field branch described
    have above : after.valueAt v up = store.valueAt v up := by
      refine (valueAt_after built plain ran up).resolve_right fun gone => ?_
      have stood := fulfilled.branches up fields branch
      rw [gone] at stood
      cases stood
    have gone : after.valueAt v (up ++ [name]) = .null := by
      rw [Store.valueAt_concat, above, Store.field_of_fields? mapping, get_after built plain ran,
        if_neg keeps]
    cases sub with
    | branch others =>
      have stood := fulfilled.branches _ others there
      rw [gone] at stood
      cases stood
    | leaf leaf =>
      have accepted := fulfilled.leaves _ leaf there
      rw [gone] at accepted
      exact Or.inr ⟨leaf, rfl, (absent_after built plain ran apart there _).mp accepted⟩

private theorem valueAt_undisputed (undisputed : schema.Undisputed store mode v)
    {path : List String} {sub : Tree Leaf} (there : schema.root.at? path = some sub) :
    after.valueAt v path = store.valueAt v path ∨
      after.valueAt v path = .null ∧ ∃ leaf, sub = .leaf leaf ∧
        ∃ r now, leaf.call .null ((top mode).descend path) store = .ok r now := by
  induction path using List.reverseRecOn generalizing sub with
  | nil => exact Or.inl rfl
  | append_singleton up name ih =>
    obtain ⟨fields, branch, described⟩ := Tree.at?_concat there
    have above : after.valueAt v up = store.valueAt v up := by
      refine (ih branch).resolve_right ?_
      rintro ⟨_, leaf, same, _⟩
      cases same
    rw [Store.valueAt_concat, Store.valueAt_concat, above]
    cases mapping : (store.valueAt v up).fields? with
    | none =>
      rw [Store.field, Store.field, mapping]
      exact Or.inl rfl
    | some a =>
      rw [Store.field_of_fields? mapping, Store.field_of_fields? mapping,
        get_after built plain ran]
      by_cases keeps : (schema.root.agenda store [] none v).all (Step.keepsKey a (.text name))
      · exact Or.inl (if_pos keeps)
      rw [if_neg keeps]
      by_cases absent : (store.entries a).get name = .null
      · exact Or.inl absent.symm
      · refine Or.inr ⟨rfl, ?_⟩
        refine (undisputed up fields a branch mapping name sub described absent).resolve_left ?_
        exact fun every => keeps ((kept_iff built a name).mpr every)

private theorem fulfilled_of_undisputed (apart : schema.Apart store v)
    (inner : schema.ItemsApart store v) (stands : ∀ w, store.Reaches v w → store.Stands w)
    (undisputed : schema.Undisputed store mode v) : schema.Fulfilled after mode v := by
  have branches : ∀ path fields, schema.root.at? path = some (.branch fields) →
      after.valueAt v path = store.valueAt v path ∧
        ∃ a, (store.valueAt v path).fields? = some a := by
    intro path fields there
    have member := Tree.enter_mem_agenda store there [] none v
    refine ⟨(valueAt_undisputed built plain ran undisputed there).resolve_right ?_,
      Step.mapping_of_runCurrent ran member⟩
    rintro ⟨_, leaf, same, _⟩
    cases same
  refine ⟨⟨fun path fields there => ?_, fun path leaf there => ?_⟩,
    fun path fields a there mapping => ?_⟩
  · obtain ⟨same, a, mapping⟩ := branches path fields there
    rw [same, mapping]
    rfl
  · rcases valueAt_undisputed built plain ran undisputed there with same | ⟨gone, _, leaf', takes⟩
    · exact accepts_after built plain ran apart inner stands there same
    · obtain rfl := Tree.leaf.inj leaf'
      rw [gone]
      exact (absent_after built plain ran apart there _).mpr takes
  · obtain ⟨same, _⟩ := branches path fields there
    rw [same] at mapping
    have member := Tree.enter_mem_agenda store there [] none v
    rw [mapping] at member
    rw [(entries_swept built plain (fun _ member => member) ran).2 a, Entries.restrict,
      List.filter_eq_self]
    intro entry inside
    have kept := List.all_eq_true.mp (List.mem_filter.mp inside).2 _ member
    rwa [Step.keepsKey, bne_self_eq_false, Bool.false_or] at kept

end

/-- When a check that replaces no values goes through, its result is the value that was given. It
satisfies the schema then, with described keys only, exactly when no branch has taken out of its
mapping what another branch describes. This is so unless keys are taken out of what an option of a
checker holds, or out of what a checker with an exact value looks into. -/
theorem check_fulfilled_iff (built : schema.BuiltIn)
    (stands : ∀ w, store.Reaches v w → store.Stands w) (apart : schema.Apart store v)
    (inner : schema.ItemsApart store v) {lenient : Bool} {result : Value} {after : Store}
    (checked : schema.check ⟨false, lenient⟩ v store = .ok result after) :
    result = v ∧ (schema.Fulfilled after ⟨false, lenient⟩ result ↔
      schema.Undisputed store ⟨false, lenient⟩ v) := by
  have ran := Tree.runCurrent_of_check rfl
    (built.tame ⟨false, lenient⟩ (names_of_plain rfl) store v) checked
  obtain rfl := Tree.result_plain rfl checked
  exact ⟨rfl, undisputed_of_fulfilled built rfl ran apart,
    fulfilled_of_undisputed built rfl ran apart inner stands⟩

def twoViews : Schema where
  root := .branch [("a", .branch [("x", .leaf (.checker (.boolean {})))]),
    ("b", .branch [("x", .leaf (.checker (.boolean {})))])]

def sharedView : Store where
  mappings := #[[(.text "a", .map .plain 1), (.text "b", .map .plain 1)],
    [(.text "x", .bool true), (.text "y", .int 1)]]

theorem twoViews_leaves : twoViews.root.leaves =
    [.checker (.boolean {}), .checker (.boolean {})] := by
  simp [twoViews, Tree.leaves, Tree.fieldLeaves]

theorem twoViews_builtIn : twoViews.BuiltIn := by
  refine ⟨⟨by decide, ⟨by simp, trivial, trivial⟩, ⟨by simp, trivial, trivial⟩, trivial⟩,
    fun leaf member => ?_⟩
  rw [twoViews_leaves, List.mem_cons, List.mem_singleton, or_self] at member
  exact ⟨_, member, Checker.boolean_builtIn⟩

theorem sharedView_stands : ∀ w, sharedView.Reaches (.map .plain 0) w → sharedView.Stands w := by
  let inner : Layout := .map .plain 1 [(.atom (.text "x"), .atom (.bool true)),
    (.atom (.text "y"), .atom (.number (.int 1)))]
  have held : sharedView.Holds (.map .plain 0
      [(.atom (.text "a"), inner), (.atom (.text "b"), inner)]) := by
    simp [inner, Store.holds_map, sharedView, Store.entries, Layout.entryValue, Layout.value]
  exact fun w reached => Store.stands_of_reaches held reached

theorem sharedView_apart : twoViews.Apart sharedView (.map .plain 0) := by
  intro c member option held w reached
  rw [twoViews_leaves, List.mem_cons, List.mem_singleton, or_self] at member
  obtain rfl := Leaf.checker.inj member
  obtain ⟨a, rfl⟩ := atom_of_boolean held reached
  exact ⟨trivial, nofun⟩

theorem sharedView_itemsApart : twoViews.ItemsApart sharedView (.map .plain 0) := by
  intro path c there looks
  have member := Tree.mem_leaves_of_at? there
  rw [twoViews_leaves, List.mem_cons, List.mem_singleton, or_self] at member
  obtain ⟨o, expected, same, _⟩ := looks
  rw [same] at member
  cases Leaf.checker.inj member

theorem sharedView_undisputed : twoViews.Undisputed sharedView ⟨false, false⟩ (.map .plain 0) := by
  have branch : ∀ path fields, twoViews.root.at? path = some (.branch fields) →
      path = [] ∧ fields.map Prod.fst = ["a", "b"] ∨
        (path = ["a"] ∨ path = ["b"]) ∧ fields.map Prod.fst = ["x"] := by
    intro path fields there
    rw [← Tree.mem_nodes_iff twoViews_builtIn.distinct] at there
    simp only [twoViews, Tree.nodes, Tree.fieldNodes, List.map_cons, List.map_nil, List.append_nil,
      List.cons_append, List.nil_append, List.mem_cons, List.not_mem_nil, or_false, Prod.mk.injEq,
      reduceCtorEq, and_false, false_or, Tree.branch.injEq] at there
    rcases there with ⟨rfl, rfl⟩ | ⟨rfl, rfl⟩ | ⟨rfl, rfl⟩
    · exact Or.inl ⟨rfl, rfl⟩
    · exact Or.inr ⟨Or.inl rfl, rfl⟩
    · exact Or.inr ⟨Or.inr rfl, rfl⟩
  intro up fields a there mapping name sub described _
  left
  intro other others there' mapping'
  have named := Tree.name_mem_of_lookup described
  rcases branch up fields there with ⟨rfl, names⟩ | ⟨rfl | rfl, names⟩ <;>
    rcases branch other others there' with ⟨rfl, names'⟩ | ⟨rfl | rfl, names'⟩ <;>
      first
      | (rw [names']; rwa [names] at named)
      | (rw [← mapping'] at mapping; cases mapping)

def viewLeft : Store where
  mappings := #[[(.text "a", .map .plain 1), (.text "b", .map .plain 1)], [(.text "x", .bool true)]]

theorem check_fulfilled_twoViews :
    twoViews.BuiltIn ∧
      (∀ w, sharedView.Reaches (.map .plain 0) w → sharedView.Stands w) ∧
      twoViews.Apart sharedView (.map .plain 0) ∧ twoViews.ItemsApart sharedView (.map .plain 0) ∧
      twoViews.check ⟨false, false⟩ (.map .plain 0) sharedView =
        .ok (.map .plain 0) viewLeft ∧
      twoViews.Fulfilled viewLeft ⟨false, false⟩ (.map .plain 0) :=
  have checked : twoViews.check ⟨false, false⟩ (.map .plain 0) sharedView =
      .ok (.map .plain 0) viewLeft := rfl
  ⟨twoViews_builtIn, sharedView_stands, sharedView_apart, sharedView_itemsApart, checked,
    (check_fulfilled_iff twoViews_builtIn sharedView_stands sharedView_apart sharedView_itemsApart
      checked).2.mpr sharedView_undisputed⟩

def viewAndBlank : Schema where
  root := .branch [("a", .branch [("x", .leaf (.checker .mandatoryBoolean))]), ("b", .branch [])]

theorem viewAndBlank_builtIn : viewAndBlank.BuiltIn := by
  refine ⟨⟨by decide, ⟨by simp, trivial, trivial⟩, ⟨by simp, trivial⟩, trivial⟩,
    fun leaf member => ?_⟩
  simp only [viewAndBlank, Tree.leaves, Tree.fieldLeaves, List.append_nil,
    List.mem_singleton] at member
  exact ⟨_, member, Checker.mandatoryBoolean_builtIn⟩

/-- The truth value is found in the first field, and then the second field, which has the same
mapping, takes it out. -/
theorem check_unfulfilled : ¬∀ (schema : Schema) (store : Store) (v : Value) (lenient : Bool),
    schema.BuiltIn → (∀ w, store.Reaches v w → store.Stands w) →
      ∀ result after, schema.check ⟨false, lenient⟩ v store = .ok result after →
        schema.Fulfilled after ⟨false, lenient⟩ result := by
  intro fulfils
  have fulfilled := fulfils viewAndBlank sharedView (.map .plain 0) false viewAndBlank_builtIn
    sharedView_stands _ _ rfl
  obtain ⟨r, later, called⟩ := fulfilled.leaves ["a", "x"] _ rfl
  cases called

/-- A schema that asks for an exact value in one field and describes nothing in another. -/
def itemAndBlank : Schema where
  root := .branch [("b", .leaf (.checker oneMapping)), ("a", .branch [])]

theorem itemAndBlank_builtIn : itemAndBlank.BuiltIn := by
  refine ⟨⟨by decide, trivial, ⟨by simp, trivial⟩, trivial⟩, fun leaf member => ?_⟩
  simp only [itemAndBlank, Tree.leaves, Tree.fieldLeaves, List.append_nil,
    List.mem_singleton] at member
  exact ⟨_, member, oneMapping_builtIn⟩

end Schema

end Assay
