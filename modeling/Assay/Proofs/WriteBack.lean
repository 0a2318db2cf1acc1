import Assay.Proofs.BuiltInSchema

/-!
Writing back: what a check that may replace values leaves in the mappings of branches. A result is
put under the last segment of the path of its field, which is the name of the field as long as there
is no dot in it.
-/

set_option autoImplicit false
set_option relaxedAutoImplicit false

namespace Assay

namespace Path

theorem not_dot_mem_lastSegment (s : List Char) : '.' ∉ lastSegment s := by
  rw [lastSegment, List.mem_reverse]
  intro member
  have plain := List.all_eq_true.mp List.all_takeWhile '.' member
  simp at plain

end Path

namespace Step

variable {α : Type} {call : α → Value → Context → CheckM Value} {ctx : Context}

/-- What a step has to do with the mapping of a branch that describes some names: when the mapping
is entered these names are kept, and a leaf is asked about what stood under one of them. -/
def Fits (ground : Store) (a : Address) (names : List String) : Step α → Prop
  | .enter _ mapping others => mapping = some a → others = names
  | .ask _ place given _ => ∀ key, place = some (a, key) →
    key ∈ names ∧ given = (ground.entries a).get key

variable {ground before after : Store} {a : Address} {names : List String}

private theorem isSome_of_keys
    (same : ((before.entries a).restrict names).map Prod.fst =
      ((ground.entries a).restrict names).map Prod.fst) {key : String} (described : key ∈ names)
    (present : ((ground.entries a).valueOf? key).isSome) :
    ((before.entries a).valueOf? key).isSome := by
  rw [← Entries.valueOf?_restrict described, Entries.valueOf?_isSome_iff] at present ⊢
  rwa [same]

private theorem keys_run {step : Step α} (tame : step.Tame call ctx)
    (fits : step.Fits ground a names)
    (same : ((before.entries a).restrict names).map Prod.fst =
      ((ground.entries a).restrict names).map Prod.fst)
    (ran : step.run call ctx before = .ok () after) :
    (step.entered? ≠ some a ∧
        (after.entries a).map Prod.fst = (before.entries a).map Prod.fst) ∨
      step.entered? = some a ∧ after.entries a = (before.entries a).restrict names := by
  rcases run_cases tame ran with
    ⟨path, b, others, rfl, rfl⟩ | ⟨path, place, given, content, r, between, rfl, calm, called, wrote⟩
  · by_cases here : b = a
    · subst here
      right
      rw [fits rfl, Store.entries_pruned]
      exact ⟨rfl, rfl⟩
    · left
      rw [Store.entries_setEntries_ne before here]
      exact ⟨fun enters => here (Option.some.inj enters), rfl⟩
  · left
    refine ⟨nofun, ?_⟩
    have kept : between.entries a = before.entries a :=
      (calm.keeps called).entries a List.not_mem_nil
    rcases wrote with ⟨rfl, _⟩ | ⟨b, key, rfl, present, _, rfl⟩
    · rw [kept]
    · rw [← kept]
      refine Store.setEntries_cases (P := fun entries : Entries =>
        entries.map Prod.fst = (between.entries a).map Prod.fst) a rfl ?_
      rintro rfl
      obtain ⟨described, stood⟩ := fits key rfl
      have found : ((ground.entries b).valueOf? key).isSome := by
        cases absent : (ground.entries b).valueOf? key with
        | some old => rfl
        | none =>
          rw [stood, Entries.get, absent] at called
          exact absurd (calm.absent called) present
      have there := isSome_of_keys same described found
      rw [← kept] at there
      obtain ⟨old, holds⟩ := Option.isSome_iff_exists.mp there
      exact Entries.keys_put holds r

theorem keys_runAll {steps : List (Step α)} (tame : ∀ step ∈ steps, step.Tame call ctx)
    (fits : ∀ step ∈ steps, step.Fits ground a names)
    (same : ((before.entries a).restrict names).map Prod.fst =
      ((ground.entries a).restrict names).map Prod.fst)
    (ran : runAll call ctx steps before = .ok () after) :
    ((after.entries a).restrict names).map Prod.fst =
        ((ground.entries a).restrict names).map Prod.fst ∧
      ((before.entries a).restrict names = before.entries a ∨ a ∈ Tree.entered steps →
        (after.entries a).restrict names = after.entries a) := by
  induction steps generalizing before with
  | nil =>
    cases ran
    exact ⟨same, fun pruned => pruned.elim id fun member => nomatch member⟩
  | cons step rest ih =>
    obtain ⟨between, first, rested⟩ := runAll_cons_ok ran
    have later := fun kept => ih (fun s member => tame s (List.mem_cons_of_mem step member))
      (fun s member => fits s (List.mem_cons_of_mem step member)) kept rested
    rcases keys_run (tame step List.mem_cons_self) (fits step List.mem_cons_self) same first with
      ⟨elsewhere, keys⟩ | ⟨enters, pruned⟩
    · have kept : ((between.entries a).restrict names).map Prod.fst =
          ((before.entries a).restrict names).map Prod.fst := by
        rw [Entries.keys_restrict, Entries.keys_restrict, keys]
      obtain ⟨final, full⟩ := later (kept.trans same)
      refine ⟨final, fun pruned => full ?_⟩
      rcases pruned with pruned | member
      · left
        rw [Entries.restrict_eq_self_iff] at pruned ⊢
        rwa [keys]
      · right
        rw [Tree.entered, List.filterMap_cons] at member
        cases entered : step.entered? with
        | none =>
          rw [entered] at member
          exact member
        | some b =>
          rw [entered] at member elsewhere
          rcases List.mem_cons.mp member with rfl | member
          · exact absurd rfl elsewhere
          · exact member
    · have idempotent : (between.entries a).restrict names = between.entries a := by
        rw [pruned, Entries.restrict, Entries.restrict, List.filter_filter]
        simp only [Bool.and_self]
      obtain ⟨final, full⟩ := later (by rw [idempotent, pruned, same])
      exact ⟨final, fun _ => full (Or.inl idempotent)⟩

theorem valueOf?_runAll_ask {early late : List (Step α)} {path : List String} {key : String}
    {given : Value} {content : α}
    (tame : ∀ step ∈ early ++ .ask path (some (a, key)) given content :: late,
      step.Tame call ctx)
    (spares : ∀ step ∈ early ++ late, step.Spares a key)
    (stood : given = (before.entries a).get key)
    (ran : runAll call ctx (early ++ .ask path (some (a, key)) given content :: late) before =
      .ok () after) :
    ∃ middle r between, runAll call ctx early before = .ok () middle ∧
      call content given (ctx.descend path) middle = .ok r between ∧
        runAll call ctx late (Tree.stored (ctx.descend path) (some a) r between) = .ok () after ∧
          (after.entries a).valueOf? key =
            if r = .null || !ctx.mode.sanitize then (before.entries a).valueOf? key
            else some r := by
  rw [runAll_append] at ran
  cases first : runAll call ctx early before with
  | error failure middle => simp [first] at ran
  | ok _ middle =>
    simp only [first] at ran
    obtain ⟨next, asked, rested⟩ := runAll_cons_ok ran
    have tameAsk := tame _ (List.mem_append_right _ List.mem_cons_self)
    have untouched : (middle.entries a).valueOf? key = (before.entries a).valueOf? key :=
      valueOf?_runAll (fun step member => tame step (List.mem_append_left _ member))
        (fun step member => spares step (List.mem_append_left _ member)) first
    have final : (after.entries a).valueOf? key = (next.entries a).valueOf? key :=
      valueOf?_runAll
        (fun step member => tame step (List.mem_append_right _ (List.mem_cons_of_mem _ member)))
        (fun step member => spares step (List.mem_append_right _ member)) rested
    obtain ⟨r, between, called, rfl⟩ := run_ask_ok asked
    refine ⟨middle, r, between, rfl, called, rested, ?_⟩
    have kept : between.entries a = middle.entries a :=
      (tameAsk.1.keeps called).entries a List.not_mem_nil
    rw [final]
    rcases stored_cases tameAsk.keyed r between with
      ⟨same, why⟩ | ⟨b, name, place, present, sanitize, put⟩
    · rw [same, kept, untouched, if_pos]
      rcases why with none | null | plain
      · cases none
      · simp [null]
      · simp [plain]
    · obtain ⟨rfl, rfl⟩ := Prod.mk.inj (Option.some.inj place)
      have bound : a < between.mappings.size := by
        by_contra beyond
        have empty : (middle.entries a).valueOf? key = none := by
          rw [← kept, Store.entries_of_size_le (Nat.le_of_not_lt beyond)]
          rfl
        rw [untouched] at empty
        rw [stood, Entries.get, empty] at called
        exact present (tameAsk.1.absent called)
      rw [put, Store.entries_setEntries_same between bound, Entries.valueOf?_put_same, if_neg]
      simp [present, sanitize]

end Step

namespace Schema

/-- What a check that may replace values should leave behind: the mappings of branches stay where
they are and have the described keys that they had, and under the name of each field with a leaf
stands what the leaf gave when it was called for it, or what stood there when it gave nothing. -/
structure Faithful (schema : Schema) (mode : Mode) (v : Value) (before : Store) (result : Value)
    (after : Store) : Prop where
  branches : ∀ path fields, schema.root.at? path = some (.branch fields) →
    after.valueAt result path = before.valueAt v path
  keys : ∀ path fields a, schema.root.at? path = some (.branch fields) →
    (before.valueAt v path).fields? = some a →
      (after.entries a).map Prod.fst =
        ((before.entries a).restrict (fields.map Prod.fst)).map Prod.fst
  leaves : ∀ path fields a name leaf, schema.root.at? path = some (.branch fields) →
    (before.valueAt v path).fields? = some a → (name, .leaf leaf) ∈ fields →
      ∃ call ∈ schema.calls mode v before, call.path = path ++ [name] ∧ call.content = leaf ∧
        call.given = (before.entries a).get name ∧
          ∃ r between, leaf.call call.given call.ctx call.store = .ok r between ∧
            (after.entries a).valueOf? name =
              if r = .null then (before.entries a).valueOf? name else some r

variable {schema : Schema} {store : Store} {v : Value} {lenient : Bool} {result : Value}
  {after : Store}

private theorem spares_of_branch (built : schema.BuiltIn)
    (nodup : (Tree.entered (schema.root.agenda store [] none v)).Nodup) {path : List String}
    {fields inner : List (String × Tree Leaf)} {a : Address} {name : String}
    (there : schema.root.at? path = some (.branch fields))
    (mapping : (store.valueAt v path).fields? = some a)
    (found : fields.lookup name = some (.branch inner)) :
    ∀ step ∈ schema.root.agenda store [] none v, step.Spares a name := by
  intro step member
  cases step with
  | enter p entered others =>
    rintro rfl
    rw [(Tree.enter_of_mapping nodup there mapping member).2]
    exact Tree.name_mem_of_lookup found
  | ask p place given content =>
    rintro rfl
    have leaf := (Tree.ask_of_mapping built.distinct nodup there mapping member).2.1
    have distinct := Tree.distinct_at? built.distinct there
    rw [Tree.lookup_of_mem distinct.1 leaf] at found
    cases found

theorem fits_agenda (built : schema.BuiltIn)
    (nodup : (Tree.entered (schema.root.agenda store [] none v)).Nodup) {path : List String}
    {fields : List (String × Tree Leaf)} {a : Address}
    (there : schema.root.at? path = some (.branch fields))
    (mapping : (store.valueAt v path).fields? = some a) :
    ∀ step ∈ schema.root.agenda store [] none v, step.Fits store a (fields.map Prod.fst) := by
  intro step member
  cases step with
  | enter p entered others =>
    rintro rfl
    exact (Tree.enter_of_mapping nodup there mapping member).2
  | ask p place given content =>
    rintro key rfl
    obtain ⟨_, inside, stood⟩ := Tree.ask_of_mapping built.distinct nodup there mapping member
    exact ⟨List.mem_map.mpr ⟨_, inside, rfl⟩, stood⟩

/-- A check of a tree-shaped value is faithful when no dot stands in the name of a field with a
leaf. -/
theorem faithful_of_check (built : schema.BuiltIn)
    (names : schema.root.LeafNames fun name => '.' ∉ name.toList) (shaped : store.TreeShaped v)
    (checked : schema.check ⟨true, lenient⟩ v store = .ok result after) :
    schema.Faithful ⟨true, lenient⟩ v store result after := by
  have nodup := built.nodup_entered shaped
  have tame := built.tame ⟨true, lenient⟩ (fun _ => names) store v
  have ran := (built.check_ok_iff (fun _ => names) nodup after).mp ⟨result, checked⟩
  refine ⟨?_, ?_, ?_⟩
  · intro path fields there
    induction path using List.reverseRecOn generalizing fields with
    | nil =>
      rw [check, Option.some.inj there] at checked
      exact Tree.result_branch _ checked
    | append_singleton up name ih =>
      obtain ⟨above, branch, found⟩ := Tree.at?_concat there
      rw [Store.valueAt_concat, Store.valueAt_concat, ih above branch]
      obtain ⟨a, mapping⟩ :=
        Step.mapping_of_runAll ran (Tree.enter_mem_agenda store branch [] none v)
      have spares := spares_of_branch built nodup branch mapping found
      rw [Store.field_of_fields? mapping, Store.field_of_fields? mapping, Entries.get,
        Entries.get, Step.valueOf?_runAll tame spares ran]
  · intro path fields a there mapping
    have entered : a ∈ Tree.entered (schema.root.agenda store [] none v) :=
      List.mem_filterMap.mpr ⟨_, Tree.enter_mem_agenda store there [] none v, mapping⟩
    obtain ⟨final, full⟩ :=
      Step.keys_runAll tame (fits_agenda built nodup there mapping) rfl ran
    rw [← final, full (Or.inr entered)]
  · intro path fields a name leaf there mapping member
    obtain ⟨early, late, split, spares⟩ :=
      Tree.exists_split built.distinct nodup there mapping member
    rw [split] at ran tame
    obtain ⟨middle, r, between, first, called, _, stands⟩ :=
      Step.valueOf?_runAll_ask tame spares rfl ran
    simp only [Bool.not_true, Bool.or_false, decide_eq_true_eq] at stands
    refine ⟨⟨path ++ [name], leaf, (store.entries a).get name,
      (top ⟨true, lenient⟩).descend (path ++ [name]), middle⟩, ?_, rfl, rfl, rfl, r, between,
      called, stands⟩
    rw [built.calls_eq_calls (fun _ => names) nodup, split, Step.calls_append, first]
    exact List.mem_append_right _ List.mem_cons_self

theorem leafNames_single (name : String) (c : Checker) :
    (single name c).root.LeafNames fun other => other = name := by
  intro up other leaf there
  obtain ⟨fields, above, found⟩ := Tree.at?_concat there
  cases up with
  | nil =>
    obtain rfl := Tree.branch.inj (Option.some.inj above)
    have member := Tree.mem_of_lookup found
    rw [List.mem_singleton] at member
    exact (Prod.mk.inj member).1
  | cons first rest =>
    simp only [single, Tree.at?, Tree.field?] at above
    obtain ⟨tree, there, above⟩ := Option.bind_eq_some_iff.mp above
    have member := Tree.mem_of_lookup there
    rw [List.mem_singleton] at member
    obtain ⟨rfl, rfl⟩ := Prod.mk.inj member
    cases rest <;> cases above

def oneEntry (name : String) (v : Value) : Store where
  mappings := #[[(.text name, v)]]

theorem oneEntry_treeShaped (name : String) (a : Atom) :
    (oneEntry name (.atom a)).TreeShaped (.map .plain 0) := by
  refine ⟨.map .plain 0 [(.atom (.text name), .atom a)], rfl, ?_, by simp⟩
  simp [Store.holds_map, oneEntry, Store.entries, Layout.entryValue, Layout.value]

private theorem check_dotted {name : String} (dot : '.' ∈ name.toList) :
    (single name (.boolean {})).check ⟨true, false⟩ (.map .plain 0) (oneEntry name (.bool true)) =
      .ok (.map .plain 0)
        { mappings := #[[(.text name, .bool true), (.text (Path.key name), .bool true)]] } := by
  have differs : Path.key name ≠ name := by
    intro same
    rw [← same, Path.key, String.toList_ofList] at dot
    exact Path.not_dot_mem_lastSegment _ dot
  have called : Leaf.call (.checker (.boolean {})) (.bool true) ((top ⟨true, false⟩).child name)
      (oneEntry name (.bool true)) = .ok (.bool true) (oneEntry name (.bool true)) := rfl
  have put : Entries.put [(.text name, .bool true)] (Path.key name) (.bool true) =
      [(.text name, .bool true), (.text (Path.key name), .bool true)] := by
    simp [Entries.put, differs.symm]
  have pruned : (oneEntry name (.bool true)).setEntries 0
      (((oneEntry name (.bool true)).entries 0).restrict [name]) = oneEntry name (.bool true) := by
    simp [oneEntry, Store.entries, Store.setEntries, Entries.restrict]
  have given : ((oneEntry name (.bool true)).entries 0).get name = .bool true := by
    simp [oneEntry, Store.entries, Entries.get, Entries.valueOf?]
  have wrote : Tree.stored ((top ⟨true, false⟩).child name) (some 0) (.bool true)
      (oneEntry name (.bool true)) =
        { mappings := #[[(.text name, .bool true), (.text (Path.key name), .bool true)]] } := by
    rw [← put]
    rfl
  rw [check, single, Tree.check_branch]
  simp only [Value.fields?, List.map_cons, List.map_nil, pruned, Tree.checkFields_cons, given,
    Tree.discard_eq, Tree.check_leaf, called, wrote, Tree.checkFields_nil]

private theorem not_faithful_dotted {name : String} :
    ¬(single name (.boolean {})).Faithful ⟨true, false⟩ (.map .plain 0)
      (oneEntry name (.bool true)) (.map .plain 0)
        { mappings := #[[(.text name, .bool true), (.text (Path.key name), .bool true)]] } := by
  intro faithful
  have keys := faithful.keys [] _ 0 rfl rfl
  simp [Store.entries, oneEntry, Entries.restrict] at keys

/-- A check that may replace values is faithful for all schemas whose fields with leaves have
allowed names, exactly when no allowed name has a dot in it. -/
theorem check_faithful_iff (allowed : String → Prop) :
    (∀ (schema : Schema) (store : Store) (v : Value) (lenient : Bool) (result : Value)
      (after : Store), schema.BuiltIn → schema.root.LeafNames allowed → store.TreeShaped v →
        schema.check ⟨true, lenient⟩ v store = .ok result after →
          schema.Faithful ⟨true, lenient⟩ v store result after) ↔
      ∀ name, allowed name → '.' ∉ name.toList := by
  constructor
  · intro faithful name permitted dot
    have names : (single name (.boolean {})).root.LeafNames allowed := by
      intro up other leaf there
      rw [leafNames_single name _ up other leaf there]
      exact permitted
    exact not_faithful_dotted (faithful _ _ _ false _ _
      (single_builtIn name Checker.boolean_builtIn) names (oneEntry_treeShaped name _)
      (check_dotted dot))
  · intro plain schema store v lenient result after built names shaped checked
    exact faithful_of_check built
      (fun up name leaf there => plain name (names up name leaf there)) shaped checked

/-- A truth value under a name with a dot shows up under the last segment of the name as well. -/
theorem check_not_faithful : ¬∀ (schema : Schema) (store : Store) (v : Value) (lenient : Bool)
    (result : Value) (after : Store), schema.BuiltIn → store.TreeShaped v →
      schema.check ⟨true, lenient⟩ v store = .ok result after →
        schema.Faithful ⟨true, lenient⟩ v store result after := by
  intro faithful
  have dot : '.' ∈ "a.b".toList := by decide
  exact not_faithful_dotted (faithful _ _ _ false _ _
    (single_builtIn "a.b" Checker.boolean_builtIn) (oneEntry_treeShaped "a.b" _)
    (check_dotted dot))

end Schema

end Assay
