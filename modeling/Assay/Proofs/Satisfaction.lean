import Assay.Proofs.BuiltInSchema

/-!
Satisfaction: what a check decides when no values are replaced, said of the value as it was given.
The check prunes mappings on its way, and what it prunes it does not look at again, unless an option
of a checker holds it too.
-/

set_option autoImplicit false
set_option relaxedAutoImplicit false

namespace Assay

namespace Step

variable {α : Type} {call : α → Value → Context → CheckM Value} {ctx : Context}

/-- The mapping that a step prunes: it enters it, and the mapping has keys that are not described.
-/
def pruned? (ground : Store) : Step α → Option Address
  | .enter _ (some a) names =>
    if (ground.entries a).restrict names = ground.entries a then none else some a
  | _ => none

theorem run_plain {step : Step α} (tame : step.Tame call ctx) (plain : ctx.mode.sanitize = false)
    {before after : Store} (ran : step.run call ctx before = .ok () after) :
    (∃ path a names, step = .enter path (some a) names ∧
        after = before.setEntries a ((before.entries a).restrict names)) ∨
      (∃ path place given content, step = .ask path place given content) ∧
        Store.Keeps [] before after := by
  rcases run_cases tame ran with
    pruned | ⟨path, place, given, content, r, between, rfl, calm, called, wrote⟩
  · exact Or.inl pruned
  · refine Or.inr ⟨⟨path, place, given, content, rfl⟩, ?_⟩
    rcases wrote with ⟨rfl, _⟩ | ⟨a, name, _, _, sanitize, _⟩
    · exact calm.keeps called
    · rw [plain] at sanitize
      cases sanitize

private theorem keeps_run_plain (ground : Store) {step : Step α} (tame : step.Tame call ctx)
    (plain : ctx.mode.sanitize = false) {before after : Store}
    (agrees : ∀ a, step.entered? = some a → before.entries a = ground.entries a)
    (ran : step.run call ctx before = .ok () after) :
    Store.Keeps (step.pruned? ground).toList before after := by
  rcases run_plain tame plain ran with ⟨path, a, names, rfl, rfl⟩ | ⟨_, kept⟩
  · have same := agrees a rfl
    rw [same, pruned?]
    split
    · rename_i full
      rw [full, ← same]
      exact Store.keeps_setEntries_self before a
    · exact Store.keeps_setEntries before a _
  · exact kept.mono (List.nil_subset _)

/-- When every step goes as it would have gone in the beginning, and no mapping is entered twice, a
run succeeds when each of its steps would have. -/
theorem runAll_iff_each {ground : Store} {touched : List Address} {steps : List (Step α)}
    (plain : ctx.mode.sanitize = false) (tame : ∀ step ∈ steps, step.Tame call ctx)
    (nodup : (Tree.entered steps).Nodup)
    (covers : ∀ step ∈ steps, (step.pruned? ground).toList ⊆ touched)
    (steady : ∀ step ∈ steps, ∀ now, Store.Keeps touched ground now →
      ((∃ after, step.run call ctx now = .ok () after) ↔
        ∃ after, step.run call ctx ground = .ok () after))
    {now : Store} (kept : Store.Keeps touched ground now)
    (agrees : ∀ b ∈ Tree.entered steps, now.entries b = ground.entries b) :
    (∃ after, runAll call ctx steps now = .ok () after) ↔
      ∀ step ∈ steps, ∃ after, step.run call ctx ground = .ok () after := by
  induction steps generalizing now with
  | nil => simp [runAll_nil]
  | cons step rest ih =>
    have split : Tree.entered (step :: rest) = step.entered?.toList ++ Tree.entered rest := by
      rw [Tree.entered, List.filterMap_cons]
      cases step.entered? <;> rfl
    rw [split] at nodup agrees
    have later : ∀ between, step.run call ctx now = .ok () between →
        ((∃ after, runAll call ctx rest between = .ok () after) ↔
          ∀ s ∈ rest, ∃ after, s.run call ctx ground = .ok () after) := by
      intro between ran
      have first := keeps_run (tame step List.mem_cons_self) ran
      have pruned := keeps_run_plain ground (tame step List.mem_cons_self) plain
        (fun a enters => agrees a (List.mem_append_left _ (Option.mem_toList.mpr enters))) ran
      refine ih (fun s member => tame s (List.mem_cons_of_mem step member))
        (List.nodup_append.mp nodup).2.1 (fun s member => covers s (List.mem_cons_of_mem step member))
        (fun s member => steady s (List.mem_cons_of_mem step member))
        (kept.trans (pruned.mono (covers step List.mem_cons_self))) ?_
      intro b member
      rw [← agrees b (List.mem_append_right _ member)]
      rcases run_plain (tame step List.mem_cons_self) plain ran with
        ⟨path, a, names, rfl, rfl⟩ | ⟨_, untouched⟩
      · refine Store.entries_setEntries_ne now ?_ _
        exact (List.nodup_append.mp nodup).2.2 a (List.mem_singleton_self a) b member
      · exact untouched.entries b List.not_mem_nil
    rw [List.forall_mem_cons, ← steady step List.mem_cons_self now kept]
    constructor
    · rintro ⟨after, ran⟩
      obtain ⟨between, first, rested⟩ := runAll_cons_ok ran
      exact ⟨⟨between, first⟩, (later between first).mp ⟨after, rested⟩⟩
    · rintro ⟨⟨between, first⟩, each⟩
      obtain ⟨after, rested⟩ := (later between first).mpr each
      exact ⟨after, by rw [runAll_cons, first]; exact rested⟩

theorem entries_runAll_plain {steps : List (Step α)} (plain : ctx.mode.sanitize = false)
    (tame : ∀ step ∈ steps, step.Tame call ctx) (nodup : (Tree.entered steps).Nodup)
    {before after : Store} (ran : runAll call ctx steps before = .ok () after) :
    Store.Keeps (Tree.entered steps) before after ∧
      ∀ path a names, .enter path (some a) names ∈ steps →
        after.entries a = (before.entries a).restrict names := by
  induction steps generalizing before with
  | nil =>
    cases ran
    exact ⟨Store.Keeps.refl _ _, fun path a names member => nomatch member⟩
  | cons step rest ih =>
    obtain ⟨between, first, rested⟩ := runAll_cons_ok ran
    have inner := fun nodup => ih (fun s member => tame s (List.mem_cons_of_mem step member)) nodup
      rested
    rcases run_plain (tame step List.mem_cons_self) plain first with
      ⟨path, a, names, rfl, rfl⟩ | ⟨⟨path, place, given, content, rfl⟩, untouched⟩
    · have split : Tree.entered (Step.enter path (some a) names :: rest) =
          a :: Tree.entered rest := rfl
      rw [split, List.nodup_cons] at nodup
      obtain ⟨kept, pruned⟩ := inner nodup.2
      rw [split]
      refine ⟨((Store.keeps_setEntries before a _).mono ?_).trans
        (kept.mono (List.subset_cons_self _ _)), fun path' b names' member => ?_⟩
      · exact List.cons_subset_cons a (List.nil_subset _)
      · rcases List.mem_cons.mp member with same | member
        · injection same with _ same names
          obtain rfl := Option.some.inj same
          rw [kept.entries b nodup.1, names, Store.entries_pruned]
        · have differs : a ≠ b := by
            rintro rfl
            exact nodup.1 (List.mem_filterMap.mpr ⟨_, member, rfl⟩)
          rw [pruned path' b names' member, Store.entries_setEntries_ne before differs]
    · obtain ⟨kept, pruned⟩ := inner nodup
      refine ⟨(untouched.mono (List.nil_subset _)).trans kept, fun path' b names' member => ?_⟩
      rcases List.mem_cons.mp member with same | member
      · cases same
      · rw [pruned path' b names' member, untouched.entries b List.not_mem_nil]

theorem entries_plain_cases {steps : List (Step α)} (plain : ctx.mode.sanitize = false)
    (tame : ∀ step ∈ steps, step.Tame call ctx) (nodup : (Tree.entered steps).Nodup)
    {before after : Store} (ran : runAll call ctx steps before = .ok () after) (a : Address) :
    after.entries a = before.entries a ∨ ∃ path names, .enter path (some a) names ∈ steps ∧
      after.entries a = (before.entries a).restrict names := by
  obtain ⟨kept, pruned⟩ := entries_runAll_plain plain tame nodup ran
  by_cases entered : a ∈ Tree.entered steps
  · obtain ⟨path, names, member⟩ := Tree.mem_entered.mp entered
    exact Or.inr ⟨path, names, member, pruned path a names member⟩
  · exact Or.inl (kept.entries a entered)

end Step

namespace Tree

variable {α : Type} {call : α → Value → Context → CheckM Value} {ctx : Context}

theorem result_plain (plain : ctx.mode.sanitize = false) {t : Tree α} {v : Value}
    {parent : Option Address} {before after : Store} {result : Value}
    (checked : check call t v ctx parent before = .ok result after) : result = v := by
  cases t with
  | leaf content =>
    simp only [check_leaf, plain, Bool.not_false, Bool.or_true, if_true] at checked
    cases called : call content v ctx before with
    | error failure between => simp [called] at checked
    | ok r between =>
      simp only [called] at checked
      cases checked
      rfl
  | branch fields => exact result_branch call checked

end Tree

namespace Schema

/-- A value satisfies a schema: there is a mapping that can be changed at the path of every branch,
and the checker at the path of every leaf accepts what the value has there. -/
structure Satisfied (schema : Schema) (store : Store) (mode : Mode) (v : Value) : Prop where
  branches : ∀ path fields, schema.root.at? path = some (.branch fields) →
    (store.valueAt v path).fields?.isSome
  leaves : ∀ path leaf, schema.root.at? path = some (.leaf leaf) →
    ∃ r after, leaf.call (store.valueAt v path) ((top mode).descend path) store = .ok r after

/-- The mappings at the paths of branches have lost the keys that are not described, and nothing
else has changed; so what stood at the path of a leaf stands there still. -/
structure Projected (schema : Schema) (v : Value) (before after : Store) : Prop where
  branches : ∀ path fields a, schema.root.at? path = some (.branch fields) →
    (before.valueAt v path).fields? = some a →
      after.entries a = (before.entries a).restrict (fields.map Prod.fst)
  others : ∀ a, (∀ path fields, schema.root.at? path = some (.branch fields) →
    (before.valueAt v path).fields? ≠ some a) → after.entries a = before.entries a
  items : ∀ a, a < before.sequences.size → after.items a = before.items a
  leaves : ∀ path leaf, schema.root.at? path = some (.leaf leaf) →
    after.valueAt v path = before.valueAt v path ∧
      after.freeze (before.valueAt v path) = before.freeze (before.valueAt v path)

/-- A check of a value takes keys out of a mapping. -/
def Prunes (schema : Schema) (store : Store) (v : Value) (a : Address) : Prop :=
  ∃ path fields, schema.root.at? path = some (.branch fields) ∧
    (store.valueAt v path).fields? = some a ∧
      (store.entries a).restrict (fields.map Prod.fst) ≠ store.entries a

/-- What the options of the checkers hold is there, and no part of it is a mapping that a check of
the value takes keys out of. -/
def Apart (schema : Schema) (store : Store) (v : Value) : Prop :=
  ∀ c, .checker c ∈ schema.root.leaves → ∀ option ∈ c.holdings, ∀ w, store.Reaches option w →
    store.Stands w ∧ ∀ kind a, w = .map kind a → ¬schema.Prunes store v a

variable {schema : Schema} {store : Store} {v : Value} {mode : Mode}

theorem prunes_of_mem_agenda (built : schema.BuiltIn) {step : Step Leaf} {a : Address}
    (member : step ∈ schema.root.agenda store [] none v) (prunes : step.pruned? store = some a) :
    schema.Prunes store v a := by
  rcases Tree.path_of_mem_agenda built.distinct member with
    ⟨path, fields, there, rfl⟩ | ⟨path, leaf, inner, there, rfl, _⟩
  · cases mapping : (store.valueAt v path).fields? with
    | none =>
      rw [mapping] at prunes
      cases prunes
    | some b =>
      rw [mapping, Step.pruned?] at prunes
      split at prunes
      · cases prunes
      · rename_i loses
        rw [Option.some.inj prunes] at loses mapping
        exact ⟨path, fields, there, mapping, loses⟩
  · cases prunes

private theorem entered_of_pruned? {step : Step Leaf} {a : Address}
    (prunes : step.pruned? store = some a) : step.entered? = some a := by
  cases step with
  | ask path place given content => cases prunes
  | enter path mapping names =>
    cases mapping with
    | none => cases prunes
    | some b =>
      rw [Step.pruned?] at prunes
      split at prunes
      · cases prunes
      · exact prunes

/-- The mappings that the steps of a check take keys out of. -/
abbrev pruned (schema : Schema) (store : Store) (v : Value) : List Address :=
  (schema.root.agenda store [] none v).filterMap (Step.pruned? store)

/-- After any of the pruning every step goes as it would have gone in the beginning. -/
private theorem steady (built : schema.BuiltIn) (shaped : store.TreeShaped v)
    (apart : schema.Apart store v) :
    ∀ step ∈ schema.root.agenda store [] none v, ∀ now,
      Store.Keeps (schema.pruned store v) store now →
        ((∃ after, step.run Leaf.call (top mode) now = .ok () after) ↔
          ∃ after, step.run Leaf.call (top mode) store = .ok () after) := by
  intro step member now kept
  have within : schema.pruned store v ⊆ Tree.entered (schema.root.agenda store [] none v) := by
    intro a touched
    obtain ⟨other, elsewhere, prunes⟩ := List.mem_filterMap.mp touched
    exact List.mem_filterMap.mpr ⟨other, elsewhere, entered_of_pruned? prunes⟩
  have clear : ∀ c, .checker c ∈ schema.root.leaves → ∀ option ∈ c.holdings,
      store.Clear (schema.pruned store v) option := by
    intro c listed option held w reached
    obtain ⟨there, free⟩ := apart c listed option held w reached
    refine ⟨there, fun kind a shape touched => free kind a shape ?_⟩
    obtain ⟨other, elsewhere, prunes⟩ := List.mem_filterMap.mp touched
    exact prunes_of_mem_agenda built elsewhere prunes
  rcases built.run_congr mode shaped within clear member kept (Store.Keeps.refl _ store) with
    ⟨first, second⟩ | ⟨failure, first, second⟩
  · exact iff_of_true first second
  · rw [first, second]
    exact iff_of_false nofun nofun

private theorem each_iff_satisfied (built : schema.BuiltIn) :
    (∀ step ∈ schema.root.agenda store [] none v,
      ∃ after, step.run Leaf.call (top mode) store = .ok () after) ↔
        schema.Satisfied store mode v := by
  constructor
  · intro each
    refine ⟨fun path fields there => ?_, fun path leaf there => ?_⟩
    · obtain ⟨after, ran⟩ := each _ (Tree.enter_mem_agenda store there [] none v)
      cases mapping : (store.valueAt v path).fields? with
      | none =>
        rw [mapping] at ran
        cases ran
      | some a => rfl
    · obtain ⟨inner, member⟩ := Tree.ask_mem_agenda store there [] none v
      exact Step.run_ask_ok_iff.mp (each _ member)
  · intro satisfied step member
    rcases Tree.path_of_mem_agenda built.distinct member with
      ⟨path, fields, there, rfl⟩ | ⟨path, leaf, inner, there, rfl, _⟩
    · obtain ⟨a, mapping⟩ := Option.isSome_iff_exists.mp (satisfied.branches path fields there)
      rw [mapping]
      exact ⟨_, Step.run_enter_some Leaf.call (top mode) _ a _ store⟩
    · exact Step.run_ask_ok_iff.mpr (satisfied.leaves path leaf there)

theorem names_of_plain (plain : mode.sanitize = false) :
    mode.sanitize = true → schema.root.LeafNames fun name => '.' ∉ name.toList := by
  intro sanitize
  rw [plain] at sanitize
  cases sanitize

theorem check_ok_iff_satisfied (built : schema.BuiltIn) (shaped : store.TreeShaped v)
    (apart : schema.Apart store v) (plain : mode.sanitize = false) :
    (∃ result after, schema.check mode v store = .ok result after) ↔
      schema.Satisfied store mode v := by
  rw [exists_comm, ← each_iff_satisfied built, ← Step.runAll_iff_each plain
    (built.tame mode (names_of_plain plain) store v) (built.nodup_entered shaped)
    ?_ (steady built shaped apart)
    (Store.Keeps.refl _ store) fun _ _ => rfl]
  · exact exists_congr fun after =>
      built.check_ok_iff (names_of_plain plain) (built.nodup_entered shaped) after
  · intro step member a prunes
    rw [Option.mem_toList] at prunes
    exact List.mem_filterMap.mpr ⟨step, member, prunes⟩

theorem projected_of_check (built : schema.BuiltIn) (shaped : store.TreeShaped v)
    (plain : mode.sanitize = false) {result : Value} {after : Store}
    (checked : schema.check mode v store = .ok result after) : schema.Projected v store after := by
  have nodup := built.nodup_entered shaped
  have ran := (built.check_ok_iff (names_of_plain plain) nodup after).mp ⟨result, checked⟩
  obtain ⟨kept, entries⟩ := Step.entries_runAll_plain plain
    (built.tame mode (names_of_plain plain) store v) nodup ran
  have branches : ∀ path fields a, schema.root.at? path = some (.branch fields) →
      (store.valueAt v path).fields? = some a →
        after.entries a = (store.entries a).restrict (fields.map Prod.fst) := by
    intro path fields a there mapping
    have member := Tree.enter_mem_agenda store there [] none v
    rw [mapping] at member
    exact entries _ a _ member
  refine ⟨branches, fun a outside => kept.entries a fun inside => ?_, kept.items,
    fun path leaf there => ⟨Tree.valueAt_congr (fun up fields a name above mapping described => ?_)
      there, ?_⟩⟩
  · obtain ⟨step, member, enters⟩ := List.mem_filterMap.mp inside
    rcases Tree.path_of_mem_agenda built.distinct member with
      ⟨path, fields, there, rfl⟩ | ⟨path, leaf, inner, there, rfl, _⟩
    · exact outside path fields there enters
    · cases enters
  · rw [branches up fields a above mapping, Entries.valueOf?_restrict described]
  · obtain ⟨inner, member⟩ := Tree.ask_mem_agenda store there [] none v
    obtain ⟨part, same, stands⟩ := Tree.given_stands built.distinct shaped member
    have held := stands store (Store.Keeps.refl _ store)
    have value : part.value = store.valueAt v path := same
    rw [← value, Store.freeze_of_holds held, Store.freeze_of_holds (stands after kept)]

/-- When no values are replaced and no option holds what the check takes keys out of, the check of a
tree-shaped value succeeds exactly when the value satisfies the schema, and then the result is the
value itself, with its mappings pruned. -/
theorem check_plain_iff (built : schema.BuiltIn) (shaped : store.TreeShaped v)
    (apart : schema.Apart store v) (lenient : Bool) :
    ((∃ result after, schema.check ⟨false, lenient⟩ v store = .ok result after) ↔
        schema.Satisfied store ⟨false, lenient⟩ v) ∧
      ∀ result after, schema.check ⟨false, lenient⟩ v store = .ok result after →
        result = v ∧ schema.Projected v store after :=
  ⟨check_ok_iff_satisfied built shaped apart rfl, fun _ _ checked =>
    ⟨Tree.result_plain rfl checked, projected_of_check built shaped rfl checked⟩⟩

def flaggedStore : Store where
  mappings := #[[(.text "a", .bool true), (.text "b", .bool false)]]

theorem flaggedStore_treeShaped : flaggedStore.TreeShaped (.map .plain 0) := by
  refine ⟨.map .plain 0 [(.atom (.text "a"), .atom (.bool true)),
    (.atom (.text "b"), .atom (.bool false))], rfl, ?_, by simp⟩
  simp [Store.holds_map, flaggedStore, Store.entries, Layout.entryValue, Layout.value]

theorem atom_of_boolean {option w : Value} (held : option ∈ (Checker.boolean {}).holdings)
    (reached : store.Reaches option w) : ∃ a, w = .atom a := by
  have atomic : ∃ a, option = .atom a := by
    obtain ⟨name, _, rfl⟩ := List.mem_map.mp held
    cases name <;> exact ⟨_, rfl⟩
  obtain ⟨a, rfl⟩ := atomic
  cases reached
  exact ⟨a, rfl⟩

theorem flaggedStore_apart : (single "a" (.boolean {})).Apart flaggedStore (.map .plain 0) := by
  intro c member option held w reached
  rw [leaves_single, List.mem_singleton] at member
  obtain rfl := Leaf.checker.inj member
  obtain ⟨a, rfl⟩ := atom_of_boolean held reached
  exact ⟨trivial, nofun⟩

theorem check_plain_flagged :
    (single "a" (.boolean {})).BuiltIn ∧ flaggedStore.TreeShaped (.map .plain 0) ∧
      (single "a" (.boolean {})).Apart flaggedStore (.map .plain 0) ∧
        ((∃ result after, (single "a" (.boolean {})).check ⟨false, false⟩ (.map .plain 0)
            flaggedStore = .ok result after) ↔
          (single "a" (.boolean {})).Satisfied flaggedStore ⟨false, false⟩ (.map .plain 0)) ∧
          ∀ result after, (single "a" (.boolean {})).check ⟨false, false⟩ (.map .plain 0)
            flaggedStore = .ok result after → result = .map .plain 0 ∧
              (single "a" (.boolean {})).Projected (.map .plain 0) flaggedStore after :=
  have built := single_builtIn "a" Checker.boolean_builtIn
  ⟨built, flaggedStore_treeShaped, flaggedStore_apart,
    check_plain_iff built flaggedStore_treeShaped flaggedStore_apart false⟩

abbrev oneMapping : Checker := .array { value := .seq .list 0 } (some [.map .plain 1])

theorem oneMapping_builtIn : oneMapping.BuiltIn := Checker.oneItem_builtIn (.map .plain 1)

/-- A schema that describes no key of one field and asks for an exact value in another. -/
def sharing : Schema where
  root := .branch [("a", .branch []), ("b", .leaf (.checker oneMapping))]

def sharingStore : Store where
  sequences := #[[.map .plain 1], [.map .plain 2]]
  mappings := #[[(.text "a", .map .plain 1), (.text "b", .seq .list 1)],
    [(.text "x", .int 1)], []]

theorem sharing_builtIn : sharing.BuiltIn := by
  refine ⟨⟨by decide, ⟨by simp, trivial⟩, trivial, trivial⟩, fun leaf member => ?_⟩
  simp only [sharing, Tree.leaves, Tree.fieldLeaves, List.append_nil, List.nil_append,
    List.mem_singleton] at member
  exact ⟨_, member, oneMapping_builtIn⟩

theorem sharingStore_treeShaped : sharingStore.TreeShaped (.map .plain 0) := by
  refine ⟨.map .plain 0 [(.atom (.text "a"), .map .plain 1 [(.atom (.text "x"),
    .atom (.number (.int 1)))]), (.atom (.text "b"), .seq .list 1 [.map .plain 2 []])], rfl, ?_,
    by simp⟩
  simp [Store.holds_map, Store.holds_seq, sharingStore, Store.entries, Store.items,
    Layout.entryValue, Layout.value]

theorem check_oneMapping {store : Store} (items : store.items 1 = [.map .plain 2])
    (ctx : Context) :
    oneMapping.check (.seq .list 1) ctx store =
      if store.freeze (.map .plain 2) == store.freeze (.map .plain 1) then
        .ok (.seq .list store.sequences.size) (store.newSeq .list [.map .plain 1]).2
      else .error (.invalid ctx.path) store := by
  have differs : (Value.map .plain 2 == Value.map .plain 1) = false := by decide
  have sameItem : store.equal (.map .plain 2) (.map .plain 1) =
      (store.freeze (.map .plain 2) == store.freeze (.map .plain 1)) := by
    change store.same (.map .plain 2) (.map .plain 1) = _
    rw [Store.same, differs, Bool.false_or]
  rw [← sameItem]
  exact Checker.check_oneItem items ctx

theorem sharing_accepted : ∃ after result,
    sharing.check ⟨false, false⟩ (.map .plain 0) sharingStore = .ok result after := by
  let pruned : Store := { sharingStore with
    mappings := #[[(.text "a", .map .plain 1), (.text "b", .seq .list 1)], [], []] }
  have equal : (pruned.freeze (.map .plain 2) == pruned.freeze (.map .plain 1)) = true := by
    change Data.same (.map .plain []) (.map .plain []) = true
    simp [Data.same, Data.entriesWithin]
  refine ⟨(pruned.newSeq .list [.map .plain 1]).2, ?_⟩
  rw [sharing_builtIn.check_ok_iff (fun sanitize => absurd sanitize Bool.false_ne_true)
    (sharing_builtIn.nodup_entered sharingStore_treeShaped)]
  have steps : Step.runAll Leaf.call (top ⟨false, false⟩)
      (sharing.root.agenda sharingStore [] none (.map .plain 0)) sharingStore =
        Step.runAll Leaf.call (top ⟨false, false⟩)
          [.ask ["b"] (some (0, "b")) (.seq .list 1) (.checker oneMapping)] pruned := rfl
  have answered : Leaf.call (.checker oneMapping) (.seq .list 1)
      ((top ⟨false, false⟩).descend ["b"]) pruned =
        .ok (.seq .list 2) (pruned.newSeq .list [.map .plain 1]).2 :=
    (check_oneMapping rfl _).trans (if_pos equal)
  rw [steps, Step.runAll_cons, Step.run_ask, answered]
  rfl

private theorem sharing_not_satisfied :
    ¬sharing.Satisfied sharingStore ⟨false, false⟩ (.map .plain 0) := by
  intro satisfied
  have differ : (sharingStore.freeze (.map .plain 2) == sharingStore.freeze (.map .plain 1)) =
      false := by
    change Data.same (.map .plain []) (.map .plain [(.text "x", .atom (.number (.int 1)))]) = false
    simp [Data.same]
  obtain ⟨r, between, called⟩ := satisfied.leaves ["b"] (.checker oneMapping) rfl
  have refused : Leaf.call (.checker oneMapping) (.seq .list 1) ((top ⟨false, false⟩).descend ["b"])
      sharingStore = .error _ sharingStore :=
    (check_oneMapping rfl _).trans (if_neg (by rw [differ]; exact Bool.false_ne_true))
  rw [show sharingStore.valueAt (.map .plain 0) ["b"] = .seq .list 1 from rfl, refused] at called
  cases called

/-- A mapping that an option holds too is pruned before it is compared, and then equals another. -/
theorem check_plain_sharing : ¬∀ (schema : Schema) (store : Store) (v : Value) (lenient : Bool),
    schema.BuiltIn → store.TreeShaped v →
      ((∃ result after, schema.check ⟨false, lenient⟩ v store = .ok result after) ↔
          schema.Satisfied store ⟨false, lenient⟩ v) ∧
        ∀ result after, schema.check ⟨false, lenient⟩ v store = .ok result after →
          result = v ∧ schema.Projected v store after := by
  intro agrees
  have decides := (agrees sharing sharingStore (.map .plain 0) false sharing_builtIn
    sharingStore_treeShaped).1
  obtain ⟨after, result, checked⟩ := sharing_accepted
  exact sharing_not_satisfied (decides.mp ⟨result, after, checked⟩)

end Schema

end Assay
