import Assay.Proofs.Interruption
import Assay.Proofs.Satisfaction

/-!
Agreement: the check that may replace values and the one that may not go side by side, step by step.
They decide alike, as no leaf is asked about a field that was rewritten before, and what they leave
behind differs in rewritten fields alone. This takes that no option of a checker holds a mapping in
which a value is replaced.
-/

set_option autoImplicit false
set_option relaxedAutoImplicit false

namespace Assay

/-- Two runs succeed both, with results that are related, or fail alike; and what they leave behind
is related. -/
inductive Abreast {α : Type} (S : α → α → Prop) (R : Store → Store → Prop) :
    EStateM.Result Failure Store α → EStateM.Result Failure Store α → Prop
  | ok {r r' : α} {plain sane : Store} (results : S r r') (stores : R plain sane) :
      Abreast S R (.ok r plain) (.ok r' sane)
  | error {failure : Failure} {plain sane : Store} (stores : R plain sane) :
      Abreast S R (.error failure plain) (.error failure sane)

namespace Schema

/-- In a check that may replace values the leaf at a path is called and gives a value. -/
def Gives (schema : Schema) (lenient : Bool) (v : Value) (store : Store) (path : List String)
    (r : Value) : Prop :=
  r ≠ .null ∧ ∃ call ∈ schema.calls ⟨true, lenient⟩ v store, call.path = path ∧
    ∃ after, call.content.call call.given call.ctx call.store = .ok r after

/-- A field of a mapping gets another value in a check that may replace values. -/
def Replaces (schema : Schema) (lenient : Bool) (v : Value) (store : Store) (a : Address) : Prop :=
  ∃ up name r, (store.valueAt v up).fields? = some a ∧
    schema.Gives lenient v store (up ++ [name]) r ∧ (store.entries a).valueOf? name ≠ some r

/-- What the options of the checkers hold is there, and no part of it is a mapping in which a value
is replaced. -/
def OptionsSpared (schema : Schema) (lenient : Bool) (v : Value) (store : Store) : Prop :=
  ∀ c, .checker c ∈ schema.root.leaves → ∀ option ∈ c.holdings, ∀ w, store.Reaches option w →
    store.Stands w ∧ ∀ kind a, w = .map kind a → ¬schema.Replaces lenient v store a

/-- An entry in two stores: the same in both, or in the second one what a leaf has given. -/
def Rewritten (schema : Schema) (lenient : Bool) (v : Value) (ground : Store) (a : Address)
    (plain sane : Value × Value) : Prop :=
  sane.1 = plain.1 ∧ (sane.2 = plain.2 ∨ ∃ up name, (ground.valueAt v up).fields? = some a ∧
    plain.1 = .text name ∧ schema.Gives lenient v ground (up ++ [name]) sane.2)

/-- What the two checks leave behind: the same containers with the same contents, but for the fields
whose leaves have given a value, and there stands this value after the check that may replace. -/
structure Agree (schema : Schema) (lenient : Bool) (v : Value) (ground plain sane : Store) :
    Prop where
  sequences : sane.sequences = plain.sequences
  mappings : sane.mappings.size = plain.mappings.size
  entries : ∀ a, List.Forall₂ (schema.Rewritten lenient v ground a) (plain.entries a)
    (sane.entries a)
  given : ∀ up name a r, (ground.valueAt v up).fields? = some a →
    schema.Gives lenient v ground (up ++ [name]) r → (sane.entries a).valueOf? name = some r

/-- What the two checks return: the value itself, but for what the leaf at the top has given. -/
structure ResultsAgree (schema : Schema) (lenient : Bool) (v : Value) (ground : Store)
    (plain sane : Value) : Prop where
  unchanged : plain = v
  returned : sane = v ∨ schema.Gives lenient v ground [] sane
  given : ∀ r, schema.Gives lenient v ground [] r → sane = r

private structure Parallel (schema : Schema) (lenient : Bool) (v : Value)
    (ground plain sane : Store) : Prop where
  sequences : sane.sequences = plain.sequences
  mappings : sane.mappings.size = plain.mappings.size
  entries : ∀ a, List.Forall₂ (schema.Rewritten lenient v ground a) (plain.entries a)
    (sane.entries a)
  unreplaced : ∀ a, ¬schema.Replaces lenient v ground a → sane.entries a = plain.entries a

variable {schema : Schema} {store : Store} {v : Value} {lenient : Bool}

private theorem Parallel.refl : schema.Parallel lenient v store store store :=
  ⟨rfl, rfl, fun _ => List.forall₂_same.mpr fun _ _ => ⟨rfl, Or.inl rfl⟩, fun _ _ => rfl⟩

private theorem Parallel.prune {plain sane : Store}
    (parallel : schema.Parallel lenient v store plain sane) (a : Address) (names : List String) :
    schema.Parallel lenient v store
      (plain.setEntries a ((plain.entries a).restrict names))
      (sane.setEntries a ((sane.entries a).restrict names)) := by
  have pruned : ∀ (now : Store) b, (now.setEntries a ((now.entries a).restrict names)).entries b =
      if a = b then (now.entries b).restrict names else now.entries b := by
    intro now b
    by_cases here : a = b
    · subst here
      rw [Store.entries_pruned, if_pos rfl]
    · rw [Store.entries_setEntries_ne now here, if_neg here]
  refine ⟨parallel.sequences, ?_, fun b => ?_, fun b spared => ?_⟩
  · rw [Store.size_mappings_setEntries, Store.size_mappings_setEntries, parallel.mappings]
  · rw [pruned, pruned]
    split
    · exact Entries.forall₂_restrict (fun _ _ pair => pair.1) (parallel.entries b) names
    · exact parallel.entries b
  · rw [pruned, pruned, parallel.unreplaced b spared]

private theorem Parallel.call (built : schema.BuiltIn) {plain sane plain' sane' : Store}
    (parallel : schema.Parallel lenient v store plain sane) {leaf : Leaf}
    (listed : leaf ∈ schema.root.leaves) {given r r' : Value} {ctx ctx' : Context}
    (called : leaf.call given ctx plain = .ok r plain')
    (called' : leaf.call given ctx' sane = .ok r' sane') :
    schema.Parallel lenient v store plain' sane' := by
  obtain ⟨c, rfl, made⟩ := built.leaves leaf listed
  obtain ⟨lists, makes⟩ := made.made.sequences_of_check given
  have kept := made.made.calm.keeps called
  have kept' := made.made.calm.keeps called'
  refine ⟨?_, ?_, fun a => ?_, fun a spared => ?_⟩
  · rw [makes _ _ _ _ called, makes _ _ _ _ called', parallel.sequences]
  · rw [kept.mappings, kept'.mappings, parallel.mappings]
  · rw [kept.entries a List.not_mem_nil, kept'.entries a List.not_mem_nil]
    exact parallel.entries a
  · rw [kept.entries a List.not_mem_nil, kept'.entries a List.not_mem_nil]
    exact parallel.unreplaced a spared

private theorem Parallel.put {plain sane : Store}
    (parallel : schema.Parallel lenient v store plain sane) {a : Address} {up : List String}
    {name : String} {given r : Value} (mapping : (store.valueAt v up).fields? = some a)
    (gives : schema.Gives lenient v store (up ++ [name]) r)
    (stood : (store.entries a).valueOf? name = some given)
    (still : (plain.entries a).valueOf? name = some given) :
    schema.Parallel lenient v store plain (sane.setEntries a ((sane.entries a).put name r)) := by
  refine ⟨parallel.sequences, ?_, fun b => ?_, fun b spared => ?_⟩
  · rw [Store.size_mappings_setEntries, parallel.mappings]
  · refine Store.setEntries_cases (P := List.Forall₂ _ (plain.entries b)) b (parallel.entries b) ?_
    rintro rfl
    exact Entries.forall₂_put (fun _ _ pair => pair.1) (parallel.entries a) still
      ⟨rfl, Or.inr ⟨up, name, mapping, rfl, gives⟩⟩
  · refine Store.setEntries_cases (P := fun entries => entries = plain.entries b) b
      (parallel.unreplaced b spared) ?_
    rintro rfl
    have same : given = r := by
      by_contra differs
      refine spared ⟨up, name, r, mapping, gives, ?_⟩
      rw [stood]
      exact fun equal => differs (Option.some.inj equal)
    rw [parallel.unreplaced a spared, Entries.put_of_valueOf? (same ▸ still)]

section

variable {early late : List (Step Leaf)}

private theorem fewer_early (built : schema.BuiltIn) (shaped : store.TreeShaped v)
    (split : schema.root.agenda store [] none v = early ++ late) {plain : Store}
    (ran : Step.runAll Leaf.call (top ⟨false, lenient⟩) early store = .ok () plain) (a : Address) :
    plain.entries a ⊆ store.entries a := by
  rcases Step.entries_plain_cases rfl
      (built.tame_early ⟨false, lenient⟩ (names_of_plain rfl) split)
      (built.nodup_early shaped split) ran a with same | ⟨path, names, _, pruned⟩
  · rw [same]
    exact List.Subset.refl _
  · rw [pruned]
    exact List.filter_subset_self _

variable (built : schema.BuiltIn)
  (names : schema.root.LeafNames fun name => '.' ∉ name.toList) (shaped : store.TreeShaped v)
  {plain sane : Store}
  (first : Step.runAll Leaf.call (top ⟨false, lenient⟩) early store = .ok () plain)
  (second : Step.runAll Leaf.call (top ⟨true, lenient⟩) early store = .ok () sane)
  (parallel : schema.Parallel lenient v store plain sane)

include built names shaped first second parallel

private theorem call_alike (apart : schema.OptionsSpared lenient v store)
    (split : schema.root.agenda store [] none v = early ++ late) {path : List String}
    {place : Option (Address × String)} {given : Value} {leaf : Leaf}
    (member : .ask path place given leaf ∈ schema.root.agenda store [] none v) :
    (∃ r plain' r' sane',
        leaf.call given ((top ⟨false, lenient⟩).descend path) plain = .ok r plain' ∧
          leaf.call given ((top ⟨true, lenient⟩).descend path) sane = .ok r' sane') ∨
      ∃ failure, leaf.call given ((top ⟨false, lenient⟩).descend path) plain =
          .error failure plain ∧
        leaf.call given ((top ⟨true, lenient⟩).descend path) sane = .error failure sane := by
  classical
  -- The stores differ in these mappings alone, and the options hold none of them.
  let replaced := (List.range store.mappings.size).filter fun a =>
    schema.Replaces lenient v store a
  have one := built.keeps_early ⟨false, lenient⟩ (names_of_plain rfl) split first
  have two := built.keeps_early ⟨true, lenient⟩ (fun _ => names) split second
  have kept : Store.Keeps replaced plain sane := by
    refine ⟨by rw [parallel.sequences], parallel.mappings, fun a _ => ?_, fun a spared => ?_⟩
    · rw [Store.items, Store.items, parallel.sequences]
    · by_cases bound : a < store.mappings.size
      · refine parallel.unreplaced a fun replaces => spared ?_
        exact List.mem_filter.mpr ⟨List.mem_range.mpr bound, by simpa using replaces⟩
      · have beyond := Nat.le_of_not_lt bound
        rw [Store.entries_of_size_le (two.mappings ▸ beyond),
          Store.entries_of_size_le (one.mappings ▸ beyond)]
  refine built.call_congr shaped one two kept (fun c listed option held => ?_) member ?_ ?_
  · refine Store.Clear.of_keeps one (fewer_early built shaped split first) fun w reached => ?_
    obtain ⟨there, free⟩ := apart c listed option held w reached
    refine ⟨there, fun kind a shape touched => free kind a shape ?_⟩
    simpa using (List.mem_filter.mp touched).2
  · rw [Context.descend_top, Context.descend_top]
  · rw [Context.descend_top, Context.descend_top]

private theorem stored_alike {path : List String} {place : Option (Address × String)}
    {given : Value} {leaf : Leaf}
    (split : schema.root.agenda store [] none v = early ++ .ask path place given leaf :: late)
    {plain' sane' : Store} {r r' : Value}
    (called : leaf.call given ((top ⟨false, lenient⟩).descend path) plain = .ok r plain')
    (called' : leaf.call given ((top ⟨true, lenient⟩).descend path) sane = .ok r' sane') :
    schema.Parallel lenient v store
      (Tree.stored ((top ⟨false, lenient⟩).descend path) (place.map Prod.fst) r plain')
      (Tree.stored ((top ⟨true, lenient⟩).descend path) (place.map Prod.fst) r' sane') := by
  have nodup := built.nodup_entered shaped
  have member : Step.ask path place given leaf ∈ schema.root.agenda store [] none v :=
    split ▸ List.mem_append_right early List.mem_cons_self
  have tame := built.tame ⟨false, lenient⟩ (names_of_plain rfl) store v
  have tame' := built.tame ⟨true, lenient⟩ (fun _ => names) store v
  have between := parallel.call built (built.leaf_of_ask member) called called'
  -- The plain check puts nothing back, so all that may differ is what the other one does.
  have plainly : Tree.stored ((top ⟨false, lenient⟩).descend path) (place.map Prod.fst) r plain' =
      plain' := by
    rcases Step.stored_cases (tame _ member).keyed r plain' with
      ⟨same, _⟩ | ⟨_, _, _, _, sanitize, _⟩
    · exact same
    · cases sanitize
  rw [plainly]
  rcases Step.stored_cases (tame' _ member).keyed r' sane' with
    ⟨same, _⟩ | ⟨a, name, rfl, something, _, put⟩
  · rw [same]
    exact between
  · rw [put]
    obtain ⟨up, fields, there, mapping, rfl, inside, stood⟩ :=
      Tree.mapping_of_ask built.distinct member
    have gives : schema.Gives lenient v store (up ++ [name]) r' := by
      refine ⟨something, ⟨up ++ [name], leaf, given, (top ⟨true, lenient⟩).descend (up ++ [name]),
        sane⟩, ?_, rfl, sane', called'⟩
      rw [built.calls_eq_calls (fun _ => names) nodup, split, Step.calls_append, second]
      exact List.mem_append_right _ List.mem_cons_self
    -- A leaf gives nothing for an absent field, so the field was there and still is.
    have found : (store.entries a).valueOf? name = some given :=
      built.valueOf?_of_call member called' something
    have still : (plain'.entries a).valueOf? name = some given := by
      have kept := (tame _ member).1.keeps called
      rw [kept.entries a List.not_mem_nil, ← found]
      exact built.valueOf?_early ⟨false, lenient⟩ (names_of_plain rfl) shaped split first
    exact between.put mapping gives found still

private theorem run_alike (apart : schema.OptionsSpared lenient v store) {step : Step Leaf}
    (split : schema.root.agenda store [] none v = early ++ step :: late) :
    Abreast Eq (schema.Parallel lenient v store) (step.run Leaf.call (top ⟨false, lenient⟩) plain)
      (step.run Leaf.call (top ⟨true, lenient⟩) sane) := by
  have member : step ∈ schema.root.agenda store [] none v :=
    split ▸ List.mem_append_right early List.mem_cons_self
  cases step with
  | enter path mapping described =>
    cases mapping with
    | some a => exact .ok rfl (parallel.prune a described)
    | none =>
      rw [Step.run_enter_none, Step.run_enter_none, Context.descend_top, Context.descend_top]
      exact .error parallel
  | ask path place given leaf =>
    rw [Step.run_ask, Step.run_ask]
    rcases call_alike built names shaped first second parallel apart split member with
      ⟨r, plain', r', sane', called, called'⟩ | ⟨failure, failed, failed'⟩
    · rw [called, called']
      exact .ok rfl (stored_alike built names shaped first second parallel split called called')
    · rw [failed, failed']
      exact .error parallel

end

private theorem runAll_alike (built : schema.BuiltIn)
    (names : schema.root.LeafNames fun name => '.' ∉ name.toList) (shaped : store.TreeShaped v)
    (apart : schema.OptionsSpared lenient v store) {early late : List (Step Leaf)}
    (split : schema.root.agenda store [] none v = early ++ late) :
    Abreast Eq (schema.Parallel lenient v store)
      (Step.runAll Leaf.call (top ⟨false, lenient⟩) early store)
      (Step.runAll Leaf.call (top ⟨true, lenient⟩) early store) := by
  -- The last step is taken off: it starts from the stores that the steps before it have left.
  induction early using List.reverseRecOn generalizing late with
  | nil => exact .ok rfl Parallel.refl
  | append_singleton early step ih =>
    rw [List.append_assoc, List.singleton_append] at split
    have before := ih split
    rw [Step.runAll_concat, Step.runAll_concat]
    cases first : Step.runAll Leaf.call (top ⟨false, lenient⟩) early store with
    | error failure plain =>
      cases second : Step.runAll Leaf.call (top ⟨true, lenient⟩) early store with
      | error failure' sane =>
        rw [first, second] at before
        exact before
      | ok _ sane =>
        rw [first, second] at before
        cases before
    | ok _ plain =>
      cases second : Step.runAll Leaf.call (top ⟨true, lenient⟩) early store with
      | error failure' sane =>
        rw [first, second] at before
        cases before
      | ok _ sane =>
        rw [first, second] at before
        cases before with
        | ok _ parallel => exact run_alike built names shaped first second parallel apart split

private theorem agree_of_parallel (built : schema.BuiltIn)
    (names : schema.root.LeafNames fun name => '.' ∉ name.toList)
    (nodup : (Tree.entered (schema.root.agenda store [] none v)).Nodup) {plain sane : Store}
    (parallel : schema.Parallel lenient v store plain sane)
    {passed later : List (List String × Tree Leaf)} (split : schema.root.nodes = passed ++ later)
    (ran : Step.runAll Leaf.call (top ⟨true, lenient⟩)
      (passed.map (Tree.stepAt store [] none v)) store = .ok () sane)
    (before : ∀ call ∈ schema.calls ⟨true, lenient⟩ v store,
      (∃ r after, call.content.call call.given call.ctx call.store = .ok r after) →
        call ∈ Step.calls Leaf.call (top ⟨true, lenient⟩)
          (passed.map (Tree.stepAt store [] none v)) store) :
    schema.Agree lenient v store plain sane := by
  refine ⟨parallel.sequences, parallel.mappings, parallel.entries, ?_⟩
  rintro up name a r mapping ⟨something, call, member, path, after, called⟩
  obtain ⟨place, asked⟩ := Step.ask_of_mem_calls (before call member ⟨r, after, called⟩)
  obtain ⟨⟨rel, sub⟩, listed, step⟩ := List.mem_map.mp asked
  cases sub with
  | branch fields => cases step
  | leaf leaf =>
    rw [Tree.stepAt, List.nil_append] at step
    injection step with paths _ _ _
    rw [paths, path] at listed
    obtain ⟨other, member', path', content, _, r', between, called', stands⟩ :=
      (midway_of_run built (fun _ => names) nodup split ran).given up name leaf a listed mapping
    -- The leaf is called once, so what it gave is what was put back.
    obtain rfl := built.call_unique (fun _ => names) nodup member member' (path.trans path'.symm)
    rw [content, called'] at called
    cases called
    simpa [something] using stands

private theorem result_of_check (built : schema.BuiltIn)
    (names : schema.root.LeafNames fun name => '.' ∉ name.toList)
    (nodup : (Tree.entered (schema.root.agenda store [] none v)).Nodup) {result : Value}
    {sane : Store} (checked : schema.check ⟨true, lenient⟩ v store = .ok result sane) :
    (result = v ∨ schema.Gives lenient v store [] result) ∧
      ∀ r, schema.Gives lenient v store [] r → result = r := by
  cases root : schema.root with
  | branch fields =>
    refine ⟨Or.inl (result_branch root checked), ?_⟩
    rintro r ⟨_, call, member, path, _⟩
    rw [built.calls_eq_calls (fun _ => names) nodup] at member
    obtain ⟨place, asked⟩ := Step.ask_of_mem_calls member
    have there := (Tree.at?_of_ask built.distinct asked).1
    rw [path, root] at there
    cases there
  | leaf leaf =>
    have calls : schema.calls ⟨true, lenient⟩ v store =
        [⟨[], leaf, v, top ⟨true, lenient⟩, store⟩] := by
      rw [Schema.calls, root, Tree.calls]
    rw [check, root, Tree.check_leaf] at checked
    cases called : leaf.call v (top ⟨true, lenient⟩) store with
    | error failure after => simp [called] at checked
    | ok given after =>
      simp only [called, EStateM.Result.ok.injEq] at checked
      obtain ⟨rfl, _⟩ := checked
      constructor
      · by_cases null : given = .null
        · left
          simp [null]
        · right
          refine ⟨by simp [null], ⟨[], leaf, v, top ⟨true, lenient⟩, store⟩, ?_, rfl, after, ?_⟩
          · rw [calls]
            exact List.mem_cons_self
          · rw [called]
            simp [null]
      · rintro r ⟨something, call, member, _, later, called'⟩
        rw [calls, List.mem_singleton] at member
        subst member
        rw [called] at called'
        cases called'
        simp [something]

/-- The check that may replace values and the one that may not succeed both or fail alike, and what
they leave behind differs in no field but those whose leaves have given a value. -/
theorem check_agree (built : schema.BuiltIn)
    (names : schema.root.LeafNames fun name => '.' ∉ name.toList) (shaped : store.TreeShaped v)
    (apart : schema.OptionsSpared lenient v store) :
    Abreast (schema.ResultsAgree lenient v store) (schema.Agree lenient v store)
      (schema.check ⟨false, lenient⟩ v store) (schema.check ⟨true, lenient⟩ v store) := by
  have nodup := built.nodup_entered shaped
  have plainly : (⟨false, lenient⟩ : Mode).sanitize = true →
      schema.root.LeafNames fun name => '.' ∉ name.toList := names_of_plain rfl
  have calls : schema.calls ⟨true, lenient⟩ v store = _ :=
    built.calls_eq_calls (fun _ => names) nodup
  have alike := runAll_alike built names shaped apart (List.append_nil _).symm
  cases first : Step.runAll Leaf.call (top ⟨false, lenient⟩)
      (schema.root.agenda store [] none v) store with
  | ok _ plain =>
    cases second : Step.runAll Leaf.call (top ⟨true, lenient⟩)
        (schema.root.agenda store [] none v) store with
    | error failure sane =>
      rw [first, second] at alike
      cases alike
    | ok _ sane =>
      rw [first, second] at alike
      cases alike with
      | ok _ parallel =>
        obtain ⟨result, checked⟩ := (built.check_ok_iff plainly nodup plain).mpr first
        obtain ⟨result', checked'⟩ := (built.check_ok_iff (fun _ => names) nodup sane).mpr second
        have whole := result_of_check built names nodup checked'
        rw [checked, checked']
        rw [Tree.agenda_eq_map] at second calls
        exact .ok ⟨Tree.result_plain rfl checked, whole.1, whole.2⟩
          (agree_of_parallel built names nodup parallel (List.append_nil _).symm second
            fun call member _ => calls ▸ member)
  | error failure plain =>
    cases second : Step.runAll Leaf.call (top ⟨true, lenient⟩)
        (schema.root.agenda store [] none v) store with
    | ok _ sane =>
      rw [first, second] at alike
      cases alike
    | error failure' sane =>
      rw [first, second] at alike
      cases alike with
      | error parallel =>
        have failed := (built.check_error_iff plainly nodup failure plain).mpr first
        have failed' := (built.check_error_iff (fun _ => names) nodup failure sane).mpr second
        obtain ⟨passed, node, later, split, ran, stopped⟩ :=
          exists_node_of_error built (fun _ => names) nodup failed'
        rw [failed, failed']
        refine .error (agree_of_parallel built names nodup parallel split ran
          fun call member returns => ?_)
        rw [calls, Tree.agenda_eq_map, split, List.map_append, List.map_cons] at member
        exact Step.mem_calls_of_returns ran stopped member returns

theorem tupleAndNumber_optionsSpared :
    listAndMapping.OptionsSpared false (.map .plain 0) tupleAndNumber := by
  intro c listed option held w reached
  obtain ⟨there, free⟩ := listAndMapping_options c listed option held w reached
  exact ⟨there, fun kind a shape => absurd shape (free kind a)⟩

theorem check_agree_tuple :
    listAndMapping.BuiltIn ∧ (listAndMapping.root.LeafNames fun name => '.' ∉ name.toList) ∧
      tupleAndNumber.TreeShaped (.map .plain 0) ∧
        listAndMapping.OptionsSpared false (.map .plain 0) tupleAndNumber ∧
          Abreast (listAndMapping.ResultsAgree false (.map .plain 0) tupleAndNumber)
            (listAndMapping.Agree false (.map .plain 0) tupleAndNumber)
            (listAndMapping.check ⟨false, false⟩ (.map .plain 0) tupleAndNumber)
            (listAndMapping.check ⟨true, false⟩ (.map .plain 0) tupleAndNumber) :=
  have built := listAndMapping_builtIn
  have names := listAndMapping_names
  have shaped := tupleAndNumber_treeShaped
  ⟨built, names, shaped, tupleAndNumber_optionsSpared,
    check_agree built names shaped tupleAndNumber_optionsSpared⟩

/-- A schema that asks for the empty list under one field, and for an exact value in the next one.
-/
def listThenSharing : Schema where
  root := .branch [
    ("a", .branch [("s", .leaf (.checker (.array { value := .seq .list 2 } (some []))))]),
    ("b", .leaf (.checker oneMapping))]

/-- The mapping of the exact value stands in the first field, with an empty tuple in it. -/
def sharedTuple : Store where
  sequences := #[[.map .plain 1], [.map .plain 2], [], [], []]
  mappings := #[[(.text "a", .map .plain 1), (.text "b", .seq .list 1)],
    [(.text "s", .seq .tuple 3)], [(.text "s", .seq .tuple 4)]]

theorem listThenSharing_builtIn : listThenSharing.BuiltIn := by
  refine ⟨⟨by decide, ⟨by simp, trivial, trivial⟩, trivial, trivial⟩, fun leaf member => ?_⟩
  have leaves : listThenSharing.root.leaves =
      [.checker (.array { value := .seq .list 2 } (some [])), .checker oneMapping] := rfl
  rw [leaves, List.mem_pair] at member
  rcases member with rfl | rfl
  · exact ⟨_, rfl,
      Checker.builtIn_array sharedTuple (o := { value := .seq .list 2 }) (Or.inr rfl) rfl⟩
  · exact ⟨_, rfl, oneMapping_builtIn⟩

theorem listThenSharing_names : listThenSharing.root.LeafNames fun name => '.' ∉ name.toList :=
  Tree.leafNames_of_paths listThenSharing_builtIn.distinct [["a", "s"], ["b"]] rfl (by decide)

theorem sharedTuple_treeShaped : sharedTuple.TreeShaped (.map .plain 0) := by
  refine ⟨.map .plain 0 [(.atom (.text "a"), .map .plain 1 [(.atom (.text "s"), .seq .tuple 3 [])]),
    (.atom (.text "b"), .seq .list 1 [.map .plain 2 [(.atom (.text "s"), .seq .tuple 4 [])]])], rfl,
    ?_, by simp⟩
  simp [Store.holds_map, Store.holds_seq, sharedTuple, Store.entries, Store.items,
    Layout.entryValue, Layout.value]

def sharedLeft (mode : Mode) : Store where
  sequences := #[[.map .plain 1], [.map .plain 2], [], [], [], []]
  mappings := #[[(.text "a", .map .plain 1), (.text "b", .seq .list 1)],
    [(.text "s", if mode.sanitize then .seq .list 5 else .seq .tuple 3)],
    [(.text "s", .seq .tuple 4)]]

private theorem runAll_listThenSharing (mode : Mode) :
    Step.runAll Leaf.call (top mode)
        (listThenSharing.root.agenda sharedTuple [] none (.map .plain 0)) sharedTuple =
      Step.runAll Leaf.call (top mode)
        [.ask ["b"] (some (0, "b")) (.seq .list 1) (.checker oneMapping)] (sharedLeft mode) := by
  obtain ⟨sanitize, lenient⟩ := mode
  cases sanitize <;> cases lenient <;> rfl

private theorem listThenSharing_succeeds : ∃ result after,
    listThenSharing.check ⟨false, false⟩ (.map .plain 0) sharedTuple = .ok result after := by
  let left := sharedLeft ⟨false, false⟩
  have equal : (left.freeze (.map .plain 2) == left.freeze (.map .plain 1)) = true := by
    change Data.same (.map .plain [(.text "s", .seq .tuple [])])
      (.map .plain [(.text "s", .seq .tuple [])]) = true
    simp [Data.same, Data.entriesWithin, Data.pairwise, Atom.same]
  have answered : Leaf.call (.checker oneMapping) (.seq .list 1)
      ((top ⟨false, false⟩).descend ["b"]) left =
        .ok (.seq .list 6) (left.newSeq .list [.map .plain 1]).2 :=
    (check_oneMapping rfl _).trans (if_pos equal)
  rw [exists_comm]
  refine ⟨(left.newSeq .list [.map .plain 1]).2, ?_⟩
  rw [listThenSharing_builtIn.check_ok_iff (names_of_plain rfl)
    (listThenSharing_builtIn.nodup_entered sharedTuple_treeShaped), runAll_listThenSharing,
    Step.runAll_cons, Step.run_ask, answered]
  rfl

private theorem listThenSharing_fails :
    listThenSharing.check ⟨true, false⟩ (.map .plain 0) sharedTuple =
      .error (.invalid "b") (sharedLeft ⟨true, false⟩) := by
  let left := sharedLeft ⟨true, false⟩
  have differs : ¬(left.freeze (.map .plain 2) == left.freeze (.map .plain 1)) = true := by
    change ¬Data.same (.map .plain [(.text "s", .seq .tuple [])])
      (.map .plain [(.text "s", .seq .list [])]) = true
    simp [Data.same, Data.entriesWithin]
  have refused : Leaf.call (.checker oneMapping) (.seq .list 1)
      ((top ⟨true, false⟩).descend ["b"]) left = .error (.invalid "b") left :=
    (check_oneMapping rfl _).trans (if_neg differs)
  rw [listThenSharing_builtIn.check_error_iff (fun _ => listThenSharing_names)
    (listThenSharing_builtIn.nodup_entered sharedTuple_treeShaped), runAll_listThenSharing,
    Step.runAll_cons, Step.run_ask, refused]

/-- A mapping that an option holds too is compared with another one after a value in it has been
replaced. Then only the check that replaces nothing accepts. -/
theorem check_disagree : ¬∀ (schema : Schema) (store : Store) (v : Value) (lenient : Bool),
    schema.BuiltIn → (schema.root.LeafNames fun name => '.' ∉ name.toList) → store.TreeShaped v →
      Abreast (schema.ResultsAgree lenient v store) (schema.Agree lenient v store)
        (schema.check ⟨false, lenient⟩ v store) (schema.check ⟨true, lenient⟩ v store) := by
  intro agrees
  have abreast := agrees listThenSharing sharedTuple (.map .plain 0) false listThenSharing_builtIn
    listThenSharing_names sharedTuple_treeShaped
  obtain ⟨result, after, accepted⟩ := listThenSharing_succeeds
  rw [accepted, listThenSharing_fails] at abreast
  cases abreast

end Schema

end Assay
