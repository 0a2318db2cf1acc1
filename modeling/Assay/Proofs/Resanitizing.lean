import Assay.Proofs.Plant
import Assay.Proofs.Settled
import Assay.Proofs.WriteBack

/-!
Checking again: when values may be replaced, what a check made of a value is checked a second time.
A second check asks each leaf about what the leaf gave in the first one; if the leaf accepts that
and leaves it as it is, the second check changes nothing.
-/

set_option autoImplicit false
set_option relaxedAutoImplicit false

namespace Assay

namespace Store

/-- Nothing has changed in the containers of a store but that a list may have given way to a copy.
-/
structure Unchanged (before after : Store) : Prop where
  sequences : before.sequences.size ≤ after.sequences.size
  mappings : after.mappings.size = before.mappings.size
  items : ∀ a, a < before.sequences.size → after.items a = before.items a
  entries : ∀ a, List.Forall₂ (fun old new => new.1 = old.1 ∧ after.Copy old.2 new.2)
    (before.entries a) (after.entries a)

theorem Unchanged.refl (store : Store) : Unchanged store store :=
  ⟨Nat.le_refl _, rfl, fun _ _ => rfl, fun _ => List.forall₂_same.mpr fun _ _ => ⟨rfl, Or.inl rfl⟩⟩

variable {ground before after : Store}

theorem Unchanged.fades (unchanged : Unchanged before after) : Fades before after where
  sequences := unchanged.sequences
  mappings := unchanged.mappings
  items := unchanged.items
  empty a empty := by
    have entries := unchanged.entries a
    rw [empty] at entries
    exact List.forall₂_nil_left_iff.mp entries

private theorem Unchanged.next (unchanged : Unchanged ground before) (fades : Fades before after)
    (entries : ∀ a, List.Forall₂ (fun old new => new.1 = old.1 ∧ after.Copy old.2 new.2)
      (ground.entries a) (after.entries a)) : Unchanged ground after :=
  have since := unchanged.fades.trans fades
  ⟨since.sequences, since.mappings, since.items, entries⟩

theorem Unchanged.keys (unchanged : Unchanged before after) (a : Address) :
    (after.entries a).map Prod.fst = (before.entries a).map Prod.fst := by
  have entries := unchanged.entries a
  generalize before.entries a = old, after.entries a = new at entries
  induction entries with
  | nil => rfl
  | cons pair rest ih => rw [List.map_cons, List.map_cons, pair.1, ih]

theorem fades_pruned (store : Store) (a : Address) (names : List String) :
    Fades store (store.setEntries a ((store.entries a).restrict names)) where
  sequences := Nat.le_refl _
  mappings := size_mappings_setEntries _ _ _
  items _ _ := rfl
  empty b empty := by
    refine setEntries_cases (P := fun entries => entries = []) b empty ?_
    rintro rfl
    rw [empty]
    rfl

theorem fades_put {store : Store} {a : Address} {key : String}
    (present : ((store.entries a).valueOf? key).isSome) (r : Value) :
    Fades store (store.setEntries a ((store.entries a).put key r)) where
  sequences := Nat.le_refl _
  mappings := size_mappings_setEntries _ _ _
  items _ _ := rfl
  empty b empty := by
    refine setEntries_cases (P := fun entries => entries = []) b empty ?_
    rintro rfl
    rw [empty] at present
    cases present

end Store

namespace Step

variable {α : Type} {call : α → Value → Context → CheckM Value} {ctx : Context}

/-- A step does not drop the entry of a mapping under a key. -/
def Retains (a : Address) (key : String) : Step α → Prop
  | .enter _ mapping names => mapping = some a → key ∈ names
  | .ask _ _ _ _ => True

theorem isSome_run {step : Step α} (tame : step.Tame call ctx) {a : Address} {key : String}
    (retains : step.Retains a key) {before after : Store}
    (ran : step.run call ctx before = .ok () after)
    (present : ((before.entries a).valueOf? key).isSome) :
    ((after.entries a).valueOf? key).isSome := by
  rcases run_cases tame ran with
    ⟨path, b, names, rfl, rfl⟩ | ⟨path, place, given, content, r, between, rfl, calm, called, wrote⟩
  · refine Store.setEntries_cases (P := fun entries => (entries.valueOf? key).isSome) a present ?_
    rintro rfl
    rwa [Entries.valueOf?_restrict (retains rfl)]
  · rw [← (calm.keeps called).entries a List.not_mem_nil] at present
    rcases wrote with ⟨rfl, _⟩ | ⟨b, name, rfl, _, _, rfl⟩
    · exact present
    · refine Store.setEntries_cases (P := fun entries => (entries.valueOf? key).isSome) a present ?_
      rintro rfl
      by_cases same : key = name
      · rw [same, Entries.valueOf?_put_same]
        rfl
      · rwa [Entries.valueOf?_put_ne _ same]

/-- A run over the entries that its steps ask about: each is there if it was said to hold anything,
and no step drops one. -/
structure Sound (steps : List (Step α)) (store : Store) : Prop where
  present : ∀ path a key given content, .ask path (some (a, key)) given content ∈ steps →
    given ≠ .null → ((store.entries a).valueOf? key).isSome
  retained : ∀ path a key given content, .ask path (some (a, key)) given content ∈ steps →
    ∀ step ∈ steps, step.Retains a key

theorem Sound.tail {step : Step α} {rest : List (Step α)} {before after : Store}
    (sound : Sound (step :: rest) before) (tame : step.Tame call ctx)
    (ran : step.run call ctx before = .ok () after) : Sound rest after where
  present path a key given content member something :=
    isSome_run tame (sound.retained path a key given content (List.mem_cons_of_mem _ member) step
      List.mem_cons_self) ran
      (sound.present path a key given content (List.mem_cons_of_mem _ member) something)
  retained path a key given content member other inside :=
    sound.retained path a key given content (List.mem_cons_of_mem _ member) other
      (List.mem_cons_of_mem _ inside)

theorem fades_stored {path : List String} {place : Option (Address × String)} {given : Value}
    {content : α} {before between : Store} {r : Value}
    (tame : Tame call ctx (.ask path place given content))
    (present : ∀ a key, place = some (a, key) → given ≠ .null →
      ((before.entries a).valueOf? key).isSome)
    (called : call content given (ctx.descend path) before = .ok r between) :
    Store.Fades between (Tree.stored (ctx.descend path) (place.map Prod.fst) r between) := by
  rcases stored_cases tame.keyed r between with ⟨same, _⟩ | ⟨a, key, rfl, something, _, put⟩
  · rw [same]
    exact Store.Fades.refl between
  · rw [put]
    refine Store.fades_put ?_ r
    rw [(tame.1.keeps called).entries a List.not_mem_nil]
    refine present a key rfl ?_
    rintro rfl
    exact something (tame.1.absent called)

theorem fades_run {step : Step α} {rest : List (Step α)} {before after : Store}
    (sound : Sound (step :: rest) before) (tame : step.Tame call ctx)
    (ran : step.run call ctx before = .ok () after) : Store.Fades before after := by
  cases step with
  | enter path mapping names =>
    cases mapping with
    | none => cases ran
    | some a =>
      cases ran
      exact Store.fades_pruned before a names
  | ask path place given content =>
    obtain ⟨r, between, called, rfl⟩ := run_ask_ok ran
    refine (tame.1.keeps called).fades.trans (fades_stored tame ?_ called)
    rintro a key rfl
    exact sound.present path a key given content List.mem_cons_self

theorem Sound.run {early late : List (Step α)} {before after : Store}
    (sound : Sound (early ++ late) before) (tame : ∀ step ∈ early, step.Tame call ctx)
    (ran : runAll call ctx early before = .ok () after) :
    Store.Fades before after ∧ Sound late after := by
  induction early generalizing before with
  | nil =>
    cases ran
    exact ⟨Store.Fades.refl _, sound⟩
  | cons step rest ih =>
    obtain ⟨between, first, later⟩ := runAll_cons_ok ran
    have head := tame step List.mem_cons_self
    obtain ⟨fades, rested⟩ := ih (sound.tail head first)
      (fun s member => tame s (List.mem_cons_of_mem step member)) later
    exact ⟨(fades_run sound head first).trans fades, rested⟩

/-- Before a leaf of a sound run is called and after it has given its result no mapping gets a first
entry. -/
theorem Sound.around {early late : List (Step α)} {path : List String} {a : Address} {key : String}
    {given r : Value} {content : α} {before middle between after : Store}
    (sound : Sound (early ++ .ask path (some (a, key)) given content :: late) before)
    (tame : ∀ step ∈ early ++ .ask path (some (a, key)) given content :: late,
      step.Tame call ctx)
    (first : runAll call ctx early before = .ok () middle)
    (called : call content given (ctx.descend path) middle = .ok r between)
    (rested : runAll call ctx late (Tree.stored (ctx.descend path) (some a) r between) =
      .ok () after) : Store.Fades before middle ∧ Store.Fades between after := by
  have tameAsk := tame _ (List.mem_append_right _ List.mem_cons_self)
  have tameLate := fun step member =>
    tame step (List.mem_append_right _ (List.mem_cons_of_mem _ member))
  obtain ⟨early, sound⟩ :=
    sound.run (fun step member => tame step (List.mem_append_left _ member)) first
  have stored := fades_stored tameAsk (fun b name place something => by
    obtain ⟨rfl, rfl⟩ := Prod.mk.inj (Option.some.inj place)
    exact sound.present _ a key _ _ List.mem_cons_self something) called
  have asked := run_ask call ctx path (some (a, key)) given content middle
  rw [called] at asked
  have rest := sound.tail tameAsk asked
  rw [← List.append_nil late] at rest
  exact ⟨early, stored.trans (rest.run tameLate rested).1⟩

/-- A step that changes nothing when it is taken from a store that came of another by fading: there
is nothing to drop, or the leaf gives what stands at its place or a copy of it. -/
def Still (call : α → Value → Context → CheckM Value) (ctx : Context) (ground : Store) :
    Step α → Prop
  | .enter _ mapping names =>
    ∃ a, mapping = some a ∧ (ground.entries a).restrict names = ground.entries a
  | .ask path place given content =>
    (∀ now, ground.Fades now → ∃ r later,
      call content given (ctx.descend path) now = .ok r later ∧ later.Copy given r) ∧
      ∀ a key, place = some (a, key) → given = (ground.entries a).get key

theorem unchanged_run {ground before : Store} {step : Step α} (still : step.Still call ctx ground)
    (tame : step.Tame call ctx) (unchanged : ground.Unchanged before) :
    ∃ after, step.run call ctx before = .ok () after ∧ ground.Unchanged after := by
  cases step with
  | enter path mapping names =>
    obtain ⟨a, rfl, full⟩ := still
    have kept : (before.entries a).restrict names = before.entries a := by
      rw [Entries.restrict_eq_self_iff] at full ⊢
      rwa [unchanged.keys]
    refine ⟨_, run_enter_some call ctx path a names before, ?_⟩
    rw [kept]
    refine unchanged.next (kept ▸ Store.fades_pruned before a names) fun b => ?_
    refine Store.setEntries_cases (P := List.Forall₂ _ (ground.entries b)) b ?_ ?_
    · exact unchanged.entries b
    · rintro rfl
      exact unchanged.entries a
  | ask path place given content =>
    obtain ⟨answers, stood⟩ := still
    obtain ⟨r, later, called, copy⟩ := answers before unchanged.fades
    have kept := tame.1.keeps called
    have entries : ∀ b, List.Forall₂ (fun old new => new.1 = old.1 ∧ later.Copy old.2 new.2)
        (ground.entries b) (later.entries b) := by
      intro b
      rw [kept.entries b List.not_mem_nil]
      exact (unchanged.entries b).imp fun _ _ pair => ⟨pair.1, pair.2.mono kept.fades⟩
    have asked : run call ctx (.ask path place given content) before =
        .ok () (Tree.stored (ctx.descend path) (place.map Prod.fst) r later) := by
      rw [run_ask, called]
    refine ⟨_, asked, ?_⟩
    have between := unchanged.next kept.fades entries
    rcases stored_cases tame.keyed r later with ⟨same, _⟩ | ⟨a, key, rfl, something, _, put⟩
    · rw [same]
      exact between
    · have found : (ground.entries a).valueOf? key = some given := by
        have get := stood a key rfl
        cases value : (ground.entries a).valueOf? key with
        | some old =>
          rw [Entries.get, value] at get
          rw [get]
          rfl
        | none =>
          rw [Entries.get, value] at get
          subst get
          exact absurd copy.eq_null something
      have present : ((later.entries a).valueOf? key).isSome := by
        rw [Entries.valueOf?_isSome_iff, between.keys, ← Entries.valueOf?_isSome_iff, found]
        rfl
      rw [put]
      refine between.next (Store.fades_put present r) fun b => ?_
      refine Store.setEntries_cases (P := List.Forall₂ _ (ground.entries b)) b ?_ ?_
      · exact entries b
      · rintro rfl
        exact Entries.forall₂_put (fun _ _ pair => pair.1) (entries a) found ⟨rfl, copy⟩

theorem unchanged_runAll {ground before : Store} {steps : List (Step α)}
    (still : ∀ step ∈ steps, step.Still call ctx ground)
    (tame : ∀ step ∈ steps, step.Tame call ctx) (unchanged : ground.Unchanged before) :
    ∃ after, runAll call ctx steps before = .ok () after ∧ ground.Unchanged after := by
  induction steps generalizing before with
  | nil => exact ⟨before, rfl, unchanged⟩
  | cons step rest ih =>
    obtain ⟨between, first, midway⟩ := unchanged_run (still step List.mem_cons_self)
      (tame step List.mem_cons_self) unchanged
    obtain ⟨after, later, final⟩ := ih (fun s member => still s (List.mem_cons_of_mem step member))
      (fun s member => tame s (List.mem_cons_of_mem step member)) midway
    refine ⟨after, ?_, final⟩
    rw [runAll_cons, first]
    exact later

end Step

namespace Schema

/-- The containers that the options of the checkers hold are there. -/
def Grounded (schema : Schema) (store : Store) : Prop :=
  ∀ c, .checker c ∈ schema.root.leaves → ∀ option ∈ c.holdings, store.Stands option

/-- Whatever a check that may replace values makes of a tree-shaped value, a second check accepts
and leaves as it is. -/
def Repeatable (schema : Schema) : Prop :=
  ∀ (store : Store) (v : Value) (lenient : Bool) (result : Value) (after : Store),
    schema.Grounded store → store.TreeShaped v →
      schema.check ⟨true, lenient⟩ v store = .ok result after →
        ∃ again last, schema.check ⟨true, lenient⟩ result after = .ok again last ∧
          last.Copy result again ∧ after.Unchanged last

variable {schema : Schema} {store : Store} {v : Value} {lenient : Bool} {result : Value}
  {after : Store}

private theorem sound_agenda (built : schema.BuiltIn)
    (nodup : (Tree.entered (schema.root.agenda store [] none v)).Nodup) :
    Step.Sound (schema.root.agenda store [] none v) store := by
  constructor
  · intro path a key given leaf member something
    obtain ⟨up, fields, _, _, _, _, stood⟩ := Tree.mapping_of_ask built.distinct member
    cases value : (store.entries a).valueOf? key with
    | some old => rfl
    | none =>
      rw [Entries.get, value] at stood
      exact absurd stood something
  · intro path a key given leaf member step inside
    cases step with
    | ask _ _ _ _ => trivial
    | enter p mapping names =>
      rintro rfl
      obtain ⟨up, fields, there, mapping, _, described, _⟩ :=
        Tree.mapping_of_ask built.distinct member
      rw [(Tree.enter_of_mapping nodup there mapping inside).2]
      exact List.mem_map.mpr ⟨_, described, rfl⟩

private theorem result_of_leaf {c : Checker} (made : c.Made)
    (root : schema.root = .leaf (.checker c))
    (checked : schema.check ⟨true, lenient⟩ v store = .ok result after) :
    Leaf.call (.checker c) v (top ⟨true, lenient⟩) store = .ok result after := by
  rw [check, root, Tree.check_leaf] at checked
  cases called : Leaf.call (.checker c) v (top ⟨true, lenient⟩) store with
  | error failure between => simp [called] at checked
  | ok r between =>
    simp only [called, EStateM.Result.ok.injEq] at checked
    obtain ⟨rfl, rfl⟩ := checked
    split
    · rename_i quiet
      have null : r = .null := by simpa [top] using quiet
      rw [null] at called
      rw [null, made.null_of_check called]
      rfl
    · rfl

private theorem valueAt_of_check (built : schema.BuiltIn)
    (names : schema.root.LeafNames fun name => '.' ∉ name.toList) (shaped : store.TreeShaped v)
    (checked : schema.check ⟨true, lenient⟩ v store = .ok result after) {path : List String}
    {leaf : Leaf} (there : schema.root.at? path = some (.leaf leaf)) :
    ∃ r middle between, store.Fades middle ∧
      leaf.call (store.valueAt v path) ((top ⟨true, lenient⟩).descend path) middle =
        .ok r between ∧ between.Fades after ∧ after.valueAt result path = r := by
  obtain ⟨c, rfl, made⟩ := built.leaves leaf (Tree.mem_leaves_of_at? there)
  rcases List.eq_nil_or_concat' path with rfl | ⟨up, name, rfl⟩
  · exact ⟨result, store, after, Store.Fades.refl store,
      result_of_leaf made.made (Option.some.inj there) checked, Store.Fades.refl after, rfl⟩
  · have nodup := built.nodup_entered shaped
    have tame := built.tame ⟨true, lenient⟩ (fun _ => names) store v
    have ran := (built.check_ok_iff (fun _ => names) nodup after).mp ⟨result, checked⟩
    have faithful := faithful_of_check built names shaped checked
    obtain ⟨fields, above, found⟩ := Tree.at?_concat there
    obtain ⟨a, mapping⟩ :=
      Step.mapping_of_runAll ran (Tree.enter_mem_agenda store above [] none v)
    obtain ⟨early, late, split, spares⟩ := Tree.exists_split built.distinct nodup above mapping
      (Tree.mem_of_lookup found)
    have sound := sound_agenda built nodup
    rw [split] at ran tame sound
    obtain ⟨middle, r, between, first, called, rested, stands⟩ :=
      Step.valueOf?_runAll_ask tame spares rfl ran
    simp only [Bool.not_true, Bool.or_false, decide_eq_true_eq] at stands
    obtain ⟨fades, since⟩ := sound.around tame first called rested
    rw [Store.valueAt_concat, Store.valueAt_concat, faithful.branches up fields above,
      Store.field_of_fields? mapping, Store.field_of_fields? mapping]
    refine ⟨r, middle, between, fades, called, since, ?_⟩
    rw [Entries.get, stands]
    split
    · rename_i null
      rw [null] at called ⊢
      exact made.made.null_of_check called
    · rfl

private theorem nodup_entered_again (built : schema.BuiltIn)
    (names : schema.root.LeafNames fun name => '.' ∉ name.toList) (shaped : store.TreeShaped v)
    (checked : schema.check ⟨true, lenient⟩ v store = .ok result after) :
    (Tree.entered (schema.root.agenda after [] none result)).Nodup := by
  have faithful := faithful_of_check built names shaped checked
  rw [Tree.entered_congr store after built.distinct (v := v) ?_ [] none none]
  · exact built.nodup_entered shaped
  · intro path fields there
    rw [faithful.branches path fields there]

private theorem still_agenda (built : schema.BuiltIn)
    (names : schema.root.LeafNames fun name => '.' ∉ name.toList)
    (settled : ∀ c, .checker c ∈ schema.root.leaves → c.Settled) (grounded : schema.Grounded store)
    (shaped : store.TreeShaped v)
    (checked : schema.check ⟨true, lenient⟩ v store = .ok result after) :
    ∀ step ∈ schema.root.agenda after [] none result,
      step.Still Leaf.call (top ⟨true, lenient⟩) after := by
  have faithful := faithful_of_check built names shaped checked
  have ran := (built.check_ok_iff (fun _ => names) (built.nodup_entered shaped) after).mp
    ⟨result, checked⟩
  intro step member
  rcases Tree.path_of_mem_agenda built.distinct member with
    ⟨path, fields, there, rfl⟩ | ⟨path, leaf, inner, there, rfl, place⟩
  · rw [faithful.branches path fields there]
    obtain ⟨a, mapping⟩ :=
      Step.mapping_of_runAll ran (Tree.enter_mem_agenda store there [] none v)
    refine ⟨a, mapping, ?_⟩
    rw [Entries.restrict_eq_self_iff, faithful.keys path fields a there mapping,
      Entries.keys_restrict]
    exact fun key described => (List.mem_filter.mp described).2
  · obtain ⟨r, middle, between, fades, called, since, stands⟩ :=
      valueAt_of_check built names shaped checked there
    have listed := Tree.mem_leaves_of_at? there
    obtain ⟨c, rfl, made⟩ := built.leaves leaf listed
    have options : ∀ name, middle.Stands (c.options.get name) := fun name =>
      (grounded c listed _ (Checker.mem_holdings_get c name)).mono fades
    have given : middle.Stands (store.valueAt v path) := by
      obtain ⟨l, rfl, held, nodup⟩ := shaped
      obtain ⟨outer, asks⟩ := Tree.ask_mem_agenda store there [] none l.value
      obtain ⟨part, same, holds, _, _⟩ := Tree.given_apart built.distinct held nodup asks
      rw [← same]
      exact (Store.stands_of_holds holds).mono fades
    refine ⟨fun now later => ?_, fun a key here => ?_⟩
    · rw [stands]
      have sanitize : ((top ⟨true, lenient⟩).descend path).mode.sanitize = true := by
        rw [Context.mode_descend]
      exact made.made.check_again (settled c listed) options given sanitize called
        (since.trans later)
    · rcases place with ⟨_, rfl⟩ | ⟨up, name, rfl, rfl⟩
      · cases here
      · obtain ⟨b, mapping, pair⟩ := Option.map_eq_some_iff.mp here
        obtain ⟨rfl, rfl⟩ := Prod.mk.inj pair
        rw [Store.valueAt_concat, Store.field_of_fields? mapping]

private theorem repeatable_of_settled (built : schema.BuiltIn)
    (names : schema.root.LeafNames fun name => '.' ∉ name.toList)
    (settled : ∀ c, .checker c ∈ schema.root.leaves → c.Settled) : schema.Repeatable := by
  intro store v lenient result after grounded shaped checked
  have nodup := nodup_entered_again built names shaped checked
  have still := still_agenda built names settled grounded shaped checked
  obtain ⟨last, ran, unchanged⟩ := Step.unchanged_runAll still
    (built.tame ⟨true, lenient⟩ (fun _ => names) after result) (Store.Unchanged.refl after)
  obtain ⟨again, second⟩ := (built.check_ok_iff (fun _ => names) nodup last).mpr ran
  refine ⟨again, last, second, ?_, unchanged⟩
  cases root : schema.root with
  | branch fields =>
    rw [check, root] at second
    exact Or.inl (Tree.result_branch _ second).symm
  | leaf leaf =>
    rw [root] at still
    obtain ⟨answers, _⟩ := still _ (List.mem_singleton_self _)
    obtain ⟨r, later, called, copy⟩ := answers after (Store.Fades.refl after)
    rw [check, root, Tree.check_leaf] at second
    have called' : leaf.call result (top ⟨true, lenient⟩) after = .ok r later := called
    simp only [called', EStateM.Result.ok.injEq] at second
    obtain ⟨rfl, rfl⟩ := second
    split
    · exact Or.inl rfl
    · exact copy

private def blank (n : Nat) : Store where
  sequences := Array.replicate n []
  mappings := Array.replicate n []

private theorem exists_standing (values : List Value) :
    ∃ n, ∀ w ∈ values, (blank n).Stands w := by
  have larger : ∀ {n m : Nat} {w : Value}, n ≤ m → (blank n).Stands w → (blank m).Stands w := by
    intro n m w le stands
    cases w with
    | atom a => trivial
    | seq kind a | map kind a =>
      exact Nat.lt_of_lt_of_le stands (by simpa [blank] using le)
  induction values with
  | nil => exact ⟨0, fun w member => nomatch member⟩
  | cons v rest ih =>
    obtain ⟨n, stand⟩ := ih
    obtain ⟨m, stands⟩ : ∃ m, (blank m).Stands v := by
      cases v with
      | atom a => exact ⟨0, trivial⟩
      | seq kind a | map kind a => exact ⟨a + 1, by simp [Store.Stands, blank]⟩
    refine ⟨max n m, fun w member => ?_⟩
    rcases List.mem_cons.mp member with rfl | member
    · exact larger (Nat.le_max_right n m) stands
    · exact larger (Nat.le_max_left n m) (stand w member)

private def holdings : Leaf → List Value
  | .checker c => c.holdings
  | _ => []

private theorem exists_grounded (schema : Schema) :
    ∃ base : Store, ∀ store, base.Grows store → schema.Grounded store := by
  obtain ⟨n, stand⟩ := exists_standing (schema.root.leaves.flatMap holdings)
  refine ⟨blank n, fun store grown c member option held => ?_⟩
  have stands := stand option (List.mem_flatMap.mpr ⟨_, member, held⟩)
  cases option with
  | atom a => trivial
  | seq kind a => exact Nat.lt_of_lt_of_le stands grown.sequences
  | map kind a => exact Nat.lt_of_lt_of_le stands grown.mappings

private theorem settled_of_repeatable (built : schema.BuiltIn)
    (names : schema.root.LeafNames fun name => '.' ∉ name.toList) (repeatable : schema.Repeatable)
    {c : Checker} (member : .checker c ∈ schema.root.leaves) : c.Settled := by
  by_contra unsettled
  obtain ⟨s, g, accepts, refuses⟩ := (built.checker member).made.exists_refused unsettled
  obtain ⟨spot, there⟩ := Tree.exists_path_of_mem_leaves built.distinct member
  obtain ⟨base, grounded⟩ := exists_grounded schema
  obtain ⟨store, v, grown, shaped, branches, leaves⟩ :=
    Tree.exists_planted schema.root spot s base
  have steps := built.run_planted ⟨true, true⟩ rfl there branches leaves
  have sanitize : ((top ⟨true, true⟩).descend spot).mode.sanitize = true := by
    rw [Context.mode_descend]
  have each : ∀ step ∈ schema.root.agenda store [] none v, ∀ before,
      ∃ after, step.run Leaf.call (top ⟨true, true⟩) before = .ok () after := by
    intro step inside before
    rcases steps step inside with ran | ⟨inner, rfl⟩
    · exact ran before
    · exact Step.run_ask_ok_iff.mpr ⟨_, _, accepts _ before sanitize⟩
  obtain ⟨after, ran⟩ := Step.runAll_succeeds each store
  have nodup := built.nodup_entered shaped
  obtain ⟨result, checked⟩ := (built.check_ok_iff (fun _ => names) nodup after).mpr ran
  obtain ⟨again, last, second, _, _⟩ :=
    repeatable store v true result after (grounded store grown) shaped checked
  have ranAgain := (built.check_ok_iff (fun _ => names)
    (nodup_entered_again built names shaped checked) last).mp ⟨again, second⟩
  obtain ⟨r, middle, between, _, called, _, stands⟩ :=
    valueAt_of_check built names shaped checked there
  rw [leaves spot _ there, if_pos rfl, Leaf.call_checker, accepts _ middle sanitize] at called
  cases called
  obtain ⟨inner, asks⟩ := Tree.ask_mem_agenda after there [] none result
  rw [stands] at asks
  obtain ⟨early, late, asked⟩ := Step.ok_of_mem_runAll ranAgain asks
  obtain ⟨r, between, called, _⟩ := Step.run_ask_ok asked
  exact refuses _ early r between called

/-- A check that may replace values can be repeated on its results, without effect, exactly when the
checkers of the schema are settled; no dot is to stand in the name of a field with a leaf. -/
theorem repeatable_iff (built : schema.BuiltIn)
    (names : schema.root.LeafNames fun name => '.' ∉ name.toList) :
    schema.Repeatable ↔ ∀ c, .checker c ∈ schema.root.leaves → c.Settled :=
  ⟨fun repeatable _ member => settled_of_repeatable built names repeatable member,
    repeatable_of_settled built names⟩

theorem leafNames_plain (c : Checker) :
    (single "a" c).root.LeafNames fun name => '.' ∉ name.toList := by
  intro up name leaf there
  rw [leafNames_single "a" c up name leaf there]
  decide

/-- Numbers that are to satisfy no options can be checked again. -/
theorem repeatable_siret : (single "a" (.ofSiret {})).Repeatable := by
  refine (repeatable_iff (single_builtIn "a" (Checker.builtIn_siret (o := {}) (Or.inl rfl) rfl))
    (leafNames_plain _)).mpr ?_
  intro c member o shape form
  rw [leaves_single, List.mem_singleton, form] at member
  have options := (Checker.string.inj (Checker.extended.inj (Leaf.checker.inj member)).1).1
  rw [options]
  refine ⟨fun e exactly => ?_, fun _ _ => rfl⟩
  cases exactly

/-- A number that is to have fourteen characters has seventeen when it is put into groups. -/
theorem not_repeatable : ¬∀ schema : Schema, schema.BuiltIn →
    (schema.root.LeafNames fun name => '.' ∉ name.toList) → schema.Repeatable := by
  intro repeatable
  have built := single_builtIn "a"
    (Checker.builtIn_siret (o := { length := .int 14 }) (Or.inl rfl) rfl)
  have settled := settled_of_repeatable built (leafNames_plain _)
    (repeatable _ built (leafNames_plain _)) (by rw [leaves_single]; exact List.mem_singleton_self _)
  have fits := (settled _ _ rfl).2 rfl (Or.inl rfl)
  cases fits

end Schema

end Assay
