import Assay.Proofs.Paths
import Assay.Proofs.Transport

/-!
Schemas over checkers of the built-in kinds, and the agendas of their checks.
-/

set_option autoImplicit false
set_option relaxedAutoImplicit false

namespace Assay

namespace Tree

variable {α : Type}

/-- What holds of the name of every field that a leaf describes. -/
def LeafNames (allowed : String → Prop) (t : Tree α) : Prop :=
  ∀ up name content, t.at? (up ++ [name]) = some (.leaf content) → allowed name

theorem mem_leaves_of_at? {t : Tree α} {rel : List String} {content : α}
    (there : t.at? rel = some (.leaf content)) : content ∈ t.leaves := by
  induction rel generalizing t with
  | nil =>
    rw [Option.some.inj there, leaves]
    exact List.mem_singleton_self content
  | cons name rest ih =>
    cases t with
    | leaf other => cases there
    | branch fields =>
      simp only [at?, field?] at there
      obtain ⟨tree, found, there⟩ := Option.bind_eq_some_iff.mp there
      rw [leaves, fieldLeaves_eq]
      exact List.mem_flatMap.mpr ⟨_, mem_of_lookup found, ih there⟩

theorem keyed_of_leafNames {t : Tree α} (distinct : t.Distinct) (ctx : Context)
    (names : ctx.mode.sanitize = true → t.LeafNames fun name => '.' ∉ name.toList)
    {store : Store} {v : Value} : ∀ step ∈ agenda store t [] none v, step.Keyed ctx := by
  intro step member
  cases step with
  | enter path mapping described => trivial
  | ask path place given content =>
    rintro sanitize a name rfl
    rcases path_of_mem_agenda distinct member with
      ⟨_, _, _, same⟩ | ⟨rel, other, inner, there, same, stands⟩
    · cases same
    · injection same with paths places _ _
      subst paths places
      rcases stands with ⟨_, top⟩ | ⟨up, last, rfl, inside⟩
      · cases top
      · obtain ⟨b, _, pair⟩ := Option.map_eq_some_iff.mp inside.symm
        obtain ⟨_, rfl⟩ := Prod.mk.inj pair
        rw [Context.descend_concat, Context.key_child _ (names sanitize up last other there)]

theorem exists_path_of_mem_leaves {t : Tree α} (distinct : t.Distinct) {content : α}
    (member : content ∈ t.leaves) : ∃ rel, t.at? rel = some (.leaf content) := by
  induction t with
  | leaf other =>
    rw [leaves, List.mem_singleton] at member
    exact ⟨[], by rw [member]; rfl⟩
  | branch fields ih =>
    rw [Distinct, fieldsDistinct_iff] at distinct
    rw [leaves, fieldLeaves_eq] at member
    obtain ⟨⟨name, tree⟩, inside, member⟩ := List.mem_flatMap.mp member
    obtain ⟨rel, there⟩ := ih _ inside (distinct.2 _ inside) member
    refine ⟨name :: rel, ?_⟩
    rw [at?, field?, lookup_of_mem distinct.1 inside]
    exact there

end Tree

theorem Leaf.call_checker (c : Checker) (v : Value) (ctx : Context) :
    (Leaf.checker c).call v ctx = c.check v ctx := rfl

/-- A leaf that is a checker of a built-in kind. -/
def Leaf.BuiltIn (leaf : Leaf) : Prop := ∃ c : Checker, leaf = .checker c ∧ c.BuiltIn

theorem Leaf.BuiltIn.calm {leaf : Leaf} (built : leaf.BuiltIn) : Calm leaf.call := by
  obtain ⟨c, rfl, made⟩ := built
  exact made.made.calm

namespace Schema

/-- A schema whose leaves are checkers of the built-in kinds. The names of the fields of a branch
are different, as they are the keys of a mapping. -/
structure BuiltIn (schema : Schema) : Prop where
  distinct : schema.root.Distinct
  leaves : ∀ leaf ∈ schema.root.leaves, leaf.BuiltIn

abbrev top (mode : Mode) : Context := { path := "", mode }

theorem BuiltIn.checker {schema : Schema} (built : schema.BuiltIn) {c : Checker}
    (member : .checker c ∈ schema.root.leaves) : c.BuiltIn := by
  obtain ⟨other, same, made⟩ := built.leaves _ member
  rw [Leaf.checker.inj same]
  exact made

theorem BuiltIn.leaf_of_ask {schema : Schema} (built : schema.BuiltIn) {store : Store} {v : Value}
    {path : List String} {inner : Option (Address × String)} {given : Value} {leaf : Leaf}
    (member : .ask path inner given leaf ∈ schema.root.agenda store [] none v) :
    leaf ∈ schema.root.leaves :=
  Tree.mem_leaves_of_at? (Tree.at?_of_ask built.distinct member).1

/-- The steps of a check against a built-in schema are tame, unless values may be replaced and a dot
stands in the name of a field with a leaf. -/
theorem BuiltIn.tame_at {schema : Schema} (built : schema.BuiltIn) (ctx : Context)
    (names : ctx.mode.sanitize = true → schema.root.LeafNames fun name => '.' ∉ name.toList)
    (store : Store) (v : Value) :
    ∀ step ∈ schema.root.agenda store [] none v, step.Tame Leaf.call ctx := by
  intro step member
  have keyed := Tree.keyed_of_leafNames built.distinct ctx names step member
  cases step with
  | enter path mapping described => trivial
  | ask path place given content =>
    exact ⟨(built.leaves content (built.leaf_of_ask member)).calm, keyed⟩

theorem BuiltIn.tame {schema : Schema} (built : schema.BuiltIn) (mode : Mode)
    (names : mode.sanitize = true → schema.root.LeafNames fun name => '.' ∉ name.toList)
    (store : Store) (v : Value) :
    ∀ step ∈ schema.root.agenda store [] none v, step.Tame Leaf.call (top mode) :=
  built.tame_at (top mode) names store v

variable {schema : Schema} {store : Store} {v : Value} {mode : Mode}

theorem BuiltIn.nodup_entered (built : schema.BuiltIn) (shaped : store.TreeShaped v) :
    (Tree.entered (schema.root.agenda store [] none v)).Nodup :=
  Tree.nodup_of_treeShaped built.distinct shaped

section

variable {early late : List (Step Leaf)}

theorem BuiltIn.tame_early (built : schema.BuiltIn) (mode : Mode)
    (names : mode.sanitize = true → schema.root.LeafNames fun name => '.' ∉ name.toList)
    (split : schema.root.agenda store [] none v = early ++ late) :
    ∀ step ∈ early, step.Tame Leaf.call (top mode) := fun step member =>
  built.tame mode names store v step (split ▸ List.mem_append_left late member)

theorem BuiltIn.keeps_early (built : schema.BuiltIn) (mode : Mode)
    (names : mode.sanitize = true → schema.root.LeafNames fun name => '.' ∉ name.toList)
    (split : schema.root.agenda store [] none v = early ++ late) {now : Store}
    (ran : Step.runAll Leaf.call (top mode) early store = .ok () now) :
    Store.Keeps (Tree.entered (schema.root.agenda store [] none v)) store now := by
  refine (Step.keeps_runAll (built.tame_early mode names split) ran).mono ?_
  intro a touched
  obtain ⟨step, member, touches⟩ := List.mem_filterMap.mp touched
  have listed : step ∈ schema.root.agenda store [] none v :=
    split ▸ List.mem_append_left late member
  exact (Tree.touched_of_mem_agenda listed touches).resolve_left nofun

theorem BuiltIn.nodup_early (built : schema.BuiltIn) (shaped : store.TreeShaped v)
    (split : schema.root.agenda store [] none v = early ++ late) :
    (Tree.entered early).Nodup := by
  have nodup := built.nodup_entered shaped
  rw [split, Tree.entered_append] at nodup
  exact (List.nodup_append.mp nodup).1

theorem BuiltIn.valueOf?_early (built : schema.BuiltIn) (mode : Mode)
    (names : mode.sanitize = true → schema.root.LeafNames fun name => '.' ∉ name.toList)
    (shaped : store.TreeShaped v) {path : List String} {a : Address} {name : String}
    {given : Value} {leaf : Leaf}
    (split : schema.root.agenda store [] none v =
      early ++ .ask path (some (a, name)) given leaf :: late) {now : Store}
    (ran : Step.runAll Leaf.call (top mode) early store = .ok () now) :
    (now.entries a).valueOf? name = (store.entries a).valueOf? name := by
  obtain ⟨up, fields, there, mapping, rfl, inside, _⟩ := Tree.mapping_of_ask built.distinct
    (split ▸ List.mem_append_right early List.mem_cons_self)
  have spares := Tree.spares_of_split built.distinct (built.nodup_entered shaped) there mapping
    (List.mem_map.mpr ⟨_, inside, rfl⟩) split rfl
  exact Step.valueOf?_runAll (built.tame_early mode names split)
    (fun step listed => spares step (List.mem_append_left late listed)) ran

theorem BuiltIn.valueOf?_of_call (built : schema.BuiltIn) {path : List String} {a : Address}
    {name : String} {given : Value} {leaf : Leaf}
    (member : .ask path (some (a, name)) given leaf ∈ schema.root.agenda store [] none v)
    {ctx : Context} {now after : Store} {r : Value} (called : leaf.call given ctx now = .ok r after)
    (something : r ≠ .null) : (store.entries a).valueOf? name = some given := by
  obtain ⟨_, _, _, _, _, _, stood⟩ := Tree.mapping_of_ask built.distinct member
  cases value : (store.entries a).valueOf? name with
  | some old =>
    rw [stood, Entries.get, value]
    rfl
  | none =>
    rw [stood, Entries.get, value] at called
    exact absurd ((built.leaves leaf (built.leaf_of_ask member)).calm.absent called) something

theorem BuiltIn.valueOf?_called (built : schema.BuiltIn) (mode : Mode)
    (names : mode.sanitize = true → schema.root.LeafNames fun name => '.' ∉ name.toList)
    (shaped : store.TreeShaped v) {path : List String} {a : Address} {name : String}
    {given : Value} {leaf : Leaf}
    (split : schema.root.agenda store [] none v =
      early ++ .ask path (some (a, name)) given leaf :: late) {now after : Store}
    (ran : Step.runAll Leaf.call (top mode) early store = .ok () now) {ctx : Context} {r : Value}
    (called : leaf.call given ctx now = .ok r after) (something : r ≠ .null) :
    (after.entries a).valueOf? name = some given := by
  have member : .ask path (some (a, name)) given leaf ∈ schema.root.agenda store [] none v :=
    split ▸ List.mem_append_right early List.mem_cons_self
  have calm := (built.leaves leaf (built.leaf_of_ask member)).calm
  rw [(calm.keeps called).entries a List.not_mem_nil,
    built.valueOf?_early mode names shaped split ran]
  exact built.valueOf?_of_call member called something

end

theorem BuiltIn.check_eq_runAll (built : schema.BuiltIn)
    (names : mode.sanitize = true → schema.root.LeafNames fun name => '.' ∉ name.toList)
    (nodup : (Tree.entered (schema.root.agenda store [] none v)).Nodup) :
    (discard (schema.check mode v) : CheckM Unit) store =
      Step.runAll Leaf.call (top mode) (schema.root.agenda store [] none v) store :=
  Tree.check_eq_runAll built.distinct (built.tame mode names store v) nodup

theorem BuiltIn.check_ok_iff (built : schema.BuiltIn)
    (names : mode.sanitize = true → schema.root.LeafNames fun name => '.' ∉ name.toList)
    (nodup : (Tree.entered (schema.root.agenda store [] none v)).Nodup) (after : Store) :
    (∃ result, schema.check mode v store = .ok result after) ↔
      Step.runAll Leaf.call (top mode) (schema.root.agenda store [] none v) store =
        .ok () after := by
  rw [← built.check_eq_runAll names nodup, Tree.discard_ok_iff]

theorem BuiltIn.check_error_iff (built : schema.BuiltIn)
    (names : mode.sanitize = true → schema.root.LeafNames fun name => '.' ∉ name.toList)
    (nodup : (Tree.entered (schema.root.agenda store [] none v)).Nodup) (failure : Failure)
    (after : Store) :
    schema.check mode v store = .error failure after ↔
      Step.runAll Leaf.call (top mode) (schema.root.agenda store [] none v) store =
        .error failure after := by
  rw [← built.check_eq_runAll names nodup, Tree.discard_error_iff]

theorem result_branch {fields : List (String × Tree Leaf)} (root : schema.root = .branch fields)
    {result : Value} {after : Store} (checked : schema.check mode v store = .ok result after) :
    result = v := by
  rw [check, root] at checked
  exact Tree.result_branch _ checked

def calls (schema : Schema) (mode : Mode) (v : Value) (store : Store) : List (Call Leaf) :=
  schema.root.calls Leaf.call [] v (top mode) none store

theorem BuiltIn.calls_eq_calls (built : schema.BuiltIn)
    (names : mode.sanitize = true → schema.root.LeafNames fun name => '.' ∉ name.toList)
    (nodup : (Tree.entered (schema.root.agenda store [] none v)).Nodup) :
    schema.calls mode v store =
      Step.calls Leaf.call (top mode) (schema.root.agenda store [] none v) store :=
  Tree.calls_eq_calls built.distinct (built.tame mode names store v) nodup

theorem BuiltIn.call_unique (built : schema.BuiltIn)
    (names : mode.sanitize = true → schema.root.LeafNames fun name => '.' ∉ name.toList)
    (nodup : (Tree.entered (schema.root.agenda store [] none v)).Nodup) {c c' : Call Leaf}
    (member : c ∈ schema.calls mode v store) (member' : c' ∈ schema.calls mode v store)
    (same : c.path = c'.path) : c = c' := by
  rw [built.calls_eq_calls names nodup] at member member'
  exact List.inj_on_of_nodup_map (Tree.nodup_calls built.distinct store) member member' same

theorem BuiltIn.store_of_run_error (built : schema.BuiltIn) {step : Step Leaf}
    (member : step ∈ schema.root.agenda store [] none v) {before after : Store} {failure : Failure}
    (failed : step.run Leaf.call (top mode) before = .error failure after) : after = before := by
  rcases Step.run_error failed with ⟨_, _, _, _, same⟩ | ⟨path, place, given, leaf, rfl, called⟩
  · exact same
  · obtain ⟨c, rfl, made⟩ := built.leaves leaf (built.leaf_of_ask member)
    exact made.made.store_of_error called

/-- A leaf that is asked about its value in two stores answers alike in both, when they have the
value in common and differ in no mapping that the options of the checkers hold. -/
theorem BuiltIn.call_congr (built : schema.BuiltIn) (shaped : store.TreeShaped v)
    {first second : Store}
    (one : Store.Keeps (Tree.entered (schema.root.agenda store [] none v)) store first)
    (two : Store.Keeps (Tree.entered (schema.root.agenda store [] none v)) store second)
    {touched : List Address} (kept : Store.Keeps touched first second)
    (clear : ∀ c, .checker c ∈ schema.root.leaves → ∀ option ∈ c.holdings,
      first.Clear touched option) {path : List String}
    {inner : Option (Address × String)} {given : Value} {leaf : Leaf}
    (member : .ask path inner given leaf ∈ schema.root.agenda store [] none v)
    {ctx ctx' : Context} (here : ctx'.path = ctx.path)
    (lenient : ctx'.mode.partialCheck = ctx.mode.partialCheck) :
    (∃ r between r' between', leaf.call given ctx first = .ok r between ∧
        leaf.call given ctx' second = .ok r' between') ∨
      ∃ failure, leaf.call given ctx first = .error failure first ∧
        leaf.call given ctx' second = .error failure second := by
  obtain ⟨part, rfl, stands⟩ := Tree.given_stands built.distinct shaped member
  have listed := built.leaf_of_ask member
  obtain ⟨c, rfl, made⟩ := built.leaves leaf listed
  exact made.made.check_of_clear kept (stands first one) (stands second two) (clear c listed) here
    lenient

theorem BuiltIn.run_congr (built : schema.BuiltIn) (mode : Mode) (shaped : store.TreeShaped v)
    {touched : List Address}
    (within : touched ⊆ Tree.entered (schema.root.agenda store [] none v))
    (clear : ∀ c, .checker c ∈ schema.root.leaves → ∀ option ∈ c.holdings,
      store.Clear touched option) {step : Step Leaf}
    (member : step ∈ schema.root.agenda store [] none v) {first second : Store}
    (one : Store.Keeps touched store first) (two : Store.Keeps touched store second) :
    ((∃ after, step.run Leaf.call (top mode) first = .ok () after) ∧
        ∃ after, step.run Leaf.call (top mode) second = .ok () after) ∨
      ∃ failure, step.run Leaf.call (top mode) first = .error failure first ∧
        step.run Leaf.call (top mode) second = .error failure second := by
  cases step with
  | enter path mapping names =>
    cases mapping with
    | none => exact Or.inr ⟨_, rfl, rfl⟩
    | some a => exact Or.inl ⟨⟨_, rfl⟩, ⟨_, rfl⟩⟩
  | ask path place given leaf =>
    have ground := Store.Keeps.refl (Tree.entered (schema.root.agenda store [] none v)) store
    have alike := fun (now : Store) (kept : Store.Keeps touched store now) =>
      built.call_congr shaped ground (kept.mono within) kept clear member
        (Eq.refl ((top mode).descend path).path)
        (Eq.refl ((top mode).descend path).mode.partialCheck)
    rw [Step.run_ask_ok_iff, Step.run_ask_ok_iff, Step.run_ask, Step.run_ask]
    rcases alike first one with ⟨r, _, r', between, asked, called⟩ | ⟨failure, refused, failed⟩
    · rcases alike second two with ⟨_, _, s, later, _, called'⟩ | ⟨_, refused, _⟩
      · exact Or.inl ⟨⟨r', between, called⟩, ⟨s, later, called'⟩⟩
      · rw [refused] at asked
        cases asked
    · rcases alike second two with ⟨_, _, _, _, asked, _⟩ | ⟨failure', refused', failed'⟩
      · rw [refused] at asked
        cases asked
      · rw [refused] at refused'
        cases refused'
        rw [failed, failed']
        exact Or.inr ⟨failure, rfl, rfl⟩

def single (name : String) (c : Checker) : Schema where
  root := .branch [(name, .leaf (.checker c))]

theorem leaves_single (name : String) (c : Checker) :
    (single name c).root.leaves = [.checker c] := by
  rw [single, Tree.leaves, Tree.fieldLeaves, Tree.fieldLeaves, Tree.leaves, List.append_nil]

theorem single_builtIn (name : String) {c : Checker} (made : c.BuiltIn) :
    (single name c).BuiltIn := by
  refine ⟨⟨List.nodup_singleton name, trivial, trivial⟩, fun leaf member => ?_⟩
  rw [leaves_single, List.mem_singleton] at member
  exact ⟨c, member, made⟩

end Schema

end Assay
