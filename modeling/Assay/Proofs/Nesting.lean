import Assay.Proofs.Location
import Assay.Proofs.Rearrangement

/-!
Nesting: a schema under a field name. A check of a mapping with one field against it is the check of
the value of the field, done beside one more mapping and with the name in front of every path. The
two checks take the same steps, in two stores of which one has a mapping more; so nothing in the
stores may refer to a container that is not there yet.
-/

set_option autoImplicit false
set_option relaxedAutoImplicit false

namespace Assay

/-- The path that has a name in front of it. -/
def Path.under (name path : String) : String := if path = "" then name else name ++ "." ++ path

theorem Path.under_child {name key : String} (named : name ≠ "") (described : key ≠ "")
    (path : String) : child (under name path) key = under name (child path key) := by
  by_cases root : path = ""
  · subst root
    rw [under, child, child, if_pos rfl, if_pos rfl, if_neg named, under, if_neg described]
  · have present : name ++ "." ++ path ≠ "" := by simp [String.append_eq_empty_iff, root]
    have inside : path ++ "." ++ key ≠ "" := by simp [String.append_eq_empty_iff, root]
    rw [under, child, child, if_neg root, if_neg root, if_neg present, under, if_neg inside]
    simp only [String.append_assoc]

/-- The failure of a check of a value that stands under a name. -/
def Failure.under (name : String) : Failure → Failure
  | .missing path => .missing (Path.under name path)
  | .invalid path => .invalid (Path.under name path)
  | failure => failure

namespace Context

/-- The context of a value in a check of the mapping that has it under a name. -/
def under (name : String) (ctx : Context) : Context := { ctx with path := Path.under name ctx.path }

theorem descend_under {name : String} (named : name ≠ "") {path : List String}
    (described : ∀ key ∈ path, key ≠ "") (ctx : Context) :
    (ctx.under name).descend path = (ctx.descend path).under name := by
  induction path generalizing ctx with
  | nil => rfl
  | cons key rest ih =>
    have first : (ctx.under name).child key = (ctx.child key).under name :=
      congrArg (fun path => { ctx with path })
        (Path.under_child named (described key List.mem_cons_self) ctx.path)
    have rested := ih (fun other member => described other (List.mem_cons_of_mem key member))
      (ctx.child key)
    rw [← first] at rested
    exact rested

end Context

namespace Store

/-- No container refers to one that is not there. -/
structure Closed (store : Store) : Prop where
  items : ∀ a, ∀ v ∈ store.items a, store.Stands v
  entries : ∀ a, ∀ entry ∈ store.entries a, store.Stands entry.1 ∧ store.Stands entry.2

theorem closed_of_contents {store : Store}
    (items : ∀ items ∈ store.sequences, ∀ v ∈ items, store.Stands v)
    (entries : ∀ entries ∈ store.mappings, ∀ entry ∈ entries,
      store.Stands entry.1 ∧ store.Stands entry.2) : store.Closed := by
  constructor
  · intro a v member
    rw [Store.items] at member
    cases there : store.sequences[a]? with
    | none =>
      rw [there] at member
      cases member
    | some listed =>
      rw [there] at member
      exact items listed (Array.mem_of_getElem? there) v member
  · intro a entry member
    rw [Store.entries] at member
    cases there : store.mappings[a]? with
    | none =>
      rw [there] at member
      cases member
    | some listed =>
      rw [there] at member
      exact entries listed (Array.mem_of_getElem? there) entry member

/-- The store with one more mapping. -/
def beside (store : Store) (entries : Entries) : Store := (store.newMap .plain entries).2

variable {store : Store} {es : Entries} {v : Value}

theorem entries_beside {a : Address} (bound : a < store.mappings.size) :
    (store.beside es).entries a = store.entries a := by
  simp [beside, newMap, Store.entries, Array.getElem?_push_lt, bound]

theorem entries_beside_last : (store.beside es).entries store.mappings.size = es := by
  simp [beside, newMap, Store.entries]

theorem items_beside (a : Address) : (store.beside es).items a = store.items a := rfl

theorem setEntries_beside {a : Address} (bound : a < store.mappings.size) (entries : Entries) :
    (store.beside es).setEntries a entries = (store.setEntries a entries).beside es := by
  simp only [beside, newMap, setEntries, Store.mk.injEq, true_and, and_true]
  refine Array.ext_getElem? fun i => ?_
  simp only [Array.getElem?_setIfInBounds, Array.getElem?_push, Array.size_push,
    Array.size_setIfInBounds]
  grind

theorem setEntries_beside_last (entries : Entries) :
    (store.beside es).setEntries store.mappings.size entries = store.beside entries := by
  simp only [beside, newMap, setEntries, Store.mk.injEq, true_and, and_true]
  refine Array.ext_getElem? fun i => ?_
  simp only [Array.getElem?_setIfInBounds, Array.getElem?_push, Array.size_push]
  grind

theorem Holds.beside {l : Layout} (held : store.Holds l) : (store.beside es).Holds l := by
  intro part member
  have stands := held part member
  cases part with
  | atom a => trivial
  | seq kind a items => exact stands
  | map kind a entries =>
    refine ⟨?_, (entries_beside stands.1).trans stands.2⟩
    change a < (store.mappings.push es).size
    rw [Array.size_push]
    exact Nat.lt_succ_of_lt stands.1

theorem resembles_beside (closed : store.Closed) (stands : store.Stands v) :
    store.Resembles v (store.beside es) v := by
  intro n
  induction n generalizing v with
  | zero => cases v <;> rfl
  | succ n ih =>
    cases v with
    | atom a => rfl
    | seq kind a =>
      rw [freezeWithin, freezeWithin, items_beside]
      congr 1
      exact List.map_congr_left fun item member => ih (closed.items a item member)
    | map kind a =>
      rw [freezeWithin, freezeWithin, entries_beside stands]
      congr 1
      refine List.map_congr_left fun entry member => ?_
      obtain ⟨key, value⟩ := closed.entries a entry member
      rw [ih key, ih value]

theorem stands_field (closed : store.Closed) (name : String) :
    store.Stands (store.field v name) := by
  rw [field]
  cases v.fields? with
  | none => trivial
  | some a =>
    simp only [Entries.get, Entries.valueOf?]
    cases found : (store.entries a).find? (fun entry => entry.1 == Value.text name) with
    | none => trivial
    | some entry => exact (closed.entries a entry (List.mem_of_find?_eq_some found)).2

theorem bound_of_fields? (stands : store.Stands v) {a : Address} (mapping : v.fields? = some a) :
    a < store.mappings.size := by
  cases v with
  | atom b => cases mapping
  | seq kind b => cases mapping
  | map kind b =>
    cases kind with
    | plain | ordered =>
      cases mapping
      exact stands
    | view => cases mapping

theorem field_beside (stands : store.Stands v) (name : String) :
    (store.beside es).field v name = store.field v name := by
  rw [field, field]
  cases mapping : v.fields? with
  | none => rfl
  | some a => simp only [entries_beside (bound_of_fields? stands mapping)]

theorem Closed.setEntries (closed : store.Closed) {entries : Entries}
    (each : ∀ entry ∈ entries, store.Stands entry.1 ∧ store.Stands entry.2) (a : Address) :
    (store.setEntries a entries).Closed := by
  have kept := keeps_setEntries store a entries
  refine ⟨fun b w member => (closed.items b w member).of_keeps kept, fun b entry member => ?_⟩
  have there : store.Stands entry.1 ∧ store.Stands entry.2 := by
    refine setEntries_cases
      (P := fun listed => entry ∈ listed → store.Stands entry.1 ∧ store.Stands entry.2) b ?_ ?_
      member
    · exact closed.entries b entry
    · exact fun _ => each entry
  exact ⟨there.1.of_keeps kept, there.2.of_keeps kept⟩

theorem Closed.newSeq (closed : store.Closed) {items : List Value}
    (each : ∀ item ∈ items, store.Stands item) (kind : SeqKind) :
    (store.newSeq kind items).2.Closed := by
  have kept := keeps_newSeq store kind items
  refine ⟨fun b w member => ?_, fun b entry member => ?_⟩
  · have there : w ∈ store.items b ∨ w ∈ items := by
      simp only [Store.items, Store.newSeq, Array.getElem?_push] at member ⊢
      split at member
      · exact Or.inr member
      · exact Or.inl member
    exact (there.elim (closed.items b w) (each w)).of_keeps kept
  · obtain ⟨key, value⟩ := closed.entries b entry member
    exact ⟨key.of_keeps kept, value.of_keeps kept⟩

end Store

/-- The outcome of a check of a value that stands under a name, when there is one more mapping. -/
def nested {β : Type} (name : String) (es : Entries) :
    EStateM.Result Failure Store β → EStateM.Result Failure Store β
  | .ok r after => .ok r (after.beside es)
  | .error failure after => .error (failure.under name) (after.beside es)

namespace Checker

variable {c : Checker} {store : Store} {es : Entries} {name : String}

private theorem answer_beside (c : Checker) (v : Value) (store : Store) :
    c.answer v (store.beside es) = nested name es (c.answer v store) := by
  rw [answer]
  split
  · rfl
  · split
    · rfl
    · cases c <;> rfl

private theorem failure_under (c : Checker) (v : Value) (ctx : Context) :
    c.failure v (ctx.under name) = (c.failure v ctx).under name := by
  have refused : refusal v (ctx.under name) = (refusal v ctx).under name := by
    rw [refusal, refusal]
    split <;> rfl
  rw [failure, failure, refused]
  cases c.fault? v <;> split <;> rfl

section

variable {l : Layout} (held : store.Holds l) (closed : store.Closed)
  (stands : ∀ option ∈ c.holdings, store.Stands option) (ctx : Context) (name : String)
  (es : Entries)

include held closed

include stands in
private theorem checkBasic_beside :
    c.checkBasic l.value (ctx.under name) (store.beside es) =
      nested name es (c.checkBasic l.value ctx store) := by
  have agrees : c.admits (store.beside es) ctx.mode l.value = c.admits store ctx.mode l.value :=
    admits_of_resembles held held.beside
      (fun option member => Store.resembles_beside closed (stands option member)) ctx.mode
  have admitted : c.admits (store.beside es) (ctx.under name).mode l.value =
      c.admits store ctx.mode l.value := agrees
  rw [checkBasic_eq, checkBasic_eq, admitted]
  split
  · exact answer_beside c l.value store
  · rw [failure_under]
    rfl

include stands in
/-- A built-in checker answers as it does without the mapping beside the others. -/
theorem Made.check_beside (made : c.Made) :
    c.check l.value (ctx.under name) (store.beside es) =
      nested name es (c.check l.value ctx store) := by
  cases made with
  | boolean | number | string | array => exact checkBasic_beside held closed stands ctx name es
  | @ipv6 o exact =>
    have basic := checkBasic_beside (c := .string o (some Shapes.ipv6)) held closed stands ctx name
      es
    rw [check_ipv6, check_ipv6, basic]
    cases (Checker.string o (some Shapes.ipv6)).checkBasic l.value ctx store with
    | error failure after => rfl
    | ok r after =>
      simp only [nested]
      split <;> rfl
  | @siret o exact =>
    have basic := checkBasic_beside (c := .string o (some Shapes.siret)) held closed stands ctx
      name es
    rw [check_siret, check_siret, basic]
    cases (Checker.string o (some Shapes.siret)).checkBasic l.value ctx store with
    | error failure after => rfl
    | ok r after =>
      simp only [nested]
      split
      · rfl
      · cases l.value.text? with
        | none => rfl
        | some s =>
          simp only
          cases verdict : Luhn.validText (Text.dropBlanks s.toList) with
          | error failure =>
            rw [Luhn.validText] at verdict
            split at verdict
            · cases verdict
            · cases verdict
              rfl
          | ok valid => cases valid <;> rfl

end

section

variable {before after : Store} (closed : before.Closed) {v : Value} (given : before.Stands v)
  (stands : ∀ option ∈ c.holdings, before.Stands option) {r : Value}

include closed given stands

private theorem closed_of_answer (answered : c.answer v before = .ok r after) :
    after.Closed ∧ after.Stands r := by
  rcases answer_cases answered with ⟨_, rfl, rfl⟩ | ⟨_, _, rfl, rfl⟩ | ⟨_, _, kept⟩
  · exact ⟨closed, trivial⟩
  · exact ⟨closed, given⟩
  · rcases exactValue_cases kept with ⟨_, rfl, rfl⟩ | ⟨o, expected, rfl, new⟩
    · exact ⟨closed, stands _ (mem_holdings_get c .value)⟩
    · obtain ⟨rfl, rfl⟩ := Prod.mk.inj new
      refine ⟨closed.newSeq (fun item member => ?_) .list, ?_⟩
      · exact stands item (List.mem_append_right _ member)
      · change before.sequences.size < (before.sequences.push _).size
        rw [Array.size_push]
        exact Nat.lt_succ_self _

theorem Made.closed_of_check (made : c.Made) {ctx : Context}
    (checked : c.check v ctx before = .ok r after) : after.Closed ∧ after.Stands r := by
  cases made with
  | boolean | number | string | array =>
    exact closed_of_answer closed given stands (checkBasic_ok checked).2
  | ipv6 =>
    exact closed_of_answer closed given stands (checkBasic_ok (check_ipv6_ok checked).1).2
  | siret =>
    obtain ⟨r', based, replaced⟩ := check_siret_ok checked
    have answered := closed_of_answer closed given stands (checkBasic_ok based).2
    rcases replaced with ⟨_, rfl⟩ | ⟨s, _, _, rfl⟩
    · exact answered
    · refine ⟨answered.1, ?_⟩
      split
      · trivial
      · exact answered.2

end

end Checker

namespace Tree

variable {α : Type} {store : Store} {es : Entries} {v : Value}

theorem agenda_beside (closed : store.Closed) (stands : store.Stands v) (t : Tree α)
    (path : List String) (place : Option (Address × String)) (es : Entries) :
    agenda (store.beside es) t path place v = agenda store t path place v := by
  induction t generalizing path place v with
  | leaf content => rfl
  | branch fields ih =>
    rw [agenda, agenda, fieldAgenda_eq, fieldAgenda_eq]
    congr 1
    refine List.flatMap_congr fun field member => ?_
    rw [Store.field_beside stands]
    exact ih field member (store.stands_field closed field.1) _ _

theorem stored_beside {ctx : Context} {name : String} {parent : Option Address} (r : Value)
    (fits : ∀ a, parent = some a → (ctx.under name).key = ctx.key ∧ a < store.mappings.size) :
    stored (ctx.under name) parent r (store.beside es) = (stored ctx parent r store).beside es := by
  cases parent with
  | none => rfl
  | some a =>
    obtain ⟨key, bound⟩ := fits a rfl
    rw [stored, stored, Store.entries_beside bound, Store.setEntries_beside bound, key]
    exact (apply_ite (fun later => Store.beside later es) _ _ _).symm

end Tree

namespace Schema

variable {schema : Schema} {store : Store} {v : Value} {mode : Mode} {name : String}
  {es : Entries}

section

variable (built : schema.BuiltIn) (plain : schema.root.PlainNames) (shaped : store.TreeShaped v)
  (stands : ∀ c, .checker c ∈ schema.root.leaves → ∀ option ∈ c.holdings, store.Stands option)
  (named : Path.Plain name) {now : Store}
  (kept : Store.Keeps (Tree.entered (schema.root.agenda store [] none v)) store now)
  (closed : now.Closed)

include built plain shaped stands named kept closed

private theorem run_ask_beside {path : List String} {place : Option (Address × String)}
    {given : Value} {leaf : Leaf}
    (asked : .ask path place given leaf ∈ schema.root.agenda store [] none v) :
    (Step.ask path place given leaf).run Leaf.call ((top mode).under name) (now.beside es) =
      nested name es ((Step.ask path place given leaf).run Leaf.call (top mode) now) := by
  have there := (Tree.at?_of_ask built.distinct asked).1
  have keys := plain _ ((Tree.mem_nodes_iff built.distinct).mpr there)
  have listed := built.leaf_of_ask asked
  obtain ⟨c, rfl, made⟩ := built.leaves leaf listed
  obtain ⟨part, rfl, whole⟩ := Tree.given_stands built.distinct shaped asked
  have answer := made.made.check_beside (whole now kept) closed
    (fun option inside => (stands c listed option inside).of_keeps kept) ((top mode).descend path)
    name es
  have below := Context.descend_under named.1 (fun key inside => (keys key inside).1) (top mode)
  rw [Step.run_ask, Step.run_ask, below, Leaf.call_checker, Leaf.call_checker, answer]
  cases called : c.check part.value ((top mode).descend path) now with
  | error failure after => rfl
  | ok r after =>
    refine congrArg (EStateM.Result.ok ()) (Tree.stored_beside r fun a inside => ?_)
    obtain ⟨⟨b, key⟩, rfl, rfl⟩ := Option.map_eq_some_iff.mp inside
    obtain ⟨up, fields, above, mapping, rfl, _⟩ := Tree.mapping_of_ask built.distinct asked
    have plainKey := (keys key (List.mem_append_right up (List.mem_singleton_self key))).2
    constructor
    · rw [← below, Context.descend_concat, Context.descend_concat, Context.key_child _ plainKey,
        Context.key_child _ plainKey]
    · rw [(made.made.calm.keeps called).mappings, kept.mappings]
      exact (Tree.bound_of_branch shaped above mapping).2

private theorem run_beside {step : Step Leaf}
    (member : step ∈ schema.root.agenda store [] none v) :
    step.run Leaf.call ((top mode).under name) (now.beside es) =
      nested name es (step.run Leaf.call (top mode) now) := by
  rcases Tree.path_of_mem_agenda built.distinct member with
    ⟨path, fields, there, rfl⟩ | ⟨path, leaf, place, _, rfl, _⟩
  · have keys := plain _ ((Tree.mem_nodes_iff built.distinct).mpr there)
    rw [List.nil_append]
    cases mapping : (store.valueAt v path).fields? with
    | none =>
      rw [Step.run_enter_none, Step.run_enter_none,
        Context.descend_under named.1 fun key inside => (keys key inside).1]
      rfl
    | some a =>
      have bound : a < now.mappings.size := by
        rw [kept.mappings]
        exact (Tree.bound_of_branch shaped there mapping).2
      rw [Step.run_enter_some, Step.run_enter_some, Store.entries_beside bound,
        Store.setEntries_beside bound]
      rfl
  · exact run_ask_beside built plain shaped stands named kept closed member

omit plain named in
private theorem closed_of_run {step : Step Leaf}
    (member : step ∈ schema.root.agenda store [] none v) {ctx : Context} {after : Store}
    (ran : step.run Leaf.call ctx now = .ok () after) : after.Closed := by
  cases step with
  | enter path mapping names =>
    cases mapping with
    | none => cases ran
    | some a =>
      cases ran
      exact closed.setEntries
        (fun entry inside => closed.entries a entry (List.mem_filter.mp inside).1) a
  | ask path place given leaf =>
    obtain ⟨r, between, called, rfl⟩ := Step.run_ask_ok ran
    have listed := built.leaf_of_ask member
    obtain ⟨c, rfl, made⟩ := built.leaves leaf listed
    obtain ⟨part, rfl, whole⟩ := Tree.given_stands built.distinct shaped member
    obtain ⟨later, there⟩ := made.made.closed_of_check closed
      (Store.stands_of_holds (whole now kept))
      (fun option inside => (stands c listed option inside).of_keeps kept) called
    cases place with
    | none => exact later
    | some target =>
      rw [Option.map_some, Tree.stored]
      split
      · exact later
      · refine later.setEntries (fun entry inside => ?_) target.1
        rcases Entries.mem_put inside with old | rfl
        · exact later.entries target.1 entry old
        · exact ⟨trivial, there⟩

end

section

variable (built : schema.BuiltIn) (plain : schema.root.PlainNames) (shaped : store.TreeShaped v)
  (stands : ∀ c, .checker c ∈ schema.root.leaves → ∀ option ∈ c.holdings, store.Stands option)
  (named : Path.Plain name)

include built plain shaped stands named

private theorem runAll_beside (es : Entries) {early late : List (Step Leaf)}
    (split : schema.root.agenda store [] none v = early ++ late) {now : Store}
    (ran : Step.runAll Leaf.call (top mode) early store = .ok () now) (closed : now.Closed) :
    Step.runAll Leaf.call ((top mode).under name) late (now.beside es) =
      nested name es (Step.runAll Leaf.call (top mode) late now) := by
  induction late generalizing early now with
  | nil => rfl
  | cons step rest ih =>
    have names := fun _ : mode.sanitize = true => plain.leafNames built.distinct
    have kept := built.keeps_early mode names split ran
    have member : step ∈ schema.root.agenda store [] none v :=
      split ▸ List.mem_append_right early List.mem_cons_self
    rw [Step.runAll_cons, Step.runAll_cons,
      run_beside built plain shaped stands named kept closed member]
    cases first : step.run Leaf.call (top mode) now with
    | error failure after => rfl
    | ok _ after =>
      have further : Step.runAll Leaf.call (top mode) (early ++ [step]) store = .ok () after := by
        rw [Step.runAll_concat, ran]
        exact first
      exact ih (split.trans (List.append_cons early step rest)) further
        (closed_of_run built shaped stands kept closed member first)

end

/-- A schema that asks for a mapping with one field, which a schema is for. -/
def under (name : String) (schema : Schema) : Schema :=
  { schema with root := .branch [(name, schema.root)] }

/-- What is made of a mapping with one definition is what is made of the definition, under its name.
-/
theorem ofDefinition_under {definition : Definition}
    (made : ofDefinition definition mode = .ok schema) (name : String) :
    ofDefinition (.fields [(.name name, definition)]) mode = .ok (schema.under name) := by
  rw [ofDefinition] at made
  cases compiled : definition.compile "" with
  | error fault =>
    rw [compiled] at made
    cases made
  | ok root =>
    rw [compiled] at made
    cases made
    have fields : Definition.compileFields "" [(.name name, definition)] = .ok [(name, root)] :=
      (Definition.compileFields_cons_ok_iff _ _ _ _ _).mpr
        ⟨root, [], Definition.compile_at compiled _, rfl, rfl⟩
    have outer := (Definition.compile_fields_ok_iff _ _ _).mpr ⟨_, fields, rfl⟩
    rw [ofDefinition, outer]
    rfl

private theorem child_top (name : String) : (top mode).child name = (top mode).under name := by
  rw [Context.child, Context.under, Path.child, Path.under, if_pos rfl, if_pos rfl]

private theorem check_under (schema : Schema) (name : String) (mode : Mode) (v : Value)
    (store : Store) :
    (schema.under name).check mode (.map .plain store.mappings.size)
        (store.beside [(.text name, v)]) =
      match schema.root.check Leaf.call v ((top mode).under name) (some store.mappings.size)
          (store.beside [(.text name, v)]) with
      | .ok _ after => .ok (.map .plain store.mappings.size) after
      | .error failure after => .error failure after := by
  have pruned : Entries.restrict [(.text name, v)] [name] = [(.text name, v)] := by
    simp [Entries.restrict]
  have field : Entries.get [(.text name, v)] name = v := by simp [Entries.get, Entries.valueOf?]
  change Tree.check _ (.branch [(name, schema.root)]) _ (top mode) none _ = _
  rw [Tree.check_branch]
  simp only [Value.fields?, List.map_cons, List.map_nil, Store.entries_beside_last, pruned,
    Store.setEntries_beside_last, Tree.checkFields_cons, field, Tree.discard_eq, child_top]
  cases schema.root.check Leaf.call v ((top mode).under name) (some store.mappings.size)
    (store.beside [(.text name, v)]) <;> rfl

section

variable (built : schema.BuiltIn) (named : Path.Plain name) (shaped : store.TreeShaped v)
  (closed : store.Closed)
  (stands : ∀ c, .checker c ∈ schema.root.leaves → ∀ option ∈ c.holdings, store.Stands option)

include built named shaped closed stands

private theorem check_leaf_beside {leaf : Leaf} (root : schema.root = .leaf leaf) :
    schema.root.check Leaf.call v ((top mode).under name) (some store.mappings.size)
        (store.beside [(.text name, v)]) =
      match schema.check mode v store with
      | .ok r after => .ok r (after.beside [(.text name, r)])
      | .error failure after =>
        .error (failure.under name) (after.beside [(.text name, v)]) := by
  have listed : leaf ∈ schema.root.leaves := by
    rw [root, Tree.leaves]
    exact List.mem_singleton_self leaf
  obtain ⟨c, rfl, made⟩ := built.leaves leaf listed
  obtain ⟨l, rfl, held, _⟩ := shaped
  have answer := made.made.check_beside held closed (stands c listed) (top mode) name
    [(.text name, l.value)]
  rw [Schema.check, root, Tree.check_leaf, Tree.check_leaf, Leaf.call_checker, Leaf.call_checker,
    answer]
  cases called : c.check l.value (top mode) store with
  | error failure after => rfl
  | ok r after =>
    have size : store.mappings.size = after.mappings.size :=
      (made.made.calm.keeps called).mappings.symm
    have key : ((top mode).under name).key = name := by
      rw [← child_top]
      exact Context.key_child _ named.2
    have put : Entries.put [(.text name, l.value)] name r = [(.text name, r)] := by
      simp [Entries.put]
    have modes : ((top mode).under name).mode = mode := rfl
    simp only [nested, Tree.stored, key, modes, size, Store.entries_beside_last,
      Store.setEntries_beside_last, put]
    split <;> rfl

private theorem check_branch_beside (plain : schema.root.PlainNames)
    {fields : List (String × Tree Leaf)} (root : schema.root = .branch fields) :
    schema.root.check Leaf.call v ((top mode).under name) (some store.mappings.size)
        (store.beside [(.text name, v)]) =
      match schema.check mode v store with
      | .ok r after => .ok r (after.beside [(.text name, r)])
      | .error failure after =>
        .error (failure.under name) (after.beside [(.text name, v)]) := by
  have nodup := built.nodup_entered shaped
  have names := fun _ : mode.sanitize = true => plain.leafNames built.distinct
  have there : store.Stands v := by
    obtain ⟨l, rfl, held, _⟩ := shaped
    exact Store.stands_of_holds held
  have agenda := Tree.agenda_beside closed there schema.root [] none [(.text name, v)]
  have tame := built.tame_at ((top mode).under name) names (store.beside [(.text name, v)]) v
  have outer := Tree.check_eq_runAll built.distinct tame (agenda ▸ nodup)
  have inner := built.check_eq_runAll names nodup
  have steps := runAll_beside built plain shaped stands named [(.text name, v)]
    (List.nil_append _).symm (Step.runAll_nil Leaf.call (top mode) store) closed
  rw [agenda, steps, ← inner] at outer
  have parentless : schema.root.check Leaf.call v ((top mode).under name)
      (some store.mappings.size) (store.beside [(.text name, v)]) =
        schema.root.check Leaf.call v ((top mode).under name) none
          (store.beside [(.text name, v)]) := by
    rw [root, Tree.check_branch, Tree.check_branch]
  rw [parentless]
  cases checked : schema.check mode v store with
  | error failure after =>
    rw [(Tree.discard_error_iff _ store after failure).mpr checked] at outer
    exact (Tree.discard_error_iff _ _ _ _).mp outer
  | ok r after =>
    rw [(Tree.discard_ok_iff _ store after).mpr ⟨r, checked⟩] at outer
    obtain ⟨result, same⟩ := (Tree.discard_ok_iff _ _ _).mp outer
    have kept : result = v := by
      rw [root] at same
      exact Tree.result_branch Leaf.call same
    obtain rfl := result_branch root checked
    rw [same, kept]

/-- A check of a mapping with one field goes as the check of the value of the field. -/
theorem check_nested (plain : schema.root.PlainNames) {definition : Definition} {defaults : Mode}
    (made : ofDefinition definition defaults = .ok schema) (mode : Mode) :
    ofDefinition (.fields [(.name name, definition)]) defaults = .ok (schema.under name) ∧
      (schema.under name).check mode (.map .plain store.mappings.size)
          (store.beside [(.text name, v)]) =
        match schema.check mode v store with
        | .ok r after =>
          .ok (.map .plain store.mappings.size) (after.beside [(.text name, r)])
        | .error failure after =>
          .error (failure.under name) (after.beside [(.text name, v)]) := by
  refine ⟨ofDefinition_under made name, ?_⟩
  rw [check_under]
  cases root : schema.root with
  | leaf leaf =>
    rw [← root, check_leaf_beside built named shaped closed stands root]
    cases schema.check mode v store <;> rfl
  | branch fields =>
    rw [← root, check_branch_beside built named shaped closed stands plain root]
    cases schema.check mode v store <;> rfl

end

def flagAndInnerDefinition : Definition :=
  .fields [(.name "a", .leaf (.checker (.boolean {}))),
    (.name "b", .fields [(.name "x", .leaf (.checker .mandatoryBoolean))])]

theorem emptyInner_closed : emptyInner.Closed := by
  refine Store.closed_of_contents (by simp [emptyInner]) fun entries listed entry member => ?_
  simp only [emptyInner, List.mem_toArray, List.mem_cons, List.not_mem_nil, or_false] at listed
  rcases listed with rfl | rfl
  · simp only [List.mem_cons, List.not_mem_nil, or_false] at member
    rcases member with rfl | rfl <;> exact ⟨trivial, by simp [Store.Stands, emptyInner]⟩
  · obtain rfl := List.mem_singleton.mp member
    exact ⟨trivial, trivial⟩

theorem flagAndInner_stands : ∀ c, .checker c ∈ flagAndInner.root.leaves →
    ∀ option ∈ c.holdings, emptyInner.Stands option := by
  intro c listed option held
  have leaves : flagAndInner.root.leaves =
      [.checker (.boolean {}), .checker .mandatoryBoolean] := rfl
  simp only [leaves, List.mem_cons, List.not_mem_nil, or_false, Leaf.checker.injEq] at listed
  rcases listed with rfl | rfl <;>
  · obtain ⟨option, _, rfl⟩ := List.mem_map.mp held
    cases option <;> trivial

theorem check_nested_inner :
    flagAndInner.BuiltIn ∧ Path.Plain "k" ∧ emptyInner.TreeShaped (.map .plain 0) ∧
      emptyInner.Closed ∧
      (∀ c, .checker c ∈ flagAndInner.root.leaves → ∀ option ∈ c.holdings,
        emptyInner.Stands option) ∧
      flagAndInner.root.PlainNames ∧ ofDefinition flagAndInnerDefinition {} = .ok flagAndInner ∧
      ofDefinition (.fields [(.name "k", flagAndInnerDefinition)]) {} =
          .ok (flagAndInner.under "k") ∧
        ∃ after, (flagAndInner.under "k").check {} (.map .plain 2)
            (emptyInner.beside [(.text "k", .map .plain 0)]) = .error (.missing "k.b.x") after := by
  have named : Path.Plain "k" := by decide
  have made : ofDefinition flagAndInnerDefinition {} = .ok flagAndInner := rfl
  obtain ⟨outer, checked⟩ := check_nested flagAndInner_builtIn named emptyInner_treeShaped
    emptyInner_closed flagAndInner_stands flagAndInner_plainNames made {}
  exact ⟨flagAndInner_builtIn, named, emptyInner_treeShaped, emptyInner_closed,
    flagAndInner_stands, flagAndInner_plainNames, rfl, outer, _, checked⟩

end Schema

end Assay
