import Assay.Checker.Stock
import Assay.Proofs.Order

/-!
The trace of a check: the calls of leaves that it makes, one after another. The leaves may give what
they like, fail, and change their own values, but nothing else. Then they are called in the order of
definition, each with the value that stood at its path in the beginning and with a context for its
path, until one of them fails or there is no mapping for a branch.
-/

set_option autoImplicit false
set_option relaxedAutoImplicit false

namespace Assay

namespace Call

variable {α : Type}

def leafNode (c : Call α) : List String × α := (c.path, c.content)

/-- The call gives a value. -/
def Returns (call : α → Value → Context → CheckM Value) (c : Call α) : Prop :=
  ∃ r after, call c.content c.given c.ctx c.store = .ok r after

/-- A call that returns has changed no container that was there in the beginning, but for those that
its value held then. -/
structure OwnOnly (call : α → Value → Context → CheckM Value) (ground : Store) (c : Call α) :
    Prop where
  mappings : ∀ r after, call c.content c.given c.ctx c.store = .ok r after →
    ∀ a < ground.mappings.size, (∀ kind, ¬ground.Reaches c.given (.map kind a)) →
      after.entries a = c.store.entries a
  sequences : ∀ r after, call c.content c.given c.ctx c.store = .ok r after →
    ∀ a < ground.sequences.size, (∀ kind, ¬ground.Reaches c.given (.seq kind a)) →
      after.items a = c.store.items a

end Call

namespace Step

variable {α : Type} {call : α → Value → Context → CheckM Value} {ctx : Context}

theorem returns_of_runAll {steps : List (Step α)} {before after : Store}
    (ran : runAll call ctx steps before = .ok () after) {c : Call α}
    (member : c ∈ calls call ctx steps before) : c.Returns call := by
  obtain ⟨first, last, split⟩ := List.append_of_mem member
  obtain ⟨here, early, place, late, rfl, passed, _⟩ := split_of_calls split
  rw [runAll_append, passed] at ran
  obtain ⟨between, asked, _⟩ := runAll_cons_ok ran
  obtain ⟨r, later, called, _⟩ := run_ask_ok asked
  refine ⟨r, later, ?_⟩
  rw [here]
  exact called

theorem items_runAll {steps : List (Step α)} (keyed : ∀ step ∈ steps, step.Keyed ctx) {a : Address}
    {before after : Store}
    (quiet : ∀ c ∈ calls call ctx steps before, ∀ r later,
      call c.content c.given c.ctx c.store = .ok r later → later.items a = c.store.items a)
    (ran : runAll call ctx steps before = .ok () after) : after.items a = before.items a := by
  induction steps generalizing before with
  | nil =>
    cases ran
    rfl
  | cons step rest ih =>
    obtain ⟨between, first, later⟩ := runAll_cons_ok ran
    rw [calls_cons, first] at quiet
    have rested := ih (fun s member => keyed s (List.mem_cons_of_mem step member))
      (fun c member => quiet c (List.mem_append_right _ member)) later
    rw [rested]
    rcases run_cases_of_keyed (keyed step List.mem_cons_self) first with
      ⟨path, b, names, rfl, rfl⟩ | ⟨path, place, given, content, r, middle, rfl, called, wrote⟩
    · exact Store.items_setEntries before b a _
    · have own : middle.items a = before.items a := by
        refine quiet ⟨path, content, given, ctx.descend path, before⟩ ?_ r middle called
        rw [calls_ask]
        exact List.mem_append_left _ (List.mem_singleton_self _)
      rcases wrote with ⟨rfl, _⟩ | ⟨b, name, _, _, _, rfl⟩
      · exact own
      · rw [Store.items_setEntries, own]

end Step

namespace Tree

variable {α : Type} {call : α → Value → Context → CheckM Value} {ctx : Context}

section

variable {ground : Store} {v : Value} {passed : List (List String × Tree α)}

private theorem leafNode_of_step (node : List String × Tree α) (now : Store) :
    (Step.calls call ctx [stepAt ground [] none v node] now).map Call.leafNode =
      (leaf? node).toList := by
  obtain ⟨path, sub⟩ := node
  cases sub with
  | branch fields =>
    rw [stepAt, Step.calls_enter]
    rfl
  | leaf content =>
    rw [stepAt, Step.calls_ask]
    rfl

theorem leafNodes_of_run {before after : Store}
    (ran : Step.runAll call ctx (passed.map (stepAt ground [] none v)) before = .ok () after) :
    (Step.calls call ctx (passed.map (stepAt ground [] none v)) before).map Call.leafNode =
      passed.filterMap leaf? := by
  induction passed generalizing before with
  | nil => rfl
  | cons node rest ih =>
    rw [List.map_cons] at ran ⊢
    obtain ⟨between, first, later⟩ := Step.runAll_cons_ok ran
    rw [Step.calls_cons, first, List.map_append, leafNode_of_step, ih later, List.filterMap_cons]
    cases leaf? node <;> rfl

theorem leafNodes_of_error {node : List String × Tree α} {later : List (List String × Tree α)}
    {before between after : Store} {failure : Failure}
    (ran : Step.runAll call ctx (passed.map (stepAt ground [] none v)) before = .ok () between)
    (stopped : (stepAt ground [] none v node).run call ctx between = .error failure after) :
    (Step.calls call ctx ((passed ++ node :: later).map (stepAt ground [] none v)) before).map
        Call.leafNode = (passed ++ [node]).filterMap leaf? := by
  rw [List.map_append, List.map_cons, Step.calls_of_error ran stopped, List.map_append,
    leafNodes_of_run ran, leafNode_of_step, List.filterMap_append, List.filterMap_cons]
  cases leaf? node <;> rfl

end

section

variable {ground : Store} {v : Value} {t : Tree α}

theorem spares_of_ownOnly (distinct : t.Distinct) (shaped : ground.TreeShaped v) {c : Call α}
    (own : c.OwnOnly call ground)
    (asked : ∃ inner, .ask c.path inner c.given c.content ∈ agenda ground t [] none v) {b : Address}
    (enters : b ∈ entered (agenda ground t [] none v)) : c.Spares call b := by
  obtain ⟨l, rfl, held, nodup⟩ := shaped
  obtain ⟨inner, asked⟩ := asked
  obtain ⟨part, value, stands, _, separate⟩ := given_apart distinct held nodup asked
  intro r after called
  have bound : b < ground.mappings.size :=
    Store.lt_of_mem_mappings held (entered_subset t held [] none enters)
  refine own.mappings r after called b bound fun kind reached => ?_
  rw [← value] at reached
  exact separate (Store.mem_mappings_of_reaches stands reached) enters

end

end Tree

namespace Schema

/-- What the calls of a check are. They go through the leaves of the schema in the order of
definition, and no leaf is called twice. A leaf gets the value that the data held at its path in the
beginning, with all that was in it, unless a sequence in it is in the value of a leaf called before
too. The context holds the path of the leaf and the modes of the check. -/
structure Traced (schema : Schema) (mode : Mode) (v : Value) (ground : Store) : Prop where
  leaves : (schema.calls mode v ground).map Call.leafNode <+: schema.root.leafNodes
  once : ((schema.calls mode v ground).map Call.path).Nodup
  given : ∀ call ∈ schema.calls mode v ground, call.given = ground.valueAt v call.path
  context : ∀ call ∈ schema.calls mode v ground, call.ctx = { path := Path.dotted call.path, mode }
  mappings : ∀ call ∈ schema.calls mode v ground, ∀ kind a,
    ground.Reaches call.given (.map kind a) → call.store.entries a = ground.entries a
  sequences : ∀ early call late, schema.calls mode v ground = early ++ call :: late →
    ∀ kind a, ground.Reaches call.given (.seq kind a) →
      (∀ other ∈ early, ∀ kind, ¬ground.Reaches other.given (.seq kind a)) →
        call.store.items a = ground.items a

/-- There is a mapping for every branch among some nodes. -/
def MappingsAt (v : Value) (ground : Store) (nodes : List (List String × Tree Leaf)) : Prop :=
  ∀ path fields, (path, .branch fields) ∈ nodes → ∃ a, (ground.valueAt v path).fields? = some a

/-- All leaves are called, all calls return, and there is a mapping for every branch. -/
structure Completes (schema : Schema) (mode : Mode) (v : Value) (ground : Store) : Prop where
  leaves : (schema.calls mode v ground).map Call.leafNode = schema.root.leafNodes
  returns : ∀ call ∈ schema.calls mode v ground, call.Returns Leaf.call
  mappings : MappingsAt v ground schema.root.nodes

/-- Why a check stops at a node: there is no mapping for a branch and all calls have returned, or a
leaf fails in the last call. -/
def FailsFor (schema : Schema) (mode : Mode) (v : Value) (ground : Store) (failure : Failure) :
    List String × Tree Leaf → Prop
  | (path, .branch _) =>
    (ground.valueAt v path).fields? = none ∧ failure = .invalid (Path.dotted path) ∧
      ∀ call ∈ schema.calls mode v ground, call.Returns Leaf.call
  | (path, .leaf leaf) =>
    ∃ early call after, schema.calls mode v ground = early ++ [call] ∧
      call.leafNode = (path, leaf) ∧
        leaf.call call.given call.ctx call.store = .error failure after ∧
          ∀ other ∈ early, other.Returns Leaf.call

/-- The leaves up to a node are called, no mapping is missing before it, and it is the one for which
the check fails. -/
structure StopsAt (schema : Schema) (mode : Mode) (v : Value) (ground : Store) (failure : Failure)
    (passed : List (List String × Tree Leaf)) (node : List String × Tree Leaf) : Prop where
  leaves : (schema.calls mode v ground).map Call.leafNode =
    (passed ++ [node]).filterMap Tree.leaf?
  mappings : MappingsAt v ground passed
  fails : schema.FailsFor mode v ground failure node

variable {schema : Schema} {store : Store} {v : Value} {mode : Mode}

private theorem disjoint_calls (distinct : schema.root.Distinct) (shaped : store.TreeShaped v)
    {call other : Call Leaf}
    (member : call ∈ Step.calls Leaf.call (top mode) (schema.root.agenda store [] none v) store)
    (member' : other ∈ Step.calls Leaf.call (top mode) (schema.root.agenda store [] none v) store)
    (differs : other.path ≠ call.path) {kind kind' : MapKind} {a : Address}
    (reached : store.Reaches call.given (.map kind a)) :
    ¬store.Reaches other.given (.map kind' a) := by
  obtain ⟨l, rfl, held, nodup⟩ := shaped
  obtain ⟨_, asked⟩ := Step.ask_of_mem_calls member
  obtain ⟨_, asked'⟩ := Step.ask_of_mem_calls member'
  obtain ⟨part, part', ⟨value, stands⟩, ⟨value', stands'⟩, disjoint⟩ :=
    Tree.given_disjoint distinct held nodup asked' asked differs
  intro reached'
  rw [← value] at reached'
  rw [← value'] at reached
  exact disjoint (Store.mem_mappings_of_reaches stands reached')
    (Store.mem_mappings_of_reaches stands' reached)

private theorem part_of_call (distinct : schema.root.Distinct) (shaped : store.TreeShaped v)
    {first last : List (Call Leaf)} {call : Call Leaf}
    (split : Step.calls Leaf.call (top mode) (schema.root.agenda store [] none v) store =
      first ++ call :: last) :
    ∃ early part, (∀ step ∈ early, step ∈ schema.root.agenda store [] none v) ∧
      Step.runAll Leaf.call (top mode) early store = .ok () call.store ∧
        Step.calls Leaf.call (top mode) early store = first ∧
          Layout.value part = call.given ∧ store.Holds part ∧
            List.Disjoint part.mappings (Tree.entered (schema.root.agenda store [] none v)) := by
  obtain ⟨_, early, place, late, steps, ran, made⟩ := Step.split_of_calls split
  obtain ⟨l, rfl, held, nodup⟩ := shaped
  have asked : .ask call.path place call.given call.content ∈
      schema.root.agenda store [] none l.value := steps ▸ List.mem_append_right _ List.mem_cons_self
  obtain ⟨part, value, stands, _, separate⟩ := Tree.given_apart distinct held nodup asked
  exact ⟨early, part, fun step member => steps ▸ List.mem_append_left _ member, ran, made, value,
    stands, separate⟩

private theorem mappingsAt_of_run {nodes : List (List String × Tree Leaf)} {after : Store}
    (ran : Step.runAll Leaf.call (top mode) (nodes.map (Tree.stepAt store [] none v)) store =
      .ok () after) : MappingsAt v store nodes := by
  intro path fields member
  have enters : .enter path (store.valueAt v path).fields? (fields.map Prod.fst) ∈
      nodes.map (Tree.stepAt store [] none v) := List.mem_map.mpr ⟨_, member, rfl⟩
  exact Step.mapping_of_runAll ran enters

private theorem failsFor_of_run {passed later : List (List String × Tree Leaf)}
    {node : List String × Tree Leaf} {between after : Store} {failure : Failure}
    (calls : schema.calls mode v store = Step.calls Leaf.call (top mode)
      ((passed ++ node :: later).map (Tree.stepAt store [] none v)) store)
    (ran : Step.runAll Leaf.call (top mode) (passed.map (Tree.stepAt store [] none v)) store =
      .ok () between)
    (stopped : (Tree.stepAt store [] none v node).run Leaf.call (top mode) between =
      .error failure after) : schema.FailsFor mode v store failure node := by
  have returns : ∀ call ∈ Step.calls Leaf.call (top mode)
      (passed.map (Tree.stepAt store [] none v)) store, call.Returns Leaf.call :=
    fun call member => Step.returns_of_runAll ran member
  rw [List.map_append, List.map_cons, Step.calls_of_error ran stopped] at calls
  obtain ⟨path, sub⟩ := node
  cases sub with
  | branch fields =>
    rw [Tree.stepAt] at stopped calls
    rw [Step.calls_enter, List.append_nil] at calls
    rcases Step.run_error stopped with ⟨_, _, entered, rfl, _⟩ | ⟨_, _, _, _, asked, _⟩
    · injection entered with paths mapping _
      rw [FailsFor, calls, ← paths, Context.descend_top]
      exact ⟨mapping, rfl, returns⟩
    · cases asked
  | leaf leaf =>
    have alone : Step.calls Leaf.call (top mode)
        [Tree.stepAt store [] none v (path, .leaf leaf)] between = _ :=
      Step.calls_ask path (store.placeAt none v path) (store.valueAt v path) leaf between
    have answer := Step.call_of_run_error stopped (alone ▸ List.mem_singleton_self _)
    exact ⟨_, _, after, calls.trans (congrArg _ alone), rfl, answer, returns⟩

private theorem not_completes {failure : Failure} {passed later : List (List String × Tree Leaf)}
    {node : List String × Tree Leaf} (split : schema.root.nodes = passed ++ node :: later)
    (stops : schema.StopsAt mode v store failure passed node) :
    ¬schema.Completes mode v store := by
  intro completes
  obtain ⟨path, sub⟩ := node
  cases sub with
  | branch fields =>
    obtain ⟨missing, _⟩ := stops.fails
    obtain ⟨a, mapping⟩ :=
      completes.mappings path fields (split ▸ List.mem_append_right passed List.mem_cons_self)
    rw [missing] at mapping
    cases mapping
  | leaf leaf =>
    obtain ⟨early, call, last, whole, here, refused, _⟩ := stops.fails
    obtain ⟨_, rfl⟩ := Prod.mk.inj here
    obtain ⟨r, after, called⟩ :=
      completes.returns call (whole ▸ List.mem_append_right early (List.mem_singleton_self call))
    rw [refused] at called
    cases called

section

variable (distinct : schema.root.Distinct)
  (names : mode.sanitize = true → schema.root.LeafNames fun name => '.' ∉ name.toList)
  (shaped : store.TreeShaped v)
  (own : ∀ call ∈ schema.calls mode v store, call.OwnOnly Leaf.call store)
  {first last : List (Call Leaf)} {call : Call Leaf} {a : Address}

include distinct names shaped own

private theorem straight :
    (discard (schema.check mode v) : CheckM Unit) store =
        Step.runAll Leaf.call (top mode) (schema.root.agenda store [] none v) store ∧
      schema.calls mode v store =
        Step.calls Leaf.call (top mode) (schema.root.agenda store [] none v) store :=
  Tree.check_eq_runAll_of_spares distinct (Tree.keyed_of_leafNames distinct (top mode) names)
    (Tree.nodup_of_treeShaped distinct shaped)
    fun call member asked _ enters =>
      Tree.spares_of_ownOnly distinct shaped (own call member) asked enters

private theorem entries_of_reaches (split : schema.calls mode v store = first ++ call :: last)
    {kind : MapKind} (reached : store.Reaches call.given (.map kind a)) :
    call.store.entries a = store.entries a := by
  rw [(straight distinct names shaped own).2] at split own
  obtain ⟨early, part, within, ran, rfl, value, stands, separate⟩ :=
    part_of_call distinct shaped split
  have inside : a ∈ part.mappings := Store.mem_mappings_of_reaches stands (value ▸ reached)
  refine Step.entries_runAll_of_spares (fun step member =>
    Tree.keyed_of_leafNames distinct (top mode) names step (within step member)) ?_ ?_ ran
  -- The leaves called before keep to their values, which have no mapping in common with this one.
  · intro other member r after called
    have listed := List.mem_append_left (call :: last) member
    have here := List.mem_append_right (Step.calls Leaf.call (top mode) early store)
      (List.mem_cons_self (a := call) (l := last))
    rw [← split] at listed here
    have differs : other.path ≠ call.path := by
      have once : ((Step.calls Leaf.call (top mode) (schema.root.agenda store [] none v) store).map
          Call.path).Nodup := Tree.nodup_calls distinct store
      rw [split, List.map_append, List.map_cons, List.nodup_middle, List.nodup_cons] at once
      intro same
      exact once.1 (List.mem_append_left _ (List.mem_map.mpr ⟨other, member, same⟩))
    exact (own other listed).mappings r after called a (Store.lt_of_mem_mappings stands inside)
      fun kind' => disjoint_calls distinct shaped here listed differs reached
  -- The steps themselves change the mappings of branches only.
  · intro step member touches
    rcases Tree.touched_of_mem_agenda (within step member) touches with top | deep
    · cases top
    · exact separate inside deep

private theorem items_of_reaches (split : schema.calls mode v store = first ++ call :: last)
    {kind : SeqKind} (reached : store.Reaches call.given (.seq kind a))
    (apart : ∀ other ∈ first, ∀ kind, ¬store.Reaches other.given (.seq kind a)) :
    call.store.items a = store.items a := by
  rw [(straight distinct names shaped own).2] at split own
  obtain ⟨early, part, within, ran, rfl, value, stands, _⟩ := part_of_call distinct shaped split
  rw [← value] at reached
  have bound : a < store.sequences.size := Store.stands_of_reaches stands reached
  refine Step.items_runAll (fun step member =>
    Tree.keyed_of_leafNames distinct (top mode) names step (within step member))
    (fun other member r after called => ?_) ran
  have listed := List.mem_append_left (call :: last) member
  rw [← split] at listed
  exact (own other listed).sequences r after called a bound (apart other member)

private theorem completes_of_ok {result : Value} {after : Store}
    (checked : schema.check mode v store = .ok result after) :
    schema.Completes mode v store := by
  obtain ⟨run, calls⟩ := straight distinct names shaped own
  have ran := (Tree.discard_ok_iff _ store after).mpr ⟨result, checked⟩
  rw [run, Tree.agenda_eq_map] at ran
  rw [Tree.agenda_eq_map] at calls
  refine ⟨?_, ?_, mappingsAt_of_run ran⟩
  · rw [calls]
    exact Tree.leafNodes_of_run ran
  · rw [calls]
    exact fun call member => Step.returns_of_runAll ran member

private theorem stopsAt_of_error {failure : Failure} {after : Store}
    (failed : schema.check mode v store = .error failure after) :
    ∃ passed node later, schema.root.nodes = passed ++ node :: later ∧
      schema.StopsAt mode v store failure passed node := by
  obtain ⟨run, calls⟩ := straight distinct names shaped own
  have stops := (Tree.discard_error_iff _ store after failure).mpr failed
  rw [run] at stops
  obtain ⟨passed, node, later, between, split, ran, stopped⟩ := Tree.runAll_agenda_error stops
  rw [Tree.agenda_eq_map, split] at calls
  refine ⟨passed, node, later, split, ?_, mappingsAt_of_run ran, failsFor_of_run calls ran stopped⟩
  rw [calls]
  exact Tree.leafNodes_of_error ran stopped

private theorem traced_of_ownOnly : schema.Traced mode v store := by
  have calls := (straight distinct names shaped own).2
  have each : ∀ call ∈ schema.calls mode v store, call.given = store.valueAt v call.path ∧
      call.ctx = { path := Path.dotted call.path, mode } := by
    intro call member
    obtain ⟨first, last, split⟩ := List.append_of_mem (calls ▸ member)
    obtain ⟨here, early, place, late, steps, _⟩ := Step.split_of_calls split
    have asked : .ask call.path place call.given call.content ∈
        schema.root.agenda store [] none v := steps ▸ List.mem_append_right _ List.mem_cons_self
    exact ⟨(Tree.at?_of_ask distinct asked).2, here.trans (Context.descend_top mode _)⟩
  refine ⟨?_, ?_, fun call member => (each call member).1, fun call member => (each call member).2,
    ?_, ?_⟩
  · cases checked : schema.check mode v store with
    | ok result after => rw [(completes_of_ok distinct names shaped own checked).leaves]
    | error failure after =>
      obtain ⟨passed, node, later, split, stops⟩ :=
        stopsAt_of_error distinct names shaped own checked
      have upTo : passed ++ [node] <+: schema.root.nodes :=
        ⟨later, (List.append_cons passed node later).symm.trans split.symm⟩
      rw [stops.leaves, Tree.leafNodes]
      exact upTo.filterMap Tree.leaf?
  · rw [calls]
    exact Tree.nodup_calls distinct store
  · intro call member kind a reached
    obtain ⟨first, last, split⟩ := List.append_of_mem member
    exact entries_of_reaches distinct names shaped own split reached
  · intro early call late split kind a reached apart
    exact items_of_reaches distinct names shaped own split reached apart

end

/-- The calls of a check whose leaves change nothing but their own values. The check returns when it
finds a mapping for each branch and each leaf that is called gives a value, and then all leaves are
called. Otherwise it stops at the first node where that is not so. -/
theorem check_traced (distinct : schema.root.Distinct)
    (names : mode.sanitize = true → schema.root.LeafNames fun name => '.' ∉ name.toList)
    (shaped : store.TreeShaped v)
    (own : ∀ call ∈ schema.calls mode v store, call.OwnOnly Leaf.call store) :
    schema.Traced mode v store ∧
      ((∃ result after, schema.check mode v store = .ok result after) ↔
        schema.Completes mode v store) ∧
      ∀ failure after, schema.check mode v store = .error failure after →
        ∃ passed node later, schema.root.nodes = passed ++ node :: later ∧
          schema.StopsAt mode v store failure passed node := by
  refine ⟨traced_of_ownOnly distinct names shaped own, ⟨?_, fun completes => ?_⟩,
    fun failure after => stopsAt_of_error distinct names shaped own⟩
  · rintro ⟨result, after, checked⟩
    exact completes_of_ok distinct names shaped own checked
  · cases checked : schema.check mode v store with
    | ok result after => exact ⟨result, after, rfl⟩
    | error failure after =>
      obtain ⟨passed, node, later, split, stops⟩ :=
        stopsAt_of_error distinct names shaped own checked
      exact absurd completes (not_completes split stops)

def appending : Schema where
  root := .branch [("a", .leaf (.custom ⟨"append", Stock.appendText⟩)), ("b", .branch [])]

def listBeforeNumber : Store where
  sequences := #[[]]
  mappings := #[[(.text "a", .seq .list 0), (.text "b", .int 1)]]

theorem appending_distinct : appending.root.Distinct :=
  ⟨by decide, trivial, ⟨by simp, trivial⟩, trivial⟩

theorem appending_names : appending.root.LeafNames fun name => '.' ∉ name.toList :=
  Tree.leafNames_of_paths appending_distinct [["a"]] rfl (by decide)

theorem listBeforeNumber_treeShaped : listBeforeNumber.TreeShaped (.map .plain 0) := by
  refine ⟨.map .plain 0 [(.atom (.text "a"), .seq .list 0 []),
    (.atom (.text "b"), .atom (.number (.int 1)))], rfl, ?_, by simp⟩
  simp [Store.holds_map, Store.holds_seq, listBeforeNumber, Store.entries, Store.items,
    Layout.entryValue, Layout.value]

theorem appending_ownOnly : ∀ call ∈ appending.calls ⟨true, false⟩ (.map .plain 0) listBeforeNumber,
    call.OwnOnly Leaf.call listBeforeNumber := by
  have calls : appending.calls ⟨true, false⟩ (.map .plain 0) listBeforeNumber =
      [⟨["a"], .custom ⟨"append", Stock.appendText⟩, .seq .list 0,
        { path := "a", mode := ⟨true, false⟩ }, listBeforeNumber⟩] := rfl
  intro call member
  rw [calls, List.mem_singleton] at member
  subst member
  refine ⟨fun r after called a bound apart => ?_, fun r after called a bound apart => ?_⟩
  · cases called
    rfl
  · have only : a = 0 := Nat.lt_one_iff.mp bound
    exact absurd (only ▸ .self _) (apart .list)

theorem check_traced_append :
    appending.root.Distinct ∧ (appending.root.LeafNames fun name => '.' ∉ name.toList) ∧
      listBeforeNumber.TreeShaped (.map .plain 0) ∧
        (∀ call ∈ appending.calls ⟨true, false⟩ (.map .plain 0) listBeforeNumber,
          call.OwnOnly Leaf.call listBeforeNumber) ∧
          appending.Traced ⟨true, false⟩ (.map .plain 0) listBeforeNumber ∧
            ((∃ result after, appending.check ⟨true, false⟩ (.map .plain 0) listBeforeNumber =
                .ok result after) ↔
              appending.Completes ⟨true, false⟩ (.map .plain 0) listBeforeNumber) ∧
            ∀ failure after, appending.check ⟨true, false⟩ (.map .plain 0) listBeforeNumber =
                .error failure after →
              ∃ passed node later, appending.root.nodes = passed ++ node :: later ∧
                appending.StopsAt ⟨true, false⟩ (.map .plain 0) listBeforeNumber failure passed
                  node :=
  have distinct := appending_distinct
  have names := appending_names
  have shaped := listBeforeNumber_treeShaped
  ⟨distinct, names, shaped, appending_ownOnly,
    check_traced distinct (fun _ => names) shaped appending_ownOnly⟩

/-- All leaves are called, but the check fails for the branch behind them. -/
theorem check_fails_behind : ¬∀ (schema : Schema) (store : Store) (v : Value) (mode : Mode),
    schema.root.Distinct →
      (mode.sanitize = true → schema.root.LeafNames fun name => '.' ∉ name.toList) →
        store.TreeShaped v →
          (∀ call ∈ schema.calls mode v store, call.OwnOnly Leaf.call store) →
            ((∃ result after, schema.check mode v store = .ok result after) ↔
              (schema.calls mode v store).map Call.leafNode = schema.root.leafNodes) := by
  intro exactly
  have whole := exactly appending listBeforeNumber (.map .plain 0) ⟨true, false⟩ appending_distinct
    (fun _ => appending_names) listBeforeNumber_treeShaped appending_ownOnly
  obtain ⟨result, after, checked⟩ := whole.mpr rfl
  cases checked

end Schema

end Assay
