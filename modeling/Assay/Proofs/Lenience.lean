import Assay.Proofs.Satisfaction
import Assay.Proofs.Trace

/-!
Lenience: the check that lets mandatory values be absent beside the strict one, which does not. A
checker takes a value that is there alike in both, so the strict check goes as the lenient one up to
the first mandatory field without a value.
-/

set_option autoImplicit false
set_option relaxedAutoImplicit false

namespace Assay

def Failure.isMissing (failure : Failure) : Bool :=
  failure.report?.any fun report => report.errorClass == .missing

theorem Context.path_descend {ctx ctx' : Context} (here : ctx'.path = ctx.path)
    (path : List String) : (ctx'.descend path).path = (ctx.descend path).path := by
  induction path generalizing ctx ctx' with
  | nil => exact here
  | cons name rest ih => exact ih (congrArg (Path.child · name) here)

namespace Tree

theorem stored_congr {ctx ctx' : Context} (path : ctx'.path = ctx.path)
    (sanitize : ctx'.mode.sanitize = ctx.mode.sanitize) (parent : Option Address) (r : Value)
    (store : Store) : stored ctx' parent r store = stored ctx parent r store := by
  cases parent with
  | none => rfl
  | some a => simp only [stored, sanitize, Context.key, path]

end Tree

namespace Checker

section

variable {ctx ctx' : Context} (path : ctx'.path = ctx.path)
  (sanitize : ctx'.mode.sanitize = ctx.mode.sanitize) {v : Value} (present : v ≠ .null)
  (store : Store)

include path present

private theorem checkBasic_of_present (c : Checker) :
    c.checkBasic v ctx' store = c.checkBasic v ctx store := by
  have admitted : c.admits store ctx'.mode v = c.admits store ctx.mode v := by
    rw [admits, admits, if_neg present, if_neg present]
  rw [checkBasic_eq, checkBasic_eq, admitted, failure_congr path]

include sanitize

theorem Made.check_of_present {c : Checker} (made : c.Made) :
    c.check v ctx' store = c.check v ctx store := by
  cases made with
  | boolean | number | string | array => exact checkBasic_of_present path present store _
  | ipv6 => rw [check_ipv6, check_ipv6, checkBasic_of_present path present, path]
  | siret => rw [check_siret, check_siret, checkBasic_of_present path present, path, sanitize]

end

theorem Made.check_absent {c : Checker} (made : c.Made) {ctx : Context}
    (strict : ctx.mode.partialCheck = false) (store : Store) :
    c.check .null ctx store =
      if store.truthy c.options.mandatory then .error (.missing ctx.path) store
      else .ok .null store := by
  have basic : ∀ base : Checker, base.checkBasic .null ctx store =
      if store.truthy base.options.mandatory then .error (.missing ctx.path) store
      else .ok .null store := by
    intro base
    rw [checkBasic_eq, admits, if_pos rfl, strict, Bool.not_false, Bool.and_true, failure_null,
      answer, if_pos rfl]
    cases store.truthy base.options.mandatory <;> rfl
  cases made with
  | boolean | number | string | array => exact basic _
  | @ipv6 o exact =>
    rw [check_ipv6, basic]
    by_cases required : store.truthy o.mandatory
    · simp [options, required]
    · simp [options, required]
  | @siret o exact =>
    rw [check_siret, basic]
    by_cases required : store.truthy o.mandatory
    · simp [options, required]
    · simp [options, required]

theorem Made.check_lenient {c : Checker} (made : c.Made) {v : Value} {ctx ctx' : Context}
    (path : ctx'.path = ctx.path) (sanitize : ctx'.mode.sanitize = ctx.mode.sanitize)
    (strict : ctx.mode.partialCheck = false) (lenient : ctx'.mode.partialCheck = true)
    {r : Value} {before after : Store} (checked : c.check v ctx before = .ok r after) :
    c.check v ctx' before = .ok r after := by
  by_cases null : v = .null
  · subst null
    rw [made.check_absent strict] at checked
    split at checked
    · cases checked
    · cases checked
      exact made.check_null lenient before
  · rw [made.check_of_present path sanitize null]
    exact checked

theorem Made.not_missing {c : Checker} (made : c.Made) {v : Value} (present : v ≠ .null)
    {ctx : Context} {before after : Store} {failure : Failure}
    (failed : c.check v ctx before = .error failure after) : failure.isMissing = false := by
  rcases made.failure_cases failed with rfl | ⟨_, cause, rfl⟩
  · rw [refusal, if_neg present]
    rfl
  · rfl

end Checker

namespace Step

variable {α : Type} {call : α → Value → Context → CheckM Value} {ctx ctx' : Context}

/-- A run goes through where more is asked of the calls exactly when it goes through where less is
asked, and every call in it comes up to what is asked more. -/
theorem runAll_ok_iff_of_stricter {Passes : Call α → Prop} {steps : List (Step α)}
    (alike : ∀ path place given content, .ask path place given content ∈ steps → ∀ now,
      Passes ⟨path, content, given, ctx.descend path, now⟩ →
        run call ctx' (.ask path place given content) now =
          run call ctx (.ask path place given content) now)
    (stricter : ∀ path place given content, .ask path place given content ∈ steps → ∀ now,
      ¬Passes ⟨path, content, given, ctx.descend path, now⟩ →
        ∃ failure, run call ctx' (.ask path place given content) now = .error failure now)
    (before after : Store) :
    runAll call ctx' steps before = .ok () after ↔
      runAll call ctx steps before = .ok () after ∧
        ∀ c ∈ calls call ctx steps before, Passes c := by
  induction steps generalizing before with
  | nil => simp [runAll_nil, calls]
  | cons step rest ih =>
    have rested := fun between => ih
      (fun path place given content member => alike path place given content
        (List.mem_cons_of_mem step member))
      (fun path place given content member => stricter path place given content
        (List.mem_cons_of_mem step member)) between
    rw [runAll_cons, runAll_cons, calls_cons]
    cases step with
    | enter path mapping names =>
      rw [calls_enter, List.nil_append]
      cases mapping with
      | none => simp [run_enter_none]
      | some a =>
        rw [run_enter_some, run_enter_some]
        exact rested _
    | ask path place given content =>
      rw [calls_ask, List.singleton_append, List.forall_mem_cons]
      by_cases passes : Passes ⟨path, content, given, ctx.descend path, before⟩
      · rw [alike path place given content List.mem_cons_self before passes]
        cases ran : run call ctx (.ask path place given content) before with
        | error failure between => simp
        | ok _ between =>
          simp only [passes, true_and]
          exact rested between
      · obtain ⟨failure, failed⟩ :=
          stricter path place given content List.mem_cons_self before passes
        rw [failed]
        simp [passes]

end Step

namespace Schema

/-- The checker at a path asks for a value when it is called in a lenient check: its option says so
then. -/
def Requires (schema : Schema) (v : Value) (store : Store) (path : List String) (c : Checker) :
    Prop :=
  ∃ call ∈ schema.calls ⟨false, true⟩ v store, call.path = path ∧
    call.store.truthy c.options.mandatory

private def Served (call : Call Leaf) : Prop :=
  ∀ c, call.content = .checker c → call.store.truthy c.options.mandatory → call.given ≠ .null

variable {schema : Schema} {store : Store} {v : Value}

private theorem run_alike_of_served (built : schema.BuiltIn) {path : List String}
    {place : Option (Address × String)} {given : Value} {leaf : Leaf}
    (member : .ask path place given leaf ∈ schema.root.agenda store [] none v) (now : Store)
    (served : Served ⟨path, leaf, given, (top ⟨false, true⟩).descend path, now⟩) :
    Step.run Leaf.call (top ⟨false, false⟩) (.ask path place given leaf) now =
      Step.run Leaf.call (top ⟨false, true⟩) (.ask path place given leaf) now := by
  obtain ⟨c, rfl, made⟩ := built.leaves leaf (built.leaf_of_ask member)
  have above : (top ⟨false, false⟩).path = (top ⟨false, true⟩).path := rfl
  have here := Context.path_descend above path
  have sanitize : ((top ⟨false, false⟩).descend path).mode.sanitize =
      ((top ⟨false, true⟩).descend path).mode.sanitize := by
    rw [Context.mode_descend, Context.mode_descend]
  have called : (Leaf.checker c).call given ((top ⟨false, false⟩).descend path) now =
      (Leaf.checker c).call given ((top ⟨false, true⟩).descend path) now := by
    rw [Leaf.call_checker, Leaf.call_checker]
    by_cases null : given = .null
    · subst null
      have optional : now.truthy c.options.mandatory = false :=
        Bool.eq_false_iff.mpr fun required => served c rfl required rfl
      rw [made.made.check_absent (by rw [Context.mode_descend]), optional,
        if_neg Bool.false_ne_true, made.made.check_null (by rw [Context.mode_descend])]
    · exact made.made.check_of_present here sanitize null now
  rw [Step.run_ask, Step.run_ask, called]
  cases (Leaf.checker c).call given ((top ⟨false, true⟩).descend path) now with
  | error failure after => rfl
  | ok r after => simp only [Tree.stored_congr here sanitize]

private theorem fails_of_unserved (built : schema.BuiltIn) {path : List String}
    {place : Option (Address × String)} {given : Value} {leaf : Leaf}
    (member : .ask path place given leaf ∈ schema.root.agenda store [] none v) (now : Store)
    (unserved : ¬Served ⟨path, leaf, given, (top ⟨false, true⟩).descend path, now⟩) :
    ∃ failure, Step.run Leaf.call (top ⟨false, false⟩) (.ask path place given leaf) now =
      .error failure now := by
  obtain ⟨c, rfl, made⟩ := built.leaves leaf (built.leaf_of_ask member)
  simp only [Served, not_forall, not_not] at unserved
  obtain ⟨_, same, required, rfl⟩ := unserved
  obtain rfl := Leaf.checker.inj same
  rw [Step.run_ask, Leaf.call_checker, made.made.check_absent (by rw [Context.mode_descend]),
    if_pos required]
  exact ⟨_, rfl⟩

private theorem run_strict_iff (built : schema.BuiltIn) (after : Store) :
    Step.runAll Leaf.call (top ⟨false, false⟩) (schema.root.agenda store [] none v) store =
        .ok () after ↔
      Step.runAll Leaf.call (top ⟨false, true⟩) (schema.root.agenda store [] none v) store =
          .ok () after ∧
        ∀ call ∈ Step.calls Leaf.call (top ⟨false, true⟩) (schema.root.agenda store [] none v)
          store, Served call :=
  Step.runAll_ok_iff_of_stricter (fun _ _ _ _ => run_alike_of_served built)
    (fun _ _ _ _ => fails_of_unserved built) store after

private theorem not_missing_of_run (built : schema.BuiltIn) {step : Step Leaf}
    (member : step ∈ schema.root.agenda store [] none v) {before after : Store} {failure : Failure}
    (stopped : step.run Leaf.call (top ⟨false, true⟩) before = .error failure after) :
    failure.isMissing = false := by
  rcases Step.run_error stopped with ⟨_, _, _, rfl, _⟩ | ⟨path, place, given, leaf, rfl, called⟩
  · rfl
  · obtain ⟨c, rfl, made⟩ := built.leaves leaf (built.leaf_of_ask member)
    rw [Leaf.call_checker] at called
    by_cases null : given = .null
    · subst null
      rw [made.made.check_null (by rw [Context.mode_descend])] at called
      cases called
    · exact made.made.not_missing null called

private theorem exists_call (built : schema.BuiltIn) {after : Store}
    (ran : Step.runAll Leaf.call (top ⟨false, true⟩) (schema.root.agenda store [] none v) store =
      .ok () after) {path : List String} {leaf : Leaf}
    (there : schema.root.at? path = some (.leaf leaf)) :
    ∃ call ∈ Step.calls Leaf.call (top ⟨false, true⟩) (schema.root.agenda store [] none v) store,
      call.path = path ∧ call.content = leaf := by
  rw [Tree.agenda_eq_map] at ran ⊢
  have listed : (path, leaf) ∈ schema.root.nodes.filterMap Tree.leaf? :=
    List.mem_filterMap.mpr ⟨_, (Tree.mem_nodes_iff built.distinct).mpr there, rfl⟩
  rw [← Tree.leafNodes_of_run ran] at listed
  obtain ⟨call, member, node⟩ := List.mem_map.mp listed
  obtain ⟨rfl, rfl⟩ := Prod.mk.inj node
  exact ⟨call, member, rfl, rfl⟩

private theorem truthy_of_call (built : schema.BuiltIn) (shaped : store.TreeShaped v)
    {call : Call Leaf}
    (member : call ∈ Step.calls Leaf.call (top ⟨false, true⟩)
      (schema.root.agenda store [] none v) store)
    {option : Value} (stands : store.Stands option)
    (kept : ∀ kind a, option = .map kind a → ¬schema.Prunes store v a) :
    call.store.truthy option = store.truthy option := by
  obtain ⟨first, last, split⟩ := List.append_of_mem member
  obtain ⟨_, early, place, late, steps, ran, _⟩ := Step.split_of_calls split
  have tame := built.tame_early ⟨false, true⟩ (names_of_plain rfl) steps
  have nodup := built.nodup_early shaped steps
  cases option with
  | atom a =>
    cases a with
    | decimal d => cases d <;> rfl
    | null | bool _ | number _ | text _ | bytes _ | mode _ | pattern _ | object _ => rfl
  | seq kind a =>
    rw [Store.truthy, Store.truthy, (Step.entries_runAll_plain rfl tame nodup ran).1.items a stands]
  | map kind a =>
    rw [Store.truthy, Store.truthy]
    rcases Step.entries_plain_cases rfl tame nodup ran a with same | ⟨path, names, enters, pruned⟩
    · rw [same]
    · have listed := List.mem_append_left (.ask call.path place call.given call.content :: late)
        enters
      rw [← steps] at listed
      rcases Tree.path_of_mem_agenda built.distinct listed with
        ⟨path, fields, there, enter⟩ | ⟨_, _, _, _, asked, _⟩
      · injection enter with _ mapping described
        have whole : (store.entries a).restrict (fields.map Prod.fst) = store.entries a := by
          by_contra loses
          exact kept kind a rfl ⟨path, fields, there, mapping.symm, loses⟩
        rw [pruned, described, whole]
      · cases asked

private theorem not_missing_of_check (built : schema.BuiltIn) (shaped : store.TreeShaped v)
    {failure : Failure} {after : Store}
    (failed : schema.check ⟨false, true⟩ v store = .error failure after) :
    failure.isMissing = false := by
  rw [built.check_error_iff (names_of_plain rfl) (built.nodup_entered shaped)] at failed
  obtain ⟨early, step, late, between, split, _, stopped⟩ := Step.runAll_error failed
  exact not_missing_of_run built (split ▸ List.mem_append_right early List.mem_cons_self) stopped

private theorem calls_lenient (built : schema.BuiltIn) (shaped : store.TreeShaped v) :
    schema.calls ⟨false, true⟩ v store = Step.calls Leaf.call (top ⟨false, true⟩)
      (schema.root.agenda store [] none v) store :=
  built.calls_eq_calls (names_of_plain rfl) (built.nodup_entered shaped)

private theorem served_iff (built : schema.BuiltIn) (shaped : store.TreeShaped v) :
    (∀ call ∈ Step.calls Leaf.call (top ⟨false, true⟩) (schema.root.agenda store [] none v) store,
        Served call) ↔
      ∀ path c, schema.root.at? path = some (.leaf (.checker c)) →
        schema.Requires v store path c → store.valueAt v path ≠ .null := by
  have calls := calls_lenient built shaped
  constructor
  · rintro served path c there ⟨call, member, rfl, required⟩
    rw [calls] at member
    obtain ⟨inner, asked⟩ := Step.ask_of_mem_calls member
    obtain ⟨leaf, given⟩ := Tree.at?_of_ask built.distinct asked
    rw [there] at leaf
    rw [← given]
    exact served call member c (Tree.leaf.inj (Option.some.inj leaf)).symm required
  · intro present call member c content required
    obtain ⟨inner, asked⟩ := Step.ask_of_mem_calls member
    obtain ⟨leaf, given⟩ := Tree.at?_of_ask built.distinct asked
    rw [given]
    rw [content] at leaf
    exact present call.path c leaf ⟨call, calls ▸ member, rfl, required⟩

/-- A lenient check never says that a value is missing. The strict check of a tree-shaped value
goes through exactly when the lenient one does and there is a value for every checker that asks for
one, and then both give the same value and leave the same store. A checker asks for a value when it
is called as it did in the beginning, unless the check takes keys out of the option that says so. -/
theorem check_strict_iff (built : schema.BuiltIn) (shaped : store.TreeShaped v) :
    (∀ failure after, schema.check ⟨false, true⟩ v store = .error failure after →
        failure.isMissing = false) ∧
      ((∃ result after, schema.check ⟨false, false⟩ v store = .ok result after) ↔
        (∃ result after, schema.check ⟨false, true⟩ v store = .ok result after) ∧
          ∀ path c, schema.root.at? path = some (.leaf (.checker c)) →
            schema.Requires v store path c → store.valueAt v path ≠ .null) ∧
      (∀ result after result' after', schema.check ⟨false, false⟩ v store = .ok result after →
        schema.check ⟨false, true⟩ v store = .ok result' after' →
          result' = result ∧ after' = after) ∧
      ((∃ result after, schema.check ⟨false, true⟩ v store = .ok result after) →
        ∀ path c, schema.root.at? path = some (.leaf (.checker c)) →
          store.Stands c.options.mandatory →
            (∀ kind a, c.options.mandatory = .map kind a → ¬schema.Prunes store v a) →
              (schema.Requires v store path c ↔ store.truthy c.options.mandatory)) := by
  have nodup := built.nodup_entered shaped
  have ends : ∀ lenient after,
      (∃ result, schema.check ⟨false, lenient⟩ v store = .ok result after) ↔
        Step.runAll Leaf.call (top ⟨false, lenient⟩) (schema.root.agenda store [] none v) store =
          .ok () after := fun lenient after => built.check_ok_iff (names_of_plain rfl) nodup after
  refine ⟨fun failure after => not_missing_of_check built shaped, ?_, ?_, ?_⟩
  · have strict := exists_comm.trans (exists_congr (ends false))
    have lenient := exists_comm.trans (exists_congr (ends true))
    rw [← served_iff built shaped, strict, lenient, ← exists_and_right]
    exact exists_congr (run_strict_iff built)
  · intro result after result' after' checked checked'
    have ran := ((run_strict_iff built after).mp ((ends false after).mp ⟨result, checked⟩)).1
    rw [(ends true after').mp ⟨result', checked'⟩] at ran
    rw [Tree.result_plain rfl checked, Tree.result_plain rfl checked']
    exact ⟨rfl, (EStateM.Result.ok.inj ran).2⟩
  · rintro ⟨result, after, checked⟩ path c there stands kept
    have calls := calls_lenient built shaped
    constructor
    · rintro ⟨call, member, _, required⟩
      rwa [truthy_of_call built shaped (calls ▸ member) stands kept] at required
    · intro required
      have ran := (ends true after).mp ⟨result, checked⟩
      obtain ⟨call, member, here, _⟩ := exists_call built ran there
      refine ⟨call, calls ▸ member, here, ?_⟩
      rw [truthy_of_call built shaped member stands kept]
      exact required

theorem check_strict_flagged :
    (single "a" .mandatoryBoolean).BuiltIn ∧ flaggedStore.TreeShaped (.map .plain 0) ∧
      (∃ result after, (single "a" .mandatoryBoolean).check ⟨false, false⟩ (.map .plain 0)
        flaggedStore = .ok result after) ∧
      (∃ result after, (single "a" .mandatoryBoolean).check ⟨false, true⟩ (.map .plain 0)
        flaggedStore = .ok result after) ∧
      ∀ path c, (single "a" .mandatoryBoolean).root.at? path = some (.leaf (.checker c)) →
        (single "a" .mandatoryBoolean).Requires (.map .plain 0) flaggedStore path c →
          flaggedStore.valueAt (.map .plain 0) path ≠ .null :=
  have built := single_builtIn "a" Checker.mandatoryBoolean_builtIn
  have strict : ∃ result after, (single "a" .mandatoryBoolean).check ⟨false, false⟩ (.map .plain 0)
      flaggedStore = .ok result after := ⟨_, _, rfl⟩
  have lenient := (check_strict_iff built flaggedStore_treeShaped).2.1.mp strict
  ⟨built, flaggedStore_treeShaped, strict, lenient.1, lenient.2⟩

end Schema

end Assay
