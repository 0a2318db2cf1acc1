import Assay.Proofs.Frame
import Assay.Proofs.Steps

/-!
Agendas: the steps of a check, listed beforehand. What a check of a tree-shaped value does first to
one mapping has no bearing on where the other mappings stand, so the walk over the tree is a
straight run over the list of its steps: entering the mapping of a branch, and asking a leaf about
the value of a field.
-/

set_option autoImplicit false
set_option relaxedAutoImplicit false

namespace Assay

namespace Path

private theorem takeWhile_reverse {s : List Char} (plain : '.' ∉ s) (rest : List Char) :
    (s.reverse ++ rest).takeWhile (· ≠ '.') = s.reverse ++ rest.takeWhile (· ≠ '.') := by
  apply List.takeWhile_append_of_pos
  intro c member
  have differs : c ≠ '.' := fun same => plain (same ▸ List.mem_reverse.mp member)
  simpa using differs

theorem key_child (path : String) {name : String} (plain : '.' ∉ name.toList) :
    key (child path name) = name := by
  rw [key, child]
  split
  · have alone := takeWhile_reverse plain []
    rw [List.append_nil, List.takeWhile_nil, List.append_nil] at alone
    rw [lastSegment, alone, List.reverse_reverse, String.ofList_toList]
  · have dot : ".".toList = ['.'] := rfl
    have behind := takeWhile_reverse plain ('.' :: path.toList.reverse)
    rw [lastSegment, String.toList_append, String.toList_append, dot, List.append_assoc,
      List.reverse_append, List.singleton_append, List.reverse_cons, List.append_assoc,
      List.singleton_append, behind]
    simp

end Path

namespace Context

theorem key_child (ctx : Context) {name : String} (plain : '.' ∉ name.toList) :
    (ctx.child name).key = name := Path.key_child ctx.path plain

def descend (ctx : Context) (path : List String) : Context := path.foldl child ctx

theorem descend_concat (ctx : Context) (path : List String) (name : String) :
    ctx.descend (path ++ [name]) = (ctx.descend path).child name := by
  rw [descend, List.foldl_append]
  rfl

@[simp]
theorem mode_descend (ctx : Context) (path : List String) : (ctx.descend path).mode = ctx.mode := by
  induction path generalizing ctx with
  | nil => rfl
  | cons name rest ih => exact ih (ctx.child name)

end Context

namespace Store

def field (store : Store) (v : Value) (name : String) : Value :=
  match v.fields? with
  | none => .null
  | some a => (store.entries a).get name

/-- The value at a path of field names; it is absent where a field is. -/
def valueAt (store : Store) : Value → List String → Value
  | v, [] => v
  | v, name :: rest => valueAt store (store.field v name) rest

theorem valueAt_concat (store : Store) (v : Value) (up : List String) (name : String) :
    store.valueAt v (up ++ [name]) = store.field (store.valueAt v up) name := by
  induction up generalizing v with
  | nil => rfl
  | cons first rest ih => exact ih (store.field v first)

theorem field_of_fields? {store : Store} {v : Value} {a : Address} (mapping : v.fields? = some a)
    (name : String) : store.field v name = (store.entries a).get name := by
  rw [field, mapping]

end Store

/-- A step of a check, at a path: the mapping of a branch is entered, or a leaf is asked about the
value that stands at a place, which is a mapping and a field of it. -/
inductive Step (α : Type) where
  | enter (path : List String) (mapping : Option Address) (names : List String)
  | ask (path : List String) (place : Option (Address × String)) (given : Value) (content : α)

/-- What a check asks of the way a leaf is called: it changes no container, and it gives an absent
value for an absent one. -/
structure Calm (f : Value → Context → CheckM Value) : Prop where
  keeps : ∀ {v ctx before r after}, f v ctx before = .ok r after → Store.Keeps [] before after
  absent : ∀ {ctx before r after}, f .null ctx before = .ok r after → r = .null

/-- A call that returns leaves the contents of a mapping as they are. -/
def Call.Spares {α : Type} (call : α → Value → Context → CheckM Value) (a : Address)
    (c : Call α) : Prop :=
  ∀ r after, call c.content c.given c.ctx c.store = .ok r after →
    after.entries a = c.store.entries a

namespace Step

variable {α : Type} (call : α → Value → Context → CheckM Value) (ctx : Context)

def path : Step α → List String
  | .enter path _ _ => path
  | .ask path _ _ _ => path

/-- The mapping that a step may change. -/
def touched? : Step α → Option Address
  | .enter _ mapping _ => mapping
  | .ask _ place _ _ => place.map Prod.fst

def entered? : Step α → Option Address
  | .enter _ mapping _ => mapping
  | .ask _ _ _ _ => none

/-- A step leaves the entry of a mapping under a key as it is. -/
def Spares (a : Address) (key : String) : Step α → Prop
  | .enter _ mapping names => mapping = some a → key ∈ names
  | .ask _ place _ _ => place ≠ some (a, key)

/-- When values may be replaced, a step puts the result of a leaf back under the name of the field
that the leaf was asked about. -/
def Keyed : Step α → Prop
  | .enter _ _ _ => True
  | .ask path place _ _ =>
    ctx.mode.sanitize = true → ∀ a name, place = some (a, name) → (ctx.descend path).key = name

/-- A step that asks a calm leaf and, when values may be replaced, puts its result back under the
name of the field that it was asked about. -/
def Tame : Step α → Prop
  | .enter _ _ _ => True
  | .ask path place _ content => Calm (call content) ∧
      (ctx.mode.sanitize = true → ∀ a name, place = some (a, name) →
        (ctx.descend path).key = name)

def run : Step α → CheckM Unit
  | .enter path none _ => throw (.invalid (ctx.descend path).path)
  | .enter _ (some a) names => Tree.prune a names
  | .ask path place given content => fun store =>
    match call content given (ctx.descend path) store with
    | .ok result after =>
      .ok () (Tree.stored (ctx.descend path) (place.map Prod.fst) result after)
    | .error failure after => .error failure after

def runAll : List (Step α) → CheckM Unit
  | [] => fun store => .ok () store
  | step :: rest => fun store =>
    match step.run call ctx store with
    | .ok _ after => runAll rest after
    | .error failure after => .error failure after

/-- The calls of leaves in a run of steps. -/
def calls : List (Step α) → Store → List (Call α)
  | [], _ => []
  | .enter path mapping names :: rest, store =>
    match run call ctx (.enter path mapping names) store with
    | .ok _ after => calls rest after
    | .error _ _ => []
  | .ask path place given content :: rest, store =>
    ⟨path, content, given, ctx.descend path, store⟩ ::
      match run call ctx (.ask path place given content) store with
      | .ok _ after => calls rest after
      | .error _ _ => []

theorem run_enter_none (path names : List String) (store : Store) :
    run call ctx (.enter path none names) store =
      .error (.invalid (ctx.descend path).path) store := rfl

theorem run_enter_some (path : List String) (a : Address) (names : List String) (store : Store) :
    run call ctx (.enter path (some a) names) store =
      .ok () (store.setEntries a ((store.entries a).restrict names)) := rfl

theorem run_ask (path : List String) (place : Option (Address × String)) (given : Value)
    (content : α) (store : Store) :
    run call ctx (.ask path place given content) store =
      match call content given (ctx.descend path) store with
      | .ok result after =>
        .ok () (Tree.stored (ctx.descend path) (place.map Prod.fst) result after)
      | .error failure after => .error failure after := rfl

theorem runAll_nil (store : Store) : runAll call ctx [] store = .ok () store := rfl

theorem runAll_cons (step : Step α) (rest : List (Step α)) (store : Store) :
    runAll call ctx (step :: rest) store =
      match step.run call ctx store with
      | .ok _ after => runAll call ctx rest after
      | .error failure after => .error failure after := rfl

theorem runAll_append (first second : List (Step α)) (store : Store) :
    runAll call ctx (first ++ second) store =
      match runAll call ctx first store with
      | .ok _ after => runAll call ctx second after
      | .error failure after => .error failure after := by
  induction first generalizing store with
  | nil => rfl
  | cons step rest ih =>
    simp only [List.cons_append, runAll]
    cases run call ctx step store with
    | error failure after => rfl
    | ok _ after => exact ih after

theorem runAll_concat (early : List (Step α)) (step : Step α) (store : Store) :
    runAll call ctx (early ++ [step]) store =
      match runAll call ctx early store with
      | .ok _ after => step.run call ctx after
      | .error failure after => .error failure after := by
  rw [runAll_append]
  cases runAll call ctx early store with
  | error failure between => rfl
  | ok _ between =>
    simp only [runAll]
    cases step.run call ctx between <;> rfl

theorem calls_append (first second : List (Step α)) (store : Store) :
    calls call ctx (first ++ second) store = calls call ctx first store ++
      match runAll call ctx first store with
      | .ok _ after => calls call ctx second after
      | .error _ _ => [] := by
  induction first generalizing store with
  | nil => rfl
  | cons step rest ih =>
    cases step with
    | enter path mapping names =>
      simp only [List.cons_append, calls, runAll]
      cases run call ctx (.enter path mapping names) store with
      | error failure after => rfl
      | ok _ after => exact ih after
    | ask path place given content =>
      simp only [List.cons_append, calls, runAll]
      cases run call ctx (.ask path place given content) store with
      | error failure after => rfl
      | ok _ after =>
        simp only [List.cons.injEq, true_and]
        exact ih after

variable {call ctx}

theorem run_ask_ok {path : List String} {place : Option (Address × String)} {given : Value}
    {content : α} {before after : Store}
    (ran : run call ctx (.ask path place given content) before = .ok () after) :
    ∃ r between, call content given (ctx.descend path) before = .ok r between ∧
      after = Tree.stored (ctx.descend path) (place.map Prod.fst) r between := by
  rw [run] at ran
  cases called : call content given (ctx.descend path) before with
  | error failure between => simp [called] at ran
  | ok r between =>
    simp only [called, EStateM.Result.ok.injEq, true_and] at ran
    exact ⟨r, between, rfl, ran.symm⟩

theorem run_ask_ok_iff {path : List String} {place : Option (Address × String)} {given : Value}
    {content : α} {before : Store} :
    (∃ after, run call ctx (.ask path place given content) before = .ok () after) ↔
      ∃ r between, call content given (ctx.descend path) before = .ok r between := by
  constructor
  · rintro ⟨after, ran⟩
    obtain ⟨r, between, called, _⟩ := run_ask_ok ran
    exact ⟨r, between, called⟩
  · rintro ⟨r, between, called⟩
    rw [run_ask, called]
    exact ⟨_, rfl⟩

theorem runAll_cons_ok {step : Step α} {rest : List (Step α)} {before after : Store}
    (ran : runAll call ctx (step :: rest) before = .ok () after) :
    ∃ between, step.run call ctx before = .ok () between ∧
      runAll call ctx rest between = .ok () after := by
  rw [runAll] at ran
  cases first : step.run call ctx before with
  | error failure between => simp [first] at ran
  | ok _ between =>
    simp only [first] at ran
    exact ⟨between, rfl, ran⟩

theorem run_error {step : Step α} {before after : Store} {failure : Failure}
    (failed : step.run call ctx before = .error failure after) :
    (∃ path names, step = .enter path none names ∧
        failure = .invalid (ctx.descend path).path ∧ after = before) ∨
      ∃ path place given content, step = .ask path place given content ∧
        call content given (ctx.descend path) before = .error failure after := by
  cases step with
  | enter path mapping names =>
    cases mapping with
    | none =>
      cases failed
      exact Or.inl ⟨path, names, rfl, rfl, rfl⟩
    | some a => cases failed
  | ask path place given content =>
    rw [run_ask] at failed
    cases called : call content given (ctx.descend path) before with
    | ok r between => simp [called] at failed
    | error failure' between =>
      simp only [called] at failed
      cases failed
      exact Or.inr ⟨path, place, given, content, rfl, called⟩

theorem runAll_error {steps : List (Step α)} {before after : Store} {failure : Failure}
    (failed : runAll call ctx steps before = .error failure after) :
    ∃ early step late between, steps = early ++ step :: late ∧
      runAll call ctx early before = .ok () between ∧
        step.run call ctx between = .error failure after := by
  induction steps generalizing before with
  | nil => cases failed
  | cons step rest ih =>
    rw [runAll_cons] at failed
    cases first : step.run call ctx before with
    | error failure' between =>
      simp only [first] at failed
      cases failed
      exact ⟨[], step, rest, before, rfl, rfl, first⟩
    | ok _ between =>
      simp only [first] at failed
      obtain ⟨early, last, late, middle, rfl, ran, stopped⟩ := ih failed
      refine ⟨step :: early, last, late, middle, rfl, ?_, stopped⟩
      rw [runAll_cons, first]
      exact ran

theorem stored_cases {path : List String} {place : Option (Address × String)} {given : Value}
    {content : α} (keyed : Keyed ctx (.ask path place given content)) (r : Value)
    (store : Store) :
    (Tree.stored (ctx.descend path) (place.map Prod.fst) r store = store ∧
        (place = none ∨ r = .null ∨ ctx.mode.sanitize = false)) ∨
      ∃ a name, place = some (a, name) ∧ r ≠ .null ∧ ctx.mode.sanitize = true ∧
        Tree.stored (ctx.descend path) (place.map Prod.fst) r store =
          store.setEntries a ((store.entries a).put name r) := by
  cases place with
  | none => exact Or.inl ⟨rfl, Or.inl rfl⟩
  | some target =>
    obtain ⟨a, name⟩ := target
    simp only [Tree.stored, Option.map_some, Context.mode_descend]
    by_cases null : r = .null
    · left
      simp [null]
    · cases sanitize : ctx.mode.sanitize with
      | false =>
        left
        simp
      | true =>
        right
        refine ⟨a, name, rfl, null, rfl, ?_⟩
        have named := keyed sanitize a name rfl
        simp [null, named]

/-- A step drops the keys that a branch does not describe, or asks a leaf; what the leaf gives is
put back at the place of the value, or nothing is. -/
theorem run_cases_of_keyed {step : Step α} (keyed : step.Keyed ctx) {before after : Store}
    (ran : step.run call ctx before = .ok () after) :
    (∃ path a names, step = .enter path (some a) names ∧
        after = before.setEntries a ((before.entries a).restrict names)) ∨
      ∃ path place given content r between, step = .ask path place given content ∧
        call content given (ctx.descend path) before = .ok r between ∧
        ((after = between ∧ (place = none ∨ r = .null ∨ ctx.mode.sanitize = false)) ∨
          ∃ a name, place = some (a, name) ∧ r ≠ .null ∧ ctx.mode.sanitize = true ∧
            after = between.setEntries a ((between.entries a).put name r)) := by
  cases step with
  | enter path mapping names =>
    cases mapping with
    | none => simp [run_enter_none] at ran
    | some a =>
      simp only [run_enter_some, EStateM.Result.ok.injEq, true_and] at ran
      exact Or.inl ⟨path, a, names, rfl, ran.symm⟩
  | ask path place given content =>
    obtain ⟨r, between, called, rfl⟩ := run_ask_ok ran
    exact Or.inr ⟨path, place, given, content, r, between, rfl, called,
      stored_cases keyed r between⟩

theorem Tame.keyed {step : Step α} (tame : step.Tame call ctx) : step.Keyed ctx := by
  cases step with
  | enter path mapping names => trivial
  | ask path place given content => exact tame.2

theorem run_cases {step : Step α} (tame : step.Tame call ctx) {before after : Store}
    (ran : step.run call ctx before = .ok () after) :
    (∃ path a names, step = .enter path (some a) names ∧
        after = before.setEntries a ((before.entries a).restrict names)) ∨
      ∃ path place given content r between, step = .ask path place given content ∧
        Calm (call content) ∧ call content given (ctx.descend path) before = .ok r between ∧
        ((after = between ∧ (place = none ∨ r = .null ∨ ctx.mode.sanitize = false)) ∨
          ∃ a name, place = some (a, name) ∧ r ≠ .null ∧ ctx.mode.sanitize = true ∧
            after = between.setEntries a ((between.entries a).put name r)) := by
  rcases run_cases_of_keyed tame.keyed ran with
    entered | ⟨path, place, given, content, r, between, rfl, called, wrote⟩
  · exact Or.inl entered
  · exact Or.inr ⟨path, place, given, content, r, between, rfl, tame.1, called, wrote⟩

theorem calls_ask (path : List String) (place : Option (Address × String)) (given : Value)
    (content : α) (before : Store) :
    calls call ctx [.ask path place given content] before =
      [⟨path, content, given, ctx.descend path, before⟩] := by
  rw [calls]
  cases run call ctx (.ask path place given content) before <;> rfl

theorem calls_enter (path : List String) (mapping : Option Address) (names : List String)
    (before : Store) : calls call ctx [.enter path mapping names] before = [] := by
  rw [calls]
  cases run call ctx (.enter path mapping names) before <;> rfl

theorem calls_cons (step : Step α) (rest : List (Step α)) (before : Store) :
    calls call ctx (step :: rest) before = calls call ctx [step] before ++
      match step.run call ctx before with
      | .ok _ after => calls call ctx rest after
      | .error _ _ => [] := by
  have split := calls_append call ctx [step] rest before
  rw [List.singleton_append, runAll_cons] at split
  rw [split]
  cases step.run call ctx before <;> rfl

/-- A call in a run was made for a step that asks, after the steps before it, and these have made
the calls before it. -/
theorem split_of_calls {steps : List (Step α)} {before : Store} {first last : List (Call α)}
    {c : Call α} (split : calls call ctx steps before = first ++ c :: last) :
    c.ctx = ctx.descend c.path ∧ ∃ early place late,
      steps = early ++ .ask c.path place c.given c.content :: late ∧
        runAll call ctx early before = .ok () c.store ∧ calls call ctx early before = first := by
  induction steps generalizing before first with
  | nil => simp [calls] at split
  | cons step rest ih =>
    have onward : ∀ {after made}, step.run call ctx before = .ok () after →
        calls call ctx rest after = made ++ c :: last →
          calls call ctx [step] before ++ made = first →
            c.ctx = ctx.descend c.path ∧ ∃ early place late,
              step :: rest = early ++ .ask c.path place c.given c.content :: late ∧
                runAll call ctx early before = .ok () c.store ∧
                  calls call ctx early before = first := by
      intro after made ran later whole
      obtain ⟨same, early, place, late, rfl, passed, rfl⟩ := ih later
      refine ⟨same, step :: early, place, late, rfl, ?_, ?_⟩
      · rw [runAll_cons, ran]
        exact passed
      · rw [calls_cons, ran]
        exact whole
    rw [calls_cons] at split
    cases step with
    | enter path mapping names =>
      rw [calls_enter, List.nil_append] at split
      cases ran : run call ctx (.enter path mapping names) before with
      | error failure after => simp [ran] at split
      | ok _ after =>
        simp only [ran] at split
        exact onward ran split (by rw [calls_enter, List.nil_append])
    | ask path place given content =>
      rw [calls_ask, List.singleton_append] at split
      cases first with
      | nil =>
        obtain ⟨rfl, _⟩ := List.cons.inj split
        exact ⟨rfl, [], place, rest, rfl, rfl, rfl⟩
      | cons other first =>
        obtain ⟨rfl, behind⟩ := List.cons.inj split
        cases ran : run call ctx (.ask path place given content) before with
        | error failure after => simp [ran] at behind
        | ok _ after =>
          simp only [ran] at behind
          exact onward ran behind (by rw [calls_ask, List.singleton_append])

theorem ask_of_mem_calls {steps : List (Step α)} {before : Store} {c : Call α}
    (member : c ∈ calls call ctx steps before) :
    ∃ place, .ask c.path place c.given c.content ∈ steps := by
  obtain ⟨first, last, split⟩ := List.append_of_mem member
  obtain ⟨_, early, place, late, rfl, _⟩ := split_of_calls split
  exact ⟨place, List.mem_append_right early List.mem_cons_self⟩

theorem calls_of_error {early late : List (Step α)} {step : Step α}
    {before between after : Store} {failure : Failure}
    (ran : runAll call ctx early before = .ok () between)
    (stopped : step.run call ctx between = .error failure after) :
    calls call ctx (early ++ step :: late) before =
      calls call ctx early before ++ calls call ctx [step] between := by
  rw [calls_append, ran]
  simp only
  rw [calls_cons, stopped, List.append_nil]

theorem call_of_run_error {step : Step α} {before after : Store} {failure : Failure}
    (stopped : step.run call ctx before = .error failure after) {c : Call α}
    (member : c ∈ calls call ctx [step] before) :
    call c.content c.given c.ctx c.store = .error failure after := by
  cases step with
  | enter path mapping names =>
    rw [calls_enter] at member
    cases member
  | ask path place given content =>
    rw [calls_ask, List.mem_singleton] at member
    subst member
    rcases run_error stopped with ⟨_, _, entered, _⟩ | ⟨_, _, _, _, asked, called⟩
    · cases entered
    · injection asked with paths _ values contents
      subst paths values contents
      exact called

theorem mem_calls_of_returns {early late : List (Step α)} {step : Step α}
    {before between after : Store} {failure : Failure}
    (ran : runAll call ctx early before = .ok () between)
    (stopped : step.run call ctx between = .error failure after) {c : Call α}
    (member : c ∈ calls call ctx (early ++ step :: late) before)
    (returns : ∃ r later, call c.content c.given c.ctx c.store = .ok r later) :
    c ∈ calls call ctx early before := by
  rw [calls_of_error ran stopped] at member
  refine (List.mem_append.mp member).resolve_right fun here => ?_
  obtain ⟨r, later, called⟩ := returns
  rw [call_of_run_error stopped here] at called
  cases called

theorem paths_calls_sublist (steps : List (Step α)) (before : Store) :
    ((calls call ctx steps before).map Call.path).Sublist (steps.map path) := by
  induction steps generalizing before with
  | nil => exact List.Sublist.refl []
  | cons step rest ih =>
    cases step with
    | enter path mapping names =>
      rw [calls]
      cases run call ctx (.enter path mapping names) before with
      | error failure after => exact List.nil_sublist _
      | ok _ after => exact (ih after).cons _
    | ask path place given content =>
      rw [calls, List.map_cons, List.map_cons]
      cases run call ctx (.ask path place given content) before with
      | error failure after => exact (List.nil_sublist _).cons_cons _
      | ok _ after => exact (ih after).cons_cons _

private theorem entries_run_cases {step : Step α} (keyed : step.Keyed ctx) {before after : Store}
    {a : Address} (quiet : ∀ c ∈ calls call ctx [step] before, c.Spares call a)
    (ran : step.run call ctx before = .ok () after) :
    (∃ path names, step = .enter path (some a) names ∧
        after.entries a = (before.entries a).restrict names) ∨
      (∃ path key given content r, step = .ask path (some (a, key)) given content ∧
        after.entries a = (before.entries a).put key r) ∨
      after.entries a = before.entries a := by
  rcases run_cases_of_keyed keyed ran with
    ⟨path, b, names, rfl, rfl⟩ | ⟨path, place, given, content, r, between, rfl, called, wrote⟩
  · by_cases here : b = a
    · subst here
      exact Or.inl ⟨path, names, rfl, Store.entries_pruned before b names⟩
    · exact Or.inr (Or.inr (Store.entries_setEntries_ne before here _))
  · have kept : between.entries a = before.entries a := by
      refine quiet ⟨path, content, given, ctx.descend path, before⟩ ?_ r between called
      rw [calls]
      exact List.mem_cons_self
    rcases wrote with ⟨rfl, _⟩ | ⟨b, key, rfl, _, _, rfl⟩
    · exact Or.inr (Or.inr kept)
    · by_cases here : b = a ∧ b < between.mappings.size
      · obtain ⟨rfl, bound⟩ := here
        refine Or.inr (Or.inl ⟨path, key, given, content, r, rfl, ?_⟩)
        rw [Store.entries_setEntries_same between bound, kept]
      · refine Or.inr (Or.inr ?_)
        rw [Store.entries_setEntries, if_neg here, kept]

theorem entries_runAll_of_spares {steps : List (Step α)} (keyed : ∀ step ∈ steps, step.Keyed ctx)
    {a : Address} {before after : Store}
    (quiet : ∀ c ∈ calls call ctx steps before, c.Spares call a)
    (untouched : ∀ step ∈ steps, step.touched? ≠ some a)
    (ran : runAll call ctx steps before = .ok () after) : after.entries a = before.entries a := by
  induction steps generalizing before with
  | nil =>
    cases ran
    rfl
  | cons step rest ih =>
    obtain ⟨between, first, later⟩ := runAll_cons_ok ran
    rw [calls_cons, first] at quiet
    have rested := ih (fun s member => keyed s (List.mem_cons_of_mem step member))
      (fun c member => quiet c (List.mem_append_right _ member))
      (fun s member => untouched s (List.mem_cons_of_mem step member)) later
    rw [rested]
    have apart := untouched step List.mem_cons_self
    rcases entries_run_cases (keyed step List.mem_cons_self)
        (fun c member => quiet c (List.mem_append_left _ member)) first with
      ⟨path, names, rfl, _⟩ | ⟨path, key, given, content, r, rfl, _⟩ | same
    · exact absurd rfl apart
    · exact absurd rfl apart
    · exact same

theorem valueOf?_runAll_of_spares {steps : List (Step α)} (keyed : ∀ step ∈ steps, step.Keyed ctx)
    {a : Address} {key : String} {before after : Store}
    (quiet : ∀ c ∈ calls call ctx steps before, c.Spares call a)
    (spares : ∀ step ∈ steps, step.Spares a key)
    (ran : runAll call ctx steps before = .ok () after) :
    (after.entries a).valueOf? key = (before.entries a).valueOf? key := by
  induction steps generalizing before with
  | nil =>
    cases ran
    rfl
  | cons step rest ih =>
    obtain ⟨between, first, later⟩ := runAll_cons_ok ran
    rw [calls_cons, first] at quiet
    have rested := ih (fun s member => keyed s (List.mem_cons_of_mem step member))
      (fun c member => quiet c (List.mem_append_right _ member))
      (fun s member => spares s (List.mem_cons_of_mem step member)) later
    rw [rested]
    have spared := spares step List.mem_cons_self
    rcases entries_run_cases (keyed step List.mem_cons_self)
        (fun c member => quiet c (List.mem_append_left _ member)) first with
      ⟨path, names, rfl, pruned⟩ | ⟨path, other, given, content, r, rfl, put⟩ | same
    · rw [pruned, Entries.valueOf?_restrict (spared rfl)]
    · have differs : key ≠ other := by
        rintro rfl
        exact spared rfl
      rw [put, Entries.valueOf?_put_ne _ differs]
    · rw [same]

theorem Tame.spares {steps : List (Step α)} (tame : ∀ step ∈ steps, step.Tame call ctx)
    {before : Store} (a : Address) : ∀ c ∈ calls call ctx steps before, c.Spares call a := by
  intro c member r after called
  obtain ⟨place, inside⟩ := ask_of_mem_calls member
  exact ((tame _ inside).1.keeps called).entries a List.not_mem_nil

theorem keeps_run {step : Step α} (tame : step.Tame call ctx) {before after : Store}
    (ran : step.run call ctx before = .ok () after) :
    Store.Keeps step.touched?.toList before after := by
  rcases run_cases tame ran with
    ⟨path, a, names, rfl, rfl⟩ | ⟨path, place, given, content, r, between, rfl, calm, called, wrote⟩
  · exact Store.keeps_setEntries before a _
  · have kept := calm.keeps called
    rcases wrote with ⟨rfl, _⟩ | ⟨a, name, rfl, _, _, rfl⟩
    · exact kept.mono (List.nil_subset _)
    · exact (kept.mono (List.nil_subset _)).trans (Store.keeps_setEntries between a _)

theorem ok_of_mem_runAll {steps : List (Step α)} {before after : Store}
    (ran : runAll call ctx steps before = .ok () after) {step : Step α} (member : step ∈ steps) :
    ∃ early late, step.run call ctx early = .ok () late := by
  induction steps generalizing before with
  | nil => cases member
  | cons head rest ih =>
    obtain ⟨between, first, later⟩ := runAll_cons_ok ran
    rcases List.mem_cons.mp member with rfl | member
    · exact ⟨before, between, first⟩
    · exact ih later member

theorem mapping_of_runAll {steps : List (Step α)} {before after : Store}
    (ran : runAll call ctx steps before = .ok () after) {path : List String}
    {mapping : Option Address} {names : List String}
    (member : .enter path mapping names ∈ steps) : ∃ a, mapping = some a := by
  obtain ⟨early, late, entered⟩ := ok_of_mem_runAll ran member
  cases mapping with
  | none => cases entered
  | some a => exact ⟨a, rfl⟩

theorem keeps_runAll {steps : List (Step α)} (tame : ∀ step ∈ steps, step.Tame call ctx)
    {before after : Store} (ran : runAll call ctx steps before = .ok () after) :
    Store.Keeps (steps.filterMap touched?) before after := by
  induction steps generalizing before with
  | nil =>
    cases ran
    exact Store.Keeps.refl _ _
  | cons step rest ih =>
    obtain ⟨between, first, later⟩ := runAll_cons_ok ran
    have early := keeps_run (tame step List.mem_cons_self) first
    have late := ih (fun s member => tame s (List.mem_cons_of_mem step member)) later
    refine (early.mono ?_).trans (late.mono ?_)
    · intro a touched
      rw [Option.mem_toList] at touched
      exact List.mem_filterMap.mpr ⟨step, List.mem_cons_self, touched⟩
    · intro a touched
      obtain ⟨s, member, here⟩ := List.mem_filterMap.mp touched
      exact List.mem_filterMap.mpr ⟨s, List.mem_cons_of_mem step member, here⟩

theorem valueOf?_runAll {steps : List (Step α)} (tame : ∀ step ∈ steps, step.Tame call ctx)
    {a : Address} {key : String} (spares : ∀ step ∈ steps, step.Spares a key)
    {before after : Store} (ran : runAll call ctx steps before = .ok () after) :
    (after.entries a).valueOf? key = (before.entries a).valueOf? key :=
  valueOf?_runAll_of_spares (fun step member => (tame step member).keyed) (Tame.spares tame a)
    spares ran

theorem runAll_fails {steps : List (Step α)} {failure : Failure}
    (each : ∀ step ∈ steps, ∀ store, (∃ after, step.run call ctx store = .ok () after) ∨
      ∃ after, step.run call ctx store = .error failure after)
    {last : Step α} (member : last ∈ steps)
    (fails : ∀ store, ∃ after, last.run call ctx store = .error failure after) (store : Store) :
    ∃ after, runAll call ctx steps store = .error failure after := by
  induction steps generalizing store with
  | nil => cases member
  | cons step rest ih =>
    rw [runAll_cons]
    rcases each step List.mem_cons_self store with ⟨after, ran⟩ | ⟨after, ran⟩
    · rw [ran]
      rcases List.mem_cons.mp member with rfl | later
      · obtain ⟨other, failed⟩ := fails store
        rw [ran] at failed
        cases failed
      · exact ih (fun s inside => each s (List.mem_cons_of_mem step inside)) later after
    · rw [ran]
      exact ⟨after, rfl⟩

theorem runAll_succeeds {steps : List (Step α)}
    (each : ∀ step ∈ steps, ∀ store, ∃ after, step.run call ctx store = .ok () after)
    (store : Store) : ∃ after, runAll call ctx steps store = .ok () after := by
  induction steps generalizing store with
  | nil => exact ⟨store, rfl⟩
  | cons step rest ih =>
    obtain ⟨after, ran⟩ := each step List.mem_cons_self store
    rw [runAll_cons, ran]
    exact ih (fun s inside => each s (List.mem_cons_of_mem step inside)) after

end Step

namespace Tree

variable {α : Type}

mutual

/-- The steps of a check of a value against a tree, as they follow from where the mappings stand
before the first of them. -/
def agenda (store : Store) :
    Tree α → List String → Option (Address × String) → Value → List (Step α)
  | .leaf content, path, place, v => [.ask path place v content]
  | .branch fields, path, _, v =>
    .enter path v.fields? (fields.map Prod.fst) :: fieldAgenda store fields path v

def fieldAgenda (store : Store) :
    List (String × Tree α) → List String → Value → List (Step α)
  | [], _, _ => []
  | (name, tree) :: rest, path, v =>
    agenda store tree (path ++ [name]) (v.fields?.map fun a => (a, name)) (store.field v name) ++
      fieldAgenda store rest path v

end

def entered (steps : List (Step α)) : List Address := steps.filterMap Step.entered?

theorem fieldAgenda_eq (store : Store) (fields : List (String × Tree α)) (path : List String)
    (v : Value) :
    fieldAgenda store fields path v = fields.flatMap fun field =>
      agenda store field.2 (path ++ [field.1]) (v.fields?.map fun a => (a, field.1))
        (store.field v field.1) := by
  induction fields with
  | nil => rfl
  | cons field rest ih =>
    obtain ⟨name, tree⟩ := field
    rw [fieldAgenda, ih, List.flatMap_cons]

theorem mem_entered {steps : List (Step α)} {a : Address} :
    a ∈ entered steps ↔ ∃ path names, .enter path (some a) names ∈ steps := by
  rw [entered, List.mem_filterMap]
  constructor
  · rintro ⟨step, member, enters⟩
    cases step with
    | ask path place given content => cases enters
    | enter path mapping names =>
      obtain rfl : mapping = some a := enters
      exact ⟨path, names, member⟩
  · rintro ⟨path, names, member⟩
    exact ⟨_, member, rfl⟩

theorem entered_append (first second : List (Step α)) :
    entered (first ++ second) = entered first ++ entered second :=
  List.filterMap_append

theorem entered_branch (store : Store) (fields : List (String × Tree α)) (path : List String)
    (place : Option (Address × String)) (v : Value) :
    entered (agenda store (.branch fields) path place v) =
      v.fields?.toList ++ entered (fieldAgenda store fields path v) := by
  rw [agenda, entered, List.filterMap_cons]
  cases here : v.fields? <;> simp [Step.entered?, entered]

theorem entered_fields_subset {store : Store} {fields : List (String × Tree α)}
    {field : String × Tree α} (member : field ∈ fields) (path : List String) (v : Value) :
    entered (agenda store field.2 (path ++ [field.1]) (v.fields?.map fun a => (a, field.1))
      (store.field v field.1)) ⊆ entered (fieldAgenda store fields path v) := by
  intro a inside
  obtain ⟨step, listed, here⟩ := List.mem_filterMap.mp inside
  refine List.mem_filterMap.mpr ⟨step, ?_, here⟩
  rw [fieldAgenda_eq]
  exact List.mem_flatMap.mpr ⟨field, member, listed⟩

theorem place_of_mem_agenda {store : Store} {t : Tree α} {path : List String}
    {place : Option (Address × String)} {v : Value} {p : List String} {b : Address} {key : String}
    {given : Value} {content : α}
    (member : Step.ask p (some (b, key)) given content ∈ agenda store t path place v) :
    place = some (b, key) ∨ b ∈ entered (agenda store t path place v) := by
  induction t generalizing path place v with
  | leaf other =>
    rw [agenda, List.mem_singleton] at member
    injection member with _ same
    exact Or.inl same.symm
  | branch fields ih =>
    right
    rw [agenda, List.mem_cons, fieldAgenda_eq, List.mem_flatMap] at member
    rcases member with member | ⟨field, inside, member⟩
    · cases member
    · rw [entered_branch, List.mem_append]
      rcases ih field inside member with top | deep
      · left
        cases here : v.fields? with
        | none => simp [here] at top
        | some a =>
          simp only [here, Option.map_some, Option.some.injEq, Prod.mk.injEq] at top
          simp [top.1]
      · exact Or.inr (entered_fields_subset inside path v deep)

theorem spares_of_mem_agenda {store : Store} {t : Tree α} {path : List String}
    {place : Option (Address × String)} {v : Value} {a : Address} {key : String}
    (outside : place ≠ some (a, key)) (apart : a ∉ entered (agenda store t path place v)) :
    ∀ step ∈ agenda store t path place v, step.Spares a key := by
  intro step member
  cases step with
  | enter p mapping names =>
    intro same
    exact absurd (List.mem_filterMap.mpr ⟨_, member, same⟩) apart
  | ask p place' given content =>
    intro same
    subst same
    rcases place_of_mem_agenda member with top | deep
    · exact outside top
    · exact apart deep

theorem touched_of_mem_agenda {store : Store} {t : Tree α} {path : List String}
    {place : Option (Address × String)} {v : Value} {step : Step α} {b : Address}
    (member : step ∈ agenda store t path place v) (touched : step.touched? = some b) :
    place.map Prod.fst = some b ∨ b ∈ entered (agenda store t path place v) := by
  cases step with
  | enter p mapping names =>
    exact Or.inr (List.mem_filterMap.mpr ⟨_, member, touched⟩)
  | ask p place' given content =>
    cases place' with
    | none => simp [Step.touched?] at touched
    | some target =>
      obtain ⟨c, key⟩ := target
      simp only [Step.touched?, Option.map_some, Option.some.injEq] at touched
      subst touched
      rcases place_of_mem_agenda member with top | deep
      · exact Or.inl (by simp [top])
      · exact Or.inr deep

variable {call : α → Value → Context → CheckM Value} {ctx : Context}

/-- A check is the run of its agenda, call by call, whatever the store has become meanwhile, as long
as the mappings that it enters are as they were when the agenda was made, and no leaf that is asked
changes one of them. -/
private def Straight (call : α → Value → Context → CheckM Value) (ctx : Context) (ground : Store)
    (guarded : List Address) (t : Tree α) : Prop :=
  ∀ (path : List String) (place : Option (Address × String)) (v : Value) (store : Store),
    (∀ step ∈ agenda ground t path place v, step.Keyed ctx) →
    (entered (agenda ground t path place v)).Nodup →
    entered (agenda ground t path place v) ⊆ guarded →
    (∀ b ∈ entered (agenda ground t path place v), store.entries b = ground.entries b) →
    (∀ c ∈ calls call t path v (ctx.descend path) (place.map Prod.fst) store,
      (∃ inner, .ask c.path inner c.given c.content ∈ agenda ground t path place v) →
        ∀ b ∈ guarded, c.Spares call b) →
    (discard (check call t v (ctx.descend path) (place.map Prod.fst)) : CheckM Unit) store =
        Step.runAll call ctx (agenda ground t path place v) store ∧
      calls call t path v (ctx.descend path) (place.map Prod.fst) store =
        Step.calls call ctx (agenda ground t path place v) store

private theorem straight_fields {ground : Store} {guarded : List Address} (store : Store)
    {fields : List (String × Tree α)}
    (straight : ∀ field ∈ fields, Straight call ctx ground guarded field.2)
    (names : (fields.map Prod.fst).Nodup) {path : List String} {v : Value} {a : Address}
    (mapping : v.fields? = some a)
    (keyed : ∀ step ∈ fieldAgenda ground fields path v, step.Keyed ctx)
    (nodup : (entered (fieldAgenda ground fields path v)).Nodup)
    (within : entered (fieldAgenda ground fields path v) ⊆ guarded) (guards : a ∈ guarded)
    (outside : a ∉ entered (fieldAgenda ground fields path v))
    (below : ∀ b ∈ entered (fieldAgenda ground fields path v),
      store.entries b = ground.entries b)
    (here : ∀ name ∈ fields.map Prod.fst,
      (store.entries a).valueOf? name = (ground.entries a).valueOf? name)
    (quiet : ∀ c ∈ fieldCalls call fields path a (ctx.descend path) store,
      (∃ inner, .ask c.path inner c.given c.content ∈ fieldAgenda ground fields path v) →
        ∀ b ∈ guarded, c.Spares call b) :
    checkFields call fields a (ctx.descend path) store =
        Step.runAll call ctx (fieldAgenda ground fields path v) store ∧
      fieldCalls call fields path a (ctx.descend path) store =
        Step.calls call ctx (fieldAgenda ground fields path v) store := by
  induction fields generalizing store with
  | nil => exact ⟨rfl, rfl⟩
  | cons field rest ih =>
    obtain ⟨name, tree⟩ := field
    rw [fieldAgenda] at keyed nodup within outside below quiet ⊢
    rw [mapping, Option.map_some, Store.field_of_fields? mapping]
      at keyed nodup within outside below quiet ⊢
    rw [entered_append] at nodup within outside below
    rw [List.map_cons, List.nodup_cons] at names
    rw [List.nodup_append] at nodup
    obtain ⟨nodupFirst, nodupRest, disjoint⟩ := nodup
    have same : (store.entries a).get name = (ground.entries a).get name := by
      rw [Entries.get, Entries.get, here name List.mem_cons_self]
    rw [fieldCalls, same] at quiet
    have quietFirst : ∀ c ∈ calls call tree (path ++ [name]) ((ground.entries a).get name)
        (ctx.descend (path ++ [name])) (some a) store,
        (∃ inner, .ask c.path inner c.given c.content ∈
          agenda ground tree (path ++ [name]) (some (a, name)) ((ground.entries a).get name)) →
            ∀ b ∈ guarded, c.Spares call b := by
      rintro c member ⟨inner, listed⟩
      rw [Context.descend_concat] at member
      exact quiet c (List.mem_append_left _ member) ⟨inner, List.mem_append_left _ listed⟩
    have keyedFirst : ∀ step ∈ agenda ground tree (path ++ [name]) (some (a, name))
        ((ground.entries a).get name), step.Keyed ctx :=
      fun step member => keyed step (List.mem_append_left _ member)
    obtain ⟨first, called⟩ := straight (name, tree) List.mem_cons_self (path ++ [name])
      (some (a, name)) ((ground.entries a).get name) store keyedFirst nodupFirst
      (fun b member => within (List.mem_append_left _ member))
      (fun b member => below b (List.mem_append_left _ member)) quietFirst
    simp only [Option.map_some] at first called
    have quietRun : ∀ c ∈ Step.calls call ctx (agenda ground tree (path ++ [name])
        (some (a, name)) ((ground.entries a).get name)) store, ∀ b ∈ guarded, c.Spares call b := by
      intro c member
      have listed := Step.ask_of_mem_calls member
      rw [← called] at member
      exact quietFirst c member listed
    rw [Context.descend_concat] at first called
    rw [checkFields_cons, fieldCalls, same, Step.runAll_append, Step.calls_append, ← first,
      ← called]
    cases ran : (discard (check call tree ((ground.entries a).get name)
        ((ctx.descend path).child name) (some a)) : CheckM Unit) store with
    | error failure after => simp
    | ok _ after =>
      simp only [List.append_cancel_left_eq]
      rw [ran] at first quiet
      refine ih after (fun field member => straight field (List.mem_cons_of_mem _ member)) names.2
        (fun step member => keyed step (List.mem_append_right _ member)) nodupRest
        (fun b member => within (List.mem_append_right _ member))
        (fun member => outside (List.mem_append_right _ member)) ?_ ?_ ?_
      · intro b member
        rw [← below b (List.mem_append_right _ member)]
        refine Step.entries_runAll_of_spares keyedFirst
          (fun c made => quietRun c made b (within (List.mem_append_right _ member))) ?_ first.symm
        intro step listed touches
        rcases touched_of_mem_agenda listed touches with top | deep
        · simp only [Option.map_some, Option.some.injEq] at top
          exact outside (List.mem_append_right _ (top ▸ member))
        · exact disjoint b deep b member rfl
      · intro other member
        rw [← here other (List.mem_cons_of_mem _ member)]
        have differs : some (a, name) ≠ some (a, other) := by
          intro equal
          simp only [Option.some.injEq, Prod.mk.injEq, true_and] at equal
          exact names.1 (equal ▸ member)
        exact Step.valueOf?_runAll_of_spares keyedFirst (fun c made => quietRun c made a guards)
          (spares_of_mem_agenda differs fun member => outside (List.mem_append_left _ member))
          first.symm
      · rintro c member ⟨inner, listed⟩
        exact quiet c (List.mem_append_right _ member) ⟨inner, List.mem_append_right _ listed⟩

private theorem straight_of_distinct (ground : Store) (guarded : List Address) {t : Tree α}
    (distinct : t.Distinct) : Straight call ctx ground guarded t := by
  induction t with
  | leaf content =>
    intro path place v store _ _ _ _ _
    rw [discard_eq, check_leaf, agenda, Step.runAll_cons, Step.run_ask, calls, Step.calls,
      Step.run_ask]
    cases call content v (ctx.descend path) store <;> exact ⟨rfl, rfl⟩
  | branch fields ih =>
    intro path place v store keyed nodup within agrees quiet
    rw [Distinct, fieldsDistinct_iff] at distinct
    rw [entered_branch] at nodup within agrees
    rw [calls] at quiet
    rw [discard_eq, check_branch, calls]
    rw [agenda] at keyed quiet ⊢
    cases mapping : v.fields? with
    | none => exact ⟨rfl, rfl⟩
    | some a =>
      rw [mapping] at keyed quiet
      rw [mapping, Option.toList_some, List.singleton_append] at nodup within agrees
      rw [List.nodup_cons] at nodup
      rw [Step.runAll_cons, Step.calls, Step.run_enter_some]
      obtain ⟨loop, called⟩ := straight_fields
        (store.setEntries a ((store.entries a).restrict (fields.map Prod.fst)))
        (fun field member => ih field member (distinct.2 field member)) distinct.1 mapping
        (fun step member => keyed step (List.mem_cons_of_mem _ member)) nodup.2
        (fun b member => within (List.mem_cons_of_mem _ member)) (within List.mem_cons_self) nodup.1
        (fun b member => by
          have differs : a ≠ b := fun same => nodup.1 (same ▸ member)
          rw [Store.entries_setEntries_ne store differs]
          exact agrees b (List.mem_cons_of_mem _ member))
        (fun name member => by
          rw [← agrees a List.mem_cons_self]
          exact Store.setEntries_cases (P := fun entries =>
            entries.valueOf? name = (store.entries a).valueOf? name) a rfl
            fun _ => Entries.valueOf?_restrict member)
        (fun c member ⟨inner, listed⟩ => quiet c member ⟨inner, List.mem_cons_of_mem _ listed⟩)
      simp only [← loop, ← called]
      refine ⟨?_, trivial⟩
      cases checkFields call fields a (ctx.descend path)
        (store.setEntries a ((store.entries a).restrict (fields.map Prod.fst))) <;> rfl

variable {t : Tree α} {v : Value} {store : Store}

/-- A check is the run of its agenda, call by call, when it enters no mapping twice and its leaves
leave the mappings alone that it enters. -/
theorem check_eq_runAll_of_spares (distinct : t.Distinct)
    (keyed : ∀ step ∈ agenda store t [] none v, step.Keyed ctx)
    (nodup : (entered (agenda store t [] none v)).Nodup)
    (quiet : ∀ c ∈ calls call t [] v ctx none store,
      (∃ inner, .ask c.path inner c.given c.content ∈ agenda store t [] none v) →
        ∀ b ∈ entered (agenda store t [] none v), c.Spares call b) :
    (discard (check call t v ctx none) : CheckM Unit) store =
        Step.runAll call ctx (agenda store t [] none v) store ∧
      calls call t [] v ctx none store = Step.calls call ctx (agenda store t [] none v) store :=
  straight_of_distinct store _ distinct [] none v store keyed nodup (List.Subset.refl _)
    (fun _ _ => rfl) quiet

private theorem straight_of_tame (distinct : t.Distinct)
    (tame : ∀ step ∈ agenda store t [] none v, step.Tame call ctx)
    (nodup : (entered (agenda store t [] none v)).Nodup) :
    (discard (check call t v ctx none) : CheckM Unit) store =
        Step.runAll call ctx (agenda store t [] none v) store ∧
      calls call t [] v ctx none store = Step.calls call ctx (agenda store t [] none v) store := by
  refine check_eq_runAll_of_spares distinct (fun step member => (tame step member).keyed) nodup ?_
  rintro c _ ⟨inner, listed⟩ b _ r after called
  exact ((tame _ listed).1.keeps called).entries b List.not_mem_nil

theorem check_eq_runAll (distinct : t.Distinct)
    (tame : ∀ step ∈ agenda store t [] none v, step.Tame call ctx)
    (nodup : (entered (agenda store t [] none v)).Nodup) :
    (discard (check call t v ctx none) : CheckM Unit) store =
      Step.runAll call ctx (agenda store t [] none v) store :=
  (straight_of_tame distinct tame nodup).1

theorem calls_eq_calls (distinct : t.Distinct)
    (tame : ∀ step ∈ agenda store t [] none v, step.Tame call ctx)
    (nodup : (entered (agenda store t [] none v)).Nodup) :
    calls call t [] v ctx none store = Step.calls call ctx (agenda store t [] none v) store :=
  (straight_of_tame distinct tame nodup).2

end Tree

end Assay
