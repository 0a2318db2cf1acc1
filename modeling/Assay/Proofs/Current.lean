import Assay.Proofs.Satisfaction

/-!
Checks of values in which one mapping stands at several paths. What a check takes out of a mapping
at one path is then missing at the others, so a leaf is asked about what stands at its place by the
time it is asked. A check that goes through goes as the run of its agenda with every value read off
its place anew, and what it leaves of a mapping is what every branch that enters it describes.
-/

set_option autoImplicit false
set_option relaxedAutoImplicit false

namespace Assay

namespace Step

variable {α : Type} (call : α → Value → Context → CheckM Value) (ctx : Context)

def current (now : Store) : Step α → Step α
  | .ask path (some (a, name)) _ content =>
    .ask path (some (a, name)) ((now.entries a).get name) content
  | step => step

/-- Takes steps until one fails, and asks each leaf about what stands at its place by then. -/
def runCurrent : List (Step α) → CheckM Unit
  | [] => fun store => .ok () store
  | step :: rest => fun store =>
    match (step.current store).run call ctx store with
    | .ok _ after => runCurrent rest after
    | .error failure after => .error failure after

def keepsKey (a : Address) (key : Value) : Step α → Bool
  | .enter _ (some b) names => b != a || names.any fun name => key == .text name
  | _ => true

theorem runCurrent_cons (step : Step α) (rest : List (Step α)) (store : Store) :
    runCurrent call ctx (step :: rest) store =
      match (step.current store).run call ctx store with
      | .ok _ after => runCurrent call ctx rest after
      | .error failure after => .error failure after := rfl

theorem runCurrent_append (first second : List (Step α)) (store : Store) :
    runCurrent call ctx (first ++ second) store =
      match runCurrent call ctx first store with
      | .ok _ after => runCurrent call ctx second after
      | .error failure after => .error failure after := by
  induction first generalizing store with
  | nil => rfl
  | cons step rest ih =>
    simp only [List.cons_append, runCurrent]
    cases run call ctx (step.current store) store with
    | error failure after => rfl
    | ok _ after => exact ih after

variable {call ctx}

theorem runCurrent_append_ok {first second : List (Step α)} {before after : Store}
    (ran : runCurrent call ctx (first ++ second) before = .ok () after) :
    ∃ between, runCurrent call ctx first before = .ok () between ∧
      runCurrent call ctx second between = .ok () after := by
  rw [runCurrent_append] at ran
  cases early : runCurrent call ctx first before with
  | error failure between => simp [early] at ran
  | ok _ between =>
    simp only [early] at ran
    exact ⟨between, rfl, ran⟩

theorem runCurrent_cons_ok {step : Step α} {rest : List (Step α)} {before after : Store}
    (ran : runCurrent call ctx (step :: rest) before = .ok () after) :
    ∃ between, (step.current before).run call ctx before = .ok () between ∧
      runCurrent call ctx rest between = .ok () after := by
  rw [runCurrent_cons] at ran
  cases first : (step.current before).run call ctx before with
  | error failure between => simp [first] at ran
  | ok _ between =>
    simp only [first] at ran
    exact ⟨between, rfl, ran⟩

theorem Tame.current {step : Step α} (tame : step.Tame call ctx) (now : Store) :
    (step.current now).Tame call ctx := by
  cases step with
  | enter path mapping names => exact tame
  | ask path place given content =>
    cases place with
    | none => exact tame
    | some target => exact tame

theorem mapping_of_runCurrent {steps : List (Step α)} {before after : Store}
    (ran : runCurrent call ctx steps before = .ok () after) {path names : List String}
    {mapping : Option Address} (member : .enter path mapping names ∈ steps) :
    ∃ a, mapping = some a := by
  obtain ⟨early, late, rfl⟩ := List.append_of_mem member
  obtain ⟨between, _, ran⟩ := runCurrent_append_ok ran
  obtain ⟨_, entered, _⟩ := runCurrent_cons_ok ran
  cases mapping with
  | none => cases entered
  | some a => exact ⟨a, rfl⟩

private theorem entries_current {step : Step α} (tame : step.Tame call ctx)
    (plain : ctx.mode.sanitize = false) {before after : Store}
    (ran : (step.current before).run call ctx before = .ok () after) :
    Store.Keeps (Tree.entered [step]) before after ∧
      ∀ a, after.entries a = (before.entries a).filter fun entry => step.keepsKey a entry.1 := by
  have whole : ∀ entries : Entries, (entries.filter fun _ => true) = entries :=
    fun entries => List.filter_eq_self.mpr fun _ _ => rfl
  cases step with
  | enter path mapping names =>
    cases mapping with
    | none => cases ran
    | some a =>
      cases ran
      refine ⟨Store.keeps_setEntries before a _, fun b => ?_⟩
      by_cases here : a = b
      · subst here
        rw [Store.entries_pruned]
        simp [keepsKey, Entries.restrict]
      · have other : (a != b) = true := bne_iff_ne.mpr here
        rw [Store.entries_setEntries_ne before here]
        simp only [keepsKey, other, Bool.true_or, whole]
  | ask path place given content =>
    rcases run_plain (tame.current before) plain ran with ⟨_, _, _, asked, _⟩ | ⟨_, kept⟩
    · cases place with
      | none => cases asked
      | some target => cases asked
    · refine ⟨kept.mono (List.nil_subset _), fun a => ?_⟩
      simp only [keepsKey]
      rw [whole, kept.entries a List.not_mem_nil]

theorem entries_runCurrent {steps : List (Step α)} (tame : ∀ step ∈ steps, step.Tame call ctx)
    (plain : ctx.mode.sanitize = false) {before after : Store}
    (ran : runCurrent call ctx steps before = .ok () after) :
    Store.Keeps (Tree.entered steps) before after ∧
      ∀ a, after.entries a =
        (before.entries a).filter fun entry => steps.all (keepsKey a entry.1) := by
  induction steps generalizing before with
  | nil =>
    cases ran
    exact ⟨Store.Keeps.refl _ _, fun a => (List.filter_eq_self.mpr fun _ _ => rfl).symm⟩
  | cons step rest ih =>
    obtain ⟨between, first, later⟩ := runCurrent_cons_ok ran
    obtain ⟨kept, entries⟩ := entries_current (tame step List.mem_cons_self) plain first
    obtain ⟨kept', entries'⟩ := ih (fun s member => tame s (List.mem_cons_of_mem step member)) later
    have split : Tree.entered (step :: rest) = Tree.entered [step] ++ Tree.entered rest :=
      Tree.entered_append [step] rest
    rw [split]
    refine ⟨(kept.mono (List.subset_append_left _ _)).trans
      (kept'.mono (List.subset_append_right _ _)), fun a => ?_⟩
    rw [entries', entries, List.filter_filter]
    simp only [List.all_cons, Bool.and_comm]

end Step

namespace Tree

variable {α : Type} {call : α → Value → Context → CheckM Value} {ctx : Context}

/-- A store in which mappings have lost some keys, and values under the others are as they were. -/
private def Wanes (ground now : Store) : Prop :=
  ∀ a name, (now.entries a).get name = .null ∨
    (now.entries a).get name = (ground.entries a).get name

private def standing (now : Store) (v : Value) : Option (Address × String) → Value
  | none => v
  | some (a, name) => (now.entries a).get name

private theorem Wanes.run {ground before after : Store} (wanes : Wanes ground before)
    {steps : List (Step α)} (tame : ∀ step ∈ steps, step.Tame call ctx)
    (plain : ctx.mode.sanitize = false)
    (ran : Step.runCurrent call ctx steps before = .ok () after) : Wanes ground after := by
  intro a name
  rw [(Step.entries_runCurrent tame plain ran).2 a,
    Entries.get_filter fun key => steps.all (Step.keepsKey a key)]
  split
  · exact wanes a name
  · exact Or.inl rfl

/-- A check that goes through goes as its agenda with the values read off their places. -/
private def Follows (call : α → Value → Context → CheckM Value) (ctx : Context) (ground : Store)
    (t : Tree α) : Prop :=
  ∀ (path : List String) (place : Option (Address × String)) (v : Value) (now after : Store)
    (result : Value), (∀ step ∈ agenda ground t path place v, step.Tame call ctx) →
      Wanes ground now → (∀ a name, place = some (a, name) → v = (ground.entries a).get name) →
        check call t (standing now v place) (ctx.descend path) (place.map Prod.fst) now =
          .ok result after →
            Step.runCurrent call ctx (agenda ground t path place v) now = .ok () after

private theorem follows_fields {ground : Store} (plain : ctx.mode.sanitize = false)
    {fields : List (String × Tree α)} (each : ∀ field ∈ fields, Follows call ctx ground field.2)
    {path : List String} {v : Value} {a : Address} (mapping : v.fields? = some a)
    {now after : Store} (wanes : Wanes ground now)
    (tame : ∀ step ∈ fieldAgenda ground fields path v, step.Tame call ctx)
    (checked : checkFields call fields a (ctx.descend path) now = .ok () after) :
    Step.runCurrent call ctx (fieldAgenda ground fields path v) now = .ok () after := by
  induction fields generalizing now with
  | nil =>
    cases checked
    rfl
  | cons field rest ih =>
    obtain ⟨name, tree⟩ := field
    rw [fieldAgenda, mapping, Option.map_some, Store.field_of_fields? mapping] at tame ⊢
    rw [checkFields_cons, discard_eq] at checked
    cases first : check call tree ((now.entries a).get name) ((ctx.descend path).child name)
        (some a) now with
    | error failure between => simp [first] at checked
    | ok result between =>
      simp only [first] at checked
      have tameFirst := fun step member => tame step (List.mem_append_left _ member)
      rw [← Context.descend_concat] at first
      have ran := each (name, tree) List.mem_cons_self (path ++ [name]) (some (a, name)) _ now
        between result tameFirst wanes (fun b other same => by
          obtain ⟨rfl, rfl⟩ := Prod.mk.inj (Option.some.inj same)
          rfl) first
      rw [Step.runCurrent_append, ran]
      exact ih (fun field member => each field (List.mem_cons_of_mem _ member))
        (wanes.run tameFirst plain ran)
        (fun step member => tame step (List.mem_append_right _ member))
        checked

private theorem follows (ground : Store) (plain : ctx.mode.sanitize = false) (t : Tree α) :
    Follows call ctx ground t := by
  induction t with
  | leaf content =>
    intro path place v now after result tame wanes was checked
    have same : (Step.ask path place v content).current now =
        .ask path place (standing now v place) content := by
      cases place <;> rfl
    rw [check_leaf] at checked
    rw [agenda, Step.runCurrent_cons, same, Step.run_ask]
    cases called : call content (standing now v place) (ctx.descend path) now with
    | error failure between => simp [called] at checked
    | ok r between =>
      simp only [called] at checked
      cases checked
      rfl
  | branch fields ih =>
    intro path place v now after result tame wanes was checked
    rw [check_branch] at checked
    cases mapping : (standing now v place).fields? with
    | none => simp [mapping] at checked
    | some a =>
      -- What stands there is a mapping, so it is there as it was in the beginning.
      have here : standing now v place = v := by
        cases place with
        | none => rfl
        | some target =>
          obtain ⟨b, name⟩ := target
          rcases wanes b name with gone | same
          · rw [standing, gone] at mapping
            cases mapping
          · rw [standing, same, was b name rfl]
      rw [here] at mapping
      simp only [here, mapping] at checked
      rw [agenda] at tame ⊢
      rw [mapping] at tame ⊢
      cases ran : checkFields call fields a (ctx.descend path)
          (now.setEntries a ((now.entries a).restrict (fields.map Prod.fst))) with
      | error failure between => simp [ran] at checked
      | ok _ between =>
        simp only [ran] at checked
        cases checked
        have enters : Step.runCurrent call ctx [.enter path (some a) (fields.map Prod.fst)] now =
            .ok () (now.setEntries a ((now.entries a).restrict (fields.map Prod.fst))) := rfl
        have wanes' := wanes.run (fun step member => tame step
          (List.mem_singleton.mp member ▸ List.mem_cons_self)) plain enters
        exact follows_fields plain ih mapping wanes'
          (fun step member => tame step (List.mem_cons_of_mem _ member)) ran

/-- When no values are replaced, a check that goes through goes as its agenda with the values read
off their places, whatever mappings stand at several paths. -/
theorem runCurrent_of_check (plain : ctx.mode.sanitize = false) {t : Tree α} {v : Value}
    {before after : Store} {result : Value}
    (tame : ∀ step ∈ agenda before t [] none v, step.Tame call ctx)
    (checked : check call t v ctx none before = .ok result after) :
    Step.runCurrent call ctx (agenda before t [] none v) before = .ok () after :=
  follows before plain t [] none v before after result tame (fun _ _ => Or.inr rfl) nofun checked

end Tree

end Assay
