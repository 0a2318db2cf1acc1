import Assay.Checker.Stock

/-!
Chains of custom checks behind a checker. The checker comes first. Unless it fails or the value is
absent, the custom checks follow in order, each about the value that was given at first, until one
of them fails or refuses. If none does, the last one that gave something to keep decides the result.
-/

set_option autoImplicit false
set_option relaxedAutoImplicit false

namespace Assay

namespace Checker

/-- What an outcome of a custom check makes of the result so far: nothing and `true` let it stand,
and anything else takes its place. -/
def revised (r outcome : Value) : Value :=
  if outcome = .null ∨ outcome = .bool true then r else outcome

theorem check_extended (base : Checker) (extension : CustomCheck) (v : Value) (ctx : Context)
    (store : Store) :
    (Checker.extended base extension).check v ctx store =
      match base.check v ctx store with
      | .error failure after => .error failure after
      | .ok r between =>
        if v = .null then .ok r between
        else
          match extension.run v ctx between with
          | .error failure after => .error failure after
          | .ok outcome after =>
            if outcome = .bool false then .error (.invalid ctx.path) after
            else .ok (revised r outcome) after := by
  simp only [check, bind, EStateM.bind]
  cases base.check v ctx store with
  | error failure after => rfl
  | ok r between =>
    by_cases absent : v = .null
    · simp only [absent, if_true]
      rfl
    · simp only [absent, if_false, EStateM.bind]
      cases extension.run v ctx between with
      | error failure after => rfl
      | ok outcome after =>
        simp only
        split
        · rfl
        · rfl
        · rfl
        · rename_i notFalse notTrue notNull
          have counts : ¬(outcome = .null ∨ outcome = .bool true) := not_or.mpr ⟨notNull, notTrue⟩
          rw [if_neg notFalse, revised, if_neg counts]
          rfl

variable {b base : Checker} {c extension : CustomCheck} {cs rest : List CustomCheck} {v r : Value}
  {ctx : Context} {before between after : Store} {failure : Failure}

theorem check_extended_ok_iff :
    (Checker.extended base extension).check v ctx before = .ok r after ↔
      (v = .null ∧ base.check v ctx before = .ok r after) ∨
        (v ≠ .null ∧ ∃ r' between outcome, base.check v ctx before = .ok r' between ∧
          extension.run v ctx between = .ok outcome after ∧ outcome ≠ .bool false ∧
            r = revised r' outcome) := by
  rw [check_extended]
  constructor
  · intro checked
    cases based : base.check v ctx before with
    | error failure between => simp [based] at checked
    | ok r' between =>
      simp only [based] at checked
      by_cases absent : v = .null
      · rw [if_pos absent] at checked
        exact Or.inl ⟨absent, checked⟩
      · rw [if_neg absent] at checked
        cases ran : extension.run v ctx between with
        | error failure later => simp [ran] at checked
        | ok outcome later =>
          simp only [ran] at checked
          split at checked
          · cases checked
          · rename_i passes
            cases checked
            exact Or.inr ⟨absent, r', between, outcome, rfl, ran, passes, rfl⟩
  · rintro (⟨absent, based⟩ | ⟨present, r', between, outcome, based, ran, passes, rfl⟩)
    · simp only [based, if_pos absent]
    · simp only [based, if_neg present, ran, if_neg passes]

theorem exists_of_extended_ok (present : v ≠ .null)
    (checked : (Checker.extended base extension).check v ctx before = .ok r after) :
    ∃ r' between outcome, base.check v ctx before = .ok r' between ∧
      extension.run v ctx between = .ok outcome after ∧ outcome ≠ .bool false ∧
        r = revised r' outcome := by
  rcases check_extended_ok_iff.mp checked with ⟨absent, _⟩ | ⟨_, asked⟩
  · exact absurd absent present
  · exact asked

theorem extended_ok {outcome : Value} (present : v ≠ .null)
    (checked : base.check v ctx before = .ok r between)
    (ran : extension.run v ctx between = .ok outcome after) (passes : outcome ≠ .bool false) :
    (Checker.extended base extension).check v ctx before = .ok (revised r outcome) after :=
  check_extended_ok_iff.mpr (Or.inr ⟨present, r, between, outcome, checked, ran, passes, rfl⟩)

theorem check_extended_error_iff :
    (Checker.extended base extension).check v ctx before = .error failure after ↔
      base.check v ctx before = .error failure after ∨
        (v ≠ .null ∧ ∃ r between, base.check v ctx before = .ok r between ∧
          (extension.run v ctx between = .error failure after ∨
            (extension.run v ctx between = .ok (.bool false) after ∧
              failure = .invalid ctx.path))) := by
  rw [check_extended]
  constructor
  · intro failed
    cases based : base.check v ctx before with
    | error other between =>
      simp only [based] at failed
      exact Or.inl failed
    | ok r between =>
      simp only [based] at failed
      by_cases absent : v = .null
      · rw [if_pos absent] at failed
        cases failed
      · rw [if_neg absent] at failed
        refine Or.inr ⟨absent, r, between, rfl, ?_⟩
        cases ran : extension.run v ctx between with
        | error other later =>
          simp only [ran] at failed
          exact Or.inl failed
        | ok outcome later =>
          simp only [ran] at failed
          split at failed
          · rename_i refused
            cases failed
            exact Or.inr ⟨by rw [refused], rfl⟩
          · cases failed
  · rintro (based | ⟨present, r, between, based, ran | ⟨ran, rfl⟩⟩)
    · simp only [based]
    · simp only [based, if_neg present, ran]
    · simp only [based, if_neg present, ran, if_true]

/-- A checker with custom checks behind it, each one behind those before it. -/
def chain (b : Checker) (cs : List CustomCheck) : Checker := cs.foldl Checker.extended b

/-- Custom checks are called one after another, each once and about the same value in the same
context, in the store that the one before has left. None of them fails and none refuses; the list
holds their outcomes. -/
inductive Consulted (v : Value) (ctx : Context) :
    List CustomCheck → Store → List Value → Store → Prop
  | nil (store : Store) : Consulted v ctx [] store [] store
  | cons {c : CustomCheck} {rest : List CustomCheck} {before between after : Store}
      {outcome : Value} {outcomes : List Value} :
      c.run v ctx before = .ok outcome between → outcome ≠ .bool false →
      Consulted v ctx rest between outcomes after →
      Consulted v ctx (c :: rest) before (outcome :: outcomes) after

/-- The last outcome that is neither nothing nor `true`, or else the result that was there. -/
def standing (r : Value) (outcomes : List Value) : Value :=
  (outcomes.filter fun outcome => outcome ≠ .null ∧ outcome ≠ .bool true).getLast?.getD r

/-- How a chain comes to its end, with the store that it leaves. Calls that are not mentioned are
not made: a custom check may change the store in any way, so a call would show in it. -/
inductive Concludes (b : Checker) (cs : List CustomCheck) (v : Value) (ctx : Context)
    (before : Store) : EStateM.Result Failure Store Value → Prop
  | base {failure : Failure} {after : Store} :
      b.check v ctx before = .error failure after →
      Concludes b cs v ctx before (.error failure after)
  | absent {r : Value} {after : Store} :
      v = .null → b.check v ctx before = .ok r after →
      Concludes b cs v ctx before (.ok r after)
  | refused {passed later : List CustomCheck} {c : CustomCheck} {r : Value}
      {outcomes : List Value} {between now after : Store} :
      v ≠ .null → b.check v ctx before = .ok r between → cs = passed ++ c :: later →
      Consulted v ctx passed between outcomes now → c.run v ctx now = .ok (.bool false) after →
      Concludes b cs v ctx before (.error (.invalid ctx.path) after)
  | raised {passed later : List CustomCheck} {c : CustomCheck} {r : Value}
      {outcomes : List Value} {between now after : Store} {failure : Failure} :
      v ≠ .null → b.check v ctx before = .ok r between → cs = passed ++ c :: later →
      Consulted v ctx passed between outcomes now → c.run v ctx now = .error failure after →
      Concludes b cs v ctx before (.error failure after)
  | accepted {r : Value} {outcomes : List Value} {between after : Store} :
      v ≠ .null → b.check v ctx before = .ok r between →
      Consulted v ctx cs between outcomes after →
      Concludes b cs v ctx before (.ok (standing r outcomes) after)

theorem standing_cons (r outcome : Value) (outcomes : List Value) :
    standing r (outcome :: outcomes) = standing (revised r outcome) outcomes := by
  by_cases keeps : outcome = .null ∨ outcome = .bool true
  · have skipped : ¬(outcome ≠ .null ∧ outcome ≠ .bool true) := by
      rintro ⟨notNull, notTrue⟩
      exact keeps.elim notNull notTrue
    rw [standing, List.filter_cons_of_neg (by simpa using skipped), revised, if_pos keeps, standing]
  · have counts : outcome ≠ .null ∧ outcome ≠ .bool true := not_or.mp keeps
    rw [standing, List.filter_cons_of_pos (by simpa using counts), List.getLast?_cons,
      Option.getD_some, revised, if_neg keeps, standing]

private theorem concludes_nil {result : EStateM.Result Failure Store Value} :
    Concludes b [] v ctx before result ↔ b.check v ctx before = result := by
  constructor
  · intro concludes
    cases concludes with
    | base failed => exact failed
    | absent _ checked => exact checked
    | refused _ _ split => simp at split
    | raised _ _ split => simp at split
    | accepted _ checked consulted =>
      cases consulted
      exact checked
  · intro checked
    cases result with
    | error failure after => exact .base checked
    | ok r after =>
      by_cases absent : v = .null
      · exact .absent absent checked
      · exact .accepted absent checked (.nil after)

private theorem concludes_cons {result : EStateM.Result Failure Store Value} :
    Concludes b (c :: rest) v ctx before result ↔
      Concludes (.extended b c) rest v ctx before result := by
  constructor
  · intro concludes
    cases concludes with
    | base failed => exact .base (check_extended_error_iff.mpr (Or.inl failed))
    | absent absent checked =>
      exact .absent absent (check_extended_ok_iff.mpr (Or.inl ⟨absent, checked⟩))
    | @refused passed later d r outcomes between now after present checked split consulted ran =>
      cases consulted with
      | nil =>
        obtain ⟨rfl, rfl⟩ := List.cons.inj split
        exact .base (check_extended_error_iff.mpr
          (Or.inr ⟨present, r, between, checked, Or.inr ⟨ran, rfl⟩⟩))
      | @cons e passed _ next _ outcome outcomes first passes others =>
        obtain ⟨rfl, apart⟩ := List.cons.inj split
        have extended := extended_ok present checked first passes
        exact .refused present extended apart others ran
    | @raised passed later d r outcomes between now after failure present checked split consulted
        ran =>
      cases consulted with
      | nil =>
        obtain ⟨rfl, rfl⟩ := List.cons.inj split
        exact .base (check_extended_error_iff.mpr
          (Or.inr ⟨present, r, between, checked, Or.inl ran⟩))
      | @cons e passed _ next _ outcome outcomes first passes others =>
        obtain ⟨rfl, apart⟩ := List.cons.inj split
        have extended := extended_ok present checked first passes
        exact .raised present extended apart others ran
    | @accepted r outcomes between after present checked consulted =>
      cases consulted with
      | @cons e passed _ next _ outcome outcomes first passes others =>
        have extended := extended_ok present checked first passes
        rw [standing_cons]
        exact .accepted present extended others
  · intro concludes
    cases concludes with
    | base failed =>
      rcases check_extended_error_iff.mp failed with
        checked | ⟨present, r, between, checked, ran | ⟨ran, rfl⟩⟩
      · exact .base checked
      · exact .raised present checked (List.nil_append _).symm (.nil between) ran
      · exact .refused present checked (List.nil_append _).symm (.nil between) ran
    | absent absent checked =>
      rcases check_extended_ok_iff.mp checked with ⟨_, checked⟩ | ⟨present, _⟩
      · exact .absent absent checked
      · exact absurd absent present
    | @refused passed later d r' outcomes next now after present checked split consulted ran =>
      obtain ⟨r, between, outcome, based, first, passes, rfl⟩ :=
        exists_of_extended_ok present checked
      exact .refused present based (congrArg (c :: ·) split) (.cons first passes consulted) ran
    | @raised passed later d r' outcomes next now after failure present checked split consulted
        ran =>
      obtain ⟨r, between, outcome, based, first, passes, rfl⟩ :=
        exists_of_extended_ok present checked
      exact .raised present based (congrArg (c :: ·) split) (.cons first passes consulted) ran
    | @accepted r' outcomes next after present checked consulted =>
      obtain ⟨r, between, outcome, based, first, passes, rfl⟩ :=
        exists_of_extended_ok present checked
      rw [← standing_cons]
      exact .accepted present based (.cons first passes consulted)

/-- A chain ends in the one way that its checker and its custom checks lead to. -/
theorem check_chain_eq_iff (b : Checker) (cs : List CustomCheck) (v : Value) (ctx : Context)
    (before : Store) (result : EStateM.Result Failure Store Value) :
    (chain b cs).check v ctx before = result ↔ Concludes b cs v ctx before result := by
  induction cs generalizing b with
  | nil => exact concludes_nil.symm
  | cons c rest ih =>
    have shifted : chain b (c :: rest) = chain (.extended b c) rest := rfl
    rw [shifted, ih, concludes_cons]

/-- What a caller is told of an end: the result or the failure, but not the store. -/
def told : EStateM.Result Failure Store Value → Except Failure Value
  | .ok r _ => .ok r
  | .error failure _ => .error failure

end Checker

namespace CustomCheck

/-- A custom check that always lets the result stand: it gives nothing or `true`. -/
def Assents (c : CustomCheck) : Prop :=
  ∀ v ctx before, ∃ outcome after, c.run v ctx before = .ok outcome after ∧
    (outcome = .null ∨ outcome = .bool true)

def Harmless (c : CustomCheck) : Prop :=
  ∀ v ctx before outcome after, c.run v ctx before = .ok outcome after → after = before

end CustomCheck

namespace Checker

variable {b : Checker} {cs : List CustomCheck} {v r : Value} {ctx : Context}
  {before after : Store} {outcomes : List Value}

private theorem consulted_of_assents (assent : ∀ c ∈ cs, c.Assents) (v : Value) (ctx : Context)
    (before : Store) :
    ∃ outcomes after, Consulted v ctx cs before outcomes after ∧
      ∀ outcome ∈ outcomes, outcome = .null ∨ outcome = .bool true := by
  induction cs generalizing before with
  | nil => exact ⟨[], before, .nil before, by simp⟩
  | cons c rest ih =>
    obtain ⟨outcome, between, ran, stands⟩ := assent c List.mem_cons_self v ctx before
    obtain ⟨outcomes, after, consulted, all⟩ :=
      ih (fun d member => assent d (List.mem_cons_of_mem c member)) between
    have passes : outcome ≠ .bool false := by
      rintro rfl
      rcases stands with null | yes
      · cases null
      · cases yes
    refine ⟨outcome :: outcomes, after, .cons ran passes consulted, ?_⟩
    exact List.forall_mem_cons.mpr ⟨stands, all⟩

private theorem standing_of_assents
    (all : ∀ outcome ∈ outcomes, outcome = .null ∨ outcome = .bool true) (r : Value) :
    standing r outcomes = r := by
  induction outcomes with
  | nil => rfl
  | cons outcome rest ih =>
    obtain ⟨stands, others⟩ := List.forall_mem_cons.mp all
    rw [standing_cons, revised, if_pos stands, ih others]

private theorem store_of_harmless (harmless : ∀ c ∈ cs, c.Harmless)
    (consulted : Consulted v ctx cs before outcomes after) : after = before := by
  induction consulted with
  | nil store => rfl
  | @cons c rest before between after outcome outcomes ran _ _ ih =>
    have later := ih fun d member => harmless d (List.mem_cons_of_mem c member)
    have first := harmless c List.mem_cons_self v ctx before outcome between ran
    rw [later, first]

/-- Custom checks that let the result stand leave the result and the failures of the checker in
front of them as they are; what they change is all that can be seen of them. -/
private theorem concludes_of_assents (assent : ∀ c ∈ cs, c.Assents) (v : Value) (ctx : Context)
    (before : Store) :
    ∃ result, Concludes b cs v ctx before result ∧ told result = told (b.check v ctx before) ∧
      ((∀ c ∈ cs, c.Harmless) → result = b.check v ctx before) := by
  cases checked : b.check v ctx before with
  | error failure after => exact ⟨_, .base checked, rfl, fun _ => rfl⟩
  | ok r between =>
    by_cases absent : v = .null
    · exact ⟨_, .absent absent checked, rfl, fun _ => rfl⟩
    · obtain ⟨outcomes, after, consulted, all⟩ := consulted_of_assents assent v ctx between
      have result : Concludes b cs v ctx before (.ok (standing r outcomes) after) :=
        .accepted absent checked consulted
      rw [standing_of_assents all] at result
      refine ⟨_, result, rfl, fun harmless => ?_⟩
      rw [store_of_harmless harmless consulted]

/-- How custom checks behind a checker work together. Nothing but `Concludes` can happen; and if
they let every result stand, the chain tells what its checker tells, and if they change nothing
either, it is the same check. -/
theorem check_chain (b : Checker) (cs : List CustomCheck) :
    (∀ v ctx before result,
      (chain b cs).check v ctx before = result ↔ Concludes b cs v ctx before result) ∧
    ((∀ c ∈ cs, c.Assents) →
      (∀ v ctx before, told ((chain b cs).check v ctx before) = told (b.check v ctx before)) ∧
      ((∀ c ∈ cs, c.Harmless) → (chain b cs).check = b.check)) := by
  refine ⟨check_chain_eq_iff b cs, fun assent => ⟨?_, ?_⟩⟩
  · intro v ctx before
    obtain ⟨result, concludes, same, _⟩ := concludes_of_assents assent v ctx before
    rw [(check_chain_eq_iff b cs v ctx before result).mpr concludes, same]
  · intro harmless
    funext v ctx before
    obtain ⟨result, concludes, _, same⟩ := concludes_of_assents assent v ctx before
    rw [(check_chain_eq_iff b cs v ctx before result).mpr concludes, same harmless]

private theorem assents_record : CustomCheck.Assents ⟨"record", Stock.recordCall⟩ :=
  fun _ _ _ => ⟨.null, _, rfl, Or.inl rfl⟩

private theorem assents_constantly {r : Value} (stands : r = .null ∨ r = .bool true) :
    (Stock.constantly r).Assents :=
  fun _ _ before => ⟨r, before, rfl, stands⟩

private theorem harmless_constantly (r : Value) : (Stock.constantly r).Harmless := by
  intro v ctx before outcome after ran
  cases ran
  rfl

def recordThenTrue : List CustomCheck :=
  [⟨"record", Stock.recordCall⟩, Stock.constantly (.bool true)]

def nullThenTrue : List CustomCheck := [Stock.constantly .null, Stock.constantly (.bool true)]

theorem check_chain_number :
    (∀ c ∈ recordThenTrue, c.Assents) ∧
      told ((chain (.number {}) recordThenTrue).check (.int 5) { path := "age" } {}) =
        told ((Checker.number {}).check (.int 5) { path := "age" } {}) ∧
      (∀ c ∈ nullThenTrue, c.Assents) ∧ (∀ c ∈ nullThenTrue, c.Harmless) ∧
        (chain (.number {}) nullThenTrue).check = (Checker.number {}).check := by
  have recorded : ∀ c ∈ recordThenTrue, c.Assents :=
    List.forall_mem_cons.mpr ⟨assents_record,
      List.forall_mem_singleton.mpr (assents_constantly (Or.inr rfl))⟩
  have assent : ∀ c ∈ nullThenTrue, c.Assents :=
    List.forall_mem_cons.mpr ⟨assents_constantly (Or.inl rfl),
      List.forall_mem_singleton.mpr (assents_constantly (Or.inr rfl))⟩
  have harmless : ∀ c ∈ nullThenTrue, c.Harmless :=
    List.forall_mem_cons.mpr ⟨harmless_constantly _,
      List.forall_mem_singleton.mpr (harmless_constantly _)⟩
  exact ⟨recorded, ((check_chain _ _).2 recorded).1 _ _ _, assent, harmless,
    ((check_chain _ _).2 assent).2 harmless⟩

end Checker

end Assay
