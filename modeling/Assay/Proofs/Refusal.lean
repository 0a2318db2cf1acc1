import Assay.Proofs.Plant
import Assay.Proofs.Spelling

/-!
Refusals: the failures of a check against a built-in schema. A built-in checker fails by saying that
a value is missing or invalid, with two exceptions. A checker of establishment numbers lets its
exact value pass without a look at its pattern, and then reads digits off it; and a pattern for
bytes cannot be laid against a text.
-/

set_option autoImplicit false
set_option relaxedAutoImplicit false

namespace Assay

theorem isRefusal_missing (path : String) : (Failure.missing path).isRefusal := rfl

theorem isRefusal_invalid (path : String) : (Failure.invalid path).isRefusal := rfl

/-- The contents of a value have an end: it does not contain itself. -/
def Store.Ends (store : Store) (v : Value) : Prop := ∃ l : Layout, l.value = v ∧ store.Holds l

/-- A call that fails by refusing the value only. -/
def Refuses (f : Value → Context → CheckM Value) : Prop :=
  ∀ v ctx before failure after, f v ctx before = .error failure after → failure.isRefusal

namespace Checker

/-- A checker of establishment numbers can read its exact value: white space apart it consists of
decimal digits. -/
def Readable (c : Checker) : Prop :=
  ∀ o shape e, c = .extended (.string o shape) Siret.check → o.value = .text e →
    (Luhn.digits? (Text.dropBlanks e.toList)).isSome

/-- A string checker never comes to lay a text against a pattern for bytes: it has no such pattern,
or an exact value that is looked at in its place, or texts of no size get that far. -/
def Textual (c : Checker) : Prop :=
  ∀ o p, c = .string o (some p) → p.forBytes → o.value = .null → ∀ size, ¬sizeAccepted o size

theorem textual_of_forBytes {o : Options} {p : Pattern} (texts : p.forBytes = false) :
    (Checker.string o (some p)).Textual := by
  intro o' p' form bytes
  rw [← Option.some.inj (Checker.string.inj form).2, texts] at bytes
  cases bytes

theorem isRefusal_refusal (v : Value) (ctx : Context) : (refusal v ctx).isRefusal := by
  rw [refusal]
  split
  · exact isRefusal_missing _
  · exact isRefusal_invalid _

theorem refuses_checkBasic {c : Checker} (textual : c.Textual) : Refuses c.checkBasic := by
  intro v ctx before failure after failed
  rw [failure_of_checkBasic failed]
  rcases c.failure_cases v ctx with same | ⟨_, free, cause, faulty, _⟩
  · rw [same]
    exact isRefusal_refusal v ctx
  · obtain ⟨o, p, s, rfl, rfl, bytes, fits, _⟩ := fault?_eq_some_iff.mp faulty
    exact absurd fits (textual o p rfl bytes free s.length)

private theorem digits?_of_admitted {o : Options} {s : String} {ctx : Context}
    {before after : Store} {r : Value}
    (readable : ∀ e, o.value = .text e → (Luhn.digits? (Text.dropBlanks e.toList)).isSome)
    (passed : (Checker.string o (some Shapes.siret)).checkBasic (.text s) ctx before = .ok r after) :
    (Luhn.digits? (Text.dropBlanks s.toList)).isSome := by
  obtain ⟨admitted, _⟩ := checkBasic_ok passed
  rw [admits_text] at admitted
  split at admitted
  · rw [Bool.and_eq_true] at admitted
    obtain ⟨digits, spells⟩ := (Siret.accepts_iff s).mp admitted.2
    rw [Siret.dropBlanks_of_spells spells]
    exact Siret.digits?_of_spells spells
  · exact readable s (Store.eq_of_equal_text admitted)

/-- A built-in checker refuses, and does nothing worse, when it can read its exact value and has no
use for a pattern for bytes. -/
theorem Made.refuses {c : Checker} (made : c.Made) (readable : c.Readable) (textual : c.Textual) :
    Refuses c.check := by
  intro v ctx before failure after failed
  cases made with
  | boolean | number | string | array => exact refuses_checkBasic textual _ _ _ _ _ failed
  | @ipv6 o exact =>
    rw [check_ipv6] at failed
    cases based : (Checker.string o (some Shapes.ipv6)).checkBasic v ctx before with
    | error other between =>
      simp only [based] at failed
      cases failed
      exact refuses_checkBasic (textual_of_forBytes rfl) _ _ _ _ _ based
    | ok r between =>
      simp only [based] at failed
      split at failed
      · cases failed
      · cases failed
        exact isRefusal_invalid _
  | @siret o exact =>
    rw [check_siret] at failed
    cases based : (Checker.string o (some Shapes.siret)).checkBasic v ctx before with
    | error other between =>
      simp only [based] at failed
      cases failed
      exact refuses_checkBasic (textual_of_forBytes rfl) _ _ _ _ _ based
    | ok r between =>
      simp only [based] at failed
      split at failed
      · cases failed
      · rename_i present
        have admitted := (checkBasic_ok based).1
        rw [admits, if_neg present, Bool.and_eq_true] at admitted
        obtain ⟨s, text⟩ := Option.isSome_iff_exists.mp admitted.1
        obtain rfl := Value.eq_text_of_text? text
        have readDigits := digits?_of_admitted (fun e exactly => readable o _ e rfl exactly) based
        obtain ⟨numbers, read⟩ := Option.isSome_iff_exists.mp readDigits
        simp only [Value.text?, Luhn.validText, read] at failed
        cases verdict : Luhn.valid numbers with
        | false =>
          rw [verdict] at failed
          cases failed
          exact isRefusal_invalid _
        | true =>
          rw [verdict] at failed
          cases failed

theorem check_undecodable {o : Options} {p : Pattern} (bytes : p.forBytes) (free : o.value = .null)
    {s : String} (fits : sizeAccepted o s.length) (ctx : Context) (store : Store) :
    (Checker.string o (some p)).check (.text s) ctx store = .error (.fault .wrongType) store := by
  have faulty : (Checker.string o (some p)).fault? (.text s) = some .wrongType :=
    fault?_eq_some_iff.mpr ⟨o, p, s, rfl, rfl, bytes, fits, rfl⟩
  have basic : (Checker.string o (some p)).check (.text s) ctx store =
      (Checker.string o (some p)).checkBasic (.text s) ctx store := rfl
  have refused : (Checker.string o (some p)).admits store ctx.mode (.text s) = false := by
    rw [admits_text, if_pos free, Pattern.accepts, bytes, Bool.not_true, Bool.false_and,
      Bool.and_false]
  have fails : (Checker.string o (some p)).failure (.text s) ctx = .fault .wrongType := by
    rw [failure, faulty]
    exact if_pos free
  rw [basic, checkBasic_eq, refused, if_neg Bool.false_ne_true, fails]

theorem check_unreadable {o : Options} {e : String} (exactly : o.value = .text e)
    (unreadable : Luhn.digits? (Text.dropBlanks e.toList) = none) (ctx : Context)
    (store : Store) :
    (Checker.extended (.string o (some Shapes.siret)) Siret.check).check (.text e) ctx store =
      .error (.fault .wrongValue) store := by
  have present := Value.text_ne_null e
  rw [check_siret, checkBasic_exact exactly]
  simp only [if_neg present, Value.text?, Luhn.validText, unreadable]

end Checker

namespace Tree

variable {α : Type} {call : α → Value → Context → CheckM Value}

/-- A check refuses when its leaves do: a branch refuses what is no mapping that can be changed. -/
theorem refuses_check {t : Tree α} (leaves : ∀ content ∈ t.leaves, Refuses (call content))
    {v : Value} {ctx : Context} {parent : Option Address} {before after : Store} {failure : Failure}
    (failed : check call t v ctx parent before = .error failure after) : failure.isRefusal := by
  induction t generalizing v ctx parent before after with
  | leaf content =>
    rw [check_leaf] at failed
    cases called : call content v ctx before with
    | error other between =>
      simp only [called] at failed
      cases failed
      exact leaves content (by rw [Tree.leaves]; exact List.mem_singleton_self _) _ _ _ _ _ called
    | ok r between =>
      simp only [called] at failed
      cases failed
  | branch fields ih =>
    rw [check_branch] at failed
    rw [Tree.leaves, fieldLeaves_eq] at leaves
    -- The fields are taken one after another; the one that fails is checked from some store.
    have loop : ∀ (rest : List (String × Tree α)), rest ⊆ fields → ∀ (a : Address) (ctx : Context)
        (before after : Store), checkFields call rest a ctx before = .error failure after →
        failure.isRefusal := by
      intro rest
      induction rest with
      | nil =>
        intro _ a ctx before after failed
        cases failed
      | cons field rest tail =>
        intro inside a ctx before after failed
        obtain ⟨name, tree⟩ := field
        have member : (name, tree) ∈ fields := inside List.mem_cons_self
        rw [checkFields_cons, discard_eq] at failed
        cases first : check call tree ((before.entries a).get name) (ctx.child name) (some a)
            before with
        | error other between =>
          simp only [first] at failed
          cases failed
          exact ih _ member (fun content there =>
            leaves content (List.mem_flatMap.mpr ⟨_, member, there⟩)) first
        | ok r between =>
          simp only [first] at failed
          exact tail (List.Subset.trans (List.subset_cons_self _ _) inside) a ctx between after
            failed
    cases mapping : v.fields? with
    | none =>
      rw [mapping] at failed
      cases failed
      exact isRefusal_invalid _
    | some a =>
      rw [mapping] at failed
      simp only at failed
      cases ran : checkFields call fields a ctx
          (before.setEntries a ((before.entries a).restrict (fields.map Prod.fst))) with
      | error other between =>
        rw [ran] at failed
        cases failed
        exact loop fields (List.Subset.refl _) a ctx _ _ ran
      | ok _ between =>
        rw [ran] at failed
        cases failed

end Tree

namespace Schema

theorem validate_eq (schema : Schema) (mode : Mode) (v : Value) (store : Store) :
    schema.validate mode v store =
      match schema.check mode v store with
      | .ok result after => .ok { value := result, refusal := none } after
      | .error failure after =>
        if failure.isRefusal then .ok { value := v, refusal := some failure } after
        else .error failure after := by
  simp only [validate, tryCatch, tryCatchThe, MonadExceptOf.tryCatch, EStateM.tryCatch, bind,
    EStateM.bind]
  cases schema.check mode v store with
  | ok result after => rfl
  | error failure after =>
    simp only
    cases failure.isRefusal <;> rfl

/-- A planted text ends the check without a verdict where one checker fails on it otherwise than by
refusing it. -/
private theorem not_fault_of_total {schema : Schema} (built : schema.BuiltIn)
    (total : ∀ (mode : Mode) (v : Value) (store : Store), store.Ends v →
      ∃ verdict after, schema.validate mode v store = .ok verdict after)
    {c : Checker} (member : .checker c ∈ schema.root.leaves) (s : String) (cause : Fault) :
    ¬∀ (ctx : Context) (store : Store),
      c.check (.text s) ctx store = .error (.fault cause) store := by
  intro fault
  obtain ⟨spot, there⟩ := Tree.exists_path_of_mem_leaves built.distinct member
  obtain ⟨store, v, _, shaped, branches, leaves⟩ :=
    Tree.exists_planted schema.root spot s {}
  have lenient : ({ partialCheck := true } : Mode).partialCheck = true := rfl
  have steps := built.run_planted _ lenient there branches leaves
  have fails : ∀ inner before, ∃ after, Step.run Leaf.call (top { partialCheck := true })
      (.ask spot inner (.text s) (.checker c)) before = .error (.fault cause) after := by
    intro inner before
    rw [Step.run_ask, Leaf.call_checker, fault]
    exact ⟨before, rfl⟩
  obtain ⟨inner, listed⟩ := Tree.ask_mem_agenda store there [] none v
  rw [List.nil_append, leaves spot _ there, if_pos rfl] at listed
  obtain ⟨after, failed⟩ := Step.runAll_fails
    (fun step member before => by
      rcases steps step member with ran | ⟨place, rfl⟩
      · exact Or.inl (ran before)
      · exact Or.inr (fails place before)) listed (fails inner) store
  rw [← built.check_eq_runAll (fun sanitize => absurd sanitize Bool.false_ne_true)
    (built.nodup_entered shaped), Tree.discard_eq] at failed
  obtain ⟨l, value, held, _⟩ := shaped
  obtain ⟨verdict, final, validated⟩ := total { partialCheck := true } v store ⟨l, value, held⟩
  rw [validate_eq] at validated
  cases checked : schema.check { partialCheck := true } v store with
  | ok result between => simp [checked] at failed
  | error failure between =>
    simp only [checked, EStateM.Result.error.injEq] at failed
    rw [failed.1] at checked
    rw [checked] at validated
    cases validated

/-- Against a built-in schema every check of a value whose contents have an end comes to a verdict
exactly when each checker of establishment numbers can read its exact value, if it has one, and no
string checker comes to lay a text against a pattern for bytes. -/
theorem validate_total_iff {schema : Schema} (built : schema.BuiltIn) :
    (∀ (mode : Mode) (v : Value) (store : Store), store.Ends v →
      ∃ verdict after, schema.validate mode v store = .ok verdict after) ↔
      ∀ c, .checker c ∈ schema.root.leaves → c.Readable ∧ c.Textual := by
  constructor
  · intro total c member
    have noFault := not_fault_of_total built total member
    constructor
    · rintro o shape e rfl exactly
      obtain rfl := Checker.shape_of_made (built.checker member).made rfl
      by_contra unreadable
      rw [Option.not_isSome_iff_eq_none] at unreadable
      exact noFault e .wrongValue (Checker.check_unreadable exactly unreadable)
    · rintro o p rfl bytes free size fits
      -- A text of the size that fits is laid against the pattern.
      have length : (String.ofList (List.replicate size 'a')).length = size := by
        rw [String.length_ofList, List.length_replicate]
      refine noFault (String.ofList (List.replicate size 'a')) .wrongType ?_
      exact Checker.check_undecodable bytes free (by rwa [length])
  · intro ready mode v store _
    rw [validate_eq]
    cases checked : schema.check mode v store with
    | ok result after => exact ⟨_, _, rfl⟩
    | error failure after =>
      have refused : failure.isRefusal := by
        refine Tree.refuses_check ?_ checked
        intro content member
        obtain ⟨c, rfl, made⟩ := built.leaves content member
        obtain ⟨readable, textual⟩ := ready c member
        exact made.made.refuses readable textual
      simp only [refused, if_true]
      exact ⟨_, _, rfl⟩

def exactNumber (e : String) : Schema where
  root := .leaf (.checker (.ofSiret { value := .text e }))

theorem exactNumber_builtIn (e : String) : (exactNumber e).BuiltIn := by
  refine ⟨trivial, fun leaf member => ?_⟩
  rw [exactNumber, Tree.leaves, List.mem_singleton] at member
  exact ⟨_, member, Checker.builtIn_siret (o := { value := .text e }) (Or.inr rfl) rfl⟩

theorem exactNumber_textual (e : String) {c : Checker}
    (member : .checker c ∈ (exactNumber e).root.leaves) : c.Textual := by
  rw [exactNumber, Tree.leaves, List.mem_singleton] at member
  intro o p form
  rw [form] at member
  cases member

/-- A check of letters against an exact value of digits ends in a verdict. -/
theorem validate_total_exactNumber : (exactNumber "53268510400012").BuiltIn ∧
    ({} : Store).Ends (.text "abc") ∧
    ∃ verdict after, (exactNumber "53268510400012").validate {} (.text "abc") {} =
      .ok verdict after := by
  have ends : ({} : Store).Ends (.text "abc") := ⟨.atom (.text "abc"), rfl, Store.holds_atom _ _⟩
  refine ⟨exactNumber_builtIn _, ends,
    (validate_total_iff (exactNumber_builtIn _)).mpr ?_ _ _ _ ends⟩
  intro c member
  refine ⟨?_, exactNumber_textual _ member⟩
  intro o shape e form exactly
  rw [exactNumber, Tree.leaves, List.mem_singleton, form] at member
  have options := (Checker.string.inj (Checker.extended.inj (Leaf.checker.inj member)).1).1
  have number : e = "53268510400012" := by
    rw [options] at exactly
    exact (Atom.text.inj (Value.atom.inj exactly)).symm
  rw [number]
  decide

/-- A checker of establishment numbers whose exact value holds letters ends the check of that value
without a verdict. -/
theorem validate_not_total : ¬∀ schema : Schema, schema.BuiltIn →
    ∀ (mode : Mode) (v : Value) (store : Store),
      ∃ verdict after, schema.validate mode v store = .ok verdict after := by
  intro total
  obtain ⟨verdict, after, validated⟩ :=
    total (exactNumber "abc") (exactNumber_builtIn "abc") {} (.text "abc") {}
  have stopped : (exactNumber "abc").check {} (.text "abc") {} = .error (.fault .wrongValue) {} := by
    rw [check, exactNumber, Tree.check_leaf, Leaf.call_checker, Checker.ofSiret,
      Checker.check_unreadable rfl (by decide)]
  rw [validate_eq, stopped] at validated
  cases validated

end Schema

end Assay
