import Assay.Factory
import Assay.Proofs.Agenda
import Assay.Proofs.Chain
import Assay.Proofs.Keys

/-!
Checkers of the built-in kinds. Whatever options they are made from, they are of one of six forms;
their checks change no mapping, and a call fails by refusing the value unless an establishment
number with an exact value is at play.
-/

set_option autoImplicit false
set_option relaxedAutoImplicit false

namespace Assay

namespace Kinds

theorem find?_boolean :
    builtin.find? (.text "boolean") = some (.factory (.builtin .boolean)) := by
  simp [find?, Registry.get?, builtin, Data.text_beq]

theorem find?_string : builtin.find? (.text "string") = some (.factory (.builtin .string)) := by
  simp [find?, Registry.get?, builtin, Data.text_beq]

theorem find?_array : builtin.find? (.text "array") = some (.factory (.builtin .array)) := by
  simp [find?, Registry.get?, builtin, Data.text_beq]

theorem find?_siret : builtin.find? (.text "siret") = some (.factory (.builtin .siret)) := by
  simp [find?, Registry.get?, builtin, Data.text_beq]

end Kinds

theorem bind_eq_ok {α β : Type} {x : Except Failure α} {f : α → Except Failure β} {r : β} :
    (x >>= f) = .ok r ↔ ∃ a, x = .ok a ∧ f a = .ok r := by
  cases x with
  | error failure =>
    constructor
    · intro h
      cases h
    · rintro ⟨a, h, _⟩
      cases h
  | ok a =>
    constructor
    · intro h
      exact ⟨a, rfl, h⟩
    · rintro ⟨b, h, g⟩
      rw [Except.ok.inj h]
      exact g

namespace Checker

/-- A checker that one of the built-in kinds makes of some options. -/
def BuiltIn (c : Checker) : Prop :=
  ∃ (store : Store) (kind : Data) (source : OptionsSource) (keywords : Keywords),
    Kinds.builtin.make store kind source keywords = .ok c

/-- The forms of the checkers that the built-in kinds make; their exact value is of the type that
they are for. -/
inductive Made : Checker → Prop
  | boolean {o : Options} (exact : o.value = .null ∨ o.value.isBool) : Made (.boolean o)
  | number {o : Options} (exact : o.value = .null ∨ o.value.number?.isSome) : Made (.number o)
  | string {o : Options} {shape : Option Pattern} (exact : o.value = .null ∨ o.value.text?.isSome) :
      Made (.string o shape)
  | array {o : Options} {expected : Option (List Value)}
      (exact : o.value = .null ∨ o.value.array?.isSome) : Made (.array o expected)
  | ipv6 {o : Options} (exact : o.value = .null ∨ o.value.text?.isSome) :
      Made (.extended (.string o (some Shapes.ipv6)) AddressV6.check)
  | siret {o : Options} (exact : o.value = .null ∨ o.value.text?.isSome) :
      Made (.extended (.string o (some Shapes.siret)) Siret.check)

private theorem exact_of_requireExact {c : Checker} {u : Unit} (required : requireExact c = .ok u) :
    c.options.value = .null ∨ c.isType c.options.value := by
  rw [requireExact] at required
  split at required
  · rename_i exact
    simpa using exact
  · cases required

theorem makeBoolean_ok {o : Options} {c : Checker} (made : makeBoolean o = .ok c) :
    c = .boolean o ∧ (o.value = .null ∨ o.value.isBool) := by
  rw [makeBoolean, bind_eq_ok] at made
  obtain ⟨_, required, made⟩ := made
  exact ⟨(Except.ok.inj made).symm, exact_of_requireExact required⟩

theorem makeNumber_ok {o : Options} {c : Checker} (made : makeNumber o = .ok c) :
    c = .number o ∧ (o.value = .null ∨ o.value.number?.isSome) := by
  rw [makeNumber, bind_eq_ok] at made
  obtain ⟨_, required, made⟩ := made
  simp only [bind_eq_ok] at made
  obtain ⟨_, _, _, _, made⟩ := made
  exact ⟨(Except.ok.inj made).symm, exact_of_requireExact required⟩

theorem makeString_ok {read : PatternReading} {o : Options} {c : Checker}
    (made : makeString read o = .ok c) :
    ∃ shape, shapeOf read o.regex = .ok shape ∧ c = .string o shape ∧
      (o.value = .null ∨ o.value.text?.isSome) := by
  rw [makeString, bind_eq_ok] at made
  obtain ⟨_, required, made⟩ := made
  simp only [bind_eq_ok] at made
  obtain ⟨_, _, shape, looks, made⟩ := made
  exact ⟨shape, looks, (Except.ok.inj made).symm, exact_of_requireExact required⟩

theorem makeArray_ok {store : Store} {o : Options} {c : Checker}
    (made : makeArray store o = .ok c) :
    c = .array o (o.value.array?.map store.items) ∧
      (o.value = .null ∨ o.value.array?.isSome) := by
  rw [makeArray, bind_eq_ok] at made
  obtain ⟨_, required, made⟩ := made
  simp only [bind_eq_ok] at made
  obtain ⟨_, _, made⟩ := made
  exact ⟨(Except.ok.inj made).symm, exact_of_requireExact required⟩

end Checker

namespace Factory

open Checker

theorem regex_of_shapedOptions {store : Store} {regex : Value} {source : OptionsSource}
    {keywords : Keywords} {o : Options}
    (shaped : shapedOptions store regex source keywords = .ok o) : o.regex = regex := by
  obtain ⟨o', _, same⟩ := bind_eq_ok.mp shaped
  rw [← Except.ok.inj same]

private theorem extended_of_extendKind {read : PatternReading} {store : Store} {fuel : Nat}
    {p : Pattern}
    {source : OptionsSource} {keywords : Keywords} {check : CustomCheck} {c : Checker}
    (made : (do
      let o ← shapedOptions store (.atom (.pattern p)) source keywords
      extendKind (makeWithin read store Kinds.builtin (fuel + 1)) Kinds.builtin (.record o) "string"
        check) = .ok c) :
    ∃ o : Options, (o.value = .null ∨ o.value.text?.isSome) ∧
      c = .extended (.string o (some p)) check := by
  obtain ⟨o, shaped, made⟩ := bind_eq_ok.mp made
  rw [extendKind, Kinds.find?_string] at made
  obtain ⟨base, built, made⟩ := bind_eq_ok.mp made
  have plain : makeString read o = .ok base := built
  obtain ⟨shape, looks, rfl, exact⟩ := makeString_ok plain
  rw [regex_of_shapedOptions shaped] at looks
  have looks' : some p = shape := Except.ok.inj looks
  exact ⟨o, exact, by rw [looks', ← Except.ok.inj made]⟩

private theorem made_of_makeWithin {read : PatternReading} {store : Store} {fuel : Nat}
    {kind : Kind} {source : OptionsSource} {keywords : Keywords} {c : Checker}
    (made : makeWithin read store Kinds.builtin (fuel + 2) (.builtin kind) source keywords =
      .ok c) :
    Made c := by
  obtain ⟨_, _, made⟩ := bind_eq_ok.mp made
  cases kind with
  | boolean =>
    obtain ⟨o, _, made⟩ := bind_eq_ok.mp made
    obtain ⟨rfl, exact⟩ := makeBoolean_ok made
    exact Made.boolean exact
  | number =>
    obtain ⟨o, _, made⟩ := bind_eq_ok.mp made
    obtain ⟨rfl, exact⟩ := makeNumber_ok made
    exact Made.number exact
  | string | mac | ipv4 | objectId | email =>
    obtain ⟨o, _, made⟩ := bind_eq_ok.mp made
    obtain ⟨shape, _, rfl, exact⟩ := makeString_ok made
    exact Made.string exact
  | array =>
    obtain ⟨o, _, made⟩ := bind_eq_ok.mp made
    obtain ⟨rfl, exact⟩ := makeArray_ok made
    exact Made.array exact
  | ipv6 =>
    obtain ⟨o, exact, rfl⟩ := extended_of_extendKind made
    exact Made.ipv6 exact
  | siret =>
    obtain ⟨o, exact, rfl⟩ := extended_of_extendKind made
    exact Made.siret exact

end Factory

namespace Checker

private theorem builtin_of_find? {kind : Data} {registrant : Registrant}
    (found : Kinds.builtin.find? kind = some registrant) :
    ∃ k, registrant = .factory (.builtin k) := by
  have every : ∀ entry ∈ Kinds.builtin.entries, ∃ k, entry.2 = Registrant.factory (.builtin k) := by
    intro entry member
    obtain ⟨⟨name, k⟩, _, rfl⟩ := List.mem_map.mp member
    exact ⟨k, rfl⟩
  have got : Kinds.builtin.get? kind = some registrant := by
    rw [Kinds.find?] at found
    split at found
    · cases found
    · exact found
  rw [Registry.get?] at got
  obtain ⟨entry, present, rfl⟩ := Option.map_eq_some_iff.mp got
  exact every entry (List.mem_of_find?_eq_some present)

/-- Every checker of a built-in kind is of one of the forms. -/
theorem BuiltIn.made {c : Checker} (built : c.BuiltIn) : Made c := by
  obtain ⟨store, kind, source, keywords, made⟩ := built
  obtain ⟨_, _, made⟩ := bind_eq_ok.mp made
  split at made
  · cases made
  · split at made
    · cases made
    · rename_i registrant found
      obtain ⟨k, rfl⟩ := builtin_of_find? found
      exact Factory.made_of_makeWithin made

/-- Whether a basic checker lets a value pass. -/
def admits (store : Store) (mode : Mode) (c : Checker) (v : Value) : Bool :=
  if v = .null then !(store.truthy c.options.mandatory && !mode.partialCheck)
  else c.isType v && if c.options.value = .null then c.accepts store v else c.matchesExact store v

/-- What a basic checker answers when it lets a value pass. -/
def answer (c : Checker) (v : Value) : CheckM Value :=
  if v = .null then pure .null else if c.options.value = .null then pure v else c.exactValue

def refusal (v : Value) (ctx : Context) : Failure :=
  if v = .null then .missing ctx.path else .invalid ctx.path

/-- How a basic checker fails on a value that it does not let pass. -/
def failure (c : Checker) (v : Value) (ctx : Context) : Failure :=
  if c.options.value = .null then ((c.fault? v).map .fault).getD (refusal v ctx)
  else refusal v ctx

theorem failure_of_clear {c : Checker} {v : Value} (clear : c.fault? v = none) (ctx : Context) :
    c.failure v ctx = refusal v ctx := by
  rw [failure, clear]
  exact ite_self _

theorem failure_of_exact {c : Checker} (strict : c.options.value ≠ .null) (v : Value)
    (ctx : Context) : c.failure v ctx = refusal v ctx :=
  if_neg strict

theorem fault?_eq_some_iff {c : Checker} {v : Value} {cause : Fault} :
    c.fault? v = some cause ↔
      ∃ o p s, c = .string o (some p) ∧ v = .text s ∧ p.forBytes ∧ sizeAccepted o s.length ∧
        cause = .wrongType := by
  constructor
  · intro faulty
    unfold fault? at faulty
    split at faulty
    · rename_i o p s
      split at faulty
      · rename_i both
        rw [Bool.and_eq_true] at both
        exact ⟨o, p, s, rfl, rfl, both.1, both.2, (Option.some.inj faulty).symm⟩
      · cases faulty
    · cases faulty
  · rintro ⟨o, p, s, rfl, rfl, bytes, fits, rfl⟩
    rw [fault?, bytes, fits]
    rfl

theorem clear_of_text? {v : Value} (other : v.text? = none) (c : Checker) : c.fault? v = none := by
  cases faulty : c.fault? v with
  | none => rfl
  | some cause =>
    obtain ⟨_, _, s, _, rfl, _⟩ := fault?_eq_some_iff.mp faulty
    cases other

theorem forBytes_of_mem_some {p : Pattern} (textual : p.forBytes = false) :
    ∀ q ∈ some p, q.forBytes = false := by
  intro q found
  rw [← Option.some.inj found, textual]

theorem clear_string {shape : Option Pattern} (textual : ∀ p ∈ shape, p.forBytes = false)
    (o : Options) (v : Value) : (string o shape).fault? v = none := by
  cases faulty : (string o shape).fault? v with
  | none => rfl
  | some cause =>
    obtain ⟨_, p, _, form, _, bytes, _⟩ := fault?_eq_some_iff.mp faulty
    rw [textual p (Checker.string.inj form).2] at bytes
    cases bytes

theorem failure_null (c : Checker) (ctx : Context) : c.failure .null ctx = .missing ctx.path :=
  failure_of_clear (clear_of_text? rfl c) ctx

theorem text?_of_container {v : Value} (container : ∀ a, v ≠ .atom a) : v.text? = none := by
  cases v with
  | atom a => exact absurd rfl (container a)
  | seq kind a | map kind a => rfl

theorem failure_of_text? {v : Value} (other : v.text? = none) (present : v ≠ .null) (c : Checker)
    (ctx : Context) : c.failure v ctx = .invalid ctx.path := by
  rw [failure_of_clear (clear_of_text? other c), refusal, if_neg present]

theorem failure_congr {ctx ctx' : Context} (path : ctx'.path = ctx.path) (c : Checker) (v : Value) :
    c.failure v ctx' = c.failure v ctx := by
  rw [failure, failure, refusal, refusal, path]

theorem not_accepts_of_fault {c : Checker} {v : Value} {cause : Fault}
    (faulty : c.fault? v = some cause) (store : Store) : c.accepts store v = false := by
  obtain ⟨o, p, s, rfl, rfl, bytes, _⟩ := fault?_eq_some_iff.mp faulty
  simp [accepts, Value.text?, Pattern.accepts, bytes]

theorem checkBasic_eq (c : Checker) (v : Value) (ctx : Context) (store : Store) :
    c.checkBasic v ctx store =
      if c.admits store ctx.mode v then c.answer v store else .error (c.failure v ctx) store := by
  simp only [checkBasic, CheckM.get_bind, admits, answer]
  by_cases null : v = .null
  · subst null
    rw [failure_null]
    simp only [if_true]
    cases store.truthy c.options.mandatory <;> cases ctx.mode.partialCheck <;> rfl
  · by_cases free : c.options.value = .null
    · simp only [null, free, if_false, if_true, ne_eq, not_true_eq_false]
      cases faulty : c.fault? v with
      | none =>
        rw [failure_of_clear faulty, refusal, if_neg null]
        cases c.isType v && c.accepts store v <;> rfl
      | some cause =>
        rw [not_accepts_of_fault faulty, Bool.and_false, failure, if_pos free, faulty]
        rfl
    · rw [failure_of_exact free, refusal, if_neg null]
      simp only [null, free, if_false, if_true, ne_eq, not_false_eq_true]
      cases c.isType v && c.matchesExact store v <;> rfl

theorem admits_text (o : Options) (p : Pattern) (s : String) (mode : Mode) (store : Store) :
    (string o (some p)).admits store mode (.text s) =
      if o.value = .null then sizeAccepted o s.length && p.accepts s
      else store.equal (.text s) o.value := by
  have anyValue : (string o (some p)).options.value = o.value := rfl
  rw [admits, if_neg (Value.text_ne_null s), anyValue]
  simp only [isType, accepts, matchesExact, options, Value.text?, Option.all_some,
    Option.isSome_some, Bool.true_and]

theorem checkBasic_text {o : Options} (free : o.value = .null) {p : Pattern}
    (textual : p.forBytes = false) (s : String) (ctx : Context) (store : Store) :
    (string o (some p)).checkBasic (.text s) ctx store =
      if sizeAccepted o s.length && p.accepts s then .ok (.text s) store
      else .error (.invalid ctx.path) store := by
  have present := Value.text_ne_null s
  have anyValue : (string o (some p)).options.value = .null := free
  have clear : (string o (some p)).fault? (.text s) = none :=
    clear_string (forBytes_of_mem_some textual) o _
  rw [checkBasic_eq, admits_text, if_pos free, answer, if_neg present, if_pos anyValue,
    failure_of_clear clear, refusal, if_neg present]
  rfl

theorem check_ipv6 (o : Options) (v : Value) (ctx : Context) (store : Store) :
    (extended (.string o (some Shapes.ipv6)) AddressV6.check).check v ctx store =
      match (string o (some Shapes.ipv6)).checkBasic v ctx store with
      | .error failure after => .error failure after
      | .ok r after =>
        if v = .null || AddressV6.acceptsValue v then .ok r after
        else .error (.invalid ctx.path) after := by
  have based : (string o (some Shapes.ipv6)).check v ctx store =
      (string o (some Shapes.ipv6)).checkBasic v ctx store := rfl
  rw [check_extended, based]
  cases (string o (some Shapes.ipv6)).checkBasic v ctx store with
  | error failure after => rfl
  | ok r after =>
    have verdict : AddressV6.check.run v ctx after =
        .ok (.bool (AddressV6.acceptsValue v)) after := rfl
    by_cases null : v = .null
    · simp only [null, if_true, decide_true, Bool.true_or]
    · simp only [null, if_false, decide_false, Bool.false_or, verdict]
      cases AddressV6.acceptsValue v <;> rfl

theorem check_siret (o : Options) (v : Value) (ctx : Context) (store : Store) :
    (extended (.string o (some Shapes.siret)) Siret.check).check v ctx store =
      match (string o (some Shapes.siret)).checkBasic v ctx store with
      | .error failure after => .error failure after
      | .ok r after =>
        if v = .null then .ok r after
        else
          match v.text? with
          | none => .error (.fault .noAttribute) after
          | some s =>
            match Luhn.validText (Text.dropBlanks s.toList) with
            | .error failure => .error failure after
            | .ok false => .error (.invalid ctx.path) after
            | .ok true =>
              .ok (if ctx.mode.sanitize then
                .text (String.ofList (Siret.group (Text.dropBlanks s.toList))) else r) after := by
  have based : (string o (some Shapes.siret)).check v ctx store =
      (string o (some Shapes.siret)).checkBasic v ctx store := rfl
  rw [check_extended, based]
  cases (string o (some Shapes.siret)).checkBasic v ctx store with
  | error failure after => rfl
  | ok r after =>
    by_cases null : v = .null
    · simp only [null, if_true]
    · simp only [null, if_false, Siret.check, Siret.checkNumber]
      cases v.text? with
      | none => rfl
      | some s =>
        simp only
        cases Luhn.validText (Text.dropBlanks s.toList) with
        | error failure => rfl
        | ok verdict =>
          cases verdict with
          | false => rfl
          | true =>
            simp only
            cases ctx.mode.sanitize <;> rfl

theorem answer_cases {c : Checker} {v : Value} {before after : Store} {r : Value}
    (answered : c.answer v before = .ok r after) :
    (v = .null ∧ r = .null ∧ after = before) ∨
      (v ≠ .null ∧ c.options.value = .null ∧ r = v ∧ after = before) ∨
        (v ≠ .null ∧ c.options.value ≠ .null ∧ c.exactValue before = .ok r after) := by
  rw [answer] at answered
  by_cases null : v = .null
  · rw [if_pos null] at answered
    cases answered
    exact Or.inl ⟨null, rfl, rfl⟩
  · rw [if_neg null] at answered
    by_cases free : c.options.value = .null
    · rw [if_pos free] at answered
      cases answered
      exact Or.inr (Or.inl ⟨null, free, rfl, rfl⟩)
    · rw [if_neg free] at answered
      exact Or.inr (Or.inr ⟨null, free, answered⟩)

theorem exactValue_cases {c : Checker} {before after : Store} {r : Value}
    (kept : c.exactValue before = .ok r after) :
    (c.checkerClass ≠ .array ∧ r = c.options.value ∧ after = before) ∨
      ∃ o expected, c = .array o expected ∧
        (r, after) = before.newSeq .list (expected.getD []) := by
  cases c with
  | array o expected =>
    cases kept
    exact Or.inr ⟨o, expected, rfl, rfl⟩
  | boolean o | number o | string o shape | extended base extension =>
    cases kept
    exact Or.inl ⟨nofun, rfl, rfl⟩

theorem exactValue_total (c : Checker) (store : Store) :
    ∃ r after, c.exactValue store = .ok r after := by
  cases c <;> exact ⟨_, _, rfl⟩

theorem answer_total (c : Checker) (v : Value) (store : Store) :
    ∃ r after, c.answer v store = .ok r after := by
  rw [answer]
  split
  · exact ⟨_, _, rfl⟩
  · split
    · exact ⟨_, _, rfl⟩
    · exact c.exactValue_total store

theorem calm_answer (c : Checker) : Calm fun v _ => c.answer v where
  keeps {v ctx before r after} answered := by
    rcases answer_cases answered with ⟨_, _, rfl⟩ | ⟨_, _, _, rfl⟩ | ⟨_, _, kept⟩
    · exact Store.Keeps.refl _ _
    · exact Store.Keeps.refl _ _
    · rcases exactValue_cases kept with ⟨_, _, rfl⟩ | ⟨o, expected, _, new⟩
      · exact Store.Keeps.refl _ _
      · rw [(Prod.mk.inj new).2]
        exact Store.keeps_newSeq before .list _
  absent {ctx before r after} answered := by
    rcases answer_cases answered with ⟨_, null, _⟩ | ⟨value, _⟩ | ⟨value, _⟩
    · exact null
    · exact absurd rfl value
    · exact absurd rfl value

theorem checkBasic_ok {c : Checker} {v : Value} {ctx : Context} {before after : Store} {r : Value}
    (checked : c.checkBasic v ctx before = .ok r after) :
    c.admits before ctx.mode v ∧ c.answer v before = .ok r after := by
  rw [checkBasic_eq] at checked
  split at checked
  · rename_i admitted
    exact ⟨admitted, checked⟩
  · cases checked

theorem calm_checkBasic (c : Checker) : Calm c.checkBasic where
  keeps checked := @Calm.keeps _ c.calm_answer _ {} _ _ _ (checkBasic_ok checked).2
  absent checked := @Calm.absent _ c.calm_answer {} _ _ _ (checkBasic_ok checked).2

theorem check_ipv6_ok {o : Options} {v : Value} {ctx : Context} {before after : Store} {r : Value}
    (checked : (extended (.string o (some Shapes.ipv6)) AddressV6.check).check v ctx before =
      .ok r after) :
    (string o (some Shapes.ipv6)).checkBasic v ctx before = .ok r after ∧
      (v = .null ∨ AddressV6.acceptsValue v) := by
  rw [check_ipv6] at checked
  cases based : (string o (some Shapes.ipv6)).checkBasic v ctx before with
  | error failure between => simp [based] at checked
  | ok r' between =>
    simp only [based] at checked
    split at checked
    · rename_i accepted
      cases checked
      exact ⟨rfl, by simpa using accepted⟩
    · cases checked

theorem check_siret_ok {o : Options} {v : Value} {ctx : Context} {before after : Store} {r : Value}
    (checked : (extended (.string o (some Shapes.siret)) Siret.check).check v ctx before =
      .ok r after) :
    ∃ r', (string o (some Shapes.siret)).checkBasic v ctx before = .ok r' after ∧
      ((v = .null ∧ r = r') ∨
        ∃ s, v = .text s ∧ Luhn.validText (Text.dropBlanks s.toList) = .ok true ∧
          r = if ctx.mode.sanitize then
            .text (String.ofList (Siret.group (Text.dropBlanks s.toList))) else r') := by
  rw [check_siret] at checked
  cases based : (string o (some Shapes.siret)).checkBasic v ctx before with
  | error failure between => simp [based] at checked
  | ok r' between =>
    simp only [based] at checked
    split at checked
    · rename_i null
      cases checked
      exact ⟨r, rfl, Or.inl ⟨null, rfl⟩⟩
    · cases text : v.text? with
      | none => simp [text] at checked
      | some s =>
        simp only [text] at checked
        split at checked
        · cases checked
        · cases checked
        · rename_i valid
          cases checked
          exact ⟨r', rfl, Or.inr ⟨s, Value.eq_text_of_text? text, valid, rfl⟩⟩

theorem Made.calm {c : Checker} (made : c.Made) : Calm c.check := by
  cases made with
  | boolean | number | string | array => exact calm_checkBasic _
  | @ipv6 o exact =>
    exact ⟨fun checked => (calm_checkBasic _).keeps (check_ipv6_ok checked).1,
      fun checked => (calm_checkBasic _).absent (check_ipv6_ok checked).1⟩
  | @siret o exact =>
    constructor
    · intro v ctx before r after checked
      obtain ⟨r', based, _⟩ := check_siret_ok checked
      exact (calm_checkBasic _).keeps based
    · intro ctx before r after checked
      obtain ⟨r', based, ⟨_, same⟩ | ⟨s, text, _⟩⟩ := check_siret_ok checked
      · rw [same]
        exact (calm_checkBasic _).absent based
      · cases text

private theorem null_of_checkBasic {c : Checker} {v : Value} {ctx : Context} {before after : Store}
    (checked : c.checkBasic v ctx before = .ok .null after) : v = .null := by
  rcases answer_cases (checkBasic_ok checked).2 with ⟨null, _⟩ | ⟨_, _, null, _⟩ | ⟨_, strict, kept⟩
  · exact null
  · exact null.symm
  · rcases exactValue_cases kept with ⟨_, null, _⟩ | ⟨o, expected, _, new⟩
    · exact absurd null.symm strict
    · cases (Prod.mk.inj new).1

private theorem sequences_of_answer (c : Checker) (v : Value) :
    ∃ lists, ∀ before r after, c.answer v before = .ok r after →
      after.sequences = before.sequences ++ lists := by
  have none : ∀ store : Store, store.sequences = store.sequences ++ #[] := fun store =>
    Array.append_empty.symm
  by_cases made : v = .null ∨ c.options.value = .null
  · refine ⟨#[], fun before r after answered => ?_⟩
    rcases answer_cases answered with ⟨_, _, rfl⟩ | ⟨_, _, _, rfl⟩ | ⟨present, strict, _⟩
    · exact none after
    · exact none after
    · exact absurd made (not_or.mpr ⟨present, strict⟩)
  · obtain ⟨present, strict⟩ := not_or.mp made
    have kept : ∀ {before r after}, c.answer v before = .ok r after →
        c.exactValue before = .ok r after := by
      intro before r after answered
      rwa [answer, if_neg present, if_neg strict] at answered
    cases c with
    | array o expected =>
      refine ⟨#[expected.getD []], fun before r after answered => ?_⟩
      cases kept answered
      exact Array.push_eq_append
    | boolean o | number o | string o shape | extended base extension =>
      refine ⟨#[], fun before r after answered => ?_⟩
      cases kept answered
      exact none before

/-- What a built-in checker makes of containers when it accepts a value depends on the value alone.
-/
theorem Made.sequences_of_check {c : Checker} (made : c.Made) (v : Value) :
    ∃ lists, ∀ ctx before r after, c.check v ctx before = .ok r after →
      after.sequences = before.sequences ++ lists := by
  cases made with
  | boolean | number | string | array =>
    obtain ⟨lists, makes⟩ := sequences_of_answer _ v
    exact ⟨lists, fun ctx before r after checked => makes _ _ _ (checkBasic_ok checked).2⟩
  | ipv6 =>
    obtain ⟨lists, makes⟩ := sequences_of_answer _ v
    exact ⟨lists, fun ctx before r after checked =>
      makes _ _ _ (checkBasic_ok (check_ipv6_ok checked).1).2⟩
  | siret =>
    obtain ⟨lists, makes⟩ := sequences_of_answer _ v
    refine ⟨lists, fun ctx before r after checked => ?_⟩
    obtain ⟨r', based, _⟩ := check_siret_ok checked
    exact makes _ _ _ (checkBasic_ok based).2

theorem failure_of_checkBasic {c : Checker} {v : Value} {ctx : Context} {before after : Store}
    {failure : Failure} (failed : c.checkBasic v ctx before = .error failure after) :
    failure = c.failure v ctx := by
  rw [checkBasic_eq] at failed
  split at failed
  · obtain ⟨r, between, answered⟩ := c.answer_total v before
    rw [answered] at failed
    cases failed
  · cases failed
    rfl

theorem failure_cases (c : Checker) (v : Value) (ctx : Context) :
    c.failure v ctx = refusal v ctx ∨
      v ≠ .null ∧ c.options.value = .null ∧
        ∃ cause, c.fault? v = some cause ∧ c.failure v ctx = .fault cause := by
  by_cases free : c.options.value = .null
  · cases faulty : c.fault? v with
    | none => exact Or.inl (failure_of_clear faulty ctx)
    | some cause =>
      refine Or.inr ⟨?_, free, cause, rfl, ?_⟩
      · obtain ⟨_, _, s, _, rfl, _⟩ := fault?_eq_some_iff.mp faulty
        exact Value.text_ne_null s
      · rw [failure, if_pos free, faulty]
        rfl
  · exact Or.inl (failure_of_exact free v ctx)

private theorem refusal_or_fault_of_checkBasic {c : Checker} {v : Value} {ctx : Context}
    {before after : Store} {failure : Failure}
    (failed : c.checkBasic v ctx before = .error failure after) :
    failure = refusal v ctx ∨ v ≠ .null ∧ ∃ cause, failure = .fault cause := by
  rw [failure_of_checkBasic failed]
  rcases c.failure_cases v ctx with same | ⟨present, _, cause, _, same⟩
  · exact Or.inl same
  · exact Or.inr ⟨present, cause, same⟩

/-- A built-in checker that fails says that the value is missing when it is absent, and that it is
invalid when it is there, unless an operation on the value fails. -/
theorem Made.failure_cases {c : Checker} (made : c.Made) {v : Value} {ctx : Context}
    {before after : Store} {failure : Failure}
    (failed : c.check v ctx before = .error failure after) :
    failure = refusal v ctx ∨ v ≠ .null ∧ ∃ cause, failure = .fault cause := by
  cases made with
  | boolean | number | string | array => exact refusal_or_fault_of_checkBasic failed
  | @ipv6 o exact =>
    rw [check_ipv6] at failed
    cases based : (Checker.string o (some Shapes.ipv6)).checkBasic v ctx before with
    | error other between =>
      simp only [based] at failed
      cases failed
      exact refusal_or_fault_of_checkBasic based
    | ok r between =>
      simp only [based] at failed
      split at failed
      · cases failed
      · rename_i rejected
        rw [Bool.or_eq_true, not_or, decide_eq_true_iff] at rejected
        cases failed
        rw [refusal, if_neg rejected.1]
        exact Or.inl rfl
  | @siret o exact =>
    rw [check_siret] at failed
    cases based : (Checker.string o (some Shapes.siret)).checkBasic v ctx before with
    | error other between =>
      simp only [based] at failed
      cases failed
      exact refusal_or_fault_of_checkBasic based
    | ok r between =>
      simp only [based] at failed
      split at failed
      · cases failed
      · rename_i present
        cases text : v.text? with
        | none =>
          simp only [text] at failed
          cases failed
          exact Or.inr ⟨present, _, rfl⟩
        | some s =>
          simp only [text, Luhn.validText] at failed
          cases read : Luhn.digits? (Text.dropBlanks s.toList) with
          | none =>
            simp only [read] at failed
            cases failed
            exact Or.inr ⟨present, _, rfl⟩
          | some numbers =>
            cases verdict : Luhn.valid numbers with
            | false =>
              simp only [read, verdict] at failed
              cases failed
              rw [refusal, if_neg present]
              exact Or.inl rfl
            | true =>
              simp only [read, verdict] at failed
              cases failed

theorem Made.null_of_missing {c : Checker} (made : c.Made) {v : Value} {ctx : Context}
    {before after : Store} {path : String}
    (failed : c.check v ctx before = .error (.missing path) after) : v = .null := by
  by_contra present
  rcases made.failure_cases failed with same | ⟨_, cause, same⟩
  · rw [refusal, if_neg present] at same
    cases same
  · cases same

theorem Made.null_of_check {c : Checker} (made : c.Made) {v : Value} {ctx : Context}
    {before after : Store} (checked : c.check v ctx before = .ok .null after) : v = .null := by
  cases made with
  | boolean | number | string | array => exact null_of_checkBasic checked
  | ipv6 => exact null_of_checkBasic (check_ipv6_ok checked).1
  | siret =>
    obtain ⟨r, based, ⟨null, _⟩ | ⟨s, rfl, _, replaced⟩⟩ := check_siret_ok checked
    · exact null
    · cases sanitize : ctx.mode.sanitize with
      | true =>
        rw [sanitize, if_pos rfl] at replaced
        cases replaced
      | false =>
        rw [sanitize, if_neg Bool.false_ne_true] at replaced
        rw [← replaced] at based
        exact null_of_checkBasic based

theorem Made.check_null {c : Checker} (made : c.Made) {ctx : Context}
    (lenient : ctx.mode.partialCheck = true) (store : Store) :
    c.check .null ctx store = .ok .null store := by
  have basic : ∀ base : Checker, base.checkBasic .null ctx store = .ok .null store := by
    intro base
    rw [checkBasic_eq, admits, if_pos rfl, lenient, Bool.not_true, Bool.and_false, Bool.not_false,
      if_pos rfl, answer, if_pos rfl]
    rfl
  cases made with
  | boolean | number | string | array => exact basic _
  | ipv6 =>
    rw [check_ipv6, basic]
    rfl
  | siret =>
    rw [check_siret, basic]
    rfl

theorem shape_of_made {c : Checker} (made : c.Made) {o : Options} {shape : Option Pattern}
    (form : c = .extended (.string o shape) Siret.check) : shape = some Shapes.siret := by
  cases made with
  | boolean | number | string | array => cases form
  | ipv6 =>
    have names := congrArg CustomCheck.name (Checker.extended.inj form).2
    simp [AddressV6.check, Siret.check] at names
  | siret => exact (Checker.string.inj (Checker.extended.inj form).1).2.symm

theorem checkBasic_exact {o : Options} {e : String} (exactly : o.value = .text e)
    (shape : Option Pattern) (ctx : Context) (store : Store) :
    (Checker.string o shape).checkBasic (.text e) ctx store = .ok (.text e) store := by
  have present := Value.text_ne_null e
  have equal : store.equal (.text e) (.text e) := by
    simp [Store.equal, Atom.eq, Atom.magnitude?]
  have admitted : (Checker.string o shape).admits store ctx.mode (.text e) := by
    rw [admits, if_neg present, options, exactly, if_neg present, Bool.and_eq_true]
    refine ⟨rfl, ?_⟩
    change store.equal (.text e) o.value = true
    rw [exactly]
    exact equal
  rw [checkBasic_eq, if_pos admitted, answer, if_neg present, options, exactly, if_neg present]
  change EStateM.Result.ok o.value store = _
  rw [exactly]

theorem builtIn_of_make {name : String} {kind : Kind} {c : Checker} (store : Store)
    (source : OptionsSource)
    (found : Kinds.builtin.find? (.text name) = some (.factory (.builtin kind)))
    (made : Factory.make store Kinds.builtin (.builtin kind) source [] = .ok c) :
    c.BuiltIn := by
  refine ⟨store, .text name, source, [], bind_eq_ok.mpr ⟨(), rfl, ?_⟩⟩
  rw [found]
  exact made

theorem boolean_builtIn : (Checker.boolean {}).BuiltIn :=
  builtIn_of_make {} (.record {}) Kinds.find?_boolean rfl

abbrev mandatoryBoolean : Checker := .boolean { mandatory := .bool true }

theorem mandatoryBoolean_builtIn : mandatoryBoolean.BuiltIn :=
  builtIn_of_make {} (.record { mandatory := .bool true }) Kinds.find?_boolean rfl

theorem make_array (store : Store) {o : Options}
    (exact : o.value = .null ∨ o.value.array?.isSome) (sizes : requireSizes o = .ok ()) :
    Kinds.builtin.make store (.text "array") (.record o) [] =
      .ok (.array o (o.value.array?.map store.items)) := by
  have coerced : Options.coerce store (.record o) [] = .ok o := rfl
  have required : requireExact (.array o none) = .ok () := by
    rw [requireExact, if_pos]
    change (decide (o.value = .null) || o.value.array?.isSome) = true
    rw [Bool.or_eq_true, decide_eq_true_iff]
    exact exact
  have made : makeArray store o = .ok (.array o (o.value.array?.map store.items)) := by
    rw [makeArray, required, sizes]
    rfl
  refine bind_eq_ok.mpr ⟨(), rfl, ?_⟩
  rw [Kinds.find?_array]
  exact bind_eq_ok.mpr ⟨(), rfl, bind_eq_ok.mpr ⟨_, coerced, made⟩⟩

theorem builtIn_array (store : Store) {o : Options}
    (exact : o.value = .null ∨ o.value.array?.isSome) (sizes : requireSizes o = .ok ()) :
    (Checker.array o (o.value.array?.map store.items)).BuiltIn :=
  ⟨store, .text "array", .record o, [], make_array store exact sizes⟩

abbrev oneItem (w : Value) : Checker := .array { value := .seq .list 0 } (some [w])

theorem oneItem_builtIn (w : Value) : (oneItem w).BuiltIn :=
  builtIn_array { sequences := #[[w]] } (o := { value := .seq .list 0 }) (Or.inr rfl) rfl

theorem check_oneItem {store : Store} {w w' : Value} {a : Address} (items : store.items a = [w'])
    (ctx : Context) :
    (oneItem w).check (.seq .list a) ctx store =
      if store.equal w' w then
        .ok (.seq .list store.sequences.size) (store.newSeq .list [w]).2
      else .error (.invalid ctx.path) store := by
  have admitted : (oneItem w).admits store ctx.mode (.seq .list a) = store.equal w' w := by
    change itemsEqual store (store.items a) [w] = _
    rw [items, itemsEqual, itemsEqual, Bool.and_true]
  change (oneItem w).checkBasic _ _ _ = _
  rw [checkBasic_eq, admitted]
  rfl

/-- The checker of establishment numbers that options make: it holds its own pattern in the place of
theirs. -/
def ofSiret (o : Options) : Checker :=
  .extended (.string { o with regex := .atom (.pattern Shapes.siret) } (some Shapes.siret))
    Siret.check

theorem builtIn_siret {o : Options} (exact : o.value = .null ∨ o.value.text?.isSome)
    (sizes : requireSizes o = .ok ()) : (ofSiret o).BuiltIn := by
  refine builtIn_of_make {} (.record o) Kinds.find?_siret ?_
  have shaped : Factory.shapedOptions {} (.atom (.pattern Shapes.siret)) (.record o) [] =
      .ok { o with regex := .atom (.pattern Shapes.siret) } := rfl
  have required : requireExact (.string { o with regex := .atom (.pattern Shapes.siret) } none) =
      .ok () := by
    rw [requireExact, if_pos]
    change (decide (o.value = .null) || o.value.text?.isSome) = true
    rw [Bool.or_eq_true, decide_eq_true_iff]
    exact exact
  have sized : requireSizes { o with regex := .atom (.pattern Shapes.siret) } = .ok () := sizes
  have made : makeString Pattern.ofSource { o with regex := .atom (.pattern Shapes.siret) } =
      .ok (.string { o with regex := .atom (.pattern Shapes.siret) } (some Shapes.siret)) := by
    rw [makeString, required, sized]
    rfl
  have extended : extendKind
      (Factory.makeWithin Pattern.ofSource {} Kinds.builtin Kinds.builtin.count) Kinds.builtin
      (.record { o with regex := .atom (.pattern Shapes.siret) }) "string" Siret.check = .ok
        (.extended (.string { o with regex := .atom (.pattern Shapes.siret) } (some Shapes.siret))
          Siret.check) := by
    rw [extendKind, Kinds.find?_string]
    exact bind_eq_ok.mpr ⟨_, made, rfl⟩
  exact bind_eq_ok.mpr ⟨(), rfl, bind_eq_ok.mpr ⟨_, shaped, extended⟩⟩

end Checker

end Assay
