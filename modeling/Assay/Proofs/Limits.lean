import Mathlib.Algebra.Order.Ring.Rat
import Mathlib.Tactic.NormNum
import Assay.Proofs.Formats

/-!
Numbers within limits. A checker of numbers compares exact amounts, whatever the makes of the number
and of its bounds: no bound and no number is rounded on the way, however large it is and however
close it is to another.
-/

set_option autoImplicit false
set_option relaxedAutoImplicit false

namespace Assay

namespace Number

/-- A number stands for a rational number: whole numbers and fractions do, and so does every double
that is neither an infinity nor a NaN. -/
def Amounts (n : Number) (q : Rat) : Prop := n.magnitude = .finite q

variable {m n : Number} {p q : Rat}

theorem Amounts.unique (first : n.Amounts p) (second : n.Amounts q) : p = q := by
  unfold Amounts at first second
  exact Magnitude.finite.inj (first.symm.trans second)

theorem le_iff (first : m.Amounts p) (second : n.Amounts q) : m.le n ↔ p ≤ q := by
  unfold Amounts at first second
  rw [le, first, second, Magnitude.le, Magnitude.lt, Magnitude.eq, Bool.or_eq_true,
    decide_eq_true_iff, beq_iff_eq]
  exact le_iff_lt_or_eq.symm

theorem isZero_iff (amounts : n.Amounts q) : n.isZero ↔ q = 0 := by
  unfold Amounts at amounts
  cases n with
  | int k =>
    obtain rfl := Magnitude.finite.inj amounts
    rw [isZero, beq_iff_eq, Rat.intCast_eq_zero_iff]
  | fraction r =>
    obtain rfl := Magnitude.finite.inj amounts
    rw [isZero, beq_iff_eq]
  | double d =>
    cases d with
    | finite r =>
      obtain rfl := Magnitude.finite.inj amounts
      rw [isZero, Double.isZero, beq_iff_eq]
    | negZero =>
      obtain rfl := Magnitude.finite.inj amounts
      exact ⟨fun _ => rfl, fun _ => rfl⟩
    | infinite negative => cases amounts
    | nan tag => cases amounts

end Number

/-- A bound is absent or a number that stands for a rational number. -/
def Value.IsLimit (v : Value) : Prop := v = .null ∨ ∃ n q, v = .atom (.number n) ∧ n.Amounts q

/-- The demands of options on the amount of a number, those on its fractional part apart: switches
ask for its sign and for a number other than zero, and bounds hold where they are given. -/
structure Options.Within (o : Options) (store : Store) (q : Rat) : Prop where
  positive : store.truthy o.isPositive → 0 ≤ q
  negative : store.truthy o.isNegative → q ≤ 0
  notNull : store.truthy o.isNotNull → q ≠ 0
  minimum : ∀ n p, o.minimum = .atom (.number n) → n.Amounts p → p ≤ q
  maximum : ∀ n p, o.maximum = .atom (.number n) → n.Amounts p → q ≤ p

namespace Number

variable {n : Number} {q : Rat} {o : Options} {store : Store}

private theorem all_limit_iff {v : Value} (limit : v.IsLimit) {test : Number → Bool}
    {holds : Rat → Prop} (tests : ∀ m p, m.Amounts p → (test m ↔ holds p)) :
    v.number?.all test ↔ ∀ m p, v = .atom (.number m) → m.Amounts p → holds p := by
  rcases limit with rfl | ⟨m, p, rfl, amounts⟩
  · constructor
    · intro _ m p bound
      cases bound
    · exact fun _ => rfl
  · rw [Value.number?, Option.all_some, tests m p amounts]
    constructor
    · intro met m' p' same amounts'
      obtain rfl := Atom.number.inj (Value.atom.inj same)
      rwa [amounts'.unique amounts]
    · exact fun met => met m p rfl amounts

private theorem switch_iff (on : Bool) {test : Bool} {met : Prop} (tests : test ↔ met) :
    (!on || test) = true ↔ (on → met) := by
  rw [Bool.or_eq_true, Bool.not_eq_true', ← tests]
  cases on <;> simp

/-- Without demands on its fractional part a number is accepted when its amount is within the
limits. -/
theorem accepted_iff (amounts : n.Amounts q) (anyFloat : ¬store.truthy o.isFloat)
    (anyInteger : ¬store.truthy o.isInteger) (low : o.minimum.IsLimit)
    (high : o.maximum.IsLimit) : n.accepted o store ↔ o.Within store q := by
  have zero : (Number.int 0).Amounts 0 := rfl
  have positive := switch_iff (store.truthy o.isPositive) (le_iff zero amounts)
  have negative := switch_iff (store.truthy o.isNegative) (le_iff amounts zero)
  have notZero : (!n.isZero) = true ↔ q ≠ 0 := by
    rw [Bool.not_eq_true', ← Bool.not_eq_true, isZero_iff amounts]
  have notNull := switch_iff (store.truthy o.isNotNull) notZero
  have minimum := all_limit_iff low fun m p bound => le_iff bound amounts
  have maximum := all_limit_iff high fun m p bound => le_iff amounts bound
  rw [Bool.not_eq_true] at anyFloat anyInteger
  simp only [accepted, anyFloat, anyInteger, Bool.not_false, Bool.true_or, Bool.true_and,
    Bool.and_eq_true, positive, negative, notNull, minimum, maximum]
  constructor
  · rintro ⟨⟨⟨⟨positive, negative⟩, notNull⟩, maximum⟩, minimum⟩
    exact ⟨positive, negative, notNull, minimum, maximum⟩
  · rintro ⟨positive, negative, notNull, minimum, maximum⟩
    exact ⟨⟨⟨⟨positive, negative⟩, notNull⟩, maximum⟩, minimum⟩

end Number

namespace Checker

variable {o : Options}

theorem check_number (free : o.value = .null) (n : Number) (ctx : Context) (store : Store) :
    (Checker.number o).check (.atom (.number n)) ctx store =
      if n.accepted o store then .ok (.atom (.number n)) store
      else .error (.invalid ctx.path) store := by
  have present : Value.atom (.number n) ≠ .null := by simp
  have anyValue : (Checker.number o).options.value = .null := free
  have admitted : (Checker.number o).admits store ctx.mode (.atom (.number n)) =
      n.accepted o store := by
    rw [admits, if_neg present, if_pos anyValue]
    rfl
  change (Checker.number o).checkBasic _ _ _ = _
  rw [checkBasic_eq, admitted, answer, if_neg present, if_pos anyValue,
    failure_of_text? rfl present]
  rfl

private theorem requireNumber_of_isLimit {name : OptionName} (limit : (o.get name).IsLimit) :
    requireNumber o name = .ok () := by
  rw [requireNumber, if_pos]
  rw [Bool.or_eq_true, decide_eq_true_iff]
  rcases limit with absent | ⟨n, q, number, _⟩
  · exact Or.inl absent
  · right
    rw [number]
    rfl

theorem makeNumber_of_isLimit (free : o.value = .null) (low : o.minimum.IsLimit)
    (high : o.maximum.IsLimit) : makeNumber o = .ok (.number o) := by
  have exact : requireExact (.number o) = .ok () := by
    rw [requireExact, if_pos]
    change (decide (o.value = .null) || _) = true
    rw [free]
    rfl
  have minimum : requireNumber o .minimum = .ok () := requireNumber_of_isLimit low
  have maximum : requireNumber o .maximum = .ok () := requireNumber_of_isLimit high
  rw [makeNumber, exact, minimum, maximum]
  rfl

end Checker

namespace Factory

variable {store : Store} {kinds : Kinds} {source : OptionsSource} {keywords : Keywords}
  {o : Options}

theorem make_number (coerced : Options.coerce store source keywords = .ok o)
    (free : o.value = .null) (low : o.minimum.IsLimit) (high : o.maximum.IsLimit) :
    make store kinds (.builtin .number) source keywords = .ok (.number o) :=
  bind_eq_ok.mpr ⟨(), requireFree_of_coerce _ coerced,
    bind_eq_ok.mpr ⟨o, coerced, Checker.makeNumber_of_isLimit free low high⟩⟩

/-- Options without an exact value make a checker of numbers. Unless it is asked about the
fractional part, it hands a number back when the amount of the number is within the limits, and
refuses it as invalid when it is not. -/
theorem make_number_within_iff (coerced : Options.coerce store source keywords = .ok o)
    (free : o.value = .null) (low : o.minimum.IsLimit) (high : o.maximum.IsLimit) :
    ∃ c, make store kinds (.builtin .number) source keywords = .ok c ∧
      ∀ (n : Number) (q : Rat), n.Amounts q → ∀ (ctx : Context) (before : Store),
        ¬before.truthy o.isFloat → ¬before.truthy o.isInteger →
          (c.check (.atom (.number n)) ctx before = .ok (.atom (.number n)) before ↔
            o.Within before q) ∧
          (c.check (.atom (.number n)) ctx before = .error (.invalid ctx.path) before ↔
            ¬o.Within before q) := by
  refine ⟨.number o, make_number coerced free low high, ?_⟩
  intro n q amounts ctx before anyFloat anyInteger
  have accepted := Number.accepted_iff amounts anyFloat anyInteger low high
  rw [Checker.check_number free]
  by_cases within : o.Within before q
  · rw [if_pos (accepted.mpr within)]
    exact ⟨⟨fun _ => within, fun _ => rfl⟩, ⟨nofun, fun outside => absurd within outside⟩⟩
  · have refused : ¬n.accepted o before := fun yes => within (accepted.mp yes)
    rw [if_neg refused]
    exact ⟨⟨nofun, fun inside => absurd inside within⟩, ⟨fun _ => within, fun _ => rfl⟩⟩

abbrev mixedBounds : Options :=
  { isNotNull := .bool true
    minimum := .atom (.number (.fraction (1 / 3)))
    maximum := .atom (.number (.double (.finite 9007199254740992))) }

theorem make_number_within_iff_mixed :
    Options.coerce {} (.record mixedBounds) [] = .ok mixedBounds ∧ mixedBounds.minimum.IsLimit ∧
      mixedBounds.maximum.IsLimit ∧
      ∃ c, make {} Kinds.builtin (.builtin .number) (.record mixedBounds) [] = .ok c ∧
        ∀ ctx before,
          c.check (.int 9007199254740992) ctx before = .ok (.int 9007199254740992) before ∧
          c.check (.int 9007199254740993) ctx before = .error (.invalid ctx.path) before := by
  have low : mixedBounds.minimum.IsLimit := Or.inr ⟨_, 1 / 3, rfl, rfl⟩
  have high : mixedBounds.maximum.IsLimit := Or.inr ⟨_, 9007199254740992, rfl, rfl⟩
  obtain ⟨c, made, judges⟩ := @make_number_within_iff {} Kinds.builtin (.record mixedBounds) []
    mixedBounds rfl rfl low high
  refine ⟨rfl, low, high, c, made, fun ctx before => ⟨?_, ?_⟩⟩
  · refine (judges (.int 9007199254740992) 9007199254740992 rfl ctx before nofun nofun).1.mpr ?_
    constructor
    · exact nofun
    · exact nofun
    · exact fun _ => by decide
    · intro n p bound amounts
      cases bound
      obtain rfl := Magnitude.finite.inj amounts
      norm_num
    · intro n p bound amounts
      cases bound
      obtain rfl := Magnitude.finite.inj amounts
      exact le_rfl
  · refine (judges (.int 9007199254740993) 9007199254740993 rfl ctx before nofun nofun).2.mpr ?_
    intro within
    have beyond := within.maximum _ 9007199254740992 rfl rfl
    revert beyond
    decide

end Factory

end Assay
