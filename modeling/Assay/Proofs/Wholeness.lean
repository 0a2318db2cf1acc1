import Assay.Proofs.Limits
import Assay.Proofs.Rounding

/-!
Whole numbers and numbers with a fractional part. Whole numbers and doubles are judged by what they
stand for. A fraction is rounded to a double before it is judged, so one with a fractional part
counts as whole where rounding drops that part, and a whole one that is beyond every double does
not.
-/

set_option autoImplicit false
set_option relaxedAutoImplicit false

namespace Assay

namespace Number

variable {n : Number} {q : ℚ}

/-- A number counts as whole: a fraction does if it is not beyond the doubles and a whole number is
at most half a unit of its last place away. -/
def SeemsWhole : Number → ℚ → Prop
  | .fraction _, q => |q| < Double.beyond ∧ ∃ k : Int, 2 * |q - k| ≤ Double.unit q
  | _, q => ∃ k : Int, q = k

/-- A number is judged by what it stands for: a whole fraction is not beyond the doubles, and one
that is not beyond them and so close to a whole number that it is rounded to it is whole itself. -/
def Discerned : Number → ℚ → Prop
  | .fraction _, q =>
    ((∃ k : Int, q = k) → |q| < Double.beyond) ∧
      (|q| < Double.beyond → (∃ k : Int, 2 * |q - k| ≤ Double.unit q) → ∃ k : Int, q = k)
  | _, _ => True

theorem isWhole_iff (amounts : n.Amounts q) : n.isWhole ↔ n.SeemsWhole q := by
  unfold Amounts at amounts
  cases n with
  | int k =>
    obtain rfl := Magnitude.finite.inj amounts
    exact iff_of_true rfl ⟨k, rfl⟩
  | fraction r =>
    obtain rfl := Magnitude.finite.inj amounts
    exact Double.ofRat?_whole_iff r
  | double d =>
    cases d with
    | finite r =>
      obtain rfl := Magnitude.finite.inj amounts
      rw [isWhole, Double.isWhole, beq_iff_eq]
      exact Double.den_eq_one_iff_exists r
    | negZero =>
      obtain rfl := Magnitude.finite.inj amounts
      exact iff_of_true rfl ⟨0, Int.cast_zero.symm⟩
    | infinite negative => cases amounts
    | nan tag => cases amounts

theorem seemsWhole_iff_iff_discerned : (n.SeemsWhole q ↔ ∃ k : Int, q = k) ↔ n.Discerned q := by
  have close (whole : ∃ k : Int, q = k) : ∃ k : Int, 2 * |q - k| ≤ Double.unit q := by
    obtain ⟨k, rfl⟩ := whole
    refine ⟨k, ?_⟩
    rw [sub_self, abs_zero, mul_zero]
    exact Double.unit_nonneg _
  cases n with
  | int k => exact iff_of_true Iff.rfl trivial
  | double d => exact iff_of_true Iff.rfl trivial
  | fraction r =>
    unfold SeemsWhole Discerned
    constructor
    · intro right
      exact ⟨fun whole => (right.mpr whole).1, fun inside near => right.mp ⟨inside, near⟩⟩
    · rintro ⟨inside, apart⟩
      exact ⟨fun seems => apart seems.1 seems.2, fun whole => ⟨inside whole, close whole⟩⟩

end Number

namespace Checker

variable {n : Number} {q : ℚ} {ctx : Context} {before : Store}

private theorem check_ok_iff {o : Options} (free : o.value = .null) :
    (∃ r after, (Checker.number o).check (.atom (.number n)) ctx before = .ok r after) ↔
      n.accepted o before := by
  rw [check_number free]
  by_cases accepted : n.accepted o before
  · rw [if_pos accepted]
    exact iff_of_true ⟨_, _, rfl⟩ accepted
  · rw [if_neg accepted]
    exact iff_of_false (fun ⟨_, _, passed⟩ => nomatch passed) accepted

theorem check_isInteger_iff (amounts : n.Amounts q) :
    (∃ r after, (Checker.number { isInteger := .bool true }).check (.atom (.number n)) ctx before =
      .ok r after) ↔ n.SeemsWhole q := by
  rw [check_ok_iff rfl, ← Number.isWhole_iff amounts]
  have plain : n.accepted { isInteger := .bool true } before = n.isWhole := by
    simp [Number.accepted, Store.truthy, Value.number?]
  rw [plain]

theorem check_isFloat_iff (amounts : n.Amounts q) :
    (∃ r after, (Checker.number { isFloat := .bool true }).check (.atom (.number n)) ctx before =
      .ok r after) ↔ ¬n.SeemsWhole q := by
  rw [check_ok_iff rfl, ← Number.isWhole_iff amounts]
  have plain : n.accepted { isFloat := .bool true } before = !n.isWhole := by
    simp [Number.accepted, Store.truthy, Value.number?]
  rw [plain, Bool.not_eq_true', Bool.not_eq_true]

end Checker

namespace Factory

/-- A checker of whole numbers accepts the whole numbers among the numbers that are discerned, and
judges each of the others wrongly; a checker of numbers with a fractional part judges the same
numbers rightly. -/
theorem make_number_whole_iff (store : Store) (kinds : Kinds) :
    ∃ whole broken,
      make store kinds (.builtin .number) .absent [("is_integer", .bool true)] = .ok whole ∧
      make store kinds (.builtin .number) .absent [("is_float", .bool true)] = .ok broken ∧
      ∀ (n : Number) (q : ℚ), n.Amounts q → ∀ (ctx : Context) (before : Store),
        (((∃ r after, whole.check (.atom (.number n)) ctx before = .ok r after) ↔
          ∃ k : Int, q = k) ↔ n.Discerned q) ∧
        (((∃ r after, broken.check (.atom (.number n)) ctx before = .ok r after) ↔
          ¬∃ k : Int, q = k) ↔ n.Discerned q) := by
  refine ⟨.number { isInteger := .bool true }, .number { isFloat := .bool true },
    make_number rfl rfl (Or.inl rfl) (Or.inl rfl), make_number rfl rfl (Or.inl rfl) (Or.inl rfl),
    fun n q amounts ctx before => ?_⟩
  rw [Checker.check_isInteger_iff amounts, Checker.check_isFloat_iff amounts, not_iff_not]
  exact ⟨Number.seemsWhole_iff_iff_discerned, Number.seemsWhole_iff_iff_discerned⟩

theorem make_number_whole_iff_third :
    (Number.fraction (1 / 3)).Amounts (1 / 3) ∧ (Number.fraction (1 / 3)).Discerned (1 / 3) ∧
      ∃ whole broken,
        make {} Kinds.builtin (.builtin .number) .absent [("is_integer", .bool true)] = .ok whole ∧
        make {} Kinds.builtin (.builtin .number) .absent [("is_float", .bool true)] = .ok broken ∧
        ∀ ctx before,
          (¬∃ r after, whole.check (.atom (.number (.fraction (1 / 3)))) ctx before = .ok r after) ∧
          ∃ r after, broken.check (.atom (.number (.fraction (1 / 3)))) ctx before =
            .ok r after := by
  have amounts : (Number.fraction (1 / 3)).Amounts (1 / 3) := rfl
  have notWhole : ¬∃ k : Int, (1 / 3 : ℚ) = k := by
    rw [← Double.den_eq_one_iff_exists]
    decide +kernel
  have discerned : (Number.fraction (1 / 3)).Discerned (1 / 3) := by
    rw [← Number.seemsWhole_iff_iff_discerned, ← Number.isWhole_iff amounts]
    exact iff_of_false (by decide +kernel) notWhole
  obtain ⟨whole, broken, madeWhole, madeBroken, judge⟩ := make_number_whole_iff {} Kinds.builtin
  refine ⟨amounts, discerned, whole, broken, madeWhole, madeBroken, fun ctx before => ⟨?_, ?_⟩⟩
  · rw [(judge _ _ amounts ctx before).1.mpr discerned]
    exact notWhole
  · exact ((judge _ _ amounts ctx before).2.mpr discerned).mpr notWhole

/-- A half above the power of two behind which doubles have no fractional part. -/
theorem make_number_whole_rounded :
    ∃ whole broken,
      make {} Kinds.builtin (.builtin .number) .absent [("is_integer", .bool true)] = .ok whole ∧
      make {} Kinds.builtin (.builtin .number) .absent [("is_float", .bool true)] = .ok broken ∧
      (¬∃ k : Int, (18014398509481985 / 2 : ℚ) = k) ∧
      ∀ ctx before,
        (∃ r after, whole.check (.atom (.number (.fraction (18014398509481985 / 2)))) ctx before =
          .ok r after) ∧
        ¬∃ r after, broken.check (.atom (.number (.fraction (18014398509481985 / 2)))) ctx before =
          .ok r after := by
  have amounts : (Number.fraction (18014398509481985 / 2)).Amounts (18014398509481985 / 2) := rfl
  have seems : (Number.fraction (18014398509481985 / 2)).SeemsWhole (18014398509481985 / 2) := by
    rw [← Number.isWhole_iff amounts]
    decide +kernel
  refine ⟨.number { isInteger := .bool true }, .number { isFloat := .bool true },
    make_number rfl rfl (Or.inl rfl) (Or.inl rfl), make_number rfl rfl (Or.inl rfl) (Or.inl rfl),
    ?_, fun ctx before => ⟨?_, ?_⟩⟩
  · rw [← Double.den_eq_one_iff_exists]
    decide +kernel
  · exact (Checker.check_isInteger_iff amounts).mpr seems
  · rw [Checker.check_isFloat_iff amounts, not_not]
    exact seems

end Factory

end Assay
