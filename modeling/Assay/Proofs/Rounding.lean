import Mathlib.Algebra.Order.Field.Power
import Mathlib.Data.Int.Log
import Mathlib.Data.Rat.Floor
import Mathlib.Tactic.Linarith
import Mathlib.Tactic.Ring
import Assay.Number.Double

/-!
Rounding to doubles. A rational number is measured in units of the last place that a double near it
keeps, and the count of units is rounded, halves to the even count. Where the unit is a whole number
every double is one; where it is a part of one, the rounded number is whole if a whole number is at
most half a unit away.
-/

set_option autoImplicit false
set_option relaxedAutoImplicit false

namespace Assay.Double

section Count

variable {n d m : Nat}

private theorem le_roundDiv_iff (positive : 0 < d) (even : m % 2 = 0) :
    m ≤ roundDiv n d ↔ 2 * (d * m) ≤ 2 * n + d := by
  have rest := Nat.mod_lt n positive
  have parts := Nat.div_add_mod n d
  unfold roundDiv
  generalize n / d = k at *
  generalize n % d = r at *
  rcases Nat.lt_trichotomy m (k + 1) with below | rfl | above
  · have size : d * m ≤ d * k := Nat.mul_le_mul_left d (Nat.le_of_lt_succ below)
    split_ifs <;> omega
  · rw [Nat.mul_add_one]
    split_ifs <;> omega
  · have size : d * (k + 2) ≤ d * m := Nat.mul_le_mul_left d above
    rw [Nat.mul_add] at size
    split_ifs <;> omega

private theorem roundDiv_le_iff (positive : 0 < d) (even : m % 2 = 0) :
    roundDiv n d ≤ m ↔ 2 * n ≤ 2 * (d * m) + d := by
  have rest := Nat.mod_lt n positive
  have parts := Nat.div_add_mod n d
  unfold roundDiv
  generalize n / d = k at *
  generalize n % d = r at *
  rcases Nat.lt_trichotomy m k with below | rfl | above
  · have size : d * (m + 1) ≤ d * k := Nat.mul_le_mul_left d below
    rw [Nat.mul_add_one] at size
    split_ifs <;> omega
  · split_ifs <;> omega
  · have size : d * (k + 1) ≤ d * m := Nat.mul_le_mul_left d above
    rw [Nat.mul_add_one] at size
    split_ifs <;> omega

variable {x : ℚ}

theorem le_roundDiv_iff_le (positive : 0 < d) (counted : (n : ℚ) / d = x) (even : m % 2 = 0) :
    m ≤ roundDiv n d ↔ (m : ℚ) - 1 / 2 ≤ x := by
  have divisor : (0 : ℚ) < d := Nat.cast_pos.mpr positive
  rw [le_roundDiv_iff positive even, ← counted, le_div_iff₀ divisor, ← @Nat.cast_le ℚ]
  push_cast
  constructor <;> intro _ <;> linarith

theorem roundDiv_le_iff_le (positive : 0 < d) (counted : (n : ℚ) / d = x) (even : m % 2 = 0) :
    roundDiv n d ≤ m ↔ x ≤ (m : ℚ) + 1 / 2 := by
  have divisor : (0 : ℚ) < d := Nat.cast_pos.mpr positive
  rw [roundDiv_le_iff positive even, ← counted, div_le_iff₀ divisor, ← @Nat.cast_le ℚ]
  push_cast
  constructor <;> intro _ <;> linarith

end Count

variable {n d : Nat} {e : Int}

theorem inUnits_pos (positive : 0 < d) : 0 < (inUnits n d e).2 := by
  unfold inUnits
  split_ifs
  · exact Nat.mul_pos positive (Nat.two_pow_pos e.toNat)
  · exact positive

theorem inUnits_div : ((inUnits n d e).1 : ℚ) / (inUnits n d e).2 = n / d / 2 ^ e := by
  unfold inUnits
  split_ifs with low
  · obtain ⟨k, rfl⟩ := Int.eq_ofNat_of_zero_le low
    simp only [Int.toNat_natCast, Nat.pow_eq, Nat.cast_mul, Nat.cast_pow, Nat.cast_ofNat,
      zpow_natCast]
    rw [div_div]
  · obtain ⟨k, rfl⟩ := Int.eq_negSucc_of_lt_zero (Int.not_le.mp low)
    simp only [Int.neg_negSucc, Int.toNat_natCast, Nat.pow_eq, Nat.cast_mul, Nat.cast_pow,
      Nat.cast_ofNat, zpow_negSucc]
    rw [div_inv_eq_mul, div_mul_eq_mul_div]

theorem scaled_eq (m : Nat) (e : Int) : scaled m e = m * 2 ^ e := by
  unfold scaled
  split_ifs with low
  · obtain ⟨k, rfl⟩ := Int.eq_ofNat_of_zero_le low
    simp only [Int.toNat_natCast, Nat.pow_eq, Nat.cast_mul, Nat.cast_pow, Nat.cast_ofNat,
      zpow_natCast]
  · obtain ⟨k, rfl⟩ := Int.eq_negSucc_of_lt_zero (Int.not_le.mp low)
    simp only [Int.neg_negSucc, Int.toNat_natCast, Nat.pow_eq, zpow_negSucc]
    rw [Rat.mkRat_eq_div]
    push_cast
    rw [div_eq_mul_inv]

private theorem log_eq_iff {x : ℚ} (positive : 0 < x) (k : Int) :
    Int.log 2 x = k ↔ 2 ^ k ≤ x ∧ x < 2 ^ (k + 1) := by
  have low := Int.zpow_le_iff_le_log Nat.one_lt_two (x := k) positive
  have high := Int.lt_zpow_iff_log_lt Nat.one_lt_two (x := k + 1) positive
  rw [Nat.cast_ofNat] at low high
  rw [low, high, Int.lt_add_one_iff, le_antisymm_iff, and_comm]

private theorem log2_bounds (positive : 0 < n) :
    (2 : ℚ) ^ (n.log2 : Int) ≤ n ∧ (n : ℚ) < 2 ^ ((n.log2 : Int) + 1) := by
  constructor
  · rw [zpow_natCast]
    exact_mod_cast Nat.log2_self_le (Nat.ne_of_gt positive)
  · exact_mod_cast Nat.lt_log2_self (n := n)

private theorem quotient_bounds (numerator : 0 < n) (denominator : 0 < d) :
    (2 : ℚ) ^ ((n.log2 : Int) - d.log2 - 1) ≤ n / d ∧
      (n : ℚ) / d < 2 ^ ((n.log2 : Int) - d.log2 + 1) := by
  have two : (2 : ℚ) ≠ 0 := two_ne_zero
  have divisor : (0 : ℚ) < d := Nat.cast_pos.mpr denominator
  obtain ⟨lowN, highN⟩ := log2_bounds numerator
  obtain ⟨lowD, highD⟩ := log2_bounds denominator
  constructor
  · rw [le_div_iff₀ divisor]
    calc (2 : ℚ) ^ ((n.log2 : Int) - d.log2 - 1) * d
        ≤ 2 ^ ((n.log2 : Int) - d.log2 - 1) * 2 ^ ((d.log2 : Int) + 1) := by gcongr
      _ = 2 ^ (n.log2 : Int) := by rw [← zpow_add₀ two]; congr 1; ring
      _ ≤ n := lowN
  · rw [div_lt_iff₀ divisor]
    calc (n : ℚ) < 2 ^ ((n.log2 : Int) + 1) := highN
      _ = 2 ^ ((n.log2 : Int) - d.log2 + 1) * 2 ^ (d.log2 : Int) := by
        rw [← zpow_add₀ two]; congr 1; ring
      _ ≤ 2 ^ ((n.log2 : Int) - d.log2 + 1) * d := by gcongr

private theorem few_places_iff (denominator : 0 < d) :
    (inUnits n d e).1 < (inUnits n d e).2 * Nat.pow 2 52 ↔ (n : ℚ) / d < 2 ^ (e + 52) := by
  have divisor : (0 : ℚ) < (inUnits n d e).2 := Nat.cast_pos.mpr (inUnits_pos denominator)
  have scale : (2 : ℚ) ^ (e + 52) = 2 ^ 52 * 2 ^ e := by
    rw [← zpow_natCast, ← zpow_add₀ two_ne_zero, add_comm]
    norm_cast
  rw [scale, ← div_lt_iff₀ (by positivity), ← inUnits_div, div_lt_iff₀' divisor, Nat.pow_eq]
  exact_mod_cast Iff.rfl

/-- The last place that a double near a number keeps. -/
def place (x : ℚ) : Int := max (-1074) (Int.log 2 |x| - 52)

/-- The distance between the doubles around a number. -/
def unit (x : ℚ) : ℚ := 2 ^ place x

theorem unit_nonneg (x : ℚ) : 0 ≤ unit x := zpow_nonneg zero_le_two _

/-- The first guess at the last place comes from the lengths of numerator and denominator. It is one
too high when the number has one place less than they promise. -/
theorem lastPlace_eq (numerator : 0 < n) (denominator : 0 < d) :
    lastPlace n d = place ((n : ℚ) / d) := by
  obtain ⟨low, high⟩ := quotient_bounds numerator denominator
  have positive : (0 : ℚ) < n / d :=
    div_pos (Nat.cast_pos.mpr numerator) (Nat.cast_pos.mpr denominator)
  unfold lastPlace place
  rw [abs_of_pos positive]
  simp only [few_places_iff denominator, sub_add_cancel]
  generalize (n : ℚ) / d = x at *
  congr 1
  split_ifs with below
  · have lower : x < 2 ^ ((n.log2 : Int) - d.log2 - 1 + 1) := by rwa [sub_add_cancel]
    have log := (log_eq_iff positive ((n.log2 : Int) - d.log2 - 1)).mpr ⟨low, lower⟩
    omega
  · have log := (log_eq_iff positive ((n.log2 : Int) - d.log2)).mpr ⟨not_lt.mp below, high⟩
    omega

/-- Opened as a whole function: applied to arguments, the definition would have the kernel work out
the last place before it compares the two sides. -/
private theorem roundMagnitude?_eq_fun : roundMagnitude? = fun n d =>
    let e := lastPlace n d
    let (a, b) := inUnits n d e
    let m := roundDiv a b
    if 0 ≤ e && Nat.pow 2 1024 ≤ m * Nat.pow 2 e.toNat then none else some (scaled m e) := rfl

private theorem roundMagnitude?_eq (last : lastPlace n d = e) {limit : Nat}
    (power : Nat.pow 2 1024 = limit) :
    roundMagnitude? n d =
      if 0 ≤ e && limit ≤ roundDiv (inUnits n d e).1 (inUnits n d e).2 * Nat.pow 2 e.toNat then
        none
      else some (scaled (roundDiv (inUnits n d e).1 (inUnits n d e).2) e) := by
  rw [roundMagnitude?_eq_fun]
  beta_reduce
  rw [last, power]

theorem den_eq_one_iff_exists (q : ℚ) : q.den = 1 ↔ ∃ k : Int, q = k := by
  rw [Rat.den_eq_one_iff]
  constructor
  · exact fun whole => ⟨q.num, whole.symm⟩
  · rintro ⟨k, rfl⟩
    rw [Rat.num_intCast]

/-- The least magnitude that is rounded to a number beyond every double: half a unit below the
power of two behind the doubles. -/
def beyond : ℚ := 2 ^ 1024 - 2 ^ 970

section Units

variable {a b : Nat} {x : ℚ}

private theorem roundDiv_eq_iff (positive : 0 < b) (counted : (a : ℚ) / b = x) {m : Nat}
    (even : m % 2 = 0) : roundDiv a b = m ↔ 2 * |x - m| ≤ 1 := by
  rw [le_antisymm_iff, roundDiv_le_iff_le positive counted even,
    le_roundDiv_iff_le positive counted even, ← le_div_iff₀' two_pos, abs_le]
  constructor
  · rintro ⟨high, low⟩
    constructor <;> linarith
  · rintro ⟨low, high⟩
    constructor <;> linarith

/-- In units below one the whole numbers are even counts, so a number is rounded to a whole one if
it is at most half a unit away. -/
private theorem fine_iff (fine : e < 0) (size : 0 ≤ x) (positive : 0 < b)
    (counted : (a : ℚ) / b = x / 2 ^ e) :
    (∃ k : Int, (roundDiv a b : ℚ) * 2 ^ e = k) ↔ ∃ k : Int, 2 * |x - k| ≤ 2 ^ e := by
  obtain ⟨w, rfl⟩ := Int.eq_negSucc_of_lt_zero fine
  have units : (0 : ℚ) < 2 ^ (w + 1) := by positivity
  rw [zpow_negSucc] at counted ⊢
  rw [div_inv_eq_mul] at counted
  have even (k : Nat) : k * 2 ^ (w + 1) % 2 = 0 := by
    rw [pow_succ, ← Nat.mul_assoc, Nat.mul_mod_left]
  have near (k : Nat) : roundDiv a b = k * 2 ^ (w + 1) ↔ 2 * |x - k| ≤ (2 ^ (w + 1))⁻¹ := by
    have scale : x * 2 ^ (w + 1) - (k * 2 ^ (w + 1) : Nat) = (x - k) * 2 ^ (w + 1) := by
      push_cast
      ring
    rw [roundDiv_eq_iff positive counted (even k), scale, abs_mul, abs_of_pos units,
      ← mul_assoc, ← one_div, le_div_iff₀ units]
  constructor
  · rintro ⟨k, whole⟩
    have nonnegative : 0 ≤ k := by
      rw [← Int.cast_nonneg_iff (R := ℚ), ← whole]
      positivity
    obtain ⟨k, rfl⟩ := Int.eq_ofNat_of_zero_le nonnegative
    rw [← div_eq_mul_inv, div_eq_iff (ne_of_gt units)] at whole
    refine ⟨k, (near k).mp ?_⟩
    exact_mod_cast whole
  · rintro ⟨k, close⟩
    have half : ((2 : ℚ) ^ (w + 1))⁻¹ ≤ 1 := inv_le_one_of_one_le₀ (one_le_pow₀ one_le_two)
    have nonnegative : 0 ≤ k := by
      have below := (abs_le.mp (show |x - k| ≤ 1 / 2 by linarith)).2
      have above : (-1 : ℚ) < k := by linarith
      have above : -1 < k := by exact_mod_cast above
      omega
    obtain ⟨k, rfl⟩ := Int.eq_ofNat_of_zero_le nonnegative
    refine ⟨k, ?_⟩
    rw [(near k).mpr close]
    push_cast
    rw [mul_inv_cancel_right₀ (ne_of_gt units)]

/-- With 53 binary places a count of units reaches a power of two from half a unit below it on, if
the units are right for it. -/
private theorem coarse_iff {E t top limit : Nat} (power : Nat.pow 2 top = limit)
    (above : top = t + 54) (low : 2 ^ (E + 52) ≤ x) (high : x < 2 ^ (E + 53))
    (positive : 0 < b) (counted : (a : ℚ) / b = x / 2 ^ E) :
    limit ≤ roundDiv a b * Nat.pow 2 E ↔ (2 : ℚ) ^ top - 2 ^ t ≤ x := by
  subst above power
  simp only [Nat.pow_eq]
  have units : (0 : ℚ) < 2 ^ E := by positivity
  rcases Nat.lt_trichotomy E (t + 1) with small | rfl | large
  · have atMost : roundDiv a b ≤ 2 ^ 53 := by
      rw [roundDiv_le_iff_le positive counted rfl, div_le_iff₀ units]
      rw [pow_add] at high
      push_cast
      linarith
    constructor
    · intro reached
      have bound : roundDiv a b * 2 ^ E ≤ 2 ^ 53 * 2 ^ t :=
        Nat.mul_le_mul atMost (Nat.pow_le_pow_right two_pos (by omega))
      have room : 0 < 2 ^ t := Nat.two_pow_pos t
      rw [pow_add] at reached
      omega
    · intro reached
      have bound : (2 : ℚ) ^ (E + 53) ≤ 2 ^ t * 2 ^ 53 := by
        rw [← pow_add]
        exact pow_le_pow_right₀ one_le_two (by omega)
      have room : (0 : ℚ) < 2 ^ t := by positivity
      rw [pow_add] at reached
      linarith
  · have top : 2 ^ (t + 54) = 2 ^ 53 * 2 ^ (t + 1) := by ring
    rw [top, Nat.mul_le_mul_right_iff (Nat.two_pow_pos (t + 1)),
      le_roundDiv_iff_le positive counted rfl, le_div_iff₀ units]
    have threshold : (((2 ^ 53 : Nat) : ℚ) - 1 / 2) * 2 ^ (t + 1) = 2 ^ (t + 54) - 2 ^ t := by
      push_cast
      ring
    rw [threshold]
  · have atLeast : 2 ^ 52 ≤ roundDiv a b := by
      rw [le_roundDiv_iff_le positive counted rfl, le_div_iff₀ units]
      rw [pow_add] at low
      push_cast
      linarith
    constructor
    · intro _
      have bound : (2 : ℚ) ^ (t + 54) ≤ 2 ^ (E + 52) := pow_le_pow_right₀ one_le_two (by omega)
      have room : (0 : ℚ) < 2 ^ t := by positivity
      linarith
    · intro _
      calc 2 ^ (t + 54) = 2 ^ 52 * 2 ^ (t + 2) := by ring
        _ ≤ roundDiv a b * 2 ^ E :=
          Nat.mul_le_mul atLeast (Nat.pow_le_pow_right two_pos large)

end Units

section Places

variable {x : ℚ}

theorem lt_zpow_place (positive : 0 < x) : x < 2 ^ (place x + 53) := by
  have top := Int.lt_zpow_succ_log_self Nat.one_lt_two x
  rw [Nat.cast_ofNat] at top
  unfold place
  rw [abs_of_pos positive]
  exact top.trans_le (zpow_le_zpow_right₀ one_le_two (by omega))

theorem zpow_place_le (positive : 0 < x) (normal : -1074 < place x) : 2 ^ (place x + 52) ≤ x := by
  have bottom := Int.zpow_log_le_self Nat.one_lt_two positive
  rw [Nat.cast_ofNat] at bottom
  unfold place at normal ⊢
  rw [abs_of_pos positive] at normal ⊢
  have same : max (-1074) (Int.log 2 x - 52) + 52 = Int.log 2 x := by omega
  rw [same]
  exact bottom

private theorem small_le_beyond : (2 : ℚ) ^ 53 ≤ beyond := by
  have split : (2 : ℚ) ^ 1024 = 2 ^ 970 * 2 ^ 54 := (pow_add 2 970 54)
  have small : (2 : ℚ) ^ 53 ≤ 2 ^ 970 := pow_le_pow_right₀ one_le_two (by decide)
  rw [beyond, split]
  generalize (2 : ℚ) ^ 970 = power at small ⊢
  linarith

/-- A magnitude is rounded to a whole number if it is not beyond the doubles and a whole number is
at most half a unit away. -/
theorem roundMagnitude?_whole_iff (numerator : 0 < n) (denominator : 0 < d)
    (quotient : (n : ℚ) / d = x) :
    (roundMagnitude? n d).any (·.den == 1) ↔ x < beyond ∧ ∃ k : Int, 2 * |x - k| ≤ unit x := by
  have positive : 0 < x := by
    rw [← quotient]
    exact div_pos (Nat.cast_pos.mpr numerator) (Nat.cast_pos.mpr denominator)
  have last : lastPlace n d = place x := by rw [lastPlace_eq numerator denominator, quotient]
  have high := lt_zpow_place positive
  have low := zpow_place_le positive
  unfold unit
  generalize place x = e at last high low ⊢
  have divisor := inUnits_pos (n := n) (e := e) denominator
  have counted := inUnits_div (n := n) (d := d) (e := e)
  rw [quotient] at counted
  -- Lean would not work out so large a power, so it gets a name.
  obtain ⟨limit, power⟩ : ∃ limit, Nat.pow 2 1024 = limit := exists_eq'
  rw [roundMagnitude?_eq last power]
  generalize (inUnits n d e).1 = a, (inUnits n d e).2 = b at divisor counted ⊢
  rcases lt_or_ge e 0 with fine | coarse
  · have inside : x < beyond := by
      have bound : (2 : ℚ) ^ (e + 53) ≤ 2 ^ (53 : Int) :=
        zpow_le_zpow_right₀ one_le_two (by omega)
      exact high.trans_le (bound.trans small_le_beyond)
    have noOverflow : decide (0 ≤ e) = false := decide_eq_false (not_le.mpr fine)
    simp only [noOverflow, Bool.false_and, Bool.false_eq_true, if_false, Option.any_some,
      beq_iff_eq, inside, true_and, scaled_eq]
    rw [← fine_iff fine positive.le divisor counted, den_eq_one_iff_exists]
  · obtain ⟨E, rfl⟩ := Int.eq_ofNat_of_zero_le coarse
    have whole : (scaled (roundDiv a b) E).den = 1 := by
      rw [scaled, if_pos coarse, Rat.den_natCast]
    have close : ∃ k : Int, 2 * |x - k| ≤ (2 : ℚ) ^ (E : Int) := by
      have half := abs_sub_round x
      have units : (1 : ℚ) ≤ 2 ^ (E : Int) := one_le_zpow₀ one_le_two coarse
      exact ⟨round x, by linarith⟩
    rw [zpow_natCast] at counted
    have low : (2 : ℚ) ^ (E + 52) ≤ x := by exact_mod_cast low (by omega)
    have high : x < (2 : ℚ) ^ (E + 53) := by exact_mod_cast high
    have overflow := coarse_iff power (show _ = 970 + 54 from rfl) low high divisor counted
    rw [← beyond] at overflow
    simp only [decide_eq_true coarse, Bool.true_and, decide_eq_true_iff, Int.toNat_natCast,
      overflow]
    split_ifs with reached
    · exact iff_of_false nofun fun both => not_lt.mpr reached both.1
    · rw [Option.any_some, whole]
      exact iff_of_true rfl ⟨not_le.mp reached, close⟩

end Places

section Sign

variable {q : ℚ}

private theorem isWhole_sign (magnitude : ℚ) :
    isWhole (if q < 0 then (if magnitude = 0 then .negZero else .finite (-magnitude))
      else .finite magnitude) = (magnitude.den == 1) := by
  split_ifs with negative zero
  · rw [zero]
    rfl
  · rw [isWhole, Rat.neg_den]
  · rw [isWhole]

private theorem exists_near_abs (q unit : ℚ) :
    (∃ k : Int, 2 * |(|q| - k)| ≤ unit) ↔ ∃ k : Int, 2 * |q - k| ≤ unit := by
  rcases le_total 0 q with positive | negative
  · rw [abs_of_nonneg positive]
  · have turn (k : Int) : |(|q| - k)| = |q - (-k : Int)| := by
      rw [abs_of_nonpos negative, ← abs_neg]
      push_cast
      congr 1
      ring
    simp only [turn]
    exact (neg_surjective.exists (p := fun k : Int => 2 * |q - k| ≤ unit)).symm

theorem ofRat?_whole_iff (q : ℚ) :
    (ofRat? q).any isWhole ↔ |q| < beyond ∧ ∃ k : Int, 2 * |q - k| ≤ unit q := by
  by_cases zero : q = 0
  · subst zero
    have inside : |(0 : ℚ)| < beyond := by
      rw [abs_zero]
      exact (by positivity : (0 : ℚ) < 2 ^ 53).trans_le small_le_beyond
    have close : 2 * |(0 : ℚ) - (0 : Int)| ≤ unit 0 := by
      rw [Int.cast_zero, sub_zero, abs_zero, mul_zero]
      exact unit_nonneg 0
    exact iff_of_true rfl ⟨inside, 0, close⟩
  · have numerator : 0 < q.num.natAbs := Int.natAbs_pos.mpr (Rat.num_ne_zero.mpr zero)
    have quotient : (q.num.natAbs : ℚ) / q.den = |q| := by
      rw [Nat.cast_natAbs, Int.cast_abs, ← Nat.abs_cast q.den, ← abs_div, Rat.num_div_den]
    have sameUnit : unit |q| = unit q := by rw [unit, place, abs_abs, unit, place]
    rw [ofRat?, if_neg zero, Option.any_map]
    simp only [isWhole_sign]
    rw [roundMagnitude?_whole_iff numerator q.pos quotient, sameUnit, exists_near_abs]

end Sign

end Assay.Double
