import Mathlib.Algebra.GroupWithZero.Nat
import Assay.Proofs.Checksum
import Assay.Proofs.Formats

/-!
The language of establishment numbers. Where the options ask for nothing more, the texts that are
accepted are the spellings of fourteen digits whose weighted sum is a multiple of ten.
-/

set_option autoImplicit false
set_option relaxedAutoImplicit false

namespace Assay

namespace Luhn

/-- What the digit at a place counts for. Places are counted from the right, from zero on; at every
second one the digit is doubled, and nine is taken off a double over nine. -/
def worth (place n : Nat) : Nat :=
  if place % 2 = 1 then (if 9 < 2 * n then 2 * n - 9 else 2 * n) else n

def total (digits : List Nat) : Nat := (digits.reverse.mapIdx worth).sum

private theorem weigh_eq_worth (place n : Nat) :
    weigh (decide (place % 2 = 1)) (Int.ofNat n) = (worth place n : Nat) := by
  rw [Int.ofNat_eq_natCast]
  by_cases second : place % 2 = 1
  · simp only [second, decide_true, weigh, if_true, double, worth]
    split <;> split <;> omega
  · simp only [second, decide_false, weigh, Bool.false_eq_true, if_false, worth]

private theorem sum_eq_mapIdx (digits : List Nat) (start : Nat) :
    sum (decide (start % 2 = 1)) (digits.map Int.ofNat) =
      ((digits.mapIdx fun place n => worth (start + place) n).sum : Nat) := by
  induction digits generalizing start with
  | nil => rfl
  | cons n rest ih =>
    have turns : (!decide (start % 2 = 1)) = decide ((start + 1) % 2 = 1) := by
      rw [← decide_not, decide_eq_decide]
      omega
    have later : (fun place n => worth (start + (place + 1)) n) =
        fun place n => worth (start + 1 + place) n := by
      funext place n
      rw [Nat.add_assoc, Nat.add_comm 1 place]
    rw [List.map_cons, sum_cons, turns, ih (start + 1), List.mapIdx_cons, List.sum_cons, later]
    have first := weigh_eq_worth start n
    simp only [Nat.add_zero, Int.natCast_add]
    omega

/-- The sum that is taken from the right is the weighted sum by places. -/
theorem sum_reverse_eq_total (digits : List Nat) :
    sum false (digits.map Int.ofNat).reverse = (total digits : Nat) := by
  have fromZero := sum_eq_mapIdx digits.reverse 0
  simp only [Nat.zero_add] at fromZero
  rw [← List.map_reverse]
  exact fromZero

def plainValue (c : Char) : Nat := c.toNat - 48

theorem validText_of_plain {digits : List Char} (plain : ∀ c ∈ digits, Shapes.IsPlainDigit c) :
    validText digits = .ok (decide (total (digits.map plainValue) % 10 = 0)) := by
  have all : ∀ c ∈ digits, Text.isDigit c :=
    fun c member => Siret.isDigit_of_plain (plain c member)
  have read : digits.map digit = (digits.map plainValue).map Int.ofNat := by
    rw [List.map_map]
    exact List.map_congr_left fun c member => digit_of_plain (plain c member)
  rw [validText_of_isDigit all, valid, read, sum_reverse_eq_total]
  refine congrArg Except.ok (Bool.eq_iff_iff.mpr ?_)
  rw [beq_iff_eq, decide_eq_true_iff]
  omega

end Luhn

namespace Siret

/-- A text is an establishment number: it spells fourteen digits with a valid checksum. -/
def IsNumber (s : List Char) : Prop :=
  ∃ digits, Spells digits s ∧ Luhn.total (digits.map Luhn.plainValue) % 10 = 0

variable {s : String}

private theorem validText_of_isNumber (number : IsNumber s.toList) :
    Shapes.siret.accepts s ∧ Luhn.validText (Text.dropBlanks s.toList) = .ok true := by
  obtain ⟨digits, spells, multiple⟩ := number
  refine ⟨(accepts_iff s).mpr ⟨digits, spells⟩, ?_⟩
  rw [dropBlanks_of_spells spells, Luhn.validText_of_plain spells.plain, multiple]
  rfl

private theorem validText_of_not_isNumber (looks : Shapes.siret.accepts s)
    (other : ¬IsNumber s.toList) :
    Luhn.validText (Text.dropBlanks s.toList) = .ok false := by
  obtain ⟨digits, spells⟩ := (accepts_iff s).mp looks
  have noMultiple : ¬Luhn.total (digits.map Luhn.plainValue) % 10 = 0 :=
    fun multiple => other ⟨digits, spells, multiple⟩
  rw [dropBlanks_of_spells spells, Luhn.validText_of_plain spells.plain,
    decide_eq_false noMultiple]

end Siret

namespace Checker

variable {o : Options} {s : String}

theorem check_siret_of_isNumber (free : o.Free) (number : Siret.IsNumber s.toList) (ctx : Context)
    (store : Store) :
    (Checker.extended (.string o (some Shapes.siret)) Siret.check).check (.text s) ctx store =
      .ok (if ctx.mode.sanitize then
        .text (String.ofList (Siret.group (Text.dropBlanks s.toList))) else .text s) store := by
  obtain ⟨looks, valid⟩ := Siret.validText_of_isNumber number
  have present := Value.text_ne_null s
  rw [check_siret, checkBasic_free free rfl, if_pos looks]
  simp only [if_neg present, Value.text?, valid]

theorem check_siret_of_not_isNumber (free : o.Free) (other : ¬Siret.IsNumber s.toList)
    (ctx : Context) (store : Store) :
    (Checker.extended (.string o (some Shapes.siret)) Siret.check).check (.text s) ctx store =
      .error (.invalid ctx.path) store := by
  have present := Value.text_ne_null s
  rw [check_siret, checkBasic_free free rfl]
  by_cases looks : Shapes.siret.accepts s
  · rw [if_pos looks]
    simp only [if_neg present, Value.text?, Siret.validText_of_not_isNumber looks other]
  · rw [if_neg looks]

end Checker

namespace Factory

variable {store : Store} {kinds : Kinds} {source : OptionsSource} {keywords : Keywords}
  {o : Options}

/-- Options that ask for no exact value and no size make a checker that accepts the establishment
numbers and refuses every other text as invalid. -/
theorem make_siret_accepts_iff (string : kinds.KnowsString)
    (coerced : Options.coerce store source keywords = .ok o) (free : o.Free) :
    ∃ c, make store kinds (.builtin .siret) source keywords = .ok c ∧
      ∀ (s : String) (ctx : Context) (before : Store),
        ((∃ r after, c.check (.text s) ctx before = .ok r after) ↔ Siret.IsNumber s.toList) ∧
        ∀ failure after, c.check (.text s) ctx before = .error failure after →
          failure = .invalid ctx.path := by
  have shaped := free.shaped (.atom (.pattern Shapes.siret))
  refine ⟨_, make_siret string coerced free, fun s ctx before => ?_⟩
  refine Checker.accepts_iff_of (fun number => ?_) fun other => ?_
  · exact ⟨_, Checker.check_siret_of_isNumber shaped number ctx before⟩
  · exact Checker.check_siret_of_not_isNumber shaped other ctx before

theorem make_siret_accepts_mandatory :
    Kinds.builtin.KnowsString ∧
      Options.coerce {} (.record { mandatory := .bool true, regex := .text "x" }) [] =
        .ok { mandatory := .bool true, regex := .text "x" } ∧
      Options.Free { mandatory := .bool true, regex := .text "x" } ∧
      ∃ c, make {} Kinds.builtin (.builtin .siret)
          (.record { mandatory := .bool true, regex := .text "x" }) [] = .ok c ∧
        ∀ (s : String) (ctx : Context) (before : Store),
          ((∃ r after, c.check (.text s) ctx before = .ok r after) ↔ Siret.IsNumber s.toList) ∧
          ∀ failure after, c.check (.text s) ctx before = .error failure after →
            failure = .invalid ctx.path := by
  have free : Options.Free { mandatory := .bool true, regex := .text "x" } :=
    ⟨rfl, rfl, rfl, rfl⟩
  exact ⟨Kinds.find?_string, rfl, free, make_siret_accepts_iff Kinds.find?_string rfl free⟩

end Factory

end Assay
