import Mathlib.Logic.ExistsUnique
import Assay.Proofs.Spelling

/-!
What the checksum is for. Two weights take turns from digit to digit, and each of them tells the ten
digits apart; so a number with one wrong digit has no valid checksum, two neighbours that changed
places show unless they are 0 and 9, and there is one digit that completes a number. The digits may
be of any script: what counts is their value.
-/

set_option autoImplicit false
set_option relaxedAutoImplicit false

namespace Assay

namespace Luhn

def digit (c : Char) : Int := ((Text.digitValue? c).getD 0 : Nat)

theorem digit_bounds (c : Char) : 0 ≤ digit c ∧ digit c ≤ 9 := by
  rw [digit]
  cases value : Text.digitValue? c with
  | none => simp
  | some d =>
    have := Text.digitValue?_le value
    simp only [Option.getD_some]
    omega

theorem digit_of_plain {c : Char} (plain : Shapes.IsPlainDigit c) :
    digit c = (c.toNat - 48 : Nat) := by
  rw [digit, Siret.digitValue?_of_plain plain]
  rfl

theorem eq_of_digit_eq {c d : Char} (plainC : Shapes.IsPlainDigit c)
    (plainD : Shapes.IsPlainDigit d) (same : digit c = digit d) : c = d := by
  rw [digit_of_plain plainC, digit_of_plain plainD] at same
  obtain ⟨lowC, _⟩ := plainC
  obtain ⟨lowD, _⟩ := plainD
  exact Char.toNat_inj.mp (by omega)

theorem digits?_of_isDigit {s : List Char} (all : ∀ c ∈ s, Text.isDigit c) :
    digits? s = some (s.map digit) := by
  induction s with
  | nil => rfl
  | cons c rest ih =>
    obtain ⟨first, others⟩ := List.forall_mem_cons.mp all
    obtain ⟨d, value⟩ := Option.isSome_iff_exists.mp first
    have tail := ih others
    rw [digits?] at tail ⊢
    rw [List.mapM_cons, value, tail, List.map_cons, digit, value]
    rfl

theorem validText_of_isDigit {s : List Char} (all : ∀ c ∈ s, Text.isDigit c) :
    validText s = .ok (valid (s.map digit)) := by
  rw [validText, digits?_of_isDigit all]

theorem validText_of_not_isDigit {s : List Char} (some : ¬∀ c ∈ s, Text.isDigit c) :
    validText s = .error (.fault .wrongValue) := by
  have none : digits? s = none := by
    rw [← Option.not_isSome_iff_eq_none, Siret.digits?_isSome_iff]
    exact some
  rw [validText, none]

private theorem integer?_of_unmarked {c : Char} (padding : ¬Text.isPadding c) (minus : c ≠ '-')
    (plus : c ≠ '+') (line : c ≠ '_') :
    Text.integer? (String.singleton c) = if Text.isDigit c then some (digit c) else none := by
  have trimmed : Text.trimPadding [c] = [c] := by simp [Text.trimPadding, padding]
  have unsigned : Text.takeSign [c] = (false, [c]) := by simp [Text.takeSign, minus, plus]
  have joined : Text.joinGroups false [c] = some [c] := by simp [Text.joinGroups]
  have short : ¬Text.longestNumeral < [c].length := by
    rw [List.length_singleton, Text.longestNumeral]
    omega
  -- What is left to ask is whether the character is a digit: one digit is never too long.
  have guard : ([c].isEmpty || !([c].all Text.isDigit) ||
      decide (Text.longestNumeral < [c].length)) = !Text.isDigit c := by
    rw [decide_eq_false short]
    simp
  rw [Text.integer?, String.toList_singleton, trimmed, unsigned]
  simp only [joined, Option.bind_eq_bind, Option.bind_some, guard]
  cases isDigit : Text.isDigit c with
  | false => rfl
  | true => simp [Text.natOfDigits, digit]

theorem wholeText_singleton (c : Char) :
    wholeText (String.singleton c) =
      if Text.isDigit c then .ok (digit c) else .error (.fault .wrongValue) := by
  by_cases padding : Text.isPadding c
  · have blank : Text.isBlank c := by
      rw [Text.isPadding, Bool.and_eq_true] at padding
      exact padding.1
    have noDigit : ¬Text.isDigit c := by
      intro isDigit
      rw [Text.isBlank_of_isDigit isDigit] at blank
      cases blank
    have trimmed : Text.trimPadding [c] = [] := by simp [Text.trimPadding, padding]
    rw [wholeText, Text.integer?, String.toList_singleton, trimmed, if_neg noDigit]
    simp [Text.takeSign, Text.joinGroups]
  · by_cases marked : c = '-' ∨ c = '+' ∨ c = '_'
    · have trimmed : Text.trimPadding [c] = [c] := by simp [Text.trimPadding, padding]
      have noDigit : Text.isDigit c = false := by
        rcases marked with rfl | rfl | rfl <;> decide
      rw [wholeText, Text.integer?, String.toList_singleton, trimmed]
      rcases marked with rfl | rfl | rfl <;> simp [Text.takeSign, Text.joinGroups, noDigit]
    · obtain ⟨minus, plus, line⟩ : c ≠ '-' ∧ c ≠ '+' ∧ c ≠ '_' := by
        simpa only [not_or] using marked
      rw [wholeText, integer?_of_unmarked padding minus plus line]
      cases Text.isDigit c <;> rfl

private theorem wholeParts_of_isDigit {s : List Char} (all : ∀ c ∈ s, Text.isDigit c) :
    s.mapM (fun c => wholePart (.text (String.singleton c))) = .ok (s.map digit) := by
  induction s with
  | nil => rfl
  | cons c rest ih =>
    obtain ⟨first, others⟩ := List.forall_mem_cons.mp all
    have head : wholePart (.text (String.singleton c)) = .ok (digit c) := by
      rw [wholePart, wholeText_singleton, if_pos first]
    rw [List.mapM_cons, head, ih others]
    rfl

private theorem wholeParts_of_not_isDigit {s : List Char} (some : ¬∀ c ∈ s, Text.isDigit c) :
    s.mapM (fun c => wholePart (.text (String.singleton c))) = .error (.fault .wrongValue) := by
  induction s with
  | nil => exact absurd (fun c member => by cases member) some
  | cons c rest ih =>
    rw [List.mapM_cons, wholePart, wholeText_singleton]
    by_cases first : Text.isDigit c
    · have others : ¬∀ d ∈ rest, Text.isDigit d := by
        intro all
        exact some (List.forall_mem_cons.mpr ⟨first, all⟩)
      rw [if_pos first, ih others]
      rfl
    · rw [if_neg first]
      rfl

theorem validData_text (s : String) : validData (.text s) = validText s.toList := by
  have reversed : reversedDigits (.text s) =
      s.toList.reverse.mapM fun c => wholePart (.text (String.singleton c)) := rfl
  by_cases all : ∀ c ∈ s.toList, Text.isDigit c
  · have turned : ∀ c ∈ s.toList.reverse, Text.isDigit c :=
      fun c member => all c (List.mem_reverse.mp member)
    rw [validText_of_isDigit all, validData, reversed, wholeParts_of_isDigit turned, valid,
      List.map_reverse]
    rfl
  · have turned : ¬∀ c ∈ s.toList.reverse, Text.isDigit c :=
      fun every => all fun c member => every c (List.mem_reverse.mpr member)
    rw [validText_of_not_isDigit all, validData, reversed, wholeParts_of_not_isDigit turned]
    rfl

/-- What a digit counts for: itself, or its double without the nine. -/
def weigh (doubled : Bool) (n : Int) : Int := if doubled then double n else n

theorem sum_cons (doubled : Bool) (n : Int) (rest : List Int) :
    sum doubled (n :: rest) = weigh doubled n + sum (!doubled) rest := by
  cases doubled <;> rfl

theorem sum_append (doubled : Bool) (first : List Int) :
    ∃ next, ∀ rest, sum doubled (first ++ rest) = sum doubled first + sum next rest := by
  induction first generalizing doubled with
  | nil => exact ⟨doubled, fun rest => (Int.zero_add _).symm⟩
  | cons n first ih =>
    obtain ⟨next, goesOn⟩ := ih (!doubled)
    refine ⟨next, fun rest => ?_⟩
    rw [List.cons_append, sum_cons, goesOn, sum_cons, Int.add_assoc]

variable {c d : Int}

theorem eq_of_weigh_mod (doubled : Bool) (low : 0 ≤ c ∧ 0 ≤ d) (high : c ≤ 9 ∧ d ≤ 9)
    (same : weigh doubled c % 10 = weigh doubled d % 10) : c = d := by
  cases doubled with
  | false =>
    simp only [weigh, Bool.false_eq_true, if_false] at same
    omega
  | true =>
    simp only [weigh, double, if_true] at same
    split at same <;> split at same <;> omega

/-- Two neighbours count for the same in either order if they are equal or 0 and 9. -/
theorem weigh_swap_mod_iff (doubled : Bool) (low : 0 ≤ c ∧ 0 ≤ d) (high : c ≤ 9 ∧ d ≤ 9) :
    (weigh doubled c + weigh (!doubled) d) % 10 = (weigh doubled d + weigh (!doubled) c) % 10 ↔
      c = d ∨ (c = 0 ∧ d = 9) ∨ (c = 9 ∧ d = 0) := by
  cases doubled <;>
    simp only [weigh, double, Bool.not_false, Bool.not_true, Bool.false_eq_true, if_false,
      if_true] <;>
    split <;> split <;> omega

theorem valid_iff (digits : List Int) : valid digits ↔ sum false digits.reverse % 10 = 0 := by
  rw [valid, beq_iff_eq]

theorem sum_reverse_at (front back : List Int) :
    ∃ doubled rest, ∀ n, sum false (front ++ n :: back).reverse = weigh doubled n + rest := by
  obtain ⟨next, goesOn⟩ := sum_append false back.reverse
  refine ⟨next, sum false back.reverse + sum (!next) front.reverse, fun n => ?_⟩
  have turned : (front ++ n :: back).reverse = back.reverse ++ n :: front.reverse := by simp
  rw [turned, goesOn, sum_cons]
  omega

theorem sum_reverse_pair (front back : List Int) :
    ∃ doubled rest, ∀ m n, sum false (front ++ m :: n :: back).reverse =
      weigh doubled m + weigh (!doubled) n + rest := by
  obtain ⟨next, goesOn⟩ := sum_append false back.reverse
  refine ⟨!next, sum false back.reverse + sum next front.reverse, fun m n => ?_⟩
  have turned : (front ++ m :: n :: back).reverse = back.reverse ++ n :: m :: front.reverse := by
    simp
  rw [turned, goesOn, sum_cons, sum_cons, Bool.not_not]
  omega

theorem not_valid_replace {front back : List Int} (checked : valid (front ++ c :: back))
    (low : 0 ≤ c ∧ 0 ≤ d) (high : c ≤ 9 ∧ d ≤ 9) (differs : d ≠ c) :
    valid (front ++ d :: back) = false := by
  obtain ⟨doubled, rest, adds⟩ := sum_reverse_at front back
  rw [valid_iff, adds] at checked
  rw [Bool.eq_false_iff, ne_eq, valid_iff, adds]
  intro again
  have same : weigh doubled c % 10 = weigh doubled d % 10 := by omega
  exact differs (eq_of_weigh_mod doubled low high same).symm

theorem valid_swap_iff {front back : List Int} (checked : valid (front ++ c :: d :: back))
    (low : 0 ≤ c ∧ 0 ≤ d) (high : c ≤ 9 ∧ d ≤ 9) (differs : c ≠ d) :
    valid (front ++ d :: c :: back) ↔ (c = 0 ∧ d = 9) ∨ (c = 9 ∧ d = 0) := by
  obtain ⟨doubled, rest, adds⟩ := sum_reverse_pair front back
  have swapped := weigh_swap_mod_iff doubled low high
  rw [valid_iff, adds] at checked
  rw [valid_iff, adds]
  constructor
  · intro again
    exact (swapped.mp (by omega)).resolve_left differs
  · intro nineAndZero
    have same := swapped.mpr (Or.inr nineAndZero)
    omega

/-- The digit that completes a number. -/
theorem valid_concat_iff (digits : List Int) (low : 0 ≤ d) (high : d ≤ 9) :
    valid (digits ++ [d]) ↔ d = -sum true digits.reverse % 10 := by
  have turned : (digits ++ [d]).reverse = d :: digits.reverse := by simp
  rw [valid_iff, turned, sum]
  omega

variable {front back : List Char} {x y : Char}

private theorem isDigit_of_validText {s : List Char} {verdict : Bool}
    (read : validText s = .ok verdict) : ∀ c ∈ s, Text.isDigit c := by
  by_cases all : ∀ c ∈ s, Text.isDigit c
  · exact all
  · rw [validText_of_not_isDigit all] at read
    cases read

private theorem validText_replace (checked : validText (front ++ x :: back) = .ok true)
    (isDigit : Text.isDigit y) (differs : digit y ≠ digit x) :
    validText (front ++ y :: back) = .ok false := by
  have all := isDigit_of_validText checked
  have others : ∀ c ∈ front ++ y :: back, Text.isDigit c := by
    intro c member
    rcases List.mem_append.mp member with inFront | inBack
    · exact all c (List.mem_append_left _ inFront)
    · rcases List.mem_cons.mp inBack with rfl | inBack
      · exact isDigit
      · exact all c (List.mem_append_right _ (List.mem_cons_of_mem x inBack))
  rw [validText_of_isDigit all, List.map_append, List.map_cons] at checked
  rw [validText_of_isDigit others, List.map_append, List.map_cons]
  obtain ⟨lowX, highX⟩ := digit_bounds x
  obtain ⟨lowY, highY⟩ := digit_bounds y
  rw [not_valid_replace (Except.ok.inj checked) ⟨lowX, lowY⟩ ⟨highX, highY⟩ differs]

private theorem validText_swap (checked : validText (front ++ x :: y :: back) = .ok true)
    (differs : digit x ≠ digit y) :
    validText (front ++ y :: x :: back) =
      .ok (decide ((digit x = 0 ∧ digit y = 9) ∨ (digit x = 9 ∧ digit y = 0))) := by
  have all := isDigit_of_validText checked
  have turned : (front ++ y :: x :: back).Perm (front ++ x :: y :: back) :=
    List.Perm.append_left front (List.Perm.swap x y back)
  have others : ∀ c ∈ front ++ y :: x :: back, Text.isDigit c :=
    fun c member => all c (turned.mem_iff.mp member)
  rw [validText_of_isDigit all, List.map_append, List.map_cons, List.map_cons] at checked
  rw [validText_of_isDigit others, List.map_append, List.map_cons, List.map_cons]
  obtain ⟨lowX, highX⟩ := digit_bounds x
  obtain ⟨lowY, highY⟩ := digit_bounds y
  have swapped := valid_swap_iff (Except.ok.inj checked) ⟨lowX, lowY⟩ ⟨highX, highY⟩ differs
  rw [Bool.eq_iff_iff.mpr (swapped.trans decide_eq_true_iff.symm)]

private theorem exists_plain_digit {n : Int} (low : 0 ≤ n) (high : n ≤ 9) :
    ∃ d, Shapes.IsPlainDigit d ∧ digit d = n := by
  have every : ∀ k < 10, (48 ≤ (Nat.digitChar k).toNat ∧ (Nat.digitChar k).toNat ≤ 57) ∧
      digit (Nat.digitChar k) = k := by
    decide
  obtain ⟨plain, value⟩ := every n.toNat (by omega)
  exact ⟨Nat.digitChar n.toNat, plain, by omega⟩

private theorem validText_concat {t : List Char} (all : ∀ c ∈ t, Text.isDigit c) :
    ∃ d, Shapes.IsPlainDigit d ∧
      ∀ e, Text.isDigit e → (validText (t ++ [e]) = .ok true ↔ digit e = digit d) := by
  obtain ⟨d, plain, value⟩ := exists_plain_digit
    (n := -sum true (t.map digit).reverse % 10) (by omega) (by omega)
  refine ⟨d, plain, fun e isDigit => ?_⟩
  have others : ∀ c ∈ t ++ [e], Text.isDigit c := by
    intro c member
    rcases List.mem_append.mp member with inFront | last
    · exact all c inFront
    · rwa [List.mem_singleton.mp last]
  obtain ⟨low, high⟩ := digit_bounds e
  rw [validText_of_isDigit others, List.map_append, List.map_singleton, value, Except.ok.injEq]
  exact valid_concat_iff (t.map digit) low high

/-- What a valid checksum guards against, in texts of digits of any length and any script. With
another digit in one place a text has no valid checksum; with two different neighbours in exchanged
places it has one only if these are 0 and 9; and exactly one plain digit completes a text of digits,
as does the same digit of any other script. -/
theorem validData_guards :
    (∀ s : String, validData (.text s) = .ok true →
      (∀ front x y back, s.toList = front ++ x :: back → Text.isDigit y → digit y ≠ digit x →
        validData (.text (String.ofList (front ++ y :: back))) = .ok false) ∧
      ∀ front x y back, s.toList = front ++ x :: y :: back → digit x ≠ digit y →
        validData (.text (String.ofList (front ++ y :: x :: back))) =
          .ok (decide ((digit x = 0 ∧ digit y = 9) ∨ (digit x = 9 ∧ digit y = 0)))) ∧
    ∀ t : String, (∀ c ∈ t.toList, Text.isDigit c) →
      (∃! d, Shapes.IsPlainDigit d ∧ validData (.text (t.push d)) = .ok true) ∧
        ∀ d e, Text.isDigit d → Text.isDigit e →
          validData (.text (t.push d)) = .ok true →
            (validData (.text (t.push e)) = .ok true ↔ digit e = digit d) := by
  refine ⟨fun s checked => ⟨?_, ?_⟩, fun t all => ?_⟩
  · intro front x y back spelled isDigit differs
    rw [validData_text, spelled] at checked
    rw [validData_text, String.toList_ofList]
    exact validText_replace checked isDigit differs
  · intro front x y back spelled differs
    rw [validData_text, spelled] at checked
    rw [validData_text, String.toList_ofList]
    exact validText_swap checked differs
  · obtain ⟨d, plain, completes⟩ := validText_concat all
    have pushed : ∀ e, Text.isDigit e →
        (validData (.text (t.push e)) = .ok true ↔ digit e = digit d) := by
      intro e isDigit
      rw [validData_text, String.toList_push]
      exact completes e isDigit
    refine ⟨⟨d, ⟨plain, (pushed d (Siret.isDigit_of_plain plain)).mpr rfl⟩, ?_⟩, ?_⟩
    · rintro e ⟨plainE, valid⟩
      exact eq_of_digit_eq plainE plain ((pushed e (Siret.isDigit_of_plain plainE)).mp valid)
    · intro a e isDigitA isDigitE valid
      rw [pushed e isDigitE, (pushed a isDigitA).mp valid]

theorem validData_guards_number :
    validData (.text "53268510400012") = .ok true ∧
      validData (.text "53268510400712") = .ok false ∧
      validData (.text "53268510400021") = .ok false ∧
      (∃! d, Shapes.IsPlainDigit d ∧
        validData (.text ("5326851040001".push d)) = .ok true) ∧
      ∀ d e, Text.isDigit d → Text.isDigit e →
        validData (.text ("5326851040001".push d)) = .ok true →
          (validData (.text ("5326851040001".push e)) = .ok true ↔ digit e = digit d) := by
  have checked : validData (.text "53268510400012") = .ok true := by
    rw [validData_text]
    rfl
  obtain ⟨replaced, swapped⟩ := validData_guards.1 _ checked
  have all : ∀ c ∈ "5326851040001".toList, Text.isDigit c := by
    rw [← List.all_eq_true]
    rfl
  refine ⟨checked, ?_, ?_, validData_guards.2 _ all⟩
  · exact replaced "53268510400".toList '0' '7' ['1', '2'] rfl rfl (by decide)
  · exact swapped "532685104000".toList '1' '2' [] rfl (by decide)

end Luhn

end Assay
