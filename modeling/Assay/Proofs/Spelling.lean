import Assay.Format.Siret
import Assay.Proofs.Language

/-!
Spellings of establishment numbers: the texts that look like one are fourteen digits with at most
one space between the groups of three, three, three and five. The grouped form is such a spelling of
the same digits, and the longest.
-/

set_option autoImplicit false
set_option relaxedAutoImplicit false

namespace Assay

open Assay.Language

namespace Text

theorem exists_of_inRuns {runs : List (Nat × Nat)} {n : Nat} (inside : inRuns runs n) :
    ∃ run ∈ runs, run.1 ≤ n ∧ n ≤ run.2 := by
  induction runs with
  | nil => cases inside
  | cons run rest ih =>
    obtain ⟨first, last⟩ := run
    rw [inRuns] at inside
    split at inside
    · cases inside
    · rename_i notBefore
      split at inside
      · rename_i notAfter
        exact ⟨(first, last), List.mem_cons_self, Nat.le_of_not_lt notBefore, notAfter⟩
      · obtain ⟨other, member, bounds⟩ := ih inside
        exact ⟨other, List.mem_cons_of_mem _ member, bounds⟩

theorem exists_of_digitAmong {zeros : List Nat} {n d : Nat} (found : digitAmong zeros n = some d) :
    ∃ first ∈ zeros, first ≤ n ∧ n ≤ first + 9 ∧ d = n - first := by
  induction zeros with
  | nil => cases found
  | cons first rest ih =>
    rw [digitAmong] at found
    split at found
    · cases found
    · rename_i notBefore
      split at found
      · rename_i notAfter
        exact ⟨first, List.mem_cons_self, Nat.le_of_not_lt notBefore, notAfter,
          (Option.some.inj found).symm⟩
      · obtain ⟨other, member, bounds⟩ := ih found
        exact ⟨other, List.mem_cons_of_mem _ member, bounds⟩

theorem digitValue?_le {c : Char} {d : Nat} (value : digitValue? c = some d) : d ≤ 9 := by
  obtain ⟨first, _, low, high, rfl⟩ := exists_of_digitAmong value
  omega

theorem isBlank_of_isDigit {c : Char} (digit : isDigit c) : isBlank c = false := by
  obtain ⟨d, value⟩ := Option.isSome_iff_exists.mp digit
  obtain ⟨first, known, low, high, _⟩ := exists_of_digitAmong value
  have apart : ∀ run ∈ blankRuns, ∀ first ∈ scriptZeros, first + 9 < run.1 ∨ run.2 < first := by
    decide
  rw [Bool.eq_false_iff]
  intro blank
  obtain ⟨run, member, start, stop⟩ := exists_of_inRuns blank
  have beside := apart run member first known
  omega

end Text

namespace Shapes

def IsPlainDigit (c : Char) : Prop := 48 ≤ c.toNat ∧ c.toNat ≤ 57

instance (c : Char) : Decidable (IsPlainDigit c) := inferInstanceAs (Decidable (_ ∧ _))

theorem has_range (first last n : Nat) :
    ClassItem.has .exact n (.range first last) ↔ first ≤ n ∧ n ≤ last := by
  simp only [ClassItem.has, CaseRule.equals, CaseRule.fold, CaseRule.sources, beq_self_eq_true,
    if_true, List.any_cons, List.any_nil, Bool.or_false, Bool.and_eq_true, decide_eq_true_eq]

theorem has_point (p n : Nat) : ClassItem.has .exact n (.point p) ↔ n = p := by
  simp only [ClassItem.has, CaseRule.equals, CaseRule.fold, List.contains_cons, List.contains_nil,
    Bool.or_false, beq_iff_eq]
  exact eq_comm

theorem has_nil (c : Char) : CharClass.has { items := [] } c ↔ False := by
  simp only [CharClass.has, List.any_nil, Bool.bne_false, Bool.false_eq_true]

theorem has_cons (item : ClassItem) (items : List ClassItem) (c : Char) :
    CharClass.has { items := item :: items } c ↔
      item.has .exact c.toNat ∨ CharClass.has { items } c := by
  simp only [CharClass.has, List.any_cons, Bool.bne_false, Bool.or_eq_true]

theorem has_digits (c : Char) : CharClass.has { items := [digits] } c ↔ IsPlainDigit c := by
  simp only [has_cons, has_nil, or_false, digits, has_range]
  exact Iff.rfl

theorem has_char (d c : Char) : CharClass.has { items := [.point d.toNat] } c ↔ c = d := by
  simp only [has_cons, has_nil, or_false, has_point]
  exact Char.toNat_inj

end Shapes

namespace Siret

open Shapes

def IsGap (gap : List Char) : Prop := gap = [] ∨ gap = [' ']

/-- A text spells digits: there are fourteen, in groups with gaps between them. -/
structure Spells (digits s : List Char) : Prop where
  count : digits.length = 14
  plain : ∀ c ∈ digits, IsPlainDigit c
  grouped : ∃ a b c, IsGap a ∧ IsGap b ∧ IsGap c ∧
    s = digits.take 3 ++ (a ++ ((digits.drop 3).take 3 ++ (b ++ ((digits.drop 6).take 3 ++
      (c ++ digits.drop 9)))))

private theorem plain_iff (n : Nat) (s : List Char) :
    power (ofClass { items := [digits] }) n s ↔ s.length = n ∧ ∀ c ∈ s, IsPlainDigit c := by
  simp only [power_ofClass, has_digits]

private theorem gap_iff (s : List Char) :
    orEmpty (ofClass { items := [.point ' '.toNat] }) s ↔ IsGap s := by
  simp only [orEmpty, ofClass, has_char, IsGap]
  constructor
  · rintro (empty | ⟨c, rfl, rfl⟩)
    · exact Or.inl empty
    · exact Or.inr rfl
  · rintro (empty | rfl)
    · exact Or.inl empty
    · exact Or.inr ⟨' ', rfl, rfl⟩

/-- The pattern of establishment numbers asks for a spelling of fourteen digits. -/
theorem accepts_iff (s : String) :
    Shapes.siret.accepts s ↔ ∃ digits, Spells digits s.toList := by
  have three : Matcher.Takes (Regex.times 3 (.oneOf [digits])).run
      (power (ofClass { items := [digits] }) 3) :=
    Regex.takes_times 3 (Regex.takes_char _)
  have five : Matcher.Takes (Regex.times 5 (.oneOf [digits])).run
      (power (ofClass { items := [digits] }) 5) :=
    Regex.takes_times 5 (Regex.takes_char _)
  have gap : Matcher.Takes (Regex.maybe (.lit ' ')).run
      (orEmpty (ofClass { items := [.point ' '.toNat] })) :=
    Regex.takes_maybe (Regex.takes_char _)
  have takes := Regex.takes_seq three (Regex.takes_seq gap (Regex.takes_seq three
    (Regex.takes_seq gap (Regex.takes_seq three (Regex.takes_seq gap five)))))
  have language := Regex.matchesAll_whole
    [.times 3 (.oneOf [digits]), .maybe (.lit ' '), .times 3 (.oneOf [digits]),
      .maybe (.lit ' '), .times 3 (.oneOf [digits]), .maybe (.lit ' '),
      .times 5 (.oneOf [digits])] takes s.toList
  refine language.trans ?_
  simp only [append, plain_iff, gap_iff]
  constructor
  · rintro ⟨first, _, text, ⟨size₁, plain₁⟩, a, _, rfl, gapA, second, _, rfl, ⟨size₂, plain₂⟩,
      b, _, rfl, gapB, third, _, rfl, ⟨size₃, plain₃⟩, c, last, rfl, gapC, size₄, plain₄⟩
    refine ⟨first ++ (second ++ (third ++ last)), by simp [size₁, size₂, size₃, size₄], ?_,
      a, b, c, gapA, gapB, gapC, ?_⟩
    · intro d member
      rcases List.mem_append.mp member with member | member
      · exact plain₁ d member
      · rcases List.mem_append.mp member with member | member
        · exact plain₂ d member
        · rcases List.mem_append.mp member with member | member
          · exact plain₃ d member
          · exact plain₄ d member
    · have past₁ : first.drop 6 = [] := List.drop_eq_nil_of_le (by omega)
      have past₂ : first.drop 9 = [] := List.drop_eq_nil_of_le (by omega)
      have past₃ : second.drop 6 = [] := List.drop_eq_nil_of_le (by omega)
      rw [text]
      simp [List.drop_append, size₁, size₂, size₃, past₁, past₂, past₃]
  · rintro ⟨digits, count, plain, a, b, c, gapA, gapB, gapC, text⟩
    refine ⟨digits.take 3, _, text, ⟨by simp [count], ?_⟩, a, _, rfl, gapA,
      (digits.drop 3).take 3, _, rfl, ⟨by simp [count], ?_⟩, b, _, rfl, gapB,
      (digits.drop 6).take 3, _, rfl, ⟨by simp [count], ?_⟩, c, digits.drop 9, rfl, gapC,
      by simp [count], ?_⟩
    · exact fun d member => plain d (List.mem_of_mem_take member)
    · exact fun d member => plain d (List.mem_of_mem_drop (List.mem_of_mem_take member))
    · exact fun d member => plain d (List.mem_of_mem_drop (List.mem_of_mem_take member))
    · exact fun d member => plain d (List.mem_of_mem_drop member)

variable {digits s : List Char}

theorem digitValue?_of_plain {c : Char} (plain : IsPlainDigit c) :
    Text.digitValue? c = some (c.toNat - 48) := by
  obtain ⟨low, high⟩ := plain
  rw [Text.digitValue?, Text.scriptZeros, Text.digitAmong, if_neg (by omega), if_pos high]

theorem isDigit_of_plain {c : Char} (plain : IsPlainDigit c) : Text.isDigit c := by
  rw [Text.isDigit, digitValue?_of_plain plain]
  rfl

private theorem dropBlanks_of_plain {s : List Char} (plain : ∀ c ∈ s, IsPlainDigit c) :
    Text.dropBlanks s = s := by
  rw [Text.dropBlanks, List.filter_eq_self]
  intro c member
  rw [Text.isBlank_of_isDigit (isDigit_of_plain (plain c member))]
  rfl

private theorem dropBlanks_of_gap {gap : List Char} (isGap : IsGap gap) :
    Text.dropBlanks gap = [] := by
  rcases isGap with rfl | rfl
  · rfl
  · decide

theorem dropBlanks_of_spells (spells : Spells digits s) : Text.dropBlanks s = digits := by
  obtain ⟨count, plain, a, b, c, gapA, gapB, gapC, rfl⟩ := spells
  have split : ∀ first second : List Char,
      Text.dropBlanks (first ++ second) = Text.dropBlanks first ++ Text.dropBlanks second :=
    fun first second => List.filter_append first second
  have kept : ∀ part : List Char, part ⊆ digits → Text.dropBlanks part = part :=
    fun part inside => dropBlanks_of_plain fun d member => plain d (inside member)
  have middle : ∀ n, (digits.drop n).take 3 ⊆ digits :=
    fun n d member => List.mem_of_mem_drop (List.mem_of_mem_take member)
  simp only [split, dropBlanks_of_gap gapA, dropBlanks_of_gap gapB, dropBlanks_of_gap gapC,
    kept _ (List.take_subset 3 digits), kept _ (middle 3), kept _ (middle 6),
    kept _ (List.drop_subset 9 digits), List.nil_append]
  have join₃ : (digits.drop 6).take 3 ++ digits.drop 9 = digits.drop 6 := by
    have := List.take_append_drop 3 (digits.drop 6)
    rwa [List.drop_drop] at this
  have join₂ : (digits.drop 3).take 3 ++ digits.drop 6 = digits.drop 3 := by
    have := List.take_append_drop 3 (digits.drop 3)
    rwa [List.drop_drop] at this
  rw [join₃, join₂, List.take_append_drop]

theorem digits?_isSome_iff (s : List Char) :
    (Luhn.digits? s).isSome ↔ ∀ c ∈ s, Text.isDigit c := by
  induction s with
  | nil => simp [Luhn.digits?]
  | cons c rest ih =>
    rw [Luhn.digits?] at ih ⊢
    rw [List.mapM_cons, List.forall_mem_cons, ← ih, Text.isDigit]
    cases Text.digitValue? c with
    | none => simp
    | some n =>
      cases List.mapM (fun c => Option.map Int.ofNat (Text.digitValue? c)) rest <;> simp

theorem digits?_of_spells (spells : Spells digits s) : (Luhn.digits? digits).isSome := by
  rw [digits?_isSome_iff]
  exact fun c member => isDigit_of_plain (spells.plain c member)

theorem length_of_spells (spells : Spells digits s) : 14 ≤ s.length ∧ s.length ≤ 17 := by
  obtain ⟨count, plain, a, b, c, gapA, gapB, gapC, rfl⟩ := spells
  have size : ∀ gap, IsGap gap → gap.length ≤ 1 := by
    rintro gap (rfl | rfl) <;> simp
  have sizeA := size a gapA
  have sizeB := size b gapB
  have sizeC := size c gapC
  simp only [List.length_append, List.length_take, List.length_drop, count]
  omega

theorem spells_group (spells : Spells digits s) : Spells digits (group digits) :=
  ⟨spells.count, spells.plain, [' '], [' '], [' '], Or.inr rfl, Or.inr rfl, Or.inr rfl, rfl⟩

theorem length_group (spells : Spells digits s) : (group digits).length = 17 := by
  simp [group, spells.count]

end Siret

end Assay
