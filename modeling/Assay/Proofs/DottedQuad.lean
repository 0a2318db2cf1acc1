import Assay.Proofs.Address
import Assay.Proofs.Marks

/-!
The language of dotted quads. Where the options ask for nothing more, the texts that are accepted
are four numbers up to 255 with dots between them, each written with one to three digits. The
pattern cuts the numbers into three overlapping cases by their first digits; together they are a
range of numbers.
-/

set_option autoImplicit false
set_option relaxedAutoImplicit false

namespace Assay

open Assay.Language

namespace AddressV4

open Shapes

open AddressV6 (decimal)

/-- A field: one to three plain digits that write a number up to 255. Zeros may stand in front. -/
structure IsField (part : List Char) : Prop where
  least : 1 ≤ part.length
  most : part.length ≤ 3
  plain : ∀ c ∈ part, IsPlainDigit c
  bound : decimal part ≤ 255

/-- A dotted quad: four fields with dots between them. -/
def IsQuad (s : List Char) : Prop :=
  ∃ fields : List (List Char), fields.length = 4 ∧ (∀ field ∈ fields, IsField field) ∧
    s = ['.'].intercalate fields

variable {a b c : Char}

private theorem decimal_one (a : Char) : decimal [a] = a.toNat - 48 := by
  simp [decimal, Nat.ofDigits_cons]

private theorem decimal_two (a b : Char) :
    decimal [a, b] = 10 * (a.toNat - 48) + (b.toNat - 48) := by
  simp only [decimal, List.reverse_cons, List.reverse_nil, List.nil_append, List.cons_append,
    List.map_cons, List.map_nil, Nat.ofDigits_cons, Nat.ofDigits_nil]
  omega

private theorem decimal_three (a b c : Char) :
    decimal [a, b, c] = 100 * (a.toNat - 48) + 10 * (b.toNat - 48) + (c.toNat - 48) := by
  simp only [decimal, List.reverse_cons, List.reverse_nil, List.nil_append, List.cons_append,
    List.map_cons, List.map_nil, Nat.ofDigits_cons, Nat.ofDigits_nil]
  omega

theorem isField_one : IsField [a] ↔ IsPlainDigit a := by
  constructor
  · intro field
    exact field.plain a List.mem_cons_self
  · intro plain
    refine ⟨by simp, by simp, by simpa using plain, ?_⟩
    obtain ⟨low, high⟩ := plain
    rw [decimal_one]
    omega

theorem isField_two : IsField [a, b] ↔ IsPlainDigit a ∧ IsPlainDigit b := by
  constructor
  · intro field
    simpa using field.plain
  · rintro ⟨first, second⟩
    refine ⟨by simp, by simp, by simpa using ⟨first, second⟩, ?_⟩
    obtain ⟨lowA, highA⟩ := first
    obtain ⟨lowB, highB⟩ := second
    rw [decimal_two]
    omega

/-- Only three digits can write a number that is too large. -/
theorem isField_three : IsField [a, b, c] ↔
    (IsPlainDigit a ∧ IsPlainDigit b ∧ IsPlainDigit c) ∧
      100 * (a.toNat - 48) + 10 * (b.toNat - 48) + (c.toNat - 48) ≤ 255 := by
  rw [← decimal_three]
  constructor
  · intro field
    exact ⟨by simpa using field.plain, field.bound⟩
  · rintro ⟨plain, bound⟩
    exact ⟨by simp, by simp, by simpa using plain, bound⟩

abbrev upper : Language :=
  append (point '2') (append (point '5') (ofClass { items := [.range 48 53] }))

abbrev middle : Language :=
  append (point '2') (append (ofClass { items := [.range 48 52] }) (ofClass { items := [digits] }))

abbrev lower : Language :=
  append (orEmpty (ofClass { items := [mark '0', mark '1'] }))
    (append (ofClass { items := [digits] }) (orEmpty (ofClass { items := [digits] })))

private theorem has_range_one (first last : Nat) (c : Char) :
    CharClass.has { items := [.range first last] } c ↔ first ≤ c.toNat ∧ c.toNat ≤ last := by
  simp only [has_cons, has_nil, or_false, has_range]

private theorem upper_iff (s : List Char) :
    upper s ↔ ∃ c : Char, (48 ≤ c.toNat ∧ c.toNat ≤ 53) ∧ s = ['2', '5', c] := by
  simp only [append_point_iff, ofClass, has_range_one]
  constructor
  · rintro ⟨_, ⟨_, ⟨c, rfl, range⟩, rfl⟩, rfl⟩
    exact ⟨c, range, rfl⟩
  · rintro ⟨c, range, rfl⟩
    exact ⟨_, ⟨_, ⟨c, rfl, range⟩, rfl⟩, rfl⟩

private theorem middle_iff (s : List Char) :
    middle s ↔ ∃ b c : Char, (48 ≤ b.toNat ∧ b.toNat ≤ 52) ∧ IsPlainDigit c ∧ s = ['2', b, c] := by
  simp only [append_point_iff, append, ofClass, has_range_one, has_digits]
  constructor
  · rintro ⟨_, ⟨_, _, rfl, ⟨b, rfl, range⟩, c, rfl, plain⟩, rfl⟩
    exact ⟨b, c, range, plain, rfl⟩
  · rintro ⟨b, c, range, plain, rfl⟩
    exact ⟨_, ⟨[b], [c], rfl, ⟨b, rfl, range⟩, c, rfl, plain⟩, rfl⟩

private theorem has_lead (c : Char) :
    CharClass.has { items := [mark '0', mark '1'] } c ↔ c = '0' ∨ c = '1' := by
  simp only [has_cons, has_nil, mark, has_point, Char.toNat_inj, or_false]

private theorem lower_iff (s : List Char) :
    lower s ↔ ∃ lead last : List Char, ∃ b : Char,
      (lead = [] ∨ lead = ['0'] ∨ lead = ['1']) ∧ IsPlainDigit b ∧
        (last = [] ∨ ∃ c, last = [c] ∧ IsPlainDigit c) ∧ s = lead ++ b :: last := by
  simp only [append, orEmpty, ofClass, has_lead, has_digits]
  constructor
  · rintro ⟨lead, _, rfl, first, _, last, rfl, ⟨b, rfl, plain⟩, final⟩
    refine ⟨lead, last, b, ?_, plain, final, rfl⟩
    rcases first with rfl | ⟨a, rfl, rfl | rfl⟩
    · exact Or.inl rfl
    · exact Or.inr (Or.inl rfl)
    · exact Or.inr (Or.inr rfl)
  · rintro ⟨lead, last, b, first, plain, final, rfl⟩
    refine ⟨lead, b :: last, rfl, ?_, [b], last, rfl, ⟨b, rfl, plain⟩, final⟩
    rcases first with rfl | rfl | rfl
    · exact Or.inl rfl
    · exact Or.inr ⟨'0', rfl, Or.inl rfl⟩
    · exact Or.inr ⟨'1', rfl, Or.inr rfl⟩

abbrev octet : Language := either upper (either middle lower)

private theorem isField_of_octet {s : List Char} (inside : octet s) : IsField s := by
  have two : ('2' : Char).toNat = 50 := rfl
  have five : ('5' : Char).toNat = 53 := rfl
  rcases inside with inside | inside | inside
  · obtain ⟨c, ⟨low, high⟩, rfl⟩ := (upper_iff s).mp inside
    rw [isField_three, two, five]
    exact ⟨⟨by decide, by decide, low, by omega⟩, by omega⟩
  · obtain ⟨b, c, ⟨low, high⟩, plain, rfl⟩ := (middle_iff s).mp inside
    obtain ⟨lowC, highC⟩ := plain
    rw [isField_three, two]
    exact ⟨⟨by decide, ⟨low, by omega⟩, lowC, highC⟩, by omega⟩
  · obtain ⟨lead, last, b, first, plain, final, rfl⟩ := (lower_iff s).mp inside
    have small : lead = [] ∨ ∃ a, lead = [a] ∧ IsPlainDigit a ∧ a.toNat ≤ 49 := by
      rcases first with rfl | rfl | rfl
      · exact Or.inl rfl
      · exact Or.inr ⟨'0', rfl, by decide, by decide⟩
      · exact Or.inr ⟨'1', rfl, by decide, by decide⟩
    rcases small with rfl | ⟨a, rfl, plainA, leadA⟩ <;> rcases final with rfl | ⟨c, rfl, plainC⟩
    · exact isField_one.mpr plain
    · exact isField_two.mpr ⟨plain, plainC⟩
    · exact isField_two.mpr ⟨plainA, plain⟩
    · refine isField_three.mpr ⟨⟨plainA, plain, plainC⟩, ?_⟩
      obtain ⟨_, highB⟩ := plain
      obtain ⟨_, highC⟩ := plainC
      omega

private theorem octet_of_three (field : IsField [a, b, c]) : octet [a, b, c] := by
  have zero : ('0' : Char).toNat = 48 := rfl
  have one : ('1' : Char).toNat = 49 := rfl
  have two : ('2' : Char).toNat = 50 := rfl
  have five : ('5' : Char).toNat = 53 := rfl
  obtain ⟨⟨⟨lowA, _⟩, ⟨lowB, highB⟩, lowC, highC⟩, bound⟩ := isField_three.mp field
  by_cases lead : a.toNat ≤ 49
  · have first : [a] = ['0'] ∨ [a] = ['1'] := by
      have cases : a.toNat = 48 ∨ a.toNat = 49 := by omega
      rcases cases with same | same
      · exact Or.inl (congrArg (fun d => [d]) (Char.toNat_inj.mp (same.trans zero.symm)))
      · exact Or.inr (congrArg (fun d => [d]) (Char.toNat_inj.mp (same.trans one.symm)))
    exact Or.inr (Or.inr ((lower_iff _).mpr
      ⟨[a], [c], b, Or.inr first, ⟨lowB, highB⟩, Or.inr ⟨c, rfl, lowC, highC⟩, rfl⟩))
  · have first : a = '2' := Char.toNat_inj.mp (by omega)
    by_cases top : b.toNat = 53
    · have second : b = '5' := Char.toNat_inj.mp (top.trans five.symm)
      rw [first, second]
      exact Or.inl ((upper_iff _).mpr ⟨c, ⟨lowC, by omega⟩, rfl⟩)
    · rw [first]
      exact Or.inr (Or.inl ((middle_iff _).mpr ⟨b, c, ⟨lowB, by omega⟩, ⟨lowC, highC⟩, rfl⟩))

theorem octet_iff (s : List Char) : octet s ↔ IsField s := by
  refine ⟨isField_of_octet, fun field => ?_⟩
  have least := field.least
  have most := field.most
  have sizes : s.length = 1 ∨ s.length = 2 ∨ s.length = 3 := by omega
  rcases sizes with size | size | size
  · obtain ⟨a, rfl⟩ := List.length_eq_one_iff.mp size
    exact Or.inr (Or.inr ((lower_iff _).mpr
      ⟨[], [], a, Or.inl rfl, isField_one.mp field, Or.inl rfl, rfl⟩))
  · obtain ⟨a, b, rfl⟩ := List.length_eq_two.mp size
    obtain ⟨first, second⟩ := isField_two.mp field
    exact Or.inr (Or.inr ((lower_iff _).mpr
      ⟨[], [b], a, Or.inl rfl, first, Or.inr ⟨b, rfl, second⟩, rfl⟩))
  · obtain ⟨a, b, c, rfl⟩ := List.length_eq_three.mp size
    exact octet_of_three field

private theorem takes_octet : Matcher.Takes Shapes.octet.run octet := by
  have range (first last : Nat) := Regex.takes_char { items := [.range first last] }
  have digit := Regex.takes_char { items := [digits] }
  have lead := Regex.takes_maybe (Regex.takes_char { items := [mark '0', mark '1'] })
  have two := Regex.takes_lit '2'
  have five := Regex.takes_lit '5'
  exact Regex.takes_alt (Regex.takes_seq two (Regex.takes_seq five (range 48 53)))
    (Regex.takes_alt (Regex.takes_seq two (Regex.takes_seq (range 48 52) digit))
      (Regex.takes_seq lead (Regex.takes_seq digit (Regex.takes_maybe digit))))

theorem accepts_ipv4_iff (s : String) : Shapes.ipv4.accepts s ↔ IsQuad s.toList := by
  have number (n : Nat) : Matcher.Takes (Regex.group n Shapes.octet).run octet :=
    Regex.takes_group n takes_octet
  have dot := Regex.takes_lit '.'
  have takes := Regex.takes_seq (number 1) (Regex.takes_seq dot (Regex.takes_seq (number 2)
    (Regex.takes_seq dot (Regex.takes_seq (number 3) (Regex.takes_seq dot (number 4))))))
  have quad : append octet (append (point '.') (append octet (append (point '.')
      (append octet (append (point '.') octet))))) = joined '.' octet 4 := by
    rw [joined_succ '.' octet 2, joined_succ '.' octet 1, joined_succ '.' octet 0, joined_one]
  rw [quad] at takes
  refine (Regex.matchesAll_whole [_, _, _, _, _, _, _] takes s.toList).trans ?_
  simp only [joined, octet_iff]
  exact Iff.rfl

instance (s : List Char) : Decidable (IsQuad s) :=
  decidable_of_iff (Shapes.ipv4.accepts (String.ofList s)) (by
    rw [accepts_ipv4_iff, String.toList_ofList])

/-- Zeros may stand in front of a number, but no number is over 255. -/
example : IsQuad "001.20.255.0".toList ∧ ¬IsQuad "1.2.3.256".toList := by decide

end AddressV4

namespace Factory

variable {store : Store} {kinds : Kinds} {source : OptionsSource} {keywords : Keywords}
  {o : Options}

/-- Options that ask for no exact value and no size make a checker that accepts the dotted quads and
refuses every other text as invalid. -/
theorem make_ipv4_accepts_iff (coerced : Options.coerce store source keywords = .ok o)
    (free : o.Free) :
    ∃ c, make store kinds (.builtin .ipv4) source keywords = .ok c ∧
      ∀ (s : String) (ctx : Context) (before : Store),
        ((∃ r after, c.check (.text s) ctx before = .ok r after) ↔ AddressV4.IsQuad s.toList) ∧
        ∀ failure after, c.check (.text s) ctx before = .error failure after →
          failure = .invalid ctx.path := by
  refine ⟨_, make_shape rfl coerced free, fun s ctx before => ?_⟩
  rw [← AddressV4.accepts_ipv4_iff]
  exact Checker.check_shape (free.shaped _) rfl s ctx before

theorem make_ipv4_accepts_default :
    Options.coerce {} .absent [] = .ok {} ∧ Options.Free {} ∧
      ∃ c, make {} Kinds.builtin (.builtin .ipv4) .absent [] = .ok c ∧
        ∀ (s : String) (ctx : Context) (before : Store),
          ((∃ r after, c.check (.text s) ctx before = .ok r after) ↔
            AddressV4.IsQuad s.toList) ∧
          ∀ failure after, c.check (.text s) ctx before = .error failure after →
            failure = .invalid ctx.path := by
  have free : Options.Free {} := ⟨rfl, rfl, rfl, rfl⟩
  exact ⟨rfl, free, make_ipv4_accepts_iff rfl free⟩

end Factory

end Assay
