import Assay.Proofs.Establishment

/-!
The grouped form of establishment numbers. Where values may be replaced, every spelling of a number
is put into groups of three, three, three and five digits. The form is normal: no digit is lost or
moved, the form is left as it is when it is checked again, and two numbers have one form exactly
when they have the same digits.
-/

set_option autoImplicit false
set_option relaxedAutoImplicit false

namespace Assay

namespace Siret

open Shapes

def plainDigits (s : List Char) : List Char := s.filter fun c => decide (IsPlainDigit c)

/-- A text is in groups: three, three, three and five plain digits with one space between them. -/
def IsGrouped (s : List Char) : Prop :=
  ∃ a b c d : List Char, s = a ++ ' ' :: (b ++ ' ' :: (c ++ ' ' :: d)) ∧
    (a.length = 3 ∧ b.length = 3 ∧ c.length = 3 ∧ d.length = 5) ∧
    ∀ x ∈ a ++ b ++ c ++ d, IsPlainDigit x

variable {digits s : List Char}

private theorem plainDigits_of_plain (plain : ∀ c ∈ digits, IsPlainDigit c) :
    plainDigits digits = digits := by
  unfold plainDigits
  rw [List.filter_eq_self]
  intro c member
  exact decide_eq_true (plain c member)

theorem plainDigits_dropBlanks (s : List Char) :
    plainDigits (Text.dropBlanks s) = plainDigits s := by
  unfold plainDigits Text.dropBlanks
  rw [List.filter_filter]
  apply List.filter_congr
  intro c _
  by_cases plain : IsPlainDigit c
  · have solid := Text.isBlank_of_isDigit (isDigit_of_plain plain)
    rw [decide_eq_true plain, solid]
    rfl
  · rw [decide_eq_false plain, Bool.false_and]

theorem plainDigits_of_spells (spells : Spells digits s) : plainDigits s = digits := by
  rw [← plainDigits_dropBlanks, dropBlanks_of_spells spells]
  exact plainDigits_of_plain spells.plain

theorem isGrouped_group (spells : Spells digits s) : IsGrouped (group digits) := by
  have count := spells.count
  refine ⟨digits.take 3, (digits.drop 3).take 3, (digits.drop 6).take 3, digits.drop 9, rfl, ?_, ?_⟩
  · rw [List.length_take, List.length_take, List.length_take, List.length_drop, List.length_drop,
      List.length_drop, count]
    decide
  · intro x member
    apply spells.plain
    simp only [List.mem_append] at member
    rcases member with ((first | second) | third) | last
    · exact List.mem_of_mem_take first
    · exact List.mem_of_mem_drop (List.mem_of_mem_take second)
    · exact List.mem_of_mem_drop (List.mem_of_mem_take third)
    · exact List.mem_of_mem_drop last

theorem group_inj {others t : List Char} (spells : Spells digits s) (spells' : Spells others t) :
    group digits = group others ↔ digits = others := by
  constructor
  · intro same
    have first := plainDigits_of_spells (spells_group spells)
    have second := plainDigits_of_spells (spells_group spells')
    rw [← first, same, second]
  · rintro rfl
    rfl

end Siret

namespace Checker

variable {o : Options}

/-- A checker lets a value pass in some context. -/
def Passes (c : Checker) (v : Value) : Prop :=
  ∃ ctx before r after, c.check v ctx before = .ok r after

/-- A checker puts a value in the place of another wherever values may be replaced. -/
def Sanitizes (c : Checker) (v r : Value) : Prop :=
  ∀ (ctx : Context) (store : Store), ctx.mode.sanitize → c.check v ctx store = .ok r store

theorem Sanitizes.unique {c : Checker} {v r r' : Value} (first : c.Sanitizes v r)
    (second : c.Sanitizes v r') : r = r' := by
  have one := first { mode := { sanitize := true } } {} rfl
  have other := second { mode := { sanitize := true } } {} rfl
  rw [one] at other
  cases other
  rfl

private theorem check_ofSiret (free : o.Free) {s : String} (number : Siret.IsNumber s.toList)
    (ctx : Context) (store : Store) :
    (ofSiret o).check (.text s) ctx store =
      .ok (if ctx.mode.sanitize then
        .text (String.ofList (Siret.group (Text.dropBlanks s.toList))) else .text s) store :=
  check_siret_of_isNumber (free.shaped (.atom (.pattern Shapes.siret))) number ctx store

private theorem isNumber_of_passes (free : o.Free) {s : String}
    (passes : (ofSiret o).Passes (.text s)) : Siret.IsNumber s.toList := by
  obtain ⟨ctx, before, r, after, passed⟩ := passes
  by_contra other
  have refused : (ofSiret o).check (.text s) ctx before = .error (.invalid ctx.path) before :=
    check_siret_of_not_isNumber (free.shaped (.atom (.pattern Shapes.siret))) other ctx before
  rw [refused] at passed
  cases passed

private theorem grouped_of_passes (free : o.Free) {s : String}
    (passes : (ofSiret o).Passes (.text s)) :
    ∃ digits, Siret.Spells digits s.toList ∧
      (ofSiret o).Sanitizes (.text s) (.text (String.ofList (Siret.group digits))) ∧
      ∀ ctx store, (ofSiret o).check (.text (String.ofList (Siret.group digits))) ctx store =
        .ok (.text (String.ofList (Siret.group digits))) store := by
  obtain ⟨digits, spells, multiple⟩ := isNumber_of_passes free passes
  have again := Siret.spells_group spells
  refine ⟨digits, spells, fun ctx store sanitize => ?_, fun ctx store => ?_⟩
  · rw [check_ofSiret free ⟨digits, spells, multiple⟩, if_pos sanitize,
      Siret.dropBlanks_of_spells spells]
  · have stays : Siret.IsNumber (String.ofList (Siret.group digits)).toList := by
      rw [String.toList_ofList]
      exact ⟨digits, again, multiple⟩
    rw [check_ofSiret free stays, String.toList_ofList, Siret.dropBlanks_of_spells again, ite_self]

end Checker

namespace Factory

open Siret

variable {store : Store} {kinds : Kinds} {source : OptionsSource} {keywords : Keywords}
  {o : Options}

/-- Options that ask for no exact value and no size make a checker under which the grouped form of
numbers is normal. Every text that passes is put into groups of the same digits in the same order;
this form passes in every context and is left as it is; and two texts that pass have one form
exactly when they have the same digits. -/
theorem make_siret_normal (string : kinds.KnowsString)
    (coerced : Options.coerce store source keywords = .ok o) (free : o.Free) :
    ∃ c, make store kinds (.builtin .siret) source keywords = .ok c ∧
      (∀ s : String, c.Passes (.text s) →
        ∃ t : String, c.Sanitizes (.text s) (.text t) ∧ IsGrouped t.toList ∧
          plainDigits t.toList = plainDigits s.toList ∧
          ∀ ctx store, c.check (.text t) ctx store = .ok (.text t) store) ∧
      ∀ (s s' : String) (t t' : Value), c.Passes (.text s) → c.Passes (.text s') →
        c.Sanitizes (.text s) t → c.Sanitizes (.text s') t' →
          (t = t' ↔ plainDigits s.toList = plainDigits s'.toList) := by
  refine ⟨Checker.ofSiret o, make_siret string coerced free, fun s passes => ?_, ?_⟩
  · obtain ⟨digits, spells, sanitizes, stays⟩ := Checker.grouped_of_passes free passes
    refine ⟨String.ofList (group digits), sanitizes, ?_, ?_, stays⟩
    · rw [String.toList_ofList]
      exact isGrouped_group spells
    · rw [String.toList_ofList, plainDigits_of_spells (spells_group spells),
        plainDigits_of_spells spells]
  · intro s s' t t' passes passes' sanitizes sanitizes'
    obtain ⟨digits, spells, groups, _⟩ := Checker.grouped_of_passes free passes
    obtain ⟨digits', spells', groups', _⟩ := Checker.grouped_of_passes free passes'
    rw [sanitizes.unique groups, sanitizes'.unique groups', plainDigits_of_spells spells,
      plainDigits_of_spells spells', Value.atom.injEq, Atom.text.injEq, String.ofList_inj]
    exact group_inj spells spells'

theorem make_siret_normal_spaced :
    Kinds.builtin.KnowsString ∧ Options.coerce {} .absent [] = .ok {} ∧ Options.Free {} ∧
      ∃ c, make {} Kinds.builtin (.builtin .siret) .absent [] = .ok c ∧
        c.Passes (.text "532685 10400012") ∧
        c.Sanitizes (.text "532685 10400012") (.text "532 685 104 00012") ∧
        ∀ ctx store, c.check (.text "532 685 104 00012") ctx store =
          .ok (.text "532 685 104 00012") store := by
  have free : Options.Free {} := ⟨rfl, rfl, rfl, rfl⟩
  obtain ⟨c, made, normal, _⟩ := @make_siret_normal {} Kinds.builtin .absent [] {}
    Kinds.find?_string rfl free
  have known : c = Checker.ofSiret {} :=
    Except.ok.inj (made.symm.trans (make_siret Kinds.find?_string rfl free))
  subst known
  have plain : ∀ c ∈ "53268510400012".toList, Shapes.IsPlainDigit c := by
    simp [Shapes.IsPlainDigit]
  have spells : Spells "53268510400012".toList "532685 10400012".toList :=
    ⟨rfl, plain, [], [' '], [], Or.inl rfl, Or.inr rfl, Or.inl rfl, rfl⟩
  have number : IsNumber "532685 10400012".toList := ⟨_, spells, rfl⟩
  have passes : (Checker.ofSiret {}).Passes (.text "532685 10400012") :=
    ⟨{}, {}, _, _, Checker.check_ofSiret free number {} {}⟩
  have groups : (Checker.ofSiret {}).Sanitizes (.text "532685 10400012")
      (.text "532 685 104 00012") := by
    intro ctx store sanitize
    rw [Checker.check_ofSiret free number, if_pos sanitize]
    rfl
  obtain ⟨t, sanitizes, _, _, stays⟩ := normal "532685 10400012" passes
  obtain rfl := Atom.text.inj (Value.atom.inj (sanitizes.unique groups))
  exact ⟨Kinds.find?_string, rfl, free, _, made, passes, groups, stays⟩

end Factory

end Assay
