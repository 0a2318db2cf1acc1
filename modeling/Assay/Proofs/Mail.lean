import Assay.Proofs.Formats
import Assay.Proofs.Marks

/-!
The language of mail addresses. Where the options ask for nothing more, the texts that are accepted
are those whose last at sign stands between a local side and a domain. A quoted local side may hold
at signs and quotes itself, so the pattern finds many ways to begin; what follows the last at sign
leaves one way to end.
-/

set_option autoImplicit false
set_option relaxedAutoImplicit false

namespace Assay

open Assay.Language

namespace Mail

open Shapes

def IsLetter (c : Char) : Prop :=
  (97 ≤ c.toNat ∧ c.toNat ≤ 122) ∨ (65 ≤ c.toNat ∧ c.toNat ≤ 90)

instance (c : Char) : Decidable (IsLetter c) := inferInstanceAs (Decidable (_ ∨ _))

def specials : List Char :=
  ['<', '>', '(', ')', '[', ']', '\\', '.', ',', ';', ':', '@', '"']

/-- A character of an atom: no white space of any script, and no mark with a meaning. -/
def IsPlain (c : Char) : Prop := c ∉ specials ∧ ¬Text.isBlank c

instance (c : Char) : Decidable (IsPlain c) := inferInstanceAs (Decidable (_ ∧ _))

/-- An atom: plain characters, at least one. -/
structure IsAtom (s : List Char) : Prop where
  present : s ≠ []
  plain : ∀ c ∈ s, IsPlain c

/-- A local side: atoms with dots between them, or anything but a line end between quotes. -/
inductive IsLocal : List Char → Prop
  | atoms {parts : List (List Char)} (some : parts ≠ []) (all : ∀ part ∈ parts, IsAtom part) :
      IsLocal (['.'].intercalate parts)
  | quoted {s : List Char} (present : s ≠ []) (oneLine : '\n' ∉ s) : IsLocal ('"' :: (s ++ ['"']))

/-- A number in brackets: one to three plain digits. -/
structure IsNumeral (s : List Char) : Prop where
  least : 1 ≤ s.length
  most : s.length ≤ 3
  plain : ∀ c ∈ s, IsPlainDigit c

/-- A label of a domain name: letters, digits and hyphens, at least one. -/
structure IsLabel (s : List Char) : Prop where
  present : s ≠ []
  chars : ∀ c ∈ s, IsLetter c ∨ c = '-' ∨ IsPlainDigit c

/-- The last label of a domain name: at least two letters. -/
structure IsTop (s : List Char) : Prop where
  least : 2 ≤ s.length
  letters : ∀ c ∈ s, IsLetter c

/-- A domain: four numbers with dots between them, in brackets, or labels with a dot behind each of
them and then the last label. -/
inductive IsDomain : List Char → Prop
  | quad {parts : List (List Char)} (four : parts.length = 4)
      (all : ∀ part ∈ parts, IsNumeral part) :
      IsDomain ('[' :: (['.'].intercalate parts ++ [']']))
  | name {labels : List (List Char)} {top : List Char} (some : labels ≠ [])
      (all : ∀ label ∈ labels, IsLabel label) (last : IsTop top) :
      IsDomain (labels.flatMap (· ++ ['.']) ++ top)

/-- A text is an address: its last at sign stands between a local side and a domain. -/
def IsAddress (s : List Char) : Prop :=
  ∃ front back, s = front ++ '@' :: back ∧ '@' ∉ back ∧ IsLocal front ∧ IsDomain back

variable {s : List Char}

theorem IsDomain.at_notMem (domain : IsDomain s) : '@' ∉ s := by
  suffices other : ∀ c ∈ s, c ≠ '@' from fun member => other '@' member rfl
  cases domain with
  | @quad parts four all =>
    have inside : ∀ c ∈ ['.'].intercalate parts, c ≠ '@' :=
      Text.forall_mem_intercalate (by decide) fun part member c inPart same =>
        absurd (same ▸ (all part member).plain c inPart) (by decide)
    intro c member
    rw [List.mem_cons, List.mem_append, List.mem_singleton] at member
    rcases member with rfl | member | rfl
    · decide
    · exact inside c member
    · decide
  | name some all last =>
    intro c member same
    subst same
    rw [List.mem_append, List.mem_flatMap] at member
    rcases member with ⟨label, present, member⟩ | member
    · rw [List.mem_append] at member
      rcases member with member | member
      · have char := (all label present).chars '@' member
        revert char
        decide
      · revert member
        decide
    · have letter := last.letters '@' member
      revert letter
      decide

abbrev plainClass : CharClass :=
  { negated := true, items := mailMarks ++ [.named .blank false false, mark '@', mark '"'] }

private theorem has_blank (c : Char) :
    ClassItem.has .exact c.toNat (.named .blank false false) ↔ Text.isBlank c := by
  simp only [ClassItem.has, CaseRule.fold, CharKind.has, Bool.bne_false, Text.isBlank,
    Bool.false_eq_true, if_false]

private theorem has_plainClass (c : Char) : plainClass.has c ↔ IsPlain c := by
  have marks : mailMarks = (specials.take 11).map mark := rfl
  have all : specials = specials.take 11 ++ ['@', '"'] := rfl
  rw [IsPlain, all, plainClass, marks]
  generalize specials.take 11 = others
  simp only [has_none, has_append, has_marks, has_cons, has_nil, has_blank, mark, has_point,
    Char.toNat_inj, List.mem_append, List.mem_cons, List.not_mem_nil, or_false, not_or]
  tauto

abbrev atom : Language := repeats 1 none (ofClass plainClass)

private theorem atom_iff (s : List Char) : atom s ↔ IsAtom s := by
  simp only [atom, repeats_one_iff, has_plainClass]
  constructor
  · rintro ⟨present, plain⟩
    exact ⟨present, plain⟩
  · rintro ⟨present, plain⟩
    exact ⟨present, plain⟩

abbrev localSide : Language :=
  either (append atom (repeats 0 none (append (point '.') atom)))
    (append (point '"') (append (repeats 1 none (ofClass { negated := true, items := [.point 10] }))
      (point '"')))

private theorem atoms_iff (s : List Char) :
    append atom (repeats 0 none (append (point '.') atom)) s ↔
      ∃ parts : List (List Char), parts ≠ [] ∧ (∀ part ∈ parts, IsAtom part) ∧
        s = ['.'].intercalate parts := by
  have dotted := repeats_dressed ('.' :: ·) (append_point_iff '.' atom) 0
  simp only [append, dotted, atom_iff, Nat.zero_le, true_and]
  constructor
  · rintro ⟨first, _, rfl, isAtom, parts, all, rfl⟩
    refine ⟨first :: parts, List.cons_ne_nil first parts, ?_, ?_⟩
    · exact List.forall_mem_cons.mpr ⟨isAtom, all⟩
    · rw [Text.intercalate_cons_flatMap]
  · rintro ⟨parts, some, all, rfl⟩
    obtain ⟨first, parts, rfl⟩ := List.exists_cons_of_ne_nil some
    obtain ⟨isAtom, others⟩ := List.forall_mem_cons.mp all
    exact ⟨first, _, Text.intercalate_cons_flatMap '.' first parts, isAtom, parts, others, rfl⟩

private theorem localSide_iff (s : List Char) : localSide s ↔ IsLocal s := by
  have noLineEnd (c : Char) :
      CharClass.has { negated := true, items := [.point 10] } c ↔ c ≠ '\n' := by
    rw [has_none]
    exact not_congr (has_char '\n' c)
  have quoted : append (point '"') (append
      (repeats 1 none (ofClass { negated := true, items := [.point 10] })) (point '"')) s ↔
        ∃ inside : List Char, (inside ≠ [] ∧ '\n' ∉ inside) ∧ s = '"' :: (inside ++ ['"']) := by
    have oneLine (inside : List Char) : (∀ c ∈ inside, c ≠ '\n') ↔ '\n' ∉ inside :=
      ⟨fun all member => all '\n' member rfl, fun free c member same => free (same ▸ member)⟩
    simp only [append_point_iff, append_point_right_iff, repeats_one_iff, noLineEnd, oneLine]
    constructor
    · rintro ⟨_, ⟨inside, holds, rfl⟩, rfl⟩
      exact ⟨inside, holds, rfl⟩
    · rintro ⟨inside, holds, rfl⟩
      exact ⟨_, ⟨inside, holds, rfl⟩, rfl⟩
  rw [localSide, either, atoms_iff, quoted]
  constructor
  · rintro (⟨parts, some, all, rfl⟩ | ⟨inside, ⟨present, oneLine⟩, rfl⟩)
    · exact IsLocal.atoms some all
    · exact IsLocal.quoted present oneLine
  · intro isLocal
    cases isLocal with
    | atoms some all => exact Or.inl ⟨_, some, all, rfl⟩
    | quoted present oneLine => exact Or.inr ⟨_, ⟨present, oneLine⟩, rfl⟩

abbrev numeral : Language := powers 1 3 (ofClass { items := [digits] })

private theorem numeral_iff (s : List Char) : numeral s ↔ IsNumeral s := by
  simp only [numeral, powers_ofClass, has_digits]
  constructor
  · rintro ⟨⟨least, most⟩, plain⟩
    exact ⟨least, most, plain⟩
  · rintro ⟨least, most, plain⟩
    exact ⟨⟨least, most⟩, plain⟩

abbrev labelClass : CharClass := { items := [smallLetters, capitalLetters, mark '-', digits] }

abbrev label : Language := repeats 1 none (ofClass labelClass)

private theorem label_iff (s : List Char) : label s ↔ IsLabel s := by
  have char (c : Char) : labelClass.has c ↔ IsLetter c ∨ c = '-' ∨ IsPlainDigit c := by
    simp only [has_cons, has_nil, smallLetters, capitalLetters, digits, mark, has_range,
      has_point, Char.toNat_inj, or_false, or_assoc, IsLetter, IsPlainDigit]
  simp only [label, repeats_one_iff, char]
  constructor
  · rintro ⟨present, chars⟩
    exact ⟨present, chars⟩
  · rintro ⟨present, chars⟩
    exact ⟨present, chars⟩

abbrev top : Language := repeats 2 none (ofClass { items := [smallLetters, capitalLetters] })

private theorem top_iff (s : List Char) : top s ↔ IsTop s := by
  have char (c : Char) : CharClass.has { items := [smallLetters, capitalLetters] } c ↔
      IsLetter c := by
    simp only [has_cons, has_nil, smallLetters, capitalLetters, has_range, or_false, IsLetter]
  simp only [top, repeats_ofClass, char]
  constructor
  · rintro ⟨⟨least, _⟩, letters⟩
    exact ⟨least, letters⟩
  · rintro ⟨least, letters⟩
    exact ⟨⟨least, by simp⟩, letters⟩

abbrev domain : Language :=
  either (append (point '[') (append (joined '.' numeral 4) (point ']')))
    (append (repeats 1 none (append label (point '.'))) top)

private theorem quad_iff (s : List Char) :
    append (point '[') (append (joined '.' numeral 4) (point ']')) s ↔
      ∃ parts : List (List Char), parts.length = 4 ∧ (∀ part ∈ parts, IsNumeral part) ∧
        s = '[' :: (['.'].intercalate parts ++ [']']) := by
  simp only [append_point_iff, append_point_right_iff, joined, numeral_iff]
  constructor
  · rintro ⟨_, ⟨_, ⟨parts, four, all, rfl⟩, rfl⟩, rfl⟩
    exact ⟨parts, four, all, rfl⟩
  · rintro ⟨parts, four, all, rfl⟩
    exact ⟨_, ⟨_, ⟨parts, four, all, rfl⟩, rfl⟩, rfl⟩

private theorem name_iff (s : List Char) :
    append (repeats 1 none (append label (point '.'))) top s ↔
      ∃ labels last, labels ≠ [] ∧ (∀ label ∈ labels, IsLabel label) ∧ IsTop last ∧
        s = labels.flatMap (· ++ ['.']) ++ last := by
  have dotted := repeats_dressed (· ++ ['.']) (append_point_right_iff '.' label) 1
  simp only [append, dotted, label_iff, top_iff, Nat.one_le_iff_ne_zero, List.length_eq_zero_iff,
    ne_eq]
  constructor
  · rintro ⟨_, last, rfl, ⟨labels, some, all, rfl⟩, isTop⟩
    exact ⟨labels, last, some, all, isTop, rfl⟩
  · rintro ⟨labels, last, some, all, isTop, rfl⟩
    exact ⟨_, last, rfl, ⟨labels, some, all, rfl⟩, isTop⟩

private theorem domain_iff (s : List Char) : domain s ↔ IsDomain s := by
  rw [domain, either, quad_iff, name_iff]
  constructor
  · rintro (⟨parts, four, all, rfl⟩ | ⟨labels, last, some, all, isTop, rfl⟩)
    · exact IsDomain.quad four all
    · exact IsDomain.name some all isTop
  · intro isDomain
    cases isDomain with
    | quad four all => exact Or.inl ⟨_, four, all, rfl⟩
    | name some all last => exact Or.inr ⟨_, _, some, all, last, rfl⟩

private theorem takes_localSide : Matcher.Takes
    (Regex.group 1
      (.alt (.group 2 (.seq mailAtom (.anyTimes (.group 3 (.seq (.lit '.') mailAtom)))))
        (.group 4 (.chain [.lit '"', .oneOrMore (.noneOf [.point 10]), .lit '"'])))).run
    localSide := by
  have atoms : Matcher.Takes mailAtom.run atom :=
    Regex.takes_unbounded 1 (Regex.takes_char _) (ofClass_nil _)
  have others := Regex.takes_unbounded 0
    (Regex.takes_group 3 (Regex.takes_seq (Regex.takes_lit '.') atoms)) (append_point_nil '.' atom)
  have inside : Matcher.Takes (Regex.oneOrMore (.noneOf [.point 10])).run
      (repeats 1 none (ofClass { negated := true, items := [.point 10] })) :=
    Regex.takes_unbounded 1 (Regex.takes_char _) (ofClass_nil _)
  have quotes := Regex.takes_seq (Regex.takes_lit '"')
    (Regex.takes_seq inside (Regex.takes_lit '"'))
  exact Regex.takes_group 1 (Regex.takes_alt
    (Regex.takes_group 2 (Regex.takes_seq atoms others)) (Regex.takes_group 4 quotes))

private theorem takes_quad (number : Regex) (takes : Matcher.Takes number.run numeral) :
    Matcher.Takes
      (Regex.chain [.lit '[', number, .lit '.', number, .lit '.', number, .lit '.', number,
        .lit ']']).run
      (append (point '[') (append (joined '.' numeral 4) (point ']'))) := by
  have dot := Regex.takes_lit '.'
  rw [joined_succ '.' numeral 2, joined_succ '.' numeral 1, joined_succ '.' numeral 0, joined_one]
  simp only [append_assoc]
  exact Regex.takes_seq (Regex.takes_lit '[') (Regex.takes_seq takes (Regex.takes_seq dot
    (Regex.takes_seq takes (Regex.takes_seq dot (Regex.takes_seq takes (Regex.takes_seq dot
      (Regex.takes_seq takes (Regex.takes_lit ']'))))))))

private theorem takes_name : Matcher.Takes
    (Regex.seq
      (.oneOrMore (.group 8
        (.seq (.oneOrMore (.oneOf [smallLetters, capitalLetters, mark '-', digits])) (.lit '.'))))
      (.many (.oneOf [smallLetters, capitalLetters]) 2 none true)).run
    (append (repeats 1 none (append label (point '.'))) top) := by
  have labels : Matcher.Takes
      (Regex.oneOrMore (.oneOf [smallLetters, capitalLetters, mark '-', digits])).run label :=
    Regex.takes_unbounded 1 (Regex.takes_char _) (ofClass_nil _)
  have dotted := Regex.takes_unbounded 1
    (Regex.takes_group 8 (Regex.takes_seq labels (Regex.takes_lit '.')))
    (append_point_right_nil '.' label)
  exact Regex.takes_seq dotted
    (Regex.takes_unbounded 2 (Regex.takes_char _) (ofClass_nil _))

theorem accepts_email_iff (s : String) : Shapes.email.accepts s ↔ IsAddress s.toList := by
  have number : Matcher.Takes (Regex.between 1 3 (.oneOf [digits])).run numeral :=
    Regex.takes_between (by decide) (Regex.takes_char _) (ofClass_nil _)
  have domains := Regex.takes_group 5 (Regex.takes_alt
    (Regex.takes_group 6 (takes_quad _ number)) (Regex.takes_group 7 takes_name))
  have takes := Regex.takes_seq takes_localSide (Regex.takes_seq (Regex.takes_lit '@') domains)
  refine (Regex.matchesAll_whole [_, _, _] takes s.toList).trans ?_
  constructor
  · rintro ⟨front, _, made, inLocal, rest⟩
    obtain ⟨back, inDomain, rfl⟩ := (append_point_iff '@' domain _).mp rest
    have isDomain := (domain_iff back).mp inDomain
    exact ⟨front, back, made, isDomain.at_notMem, (localSide_iff front).mp inLocal, isDomain⟩
  · rintro ⟨front, back, made, _, isLocal, isDomain⟩
    have rest := (append_point_iff '@' domain _).mpr ⟨back, (domain_iff back).mpr isDomain, rfl⟩
    exact ⟨front, _, made, (localSide_iff front).mpr isLocal, rest⟩

instance (s : List Char) : Decidable (IsAddress s) :=
  decidable_of_iff (Shapes.email.accepts (String.ofList s)) (by
    rw [accepts_email_iff, String.toList_ofList])

/-- Every at sign but the last one may stand between quotes. -/
example : IsAddress "\"a@b\"@c.de".toList := by decide

end Mail

namespace Factory

variable {store : Store} {kinds : Kinds} {source : OptionsSource} {keywords : Keywords}
  {o : Options}

/-- Options that ask for no exact value and no size make a checker that accepts the mail addresses
and refuses every other text as invalid. -/
theorem make_email_accepts_iff (coerced : Options.coerce store source keywords = .ok o)
    (free : o.Free) :
    ∃ c, make store kinds (.builtin .email) source keywords = .ok c ∧
      ∀ (s : String) (ctx : Context) (before : Store),
        ((∃ r after, c.check (.text s) ctx before = .ok r after) ↔ Mail.IsAddress s.toList) ∧
        ∀ failure after, c.check (.text s) ctx before = .error failure after →
          failure = .invalid ctx.path := by
  refine ⟨_, make_shape rfl coerced free, fun s ctx before => ?_⟩
  rw [← Mail.accepts_email_iff]
  exact Checker.check_shape (free.shaped _) rfl s ctx before

theorem make_email_accepts_default :
    Options.coerce {} .absent [] = .ok {} ∧ Options.Free {} ∧
      ∃ c, make {} Kinds.builtin (.builtin .email) .absent [] = .ok c ∧
        ∀ (s : String) (ctx : Context) (before : Store),
          ((∃ r after, c.check (.text s) ctx before = .ok r after) ↔ Mail.IsAddress s.toList) ∧
          ∀ failure after, c.check (.text s) ctx before = .error failure after →
            failure = .invalid ctx.path := by
  have free : Options.Free {} := ⟨rfl, rfl, rfl, rfl⟩
  exact ⟨rfl, free, make_email_accepts_iff rfl free⟩

end Factory

end Assay
