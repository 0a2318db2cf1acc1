import Mathlib.Data.Nat.Digits.Defs
import Assay.Proofs.Formats
import Assay.Proofs.Parts
import Assay.Proofs.Spelling

/-!
The language of addresses of version 6. Where the options ask for nothing more, the texts that are
accepted are the ones that the grammar of addresses derives; the pattern, which only looks at the
characters and the length, turns none of them away.
-/

set_option autoImplicit false
set_option relaxedAutoImplicit false

namespace Assay

open Assay.Language

namespace AddressV6

open Shapes

def IsHex (c : Char) : Prop :=
  IsPlainDigit c ∨ (65 ≤ c.toNat ∧ c.toNat ≤ 70) ∨ 97 ≤ c.toNat ∧ c.toNat ≤ 102

instance (c : Char) : Decidable (IsHex c) := inferInstanceAs (Decidable (_ ∨ _))

/-- A group: one to four hexadecimal digits. -/
structure IsGroup (part : List Char) : Prop where
  least : 1 ≤ part.length
  most : part.length ≤ 4
  hex : ∀ c ∈ part, IsHex c

def decimal (digits : List Char) : Nat :=
  Nat.ofDigits 10 (digits.reverse.map fun c => c.toNat - 48)

/-- An octet: one to three decimal digits that write a number up to 255, without a zero in front
unless it stands alone. -/
structure IsOctet (part : List Char) : Prop where
  least : 1 ≤ part.length
  most : part.length ≤ 3
  plain : ∀ c ∈ part, IsPlainDigit c
  lead : part.head? = some '0' → part = ['0']
  bound : decimal part ≤ 255

/-- A dotted quad: four octets with dots between them. -/
def IsQuad (part : List Char) : Prop :=
  ∃ octets, octets.length = 4 ∧ (∀ octet ∈ octets, IsOctet octet) ∧ part = ['.'].intercalate octets

/-- Parts write a number of groups at the end of an address. The last two groups of the address may
be written as a dotted quad, so nothing stands behind one. -/
inductive Writes : Nat → List (List Char) → Prop
  | none : Writes 0 []
  | quad {part : List Char} (isQuad : IsQuad part) : Writes 2 [part]
  | group {n : Nat} {part : List Char} {parts : List (List Char)} (isGroup : IsGroup part)
      (others : Writes n parts) : Writes (n + 1) (part :: parts)

def joined (parts : List (List Char)) : List Char := [':'].intercalate parts

/-- A text is an address: it writes all eight groups, or up to seven of them with two colons in the
place of the others. -/
inductive IsAddress : List Char → Prop
  | full {parts : List (List Char)} (eight : Writes 8 parts) : IsAddress (joined parts)
  | short {n : Nat} {left right : List (List Char)} (before : ∀ part ∈ left, IsGroup part)
      (behind : Writes n right) (few : left.length + n ≤ 7) :
      IsAddress (joined left ++ ':' :: ':' :: joined right)

variable {c : Char} {n : Nat} {part : List Char} {parts left right : List (List Char)}

private theorem le_iff_toNat_le (a b : Char) : a ≤ b ↔ a.toNat ≤ b.toNat :=
  UInt32.le_iff_toNat_le

theorem isHexDigit_iff (c : Char) : isHexDigit c ↔ IsHex c := by
  have zero : ('0' : Char).toNat = 48 := rfl
  have nine : ('9' : Char).toNat = 57 := rfl
  have smallA : ('a' : Char).toNat = 97 := rfl
  have smallF : ('f' : Char).toNat = 102 := rfl
  have capitalA : ('A' : Char).toNat = 65 := rfl
  have capitalF : ('F' : Char).toNat = 70 := rfl
  simp only [isHexDigit, IsHex, IsPlainDigit, Bool.or_eq_true, Bool.and_eq_true,
    decide_eq_true_eq, le_iff_toNat_le, zero, nine, smallA, smallF, capitalA, capitalF]
  omega

theorem isGroup_iff (part : List Char) : isGroup part ↔ IsGroup part := by
  simp only [isGroup, Bool.and_eq_true, decide_eq_true_eq, List.all_eq_true, isHexDigit_iff]
  constructor
  · rintro ⟨⟨least, most⟩, hex⟩
    exact ⟨least, most, hex⟩
  · rintro ⟨least, most, hex⟩
    exact ⟨⟨least, most⟩, hex⟩

private theorem decimal_eq_foldl (digits : List Char) :
    decimal digits = digits.foldl (fun n c => 10 * n + (c.toNat - 48)) 0 := by
  rw [decimal, Nat.ofDigits_eq_foldr, List.foldr_map, List.foldr_reverse]
  have swapped : (fun (n : Nat) (c : Char) => ((c.toNat - 48 : Nat) : Nat) + 10 * n) =
      fun n c => 10 * n + (c.toNat - 48) := by
    funext n c
    exact Nat.add_comm _ _
  exact congrArg (fun step => digits.foldl step 0) swapped

theorem isOctet_iff (part : List Char) : isOctet part ↔ IsOctet part := by
  have zero : ('0' : Char).toNat = 48 := rfl
  have nine : ('9' : Char).toNat = 57 := rfl
  have lead : (part = ['0'] ∨ part.head? ≠ some '0') ↔ (part.head? = some '0' → part = ['0']) := by
    tauto
  simp only [isOctet, Bool.and_eq_true, Bool.or_eq_true, decide_eq_true_eq, List.all_eq_true,
    beq_iff_eq, bne_iff_ne, le_iff_toNat_le, zero, nine, lead, ← decimal_eq_foldl, Nat.ble_eq]
  constructor
  · rintro ⟨⟨⟨⟨least, most⟩, plain⟩, lead⟩, bound⟩
    exact ⟨least, most, plain, lead, bound⟩
  · rintro ⟨least, most, plain, lead, bound⟩
    exact ⟨⟨⟨⟨least, most⟩, plain⟩, lead⟩, bound⟩

theorem isQuad_iff (part : List Char) : isQuad part ↔ IsQuad part := by
  simp only [isQuad, Bool.and_eq_true, beq_iff_eq, List.all_eq_true, isOctet_iff]
  constructor
  · rintro ⟨four, octets⟩
    exact ⟨_, four, octets, (Text.intercalate_splitAt '.' part).symm⟩
  · rintro ⟨octets, four, all, made⟩
    have more : octets ≠ [] := List.ne_nil_of_length_pos (by omega)
    have free : ∀ octet ∈ octets, '.' ∉ octet :=
      fun octet member dot => absurd ((all octet member).plain '.' dot) (by decide)
    rw [(Text.splitAt_eq_iff more free).mpr made]
    exact ⟨four, all⟩

structure IsPart (part : List Char) : Prop where
  present : part ≠ []
  chars : ∀ c ∈ part, IsHex c ∨ c = '.'

theorem IsPart.no_colon (isPart : IsPart part) : ':' ∉ part :=
  fun member => absurd (isPart.chars ':' member) (by decide)

theorem IsGroup.isPart (group : IsGroup part) : IsPart part :=
  ⟨List.ne_nil_of_length_pos group.least, fun c member => Or.inl (group.hex c member)⟩

theorem IsQuad.length (quad : IsQuad part) : 7 ≤ part.length ∧ part.length ≤ 15 := by
  obtain ⟨octets, four, all, rfl⟩ := quad
  obtain ⟨a, b, c, d, rfl⟩ := List.length_eq_four.mp four
  simp only [List.forall_mem_cons] at all
  obtain ⟨octetA, octetB, octetC, octetD, _⟩ := all
  have leastA := octetA.least
  have leastB := octetB.least
  have leastC := octetC.least
  have leastD := octetD.least
  have mostA := octetA.most
  have mostB := octetB.most
  have mostC := octetC.most
  have mostD := octetD.most
  simp only [List.intercalate_cons_cons, List.intercalate_singleton, List.length_append,
    List.length_singleton]
  omega

theorem IsQuad.isPart (quad : IsQuad part) : IsPart part := by
  have long := quad.length
  refine ⟨List.ne_nil_of_length_pos (by omega), ?_⟩
  obtain ⟨octets, _, all, rfl⟩ := quad
  refine Text.forall_mem_intercalate (Or.inr rfl) fun octet inQuad c member => ?_
  exact Or.inl (Or.inl ((all octet inQuad).plain c member))

private theorem not_isGroup_of_isQuad (quad : IsQuad part) : ¬IsGroup part := by
  intro group
  have long := quad.length
  have most := group.most
  omega

private theorem groupCount?_false : groupCount? false part = some n ↔ IsGroup part ∧ n = 1 := by
  have unfolded : groupCount? false part = if isGroup part then some 1 else none := by
    simp only [groupCount?, Bool.false_and, Bool.false_eq_true, if_false]
  rw [unfolded, Option.ite_none_right_eq_some, isGroup_iff, Option.some.injEq, eq_comm]

private theorem groupCount?_true :
    groupCount? true part = some n ↔ (IsGroup part ∧ n = 1) ∨ (IsQuad part ∧ n = 2) := by
  rw [groupCount?, Bool.true_and]
  by_cases group : IsGroup part
  · have noQuad : ¬IsQuad part := fun quad => not_isGroup_of_isQuad quad group
    rw [if_pos ((isGroup_iff part).mpr group), Option.some.injEq, eq_comm]
    simp [group, noQuad]
  · have none : ¬isGroup part := fun found => group ((isGroup_iff part).mp found)
    rw [if_neg none, Option.ite_none_right_eq_some, isQuad_iff, Option.some.injEq, eq_comm]
    simp [group]

private theorem countGroups?_cons {allowed : Bool} (more : parts ≠ []) :
    countGroups? allowed (part :: parts) = some n ↔
      IsGroup part ∧ ∃ m, countGroups? allowed parts = some m ∧ n = m + 1 := by
  obtain ⟨second, rest, rfl⟩ := List.exists_cons_of_ne_nil more
  have unfolded : countGroups? allowed (part :: second :: rest) =
      (groupCount? false part).bind fun one =>
        (countGroups? allowed (second :: rest)).bind fun others => some (one + others) := rfl
  rw [unfolded, Option.bind_eq_some_iff]
  constructor
  · rintro ⟨one, first, others⟩
    obtain ⟨group, rfl⟩ := groupCount?_false.mp first
    obtain ⟨m, counted, sum⟩ := Option.bind_eq_some_iff.mp others
    refine ⟨group, m, counted, ?_⟩
    rw [← Option.some.inj sum, Nat.add_comm]
  · rintro ⟨group, m, counted, rfl⟩
    refine ⟨1, groupCount?_false.mpr ⟨group, rfl⟩, Option.bind_eq_some_iff.mpr ⟨m, counted, ?_⟩⟩
    rw [Nat.add_comm]

theorem countGroups?_false :
    countGroups? false parts = some n ↔ (∀ part ∈ parts, IsGroup part) ∧ n = parts.length := by
  induction parts generalizing n with
  | nil => simp [countGroups?, eq_comm]
  | cons part parts ih =>
    rw [List.forall_mem_cons, List.length_cons]
    by_cases more : parts = []
    · subst more
      rw [countGroups?, groupCount?_false]
      simp
    · rw [countGroups?_cons more]
      constructor
      · rintro ⟨group, m, counted, rfl⟩
        obtain ⟨others, rfl⟩ := ih.mp counted
        exact ⟨⟨group, others⟩, rfl⟩
      · rintro ⟨⟨group, others⟩, rfl⟩
        exact ⟨group, parts.length, ih.mpr ⟨others, rfl⟩, rfl⟩

theorem countGroups?_true : countGroups? true parts = some n ↔ Writes n parts := by
  induction parts generalizing n with
  | nil =>
    constructor
    · intro counted
      cases counted
      exact .none
    · rintro ⟨⟩
      rfl
  | cons part parts ih =>
    by_cases more : parts = []
    · subst more
      rw [countGroups?, groupCount?_true]
      constructor
      · rintro (⟨group, rfl⟩ | ⟨quad, rfl⟩)
        · exact .group group .none
        · exact .quad quad
      · rintro (_ | quad | ⟨group, ⟨⟩⟩)
        · exact Or.inr ⟨quad, rfl⟩
        · exact Or.inl ⟨group, rfl⟩
    · rw [countGroups?_cons more]
      constructor
      · rintro ⟨group, m, counted, rfl⟩
        exact .group group (ih.mp counted)
      · rintro (_ | _ | ⟨group, others⟩)
        · exact absurd rfl more
        · exact ⟨group, _, ih.mpr others, rfl⟩

theorem Writes.isPart (writes : Writes n parts) : ∀ part ∈ parts, IsPart part := by
  induction writes with
  | none => exact fun part member => absurd member List.not_mem_nil
  | quad quad => exact List.forall_mem_singleton.mpr quad.isPart
  | group group _ ih => exact List.forall_mem_cons.mpr ⟨group.isPart, ih⟩

def side (parts : List (List Char)) : List (List Char) := if parts = [] then [[]] else parts

theorem joined_side (parts : List (List Char)) : joined (side parts) = joined parts := by
  rw [side]
  split
  · rename_i none
    rw [none]
    rfl
  · rfl

theorem side_ne_nil (parts : List (List Char)) : side parts ≠ [] := by
  rw [side]
  split
  · exact List.cons_ne_nil _ _
  · assumption

theorem joined_gap (left right : List (List Char)) :
    joined (side left ++ [] :: side right) = joined left ++ ':' :: ':' :: joined right := by
  have behind : joined ([] :: side right) = ':' :: joined right := by
    rw [joined, List.intercalate_cons_of_ne_nil (side_ne_nil right), List.nil_append,
      List.singleton_append, ← joined, joined_side]
  rw [joined, Text.intercalate_append (side_ne_nil left) (List.cons_ne_nil _ _), ← joined,
    ← joined, joined_side, behind]

theorem forall_mem_side {p : List Char → Prop} (empty : p []) (all : ∀ part ∈ parts, p part) :
    ∀ part ∈ side parts, p part := by
  rw [side]
  split
  · exact List.forall_mem_singleton.mpr empty
  · exact all

theorem tail_side (parts : List (List Char)) : (side parts).tail = parts.tail := by
  rw [side]
  split
  · rename_i none
    rw [none]
    rfl
  · rfl

theorem countSide?_side (allowed : Bool) (present : ∀ part ∈ parts, part ≠ []) :
    countSide? allowed (side parts) = countGroups? allowed parts := by
  rw [side]
  split
  · rename_i none
    rw [none]
    rfl
  · have others : parts ≠ [[]] := by
      rintro rfl
      exact present [] List.mem_cons_self rfl
    rw [countSide?, if_neg (by simpa using others)]

theorem exists_side {allowed : Bool} (more : parts ≠ [])
    (counted : countSide? allowed parts = some n) :
    ∃ groups, parts = side groups ∧ countGroups? allowed groups = some n := by
  rw [countSide?] at counted
  by_cases empty : parts = [[]]
  · subst empty
    exact ⟨[], rfl, counted⟩
  · rw [if_neg (by simpa using empty)] at counted
    exact ⟨parts, by rw [side, if_neg more], counted⟩

private theorem span_of_all {α : Type} {p : α → Bool} {xs : List α} (all : ∀ x ∈ xs, p x) :
    xs.span p = (xs, []) := by
  have whole : xs ++ [] = xs := List.append_nil xs
  rw [List.span_eq_takeWhile_dropWhile, ← whole, List.takeWhile_append_of_pos all,
    List.dropWhile_append_of_pos all]
  simp

private theorem span_gap (present : ∀ part ∈ left, part ≠ []) :
    (left ++ [] :: right).span (fun part => !part.isEmpty) = (left, [] :: right) := by
  have passed : ∀ part ∈ left, (!part.isEmpty) = true := by
    simpa using present
  rw [List.span_eq_takeWhile_dropWhile, List.takeWhile_append_of_pos passed,
    List.dropWhile_append_of_pos passed]
  simp

private theorem span_present (present : ∀ part ∈ parts, part ≠ []) :
    parts.span (fun part => !part.isEmpty) = (parts, []) :=
  span_of_all (by simpa using present)

theorem cutAtGap_eq_none (present : ∀ part ∈ parts, part ≠ []) : cutAtGap parts = none := by
  cases parts with
  | nil => rfl
  | cons first rest =>
    rw [cutAtGap, span_present fun part member => present part (List.mem_cons_of_mem first member)]

/-- Parts are cut at an empty one with parts before and behind it, where only the first of those
before it may be empty. -/
theorem cutAtGap_eq_some_iff :
    cutAtGap parts = some (left, right) ↔
      parts = left ++ [] :: right ∧ left ≠ [] ∧ right ≠ [] ∧ ∀ part ∈ left.tail, part ≠ [] := by
  constructor
  · intro cut
    cases parts with
    | nil => cases cut
    | cons first rest =>
      by_cases gap : [] ∈ rest
      · obtain ⟨before, behind, rfl, free⟩ := List.eq_append_cons_of_mem gap
        have present : ∀ part ∈ before, part ≠ [] := by
          rintro part member rfl
          exact free member
        rw [cutAtGap, span_gap present] at cut
        simp only [Option.ite_none_left_eq_some, List.isEmpty_iff, Option.some.injEq,
          Prod.mk.injEq] at cut
        obtain ⟨more, rfl, rfl⟩ := cut
        exact ⟨rfl, List.cons_ne_nil _ _, more, present⟩
      · have present : ∀ part ∈ rest, part ≠ [] := by
          rintro part member rfl
          exact gap member
        rw [cutAtGap, span_present present] at cut
        cases cut
  · rintro ⟨rfl, some, more, present⟩
    obtain ⟨first, rest, rfl⟩ := List.exists_cons_of_ne_nil some
    rw [List.tail_cons] at present
    rw [List.cons_append, cutAtGap, span_gap present]
    simp only [List.isEmpty_iff, if_neg more]

theorem isAddress_sound {s : List Char} (accepted : isAddress s) : IsAddress s := by
  have made : s = joined (Text.splitAt ':' s) := (Text.intercalate_splitAt ':' s).symm
  rw [isAddress] at accepted
  cases cut : cutAtGap (Text.splitAt ':' s) with
  | none =>
    rw [made]
    exact .full (countGroups?_true.mp (eq_of_beq (by simpa only [cut] using accepted)))
  | some sides =>
    obtain ⟨left, right⟩ := sides
    obtain ⟨split, someLeft, someRight, _⟩ := cutAtGap_eq_some_iff.mp cut
    simp only [cut] at accepted
    split at accepted
    · rename_i m n countLeft countRight
      obtain ⟨before, rfl, groups⟩ := exists_side someLeft countLeft
      obtain ⟨behind, rfl, writes⟩ := exists_side someRight countRight
      obtain ⟨before, rfl⟩ := countGroups?_false.mp groups
      rw [made, split, joined_gap]
      exact .short before (countGroups?_true.mp writes) (of_decide_eq_true accepted)
    · cases accepted

theorem isAddress_full (eight : Writes 8 parts) : isAddress (joined parts) := by
  have more : parts ≠ [] := by
    rintro rfl
    cases eight
  have split : Text.splitAt ':' (joined parts) = parts :=
    (Text.splitAt_eq_iff more fun part member => (eight.isPart part member).no_colon).mpr rfl
  have uncut := cutAtGap_eq_none fun part member => (eight.isPart part member).present
  rw [isAddress]
  simp only [split, uncut, countGroups?_true.mpr eight]
  rfl

theorem isAddress_short (before : ∀ part ∈ left, IsGroup part) (behind : Writes n right)
    (few : left.length + n ≤ 7) : isAddress (joined left ++ ':' :: ':' :: joined right) := by
  have inLeft : ∀ part ∈ left, IsPart part := fun part member => (before part member).isPart
  have inRight := behind.isPart
  have free : ∀ part ∈ side left ++ [] :: side right, ':' ∉ part := by
    rw [List.forall_mem_append, List.forall_mem_cons]
    refine ⟨?_, List.not_mem_nil, ?_⟩
    · exact forall_mem_side List.not_mem_nil fun part member => (inLeft part member).no_colon
    · exact forall_mem_side List.not_mem_nil fun part member => (inRight part member).no_colon
  have split : Text.splitAt ':' (joined left ++ ':' :: ':' :: joined right) =
      side left ++ [] :: side right := by
    rw [← joined_gap]
    exact (Text.splitAt_eq_iff (by simp) free).mpr rfl
  have noGap : ∀ part ∈ (side left).tail, part ≠ [] := by
    rw [tail_side]
    exact fun part member => (inLeft part (List.mem_of_mem_tail member)).present
  have cut := cutAtGap_eq_some_iff.mpr ⟨rfl, side_ne_nil left, side_ne_nil right, noGap⟩
  have countLeft := countSide?_side false fun part member => (inLeft part member).present
  have countRight := countSide?_side true fun part member => (inRight part member).present
  rw [isAddress]
  simp only [split, cut, countLeft, countRight, countGroups?_false.mpr ⟨before, rfl⟩,
    countGroups?_true.mpr behind]
  exact decide_eq_true few

theorem isAddress_iff (s : List Char) : isAddress s ↔ IsAddress s := by
  refine ⟨isAddress_sound, fun address => ?_⟩
  cases address with
  | full eight => exact isAddress_full eight
  | short before behind few => exact isAddress_short before behind few

instance : DecidablePred IsAddress := fun s => decidable_of_iff _ (isAddress_iff s)

/-- A single group may be left out, and a quad stands behind the two colons. -/
example : IsAddress "1:2:3:4:5:6:7::".toList ∧ IsAddress "::1.2.3.4".toList ∧
    ¬IsAddress "1:2:3:4:5:6:7:8::".toList ∧ ¬IsAddress "1.2.3.4::".toList := by
  decide

theorem Writes.length (writes : Writes n parts) :
    2 * n ≤ (joined parts).length + 1 ∧ (joined parts).length + 1 ≤ 5 * n + 6 := by
  induction writes with
  | none => exact ⟨by simp, by simp [joined]⟩
  | quad quad =>
    have size := quad.length
    rw [joined, List.intercalate_singleton]
    omega
  | @group n part parts group others ih =>
    have least := group.least
    have most := group.most
    by_cases last : parts = []
    · subst last
      cases others
      rw [joined, List.intercalate_singleton]
      omega
    · rw [joined, List.intercalate_cons_of_ne_nil last, ← joined, List.length_append,
        List.length_append, List.length_singleton]
      omega

private theorem length_groups (all : ∀ part ∈ parts, IsGroup part) :
    (joined parts).length ≤ 5 * parts.length := by
  induction parts with
  | nil => simp [joined]
  | cons part parts ih =>
    obtain ⟨first, others⟩ := List.forall_mem_cons.mp all
    have most := first.most
    have rest := ih others
    by_cases last : parts = []
    · rw [last, joined, List.intercalate_singleton, List.length_singleton]
      omega
    · rw [joined, List.intercalate_cons_of_ne_nil last, ← joined, List.length_append,
        List.length_append, List.length_singleton, List.length_cons]
      omega

theorem IsAddress.length {s : List Char} (address : IsAddress s) :
    2 ≤ s.length ∧ s.length ≤ 45 := by
  cases address with
  | full eight =>
    have size := eight.length
    omega
  | short before behind few =>
    have left := length_groups before
    have right := behind.length
    rw [List.length_append, List.length_cons, List.length_cons]
    omega

example : IsAddress "ffff:ffff:ffff:ffff:ffff:ffff:255.255.255.255".toList ∧
    "ffff:ffff:ffff:ffff:ffff:ffff:255.255.255.255".length = 45 := by
  decide

theorem IsAddress.chars {s : List Char} (address : IsAddress s) :
    ∀ c ∈ s, IsHex c ∨ c = '.' ∨ c = ':' := by
  have allowed : ∀ parts : List (List Char),
      (∀ part ∈ parts, IsPart part) → ∀ c ∈ joined parts, IsHex c ∨ c = '.' ∨ c = ':' := by
    intro parts all
    refine Text.forall_mem_intercalate (Or.inr (Or.inr rfl)) fun part member c inPart => ?_
    rcases (all part member).chars c inPart with hex | dot
    · exact Or.inl hex
    · exact Or.inr (Or.inl dot)
  cases address with
  | full eight => exact allowed _ eight.isPart
  | short before behind few =>
    rw [List.forall_mem_append, List.forall_mem_cons, List.forall_mem_cons]
    exact ⟨allowed _ fun part member => (before part member).isPart, Or.inr (Or.inr rfl),
      Or.inr (Or.inr rfl), allowed _ behind.isPart⟩

private theorem has_address (c : Char) :
    CharClass.has { items := [digits, capitalHex, smallHex, mark ':', mark '.'] } c ↔
      IsHex c ∨ c = '.' ∨ c = ':' := by
  simp only [has_cons, has_nil, or_false, digits, capitalHex, smallHex, mark, has_range,
    has_point, Char.toNat_inj, IsHex, IsPlainDigit]
  tauto

/-- The pattern of addresses asks for a length and for the characters of addresses. -/
theorem accepts_ipv6_iff (s : String) :
    Shapes.ipv6.accepts s ↔
      (2 ≤ s.length ∧ s.length ≤ 45) ∧ ∀ c ∈ s.toList, IsHex c ∨ c = '.' ∨ c = ':' := by
  have char : Matcher.Takes (Regex.oneOf [digits, capitalHex, smallHex, mark ':', mark '.']).run
      (ofClass { items := [digits, capitalHex, smallHex, mark ':', mark '.'] }) :=
    Regex.takes_char _
  have moves : ¬ofClass { items := [digits, capitalHex, smallHex, mark ':', mark '.'] } [] := by
    rintro ⟨c, empty, _⟩
    cases empty
  have takes := Regex.takes_between (show 2 ≤ 45 by decide) char moves
  have language := Regex.matchesAll_whole
    [.between 2 45 (.oneOf [digits, capitalHex, smallHex, mark ':', mark '.'])] takes s.toList
  refine language.trans ?_
  simp only [powers_ofClass, has_address, String.length_toList]

theorem accepts_iff_of_notMem {s : List Char} (noZone : '%' ∉ s) : accepts s ↔ IsAddress s := by
  have passed : ∀ c ∈ s, (c != '%') = true := by
    intro c member
    rw [bne_iff_ne]
    rintro rfl
    exact noZone member
  rw [accepts, span_of_all passed, Bool.and_eq_true, isAddress_iff, Bool.not_eq_true',
    ← Bool.not_eq_true, List.contains_iff_mem]
  refine ⟨fun both => both.2, fun address => ⟨fun slash => ?_, address⟩⟩
  exact absurd (address.chars '/' slash) (by decide)

theorem IsAddress.shape {s : String} (address : IsAddress s.toList) : Shapes.ipv6.accepts s := by
  have size := address.length
  rw [String.length_toList] at size
  exact (accepts_ipv6_iff s).mpr ⟨size, address.chars⟩

/-- Behind the pattern, which allows no percent sign, only addresses without a zone are left. -/
theorem isAddress_of_shape {s : String} (shape : Shapes.ipv6.accepts s)
    (accepted : accepts s.toList) : IsAddress s.toList := by
  have chars := ((accepts_ipv6_iff s).mp shape).2
  have noZone : '%' ∉ s.toList := fun member => absurd (chars '%' member) (by decide)
  exact (accepts_iff_of_notMem noZone).mp accepted

theorem IsAddress.accepts {s : List Char} (address : IsAddress s) : accepts s := by
  have noZone : '%' ∉ s := fun member => absurd (address.chars '%' member) (by decide)
  exact (accepts_iff_of_notMem noZone).mpr address

end AddressV6

namespace Checker

variable {o : Options} {s : String}

theorem check_ipv6_of_isAddress (free : o.Free) (address : AddressV6.IsAddress s.toList)
    (ctx : Context) (store : Store) :
    (Checker.extended (.string o (some Shapes.ipv6)) AddressV6.check).check (.text s) ctx store =
      .ok (.text s) store := by
  have accepted : AddressV6.acceptsValue (.text s) := address.accepts
  rw [check_ipv6, checkBasic_free free rfl, if_pos address.shape]
  simp only [accepted, Bool.or_true, if_true]

theorem check_ipv6_of_not_isAddress (free : o.Free) (other : ¬AddressV6.IsAddress s.toList)
    (ctx : Context) (store : Store) :
    (Checker.extended (.string o (some Shapes.ipv6)) AddressV6.check).check (.text s) ctx store =
      .error (.invalid ctx.path) store := by
  rw [check_ipv6, checkBasic_free free rfl]
  by_cases shape : Shapes.ipv6.accepts s
  · have refused : AddressV6.acceptsValue (.text s) = false := by
      rw [Bool.eq_false_iff]
      exact fun accepted => other (AddressV6.isAddress_of_shape shape accepted)
    have present := Value.text_ne_null s
    rw [if_pos shape]
    simp [present, refused]
  · rw [if_neg shape]

end Checker

namespace Factory

variable {store : Store} {kinds : Kinds} {source : OptionsSource} {keywords : Keywords}
  {o : Options}

/-- Options that ask for no exact value and no size make a checker that accepts the addresses
without a zone and refuses every other text as invalid. The pattern that it goes by first turns
away no text that is an address, except for those with a zone. -/
theorem make_ipv6_accepts_iff (string : kinds.KnowsString)
    (coerced : Options.coerce store source keywords = .ok o) (free : o.Free) :
    (∃ c, make store kinds (.builtin .ipv6) source keywords = .ok c ∧
      ∀ (s : String) (ctx : Context) (before : Store),
        ((∃ r after, c.check (.text s) ctx before = .ok r after) ↔
          AddressV6.IsAddress s.toList) ∧
        ∀ failure after, c.check (.text s) ctx before = .error failure after →
          failure = .invalid ctx.path) ∧
      ∀ s : String, '%' ∉ s.toList → AddressV6.accepts s.toList → Shapes.ipv6.accepts s := by
  have shaped := free.shaped (.atom (.pattern Shapes.ipv6))
  refine ⟨⟨_, make_ipv6 string coerced free, fun s ctx before => ?_⟩, fun s noZone accepted => ?_⟩
  · refine Checker.accepts_iff_of (fun address => ?_) fun other => ?_
    · exact ⟨_, Checker.check_ipv6_of_isAddress shaped address ctx before⟩
    · exact Checker.check_ipv6_of_not_isAddress shaped other ctx before
  · exact ((AddressV6.accepts_iff_of_notMem noZone).mp accepted).shape

theorem make_ipv6_accepts_default :
    Kinds.builtin.KnowsString ∧ Options.coerce {} .absent [] = .ok {} ∧ Options.Free {} ∧
      (∃ c, make {} Kinds.builtin (.builtin .ipv6) .absent [] = .ok c ∧
        ∀ (s : String) (ctx : Context) (before : Store),
          ((∃ r after, c.check (.text s) ctx before = .ok r after) ↔
            AddressV6.IsAddress s.toList) ∧
          ∀ failure after, c.check (.text s) ctx before = .error failure after →
            failure = .invalid ctx.path) ∧
        ∀ s : String, '%' ∉ s.toList → AddressV6.accepts s.toList → Shapes.ipv6.accepts s := by
  have free : Options.Free {} := ⟨rfl, rfl, rfl, rfl⟩
  exact ⟨Kinds.find?_string, rfl, free, make_ipv6_accepts_iff Kinds.find?_string rfl free⟩

end Factory

end Assay
