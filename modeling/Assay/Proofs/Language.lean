import Assay.Format.Shapes
import Assay.Pattern.Match

/-!
Languages of expressions. An expression without anchors takes a beginning of the text that is left
and hands the rest to its continuation; which beginnings it may take is its language. Continuations
that do not look at what groups took are all that a language can speak about.
-/

set_option autoImplicit false
set_option relaxedAutoImplicit false

namespace Assay

abbrev Language := List Char → Prop

namespace Language

def append (first second : Language) : Language :=
  fun s => ∃ a b, s = a ++ b ∧ first a ∧ second b

def power (language : Language) : Nat → Language
  | 0 => fun s => s = []
  | n + 1 => append language (power language n)

def orEmpty (language : Language) : Language := fun s => s = [] ∨ language s

def either (first second : Language) : Language := fun s => first s ∨ second s

def ofClass (cls : CharClass) : Language := fun s => ∃ c, s = [c] ∧ cls.has c

theorem append_iff {first second : Language} {after : List Char}
    {p : List Char → List Char → Prop} :
    (∃ s rest, after = s ++ rest ∧ append first second s ∧ p s rest) ↔
      ∃ a rest, after = a ++ rest ∧ first a ∧
        ∃ b later, rest = b ++ later ∧ second b ∧ p (a ++ b) later := by
  constructor
  · rintro ⟨s, rest, rfl, ⟨a, b, rfl, inFirst, inSecond⟩, holds⟩
    exact ⟨a, b ++ rest, List.append_assoc a b rest, inFirst, b, rest, rfl, inSecond, holds⟩
  · rintro ⟨a, rest, rfl, inFirst, b, later, rfl, inSecond, holds⟩
    exact ⟨a ++ b, later, (List.append_assoc a b later).symm, ⟨a, b, rfl, inFirst, inSecond⟩, holds⟩

theorem orEmpty_iff {language : Language} {after : List Char}
    {p : List Char → List Char → Prop} :
    (∃ s rest, after = s ++ rest ∧ orEmpty language s ∧ p s rest) ↔
      (∃ s rest, after = s ++ rest ∧ language s ∧ p s rest) ∨ p [] after := by
  constructor
  · rintro ⟨s, rest, split, rfl | inside, holds⟩
    · rw [List.nil_append] at split
      rw [split]
      exact Or.inr holds
    · exact Or.inl ⟨s, rest, split, inside, holds⟩
  · rintro (⟨s, rest, split, inside, holds⟩ | holds)
    · exact ⟨s, rest, split, Or.inr inside, holds⟩
    · exact ⟨[], after, rfl, Or.inl rfl, holds⟩

/-- The texts that consist of a number of texts of a language, where the number has a lower bound
and may have an upper one. -/
def repeats (least : Nat) (most : Option Nat) (language : Language) : Language :=
  fun s => ∃ n, least ≤ n ∧ (∀ m ∈ most, n ≤ m) ∧ power language n s

private theorem bound_succ {most : Option Nat} (free : most ≠ some 0) (n : Nat) :
    (∀ m ∈ most, n + 1 ≤ m) ↔ ∀ m ∈ most.map (· - 1), n ≤ m := by
  cases most with
  | none => simp
  | some m =>
    have positive : m ≠ 0 := fun zero => free (congrArg some zero)
    simp only [Option.map_some, Option.mem_def, Option.some.injEq, forall_eq']
    omega

theorem repeats_full (language : Language) (s : List Char) :
    repeats 0 (some 0) language s ↔ s = [] := by
  constructor
  · rintro ⟨n, _, none, inside⟩
    obtain rfl := Nat.le_zero.mp (none 0 rfl)
    exact inside
  · intro empty
    exact ⟨0, Nat.le_refl 0, fun _ _ => Nat.zero_le _, empty⟩

theorem repeats_succ {most : Option Nat} (free : most ≠ some 0) (least : Nat)
    (language : Language) (s : List Char) :
    repeats (least + 1) most language s ↔
      append language (repeats least (most.map (· - 1)) language) s := by
  constructor
  · rintro ⟨n, low, high, inside⟩
    obtain ⟨n, rfl⟩ := Nat.exists_eq_add_of_le' (Nat.le_trans (Nat.le_add_left 1 least) low)
    obtain ⟨a, b, rfl, first, others⟩ := inside
    exact ⟨a, b, rfl, first, n, Nat.le_of_succ_le_succ low, (bound_succ free n).mp high, others⟩
  · rintro ⟨a, b, rfl, first, n, low, high, others⟩
    exact ⟨n + 1, Nat.succ_le_succ low, (bound_succ free n).mpr high, a, b, rfl, first, others⟩

theorem repeats_zero {most : Option Nat} (free : most ≠ some 0) (language : Language)
    (s : List Char) :
    repeats 0 most language s ↔
      orEmpty (append language (repeats 0 (most.map (· - 1)) language)) s := by
  constructor
  · rintro ⟨n, low, high, inside⟩
    cases n with
    | zero => exact Or.inl inside
    | succ n =>
      obtain ⟨a, b, rfl, first, others⟩ := inside
      exact Or.inr ⟨a, b, rfl, first, n, Nat.zero_le n, (bound_succ free n).mp high, others⟩
  · rintro (rfl | ⟨a, b, rfl, first, n, low, high, others⟩)
    · exact ⟨0, Nat.le_refl 0, fun _ _ => Nat.zero_le _, rfl⟩
    · exact ⟨n + 1, Nat.zero_le _, (bound_succ free n).mpr high, a, b, rfl, first, others⟩

def powers (least most : Nat) (language : Language) : Language :=
  fun s => ∃ n, least ≤ n ∧ n ≤ most ∧ power language n s

theorem powers_eq_repeats (least most : Nat) (language : Language) :
    powers least most language = repeats least (some most) language := by
  funext s
  simp only [powers, repeats, Option.mem_def, Option.some.injEq, forall_eq']

theorem power_ofClass (cls : CharClass) (n : Nat) (s : List Char) :
    power (ofClass cls) n s ↔ s.length = n ∧ ∀ c ∈ s, cls.has c := by
  induction n generalizing s with
  | zero =>
    rw [power, List.length_eq_zero_iff]
    constructor
    · rintro rfl
      exact ⟨rfl, by simp⟩
    · exact fun h => h.1
  | succ n ih =>
    constructor
    · rintro ⟨a, b, rfl, ⟨c, rfl, has⟩, rest⟩
      obtain ⟨size, all⟩ := (ih b).mp rest
      exact ⟨by simp [size], by simpa using ⟨has, all⟩⟩
    · rintro ⟨size, all⟩
      cases s with
      | nil => simp at size
      | cons c rest =>
        simp only [List.length_cons, Nat.add_right_cancel_iff] at size
        exact ⟨[c], rest, rfl, ⟨c, rfl, all c List.mem_cons_self⟩,
          (ih rest).mpr ⟨size, fun d member => all d (List.mem_cons_of_mem c member)⟩⟩

/-- Where the texts of a language are parts in some dress, a number of them is that number of parts
in their dress, one after the other. -/
theorem power_dressed {inner language : Language} (dress : List Char → List Char)
    (dressed : ∀ s, language s ↔ ∃ part, inner part ∧ s = dress part) (n : Nat) (s : List Char) :
    power language n s ↔
      ∃ parts : List (List Char), parts.length = n ∧ (∀ part ∈ parts, inner part) ∧
        s = parts.flatMap dress := by
  induction n generalizing s with
  | zero =>
    constructor
    · rintro rfl
      exact ⟨[], rfl, by simp, rfl⟩
    · rintro ⟨parts, none, _, rfl⟩
      obtain rfl := List.length_eq_zero_iff.mp none
      rfl
  | succ n ih =>
    constructor
    · rintro ⟨a, b, rfl, first, others⟩
      obtain ⟨part, inside, rfl⟩ := (dressed a).mp first
      obtain ⟨parts, rfl, all, rfl⟩ := (ih b).mp others
      exact ⟨part :: parts, rfl, List.forall_mem_cons.mpr ⟨inside, all⟩, rfl⟩
    · rintro ⟨parts, size, all, rfl⟩
      obtain ⟨part, parts, rfl⟩ := List.exists_cons_of_length_eq_add_one size
      obtain ⟨inside, others⟩ := List.forall_mem_cons.mp all
      refine ⟨dress part, parts.flatMap dress, rfl, (dressed _).mpr ⟨part, inside, rfl⟩, ?_⟩
      exact (ih _).mpr ⟨parts, Nat.succ.inj size, others, rfl⟩

theorem repeats_dressed {inner language : Language} (dress : List Char → List Char)
    (dressed : ∀ s, language s ↔ ∃ part, inner part ∧ s = dress part) (least : Nat)
    (s : List Char) :
    repeats least none language s ↔
      ∃ parts : List (List Char), least ≤ parts.length ∧ (∀ part ∈ parts, inner part) ∧
        s = parts.flatMap dress := by
  simp only [repeats, power_dressed dress dressed]
  constructor
  · rintro ⟨n, low, _, parts, rfl, all, made⟩
    exact ⟨parts, low, all, made⟩
  · rintro ⟨parts, low, all, made⟩
    exact ⟨parts.length, low, by simp, parts, rfl, all, made⟩

theorem repeats_ofClass (cls : CharClass) (least : Nat) (most : Option Nat) (s : List Char) :
    repeats least most (ofClass cls) s ↔
      (least ≤ s.length ∧ ∀ m ∈ most, s.length ≤ m) ∧ ∀ c ∈ s, cls.has c := by
  simp only [repeats, power_ofClass]
  constructor
  · rintro ⟨n, low, high, rfl, all⟩
    exact ⟨⟨low, high⟩, all⟩
  · rintro ⟨⟨low, high⟩, all⟩
    exact ⟨s.length, low, high, rfl, all⟩

theorem powers_ofClass (cls : CharClass) (least most : Nat) (s : List Char) :
    powers least most (ofClass cls) s ↔
      (least ≤ s.length ∧ s.length ≤ most) ∧ ∀ c ∈ s, cls.has c := by
  simp only [powers_eq_repeats, repeats_ofClass, Option.mem_def, Option.some.injEq, forall_eq']

end Language

/-- A continuation succeeds or fails whatever groups took. -/
def Indifferent (k : Continuation) : Prop :=
  ∀ cursor taken other, (k cursor taken).isSome = (k cursor other).isSome

/-- A way to match takes the beginnings of a language. -/
def Matcher.Takes (m : Matcher) (language : Language) : Prop :=
  ∀ before after taken k, Indifferent k →
    ((m ⟨before, after⟩ taken k).isSome ↔ ∃ s rest, after = s ++ rest ∧ language s ∧
      (k ⟨s.reverse ++ before, rest⟩ taken).isSome)

namespace Matcher

theorem Takes.indifferent {m : Matcher} {language : Language} (takes : m.Takes language)
    {k : Continuation} (indifferent : Indifferent k) :
    Indifferent fun cursor taken => m cursor taken k := by
  rintro ⟨before, after⟩ taken other
  rw [Bool.eq_iff_iff, takes before after taken k indifferent,
    takes before after other k indifferent]
  simp only [indifferent _ taken other]

end Matcher

namespace Regex

open Assay.Language

theorem takes_char (cls : CharClass) : Matcher.Takes (Regex.char cls).run (ofClass cls) := by
  intro before after taken k _
  cases after with
  | nil =>
    simp only [run, Cursor.next?, Option.isSome_none, Bool.false_eq_true, false_iff]
    rintro ⟨s, rest, empty, ⟨c, rfl, _⟩, _⟩
    simp at empty
  | cons c after =>
    simp only [run, Cursor.next?]
    constructor
    · intro found
      split at found
      · rename_i has
        exact ⟨[c], after, rfl, ⟨c, rfl, has⟩, found⟩
      · cases found
    · rintro ⟨s, rest, split, ⟨d, rfl, has⟩, found⟩
      simp only [List.singleton_append, List.cons.injEq] at split
      obtain ⟨rfl, rfl⟩ := split
      rw [if_pos has]
      exact found

theorem takes_seq {first second : Regex} {firsts seconds : Language}
    (one : Matcher.Takes first.run firsts) (two : Matcher.Takes second.run seconds) :
    Matcher.Takes (Regex.seq first second).run (append firsts seconds) := by
  intro before after taken k indifferent
  rw [run, one before after taken _ (two.indifferent indifferent), append_iff]
  simp only [two _ _ _ _ indifferent, List.reverse_append, List.append_assoc]

private theorem repeated_exactly {body : Regex} {language : Language}
    (takes : Matcher.Takes body.run language) (n fuel : Nat) (enough : n < fuel)
    (last : Option Nat) :
    Matcher.Takes (Matcher.repeated body.run true fuel n (some n) last) (power language n) := by
  induction n generalizing fuel last with
  | zero =>
    obtain ⟨fuel, rfl⟩ := Nat.exists_eq_succ_of_ne_zero (Nat.ne_of_gt enough)
    intro before after taken k _
    have stops : Matcher.repeated body.run true (fuel + 1) 0 (some 0) last ⟨before, after⟩ taken k =
        k ⟨before, after⟩ taken := rfl
    rw [stops]
    constructor
    · intro found
      exact ⟨[], after, rfl, rfl, found⟩
    · rintro ⟨s, rest, split, rfl, found⟩
      rw [List.nil_append] at split
      rw [split]
      exact found
  | succ n ih =>
    obtain ⟨fuel, rfl⟩ := Nat.exists_eq_succ_of_ne_zero (Nat.ne_of_gt (Nat.zero_lt_of_lt enough))
    have rest := ih fuel (Nat.lt_of_succ_lt_succ enough) last
    intro before after taken k indifferent
    have enters : Matcher.repeated body.run true (fuel + 1) (n + 1) (some (n + 1)) last
        ⟨before, after⟩ taken k = body.run ⟨before, after⟩ taken fun cursor taken =>
          Matcher.repeated body.run true fuel n (some n) last cursor taken k := rfl
    rw [enters, takes before after taken _ (rest.indifferent indifferent), power, append_iff]
    simp only [rest _ _ _ _ indifferent, List.reverse_append, List.append_assoc]

theorem takes_times (n : Nat) {body : Regex} {language : Language}
    (takes : Matcher.Takes body.run language) :
    Matcher.Takes (times n body).run (power language n) := by
  intro before after taken k indifferent
  have run : (times n body).run ⟨before, after⟩ taken k =
      Matcher.repeated body.run true (n + after.length + 2) n (some n) none ⟨before, after⟩ taken
        k := rfl
  rw [run]
  exact repeated_exactly takes n _ (by omega) none before after taken k indifferent

private theorem isSome_orElse {α : Type} (x : Option α) (y : Unit → Option α) :
    (x.orElse y).isSome ↔ x.isSome ∨ (y ()).isSome := by
  rw [Option.orElse_eq_or, Option.isSome_or, Bool.or_eq_true]

private theorem indifferent_repeated {body : Matcher} {language : Language}
    (takes : body.Takes language) (greedy : Bool) {k : Continuation} (indifferent : Indifferent k)
    (fuel least : Nat) (most last : Option Nat) :
    Indifferent fun cursor taken =>
      Matcher.repeated body greedy fuel least most last cursor taken k := by
  induction fuel generalizing least most last with
  | zero => exact fun _ _ _ => rfl
  | succ fuel ih =>
    cases least with
    | succ least => exact takes.indifferent (ih least (most.map (· - 1)) last)
    | zero =>
      intro cursor taken other
      have again := takes.indifferent (ih 0 (most.map (· - 1)) (some cursor.after.length)) cursor
        taken other
      have stop := indifferent cursor taken other
      simp only at again
      cases barred : most == some 0 || last == some cursor.after.length <;> cases greedy <;>
        simp only [Matcher.repeated, barred, Option.orElse_eq_or, Option.isSome_or, again, stop,
          Bool.false_eq_true, if_false, if_true, Option.isSome_none]

/-- By choice a part that takes no empty text is repeated, up to a number of times if there is an
upper bound; the text that was left when it was last entered is longer than the one that is left
now. -/
private theorem repeated_byChoice {body : Regex} {language : Language}
    (takes : Matcher.Takes body.run language) (moves : ¬language []) {k : Continuation}
    (indifferent : Indifferent k) (fuel : Nat) (most : Option Nat) (before after : List Char)
    (enough : after.length < fuel) (last : Option Nat)
    (longer : ∀ left, last = some left → after.length < left) (taken : Captures) :
    (Matcher.repeated body.run true fuel 0 most last ⟨before, after⟩ taken k).isSome ↔
      ∃ s rest, after = s ++ rest ∧ repeats 0 most language s ∧
        (k ⟨s.reverse ++ before, rest⟩ taken).isSome := by
  induction fuel generalizing most before after last with
  | zero => exact absurd enough (Nat.not_lt_zero _)
  | succ fuel ih =>
    by_cases full : most = some 0
    · subst full
      have stops : Matcher.repeated body.run true (fuel + 1) 0 (some 0) last ⟨before, after⟩ taken
          k = k ⟨before, after⟩ taken := rfl
      rw [stops]
      simp only [repeats_full]
      constructor
      · intro found
        exact ⟨[], after, rfl, rfl, found⟩
      · rintro ⟨s, rest, rfl, rfl, found⟩
        exact found
    · have free : (most == some 0 || last == some after.length) = false := by
        rw [Bool.or_eq_false_iff, beq_eq_false_iff_ne, beq_eq_false_iff_ne]
        refine ⟨full, fun same => ?_⟩
        exact Nat.lt_irrefl _ (longer after.length same)
      have chooses : Matcher.repeated body.run true (fuel + 1) 0 most last ⟨before, after⟩ taken k =
          (body.run ⟨before, after⟩ taken fun cursor taken =>
            Matcher.repeated body.run true fuel 0 (most.map (· - 1)) (some after.length) cursor
              taken k).orElse fun _ => k ⟨before, after⟩ taken := by
        simp only [Matcher.repeated, free, Bool.false_eq_true, if_false, if_true]
      have again := indifferent_repeated takes true indifferent fuel 0 (most.map (· - 1))
        (some after.length)
      rw [chooses, isSome_orElse, takes before after taken _ again]
      simp only [repeats_zero full, orEmpty_iff, append_iff, List.reverse_append,
        List.append_assoc]
      refine or_congr (exists_congr fun a => exists_congr fun rest => ?_) Iff.rfl
      refine and_congr_right fun split => and_congr_right fun inside => ?_
      -- Each round takes at least one character, so the fuel lasts for the text that is left.
      have shorter : rest.length < after.length := by
        have present : a ≠ [] := fun empty => moves (empty ▸ inside)
        have size := List.length_pos_iff.mpr present
        rw [split, List.length_append]
        omega
      refine ih (most.map (· - 1)) (a.reverse ++ before) rest (by omega) (some after.length) ?_
      intro left same
      rw [← Option.some.inj same]
      exact shorter

private theorem repeated_within {body : Regex} {language : Language}
    (takes : Matcher.Takes body.run language) (moves : ¬language []) {k : Continuation}
    (indifferent : Indifferent k) (least fuel : Nat) (most : Option Nat)
    (bounds : ∀ m ∈ most, least ≤ m) (before after : List Char)
    (enough : least + after.length < fuel) (taken : Captures) :
    (Matcher.repeated body.run true fuel least most none ⟨before, after⟩ taken k).isSome ↔
      ∃ s rest, after = s ++ rest ∧ repeats least most language s ∧
        (k ⟨s.reverse ++ before, rest⟩ taken).isSome := by
  induction least generalizing most fuel before after with
  | zero =>
    exact repeated_byChoice takes moves indifferent fuel most before after (by omega) none
      (fun left same => by cases same) taken
  | succ least ih =>
    obtain ⟨fuel, rfl⟩ := Nat.exists_eq_succ_of_ne_zero (Nat.ne_of_gt (Nat.zero_lt_of_lt enough))
    have free : most ≠ some 0 := by
      rintro rfl
      exact Nat.not_succ_le_zero least (bounds 0 rfl)
    have enters : Matcher.repeated body.run true (fuel + 1) (least + 1) most none ⟨before, after⟩
        taken k = body.run ⟨before, after⟩ taken fun cursor taken =>
          Matcher.repeated body.run true fuel least (most.map (· - 1)) none cursor taken k := rfl
    have again := indifferent_repeated takes true indifferent fuel least (most.map (· - 1)) none
    rw [enters, takes before after taken _ again]
    simp only [repeats_succ free, append_iff, List.reverse_append, List.append_assoc]
    refine exists_congr fun a => exists_congr fun rest => ?_
    refine and_congr_right fun split => and_congr_right fun _ => ?_
    have size : after.length = a.length + rest.length := by rw [split, List.length_append]
    exact ih fuel (most.map (· - 1)) ((bound_succ free least).mp bounds) (a.reverse ++ before) rest
      (by omega)

theorem takes_many {least : Nat} {most : Option Nat} (bounds : ∀ m ∈ most, least ≤ m)
    {body : Regex} {language : Language} (takes : Matcher.Takes body.run language)
    (moves : ¬language []) :
    Matcher.Takes (Regex.many body least most true).run (repeats least most language) := by
  intro before after taken k indifferent
  have run : (Regex.many body least most true).run ⟨before, after⟩ taken k =
      Matcher.repeated body.run true (least + after.length + 2) least most none ⟨before, after⟩
        taken k := rfl
  rw [run]
  exact repeated_within takes moves indifferent least _ most bounds before after (by omega) taken

theorem takes_between {least most : Nat} (bounds : least ≤ most) {body : Regex}
    {language : Language} (takes : Matcher.Takes body.run language) (moves : ¬language []) :
    Matcher.Takes (between least most body).run (powers least most language) := by
  rw [powers_eq_repeats]
  refine takes_many (fun m only => ?_) takes moves
  obtain rfl := Option.some.inj only
  exact bounds

theorem takes_unbounded (least : Nat) {body : Regex} {language : Language}
    (takes : Matcher.Takes body.run language) (moves : ¬language []) :
    Matcher.Takes (Regex.many body least none true).run (repeats least none language) :=
  takes_many (fun m absent => by cases absent) takes moves

theorem takes_alt {first second : Regex} {firsts seconds : Language}
    (one : Matcher.Takes first.run firsts) (two : Matcher.Takes second.run seconds) :
    Matcher.Takes (Regex.alt first second).run (either firsts seconds) := by
  intro before after taken k indifferent
  have run : (Regex.alt first second).run ⟨before, after⟩ taken k =
      (first.run ⟨before, after⟩ taken k).orElse fun _ => second.run ⟨before, after⟩ taken k := rfl
  rw [run, isSome_orElse, one before after taken k indifferent,
    two before after taken k indifferent]
  simp only [either, or_and_right, and_or_left, exists_or]

theorem takes_group (number : Nat) {body : Regex} {language : Language}
    (takes : Matcher.Takes body.run language) :
    Matcher.Takes (Regex.group number body).run language := by
  intro before after taken k indifferent
  have noted : Indifferent fun cursor taken => k cursor
      ((number, after.take (after.length - cursor.after.length)) :: taken) :=
    fun cursor taken other => indifferent cursor _ _
  have run : (Regex.group number body).run ⟨before, after⟩ taken k =
      body.run ⟨before, after⟩ taken fun cursor taken => k cursor
        ((number, after.take (after.length - cursor.after.length)) :: taken) := rfl
  rw [run, takes before after taken _ noted]
  simp only [indifferent _ _ taken]

theorem takes_maybe {body : Regex} {language : Language}
    (takes : Matcher.Takes body.run language) :
    Matcher.Takes (maybe body).run (orEmpty language) := by
  intro before after taken k indifferent
  have run : (maybe body).run ⟨before, after⟩ taken k =
      (body.run ⟨before, after⟩ taken k).orElse fun _ => k ⟨before, after⟩ taken := rfl
  rw [run, isSome_orElse, takes before after taken k indifferent, orEmpty_iff]
  rfl

private theorem run_chain_concat (parts : List Regex) (last : Regex) (cursor : Cursor)
    (taken : Captures) (k : Continuation) :
    (chain (parts ++ [last])).run cursor taken k =
      (chain parts).run cursor taken fun cursor taken => last.run cursor taken k := by
  induction parts generalizing cursor taken with
  | nil => rfl
  | cons first rest ih =>
    cases rest with
    | nil => rfl
    | cons second others =>
      have front : (chain (first :: second :: others ++ [last])).run cursor taken k =
          first.run cursor taken fun cursor taken =>
            (chain (second :: others ++ [last])).run cursor taken k := rfl
      rw [front]
      simp only [ih]
      rfl

/-- An expression between the start of the text and its end matches the texts of its language. -/
theorem matchesAll_whole (parts : List Regex) {language : Language}
    (takes : Matcher.Takes (chain parts).run language) (s : List Char) :
    (Shapes.whole parts).matchesAll s ↔ language s := by
  have start : (Shapes.whole parts).run ⟨[], s⟩ [] acceptAtEnd =
      (chain (parts ++ [.anchor .lastLineEnd])).run ⟨[], s⟩ [] acceptAtEnd := by
    cases parts <;> rfl
  have atEnd : (fun cursor taken => (Regex.anchor .lastLineEnd).run cursor taken acceptAtEnd) =
      acceptAtEnd := by
    funext cursor taken
    obtain ⟨before, after⟩ := cursor
    cases after with
    | nil => rfl
    | cons c rest => simp [run, acceptAtEnd]
  have indifferent : Indifferent acceptAtEnd := by
    intro cursor taken other
    simp only [acceptAtEnd]
    split <;> rfl
  rw [matchesAll, start, run_chain_concat, atEnd, takes [] s [] acceptAtEnd indifferent]
  constructor
  · rintro ⟨p, rest, rfl, inside, found⟩
    cases rest with
    | nil => rwa [List.append_nil]
    | cons c rest => cases found
  · exact fun inside => ⟨s, [], (List.append_nil s).symm, inside, rfl⟩

end Regex

end Assay
