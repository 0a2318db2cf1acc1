import Assay.Proofs.Parts
import Assay.Proofs.Spelling

/-!
Languages of parts and marks: single characters in front of the texts of a language or behind them,
and numbers of texts of a language with a mark between them.
-/

set_option autoImplicit false
set_option relaxedAutoImplicit false

namespace Assay

namespace Shapes

theorem has_none (items : List ClassItem) (c : Char) :
    CharClass.has { negated := true, items } c ↔ ¬CharClass.has { items } c := by
  simp only [CharClass.has, Bool.bne_true, Bool.bne_false, Bool.not_eq_true', Bool.not_eq_true]

theorem has_append (first second : List ClassItem) (c : Char) :
    CharClass.has { items := first ++ second } c ↔
      CharClass.has { items := first } c ∨ CharClass.has { items := second } c := by
  simp only [CharClass.has, List.any_append, Bool.bne_false, Bool.or_eq_true]

theorem has_marks (marks : List Char) (c : Char) :
    CharClass.has { items := marks.map mark } c ↔ c ∈ marks := by
  induction marks with
  | nil => simp [has_nil]
  | cons d marks ih =>
    rw [List.map_cons, has_cons, ih, mark, has_point, Char.toNat_inj, List.mem_cons]

end Shapes

namespace Language

open Shapes

variable {language : Language}

theorem append_assoc (first second third : Language) :
    append (append first second) third = append first (append second third) := by
  funext s
  refine propext ⟨?_, ?_⟩
  · rintro ⟨_, c, rfl, ⟨a, b, rfl, inFirst, inSecond⟩, inThird⟩
    exact ⟨a, b ++ c, List.append_assoc a b c, inFirst, b, c, rfl, inSecond, inThird⟩
  · rintro ⟨a, _, rfl, inFirst, b, c, rfl, inSecond, inThird⟩
    exact ⟨a ++ b, c, (List.append_assoc a b c).symm, ⟨a, b, rfl, inFirst, inSecond⟩, inThird⟩

theorem ofClass_nil (cls : CharClass) : ¬ofClass cls [] := by
  rintro ⟨c, empty, _⟩
  cases empty

theorem repeats_one_iff (cls : CharClass) (s : List Char) :
    repeats 1 none (ofClass cls) s ↔ s ≠ [] ∧ ∀ c ∈ s, cls.has c := by
  rw [repeats_ofClass, Nat.succ_le_iff, List.length_pos_iff]
  simp

abbrev point (c : Char) : Language := ofClass { items := [.point c.toNat] }

theorem point_iff (c : Char) (s : List Char) : point c s ↔ s = [c] := by
  constructor
  · rintro ⟨d, rfl, has⟩
    rw [(has_char c d).mp has]
  · rintro rfl
    exact ⟨c, rfl, (has_char c c).mpr rfl⟩

theorem append_point_iff (c : Char) (language : Language) (s : List Char) :
    append (point c) language s ↔ ∃ rest, language rest ∧ s = c :: rest := by
  simp only [append, point_iff]
  constructor
  · rintro ⟨_, rest, rfl, rfl, inside⟩
    exact ⟨rest, inside, rfl⟩
  · rintro ⟨rest, inside, rfl⟩
    exact ⟨[c], rest, rfl, rfl, inside⟩

theorem append_point_right_iff (c : Char) (language : Language) (s : List Char) :
    append language (point c) s ↔ ∃ front, language front ∧ s = front ++ [c] := by
  simp only [append, point_iff]
  constructor
  · rintro ⟨front, _, rfl, inside, rfl⟩
    exact ⟨front, inside, rfl⟩
  · rintro ⟨front, inside, rfl⟩
    exact ⟨front, [c], rfl, inside, rfl⟩

theorem append_point_nil (c : Char) (language : Language) : ¬append (point c) language [] := by
  intro inside
  obtain ⟨rest, _, empty⟩ := (append_point_iff c language []).mp inside
  cases empty

theorem append_point_right_nil (c : Char) (language : Language) :
    ¬append language (point c) [] := by
  intro inside
  obtain ⟨front, _, empty⟩ := (append_point_right_iff c language []).mp inside
  exact List.append_ne_nil_of_right_ne_nil front (List.cons_ne_nil c []) empty.symm

/-- A number of texts of a language with a mark between them. -/
def joined (mark : Char) (language : Language) (n : Nat) : Language :=
  fun s => ∃ parts : List (List Char), parts.length = n ∧ (∀ part ∈ parts, language part) ∧
    s = [mark].intercalate parts

theorem joined_one (mark : Char) (language : Language) : joined mark language 1 = language := by
  funext s
  refine propext ⟨?_, fun inside => ⟨[s], rfl, by simpa using inside, ?_⟩⟩
  · rintro ⟨parts, one, all, rfl⟩
    obtain ⟨part, rfl⟩ := List.length_eq_one_iff.mp one
    rw [List.intercalate_singleton]
    exact all part List.mem_cons_self
  · rw [List.intercalate_singleton]

theorem joined_succ (mark : Char) (language : Language) (n : Nat) :
    joined mark language (n + 2) =
      append language (append (point mark) (joined mark language (n + 1))) := by
  funext s
  refine propext ⟨?_, ?_⟩
  · rintro ⟨parts, size, all, rfl⟩
    obtain ⟨first, parts, rfl⟩ := List.exists_cons_of_length_eq_add_one size
    obtain ⟨inside, others⟩ := List.forall_mem_cons.mp all
    have size : parts.length = n + 1 := Nat.succ.inj size
    have more : parts ≠ [] := List.ne_nil_of_length_eq_add_one size
    have rest : joined mark language (n + 1) ([mark].intercalate parts) :=
      ⟨parts, size, others, rfl⟩
    refine ⟨first, _, ?_, inside, (append_point_iff mark _ _).mpr ⟨_, rest, rfl⟩⟩
    rw [List.intercalate_cons_of_ne_nil more, List.append_assoc, List.singleton_append]
  · rintro ⟨first, _, rfl, inside, rest⟩
    obtain ⟨_, ⟨parts, size, others, rfl⟩, rfl⟩ := (append_point_iff mark _ _).mp rest
    have more : parts ≠ [] := List.ne_nil_of_length_eq_add_one size
    refine ⟨first :: parts, congrArg (· + 1) size, List.forall_mem_cons.mpr ⟨inside, others⟩, ?_⟩
    rw [List.intercalate_cons_of_ne_nil more, List.append_assoc, List.singleton_append]

end Language

theorem Regex.takes_lit (c : Char) : Matcher.Takes (Regex.lit c).run (Language.point c) :=
  Regex.takes_char _

end Assay
