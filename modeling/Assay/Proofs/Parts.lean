import Assay.Text.Split

/-!
Texts between marks. Splitting a text at a mark and joining parts by marks undo each other, as long
as no part has the mark in it and there is at least one.
-/

set_option autoImplicit false
set_option relaxedAutoImplicit false

namespace Assay.Text

variable {mark : Char} {s : List Char} {parts : List (List Char)}

theorem splitAt_of_notMem (free : mark ∉ s) : splitAt mark s = [s] := by
  induction s with
  | nil => rfl
  | cons c rest ih =>
    rw [List.mem_cons, not_or] at free
    rw [splitAt, if_neg (by simpa using Ne.symm free.1), ih free.2]

theorem splitAt_append (free : mark ∉ s) (rest : List Char) :
    splitAt mark (s ++ mark :: rest) = s :: splitAt mark rest := by
  induction s with
  | nil => rw [List.nil_append, splitAt, if_pos (beq_self_eq_true mark)]
  | cons c s ih =>
    rw [List.mem_cons, not_or] at free
    rw [List.cons_append, splitAt, if_neg (by simpa using Ne.symm free.1), ih free.2]

theorem splitAt_intercalate (first : List Char) (rest : List (List Char))
    (free : ∀ part ∈ first :: rest, mark ∉ part) :
    splitAt mark ([mark].intercalate (first :: rest)) = first :: rest := by
  induction rest generalizing first with
  | nil =>
    rw [List.intercalate_singleton]
    exact splitAt_of_notMem (free first List.mem_cons_self)
  | cons second rest ih =>
    rw [List.intercalate_cons_cons, List.append_assoc, List.singleton_append,
      splitAt_append (free first List.mem_cons_self),
      ih second fun part member => free part (List.mem_cons_of_mem first member)]

theorem exists_splitAt (mark : Char) (s : List Char) :
    ∃ first rest, (∀ part ∈ first :: rest, mark ∉ part) ∧
      s = [mark].intercalate (first :: rest) ∧ splitAt mark s = first :: rest := by
  suffices made : ∃ first rest, (∀ part ∈ first :: rest, mark ∉ part) ∧
      s = [mark].intercalate (first :: rest) by
    obtain ⟨first, rest, free, rfl⟩ := made
    exact ⟨first, rest, free, rfl, splitAt_intercalate first rest free⟩
  induction s with
  | nil => exact ⟨[], [], by simp, rfl⟩
  | cons c s ih =>
    obtain ⟨first, rest, free, rfl⟩ := ih
    by_cases same : c = mark
    · refine ⟨[], first :: rest, List.forall_mem_cons.mpr ⟨List.not_mem_nil, free⟩, ?_⟩
      rw [same, List.intercalate_cons_cons]
      rfl
    · obtain ⟨freeFirst, freeRest⟩ := List.forall_mem_cons.mp free
      have longer : mark ∉ c :: first := by
        rw [List.mem_cons, not_or]
        exact ⟨Ne.symm same, freeFirst⟩
      refine ⟨c :: first, rest, List.forall_mem_cons.mpr ⟨longer, freeRest⟩, ?_⟩
      cases rest with
      | nil => rw [List.intercalate_singleton, List.intercalate_singleton]
      | cons second rest =>
        rw [List.intercalate_cons_cons, List.intercalate_cons_cons]
        rfl

/-- A text is split into parts without marks if it is these parts joined by marks. -/
theorem splitAt_eq_iff (present : parts ≠ []) (free : ∀ part ∈ parts, mark ∉ part) :
    splitAt mark s = parts ↔ s = [mark].intercalate parts := by
  obtain ⟨first, rest, rfl⟩ := List.exists_cons_of_ne_nil present
  constructor
  · intro split
    obtain ⟨_, _, _, made, found⟩ := exists_splitAt mark s
    rw [made, ← found, split]
  · rintro rfl
    exact splitAt_intercalate first rest free

theorem intercalate_splitAt (mark : Char) (s : List Char) :
    [mark].intercalate (splitAt mark s) = s := by
  obtain ⟨first, rest, _, made, found⟩ := exists_splitAt mark s
  rw [found, ← made]

theorem intercalate_cons_flatMap (mark : Char) (first : List Char) (rest : List (List Char)) :
    [mark].intercalate (first :: rest) = first ++ rest.flatMap (mark :: ·) := by
  induction rest generalizing first with
  | nil => rw [List.intercalate_singleton, List.flatMap_nil, List.append_nil]
  | cons second rest ih =>
    rw [List.intercalate_cons_cons, ih second, List.flatMap_cons, List.append_assoc,
      List.singleton_append, List.cons_append]

theorem forall_mem_intercalate {p : Char → Prop} (atMark : p mark)
    (inParts : ∀ part ∈ parts, ∀ c ∈ part, p c) : ∀ c ∈ [mark].intercalate parts, p c := by
  induction parts with
  | nil => intro c member; cases member
  | cons part parts ih =>
    obtain ⟨first, others⟩ := List.forall_mem_cons.mp inParts
    by_cases last : parts = []
    · rw [last, List.intercalate_singleton]
      exact first
    · rw [List.intercalate_cons_of_ne_nil last]
      intro c member
      rcases List.mem_append.mp member with member | member
      · rcases List.mem_append.mp member with member | member
        · exact first c member
        · rwa [List.mem_singleton.mp member]
      · exact ih others c member

theorem intercalate_append {before after : List (List Char)} (first : before ≠ [])
    (last : after ≠ []) :
    [mark].intercalate (before ++ after) =
      [mark].intercalate before ++ mark :: [mark].intercalate after := by
  induction before with
  | nil => exact absurd rfl first
  | cons part before ih =>
    cases before with
    | nil =>
      rw [List.singleton_append, List.intercalate_cons_of_ne_nil last,
        List.intercalate_singleton, List.append_assoc, List.singleton_append]
    | cons second before =>
      rw [List.cons_append, List.intercalate_cons_of_ne_nil (by simp), ih (by simp),
        List.intercalate_cons_cons, List.append_assoc, List.append_assoc, List.append_assoc]

end Assay.Text
