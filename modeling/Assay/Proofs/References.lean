import Assay.Mode.Environment
import Mathlib.Data.List.DropRight
import Mathlib.Data.List.TakeDrop

/-!
References that are read back. A type is written into a reference as it is, whatever characters it
has, and what is read back is cut at dots and brackets. Main results: a reference that is read as
one without a type, or as one of the first checker configuration, was written for the type `checker`
or for a type of one of a few shapes; and each type of these shapes has such a reference.
-/

set_option autoImplicit false
set_option relaxedAutoImplicit false

namespace Assay

namespace Text

variable {mark : Char} {s before rest : List Char} {p : Char → Bool}

theorem span_append (passed : ∀ c ∈ before, p c) (stopped : ∀ c ∈ rest.head?, p c = false) :
    (before ++ rest).span p = (before, rest) := by
  rw [List.span_eq_takeWhile_dropWhile, List.takeWhile_append_of_pos passed,
    List.dropWhile_append_of_pos passed]
  cases rest with
  | nil => simp
  | cons c rest => simp [stopped c rfl]

theorem span_mark (free : mark ∉ before) (rest : List Char) :
    (before ++ mark :: rest).span (· != mark) = (before, mark :: rest) :=
  span_append (fun _ member => bne_iff_ne.mpr (ne_of_mem_of_not_mem member free)) (by simp)

theorem cutAtFirst_append (free : mark ∉ before) (behind : List Char) :
    cutAtFirst mark (before ++ mark :: behind) = (before, behind) := by
  rw [cutAtFirst, span_mark free]

theorem cutAtLast?_append (before : List Char) {behind : List Char} (free : mark ∉ behind) :
    cutAtLast? mark (before ++ mark :: behind) = some (before, behind) := by
  have turned : (before ++ mark :: behind).reverse = behind.reverse ++ mark :: before.reverse := by
    simp
  rw [cutAtLast?, turned, span_mark (by simpa using free)]
  simp

theorem exists_append_last (member : mark ∈ s) :
    ∃ before behind, s = before ++ mark :: behind ∧ mark ∉ behind := by
  obtain ⟨first, rest, turned, free⟩ := List.eq_append_cons_of_mem (List.mem_reverse.mpr member)
  refine ⟨rest.reverse, first.reverse, ?_, by simpa using free⟩
  rw [← List.reverse_reverse s, turned]
  simp

/-! What a whole number is written with. -/

theorem mem_trimPadding {c : Char} (member : c ∈ s) : isPadding c ∨ c ∈ trimPadding s := by
  rw [← List.takeWhile_append_dropWhile (p := isPadding) (l := s), List.mem_append] at member
  rcases member with leading | kept
  · exact Or.inl (List.mem_takeWhile_imp leading)
  · rw [← List.rdropWhile_append_rtakeWhile (p := isPadding) (l := s.dropWhile isPadding),
      List.mem_append] at kept
    exact kept.symm.imp_left List.mem_rtakeWhile_imp

theorem mem_takeSign {c : Char} (member : c ∈ s) : c = '-' ∨ c = '+' ∨ c ∈ (takeSign s).2 := by
  unfold takeSign
  split
  · exact (List.mem_cons.mp member).imp_right Or.inr
  · exact Or.inr (List.mem_cons.mp member)
  · exact Or.inr (Or.inr member)

theorem mem_joinGroups {afterDigit : Bool} {digits : List Char}
    (joined : joinGroups afterDigit s = some digits) {c : Char} (member : c ∈ s) :
    c = '_' ∨ c ∈ digits := by
  induction s generalizing afterDigit digits with
  | nil => cases member
  | cons first rest ih =>
    by_cases line : first = '_'
    · subst line
      rw [joinGroups] at joined
      split at joined
      · exact (List.mem_cons.mp member).elim Or.inl (ih joined)
      · cases joined
    · rw [joinGroups] at joined
      · obtain ⟨kept, later, rfl⟩ := Option.map_eq_some_iff.mp joined
        rcases List.mem_cons.mp member with rfl | member
        · exact Or.inr List.mem_cons_self
        · exact (ih later member).imp_right (List.mem_cons_of_mem first)
      · exact line

theorem mem_of_integer? {text : String} {n : Int} (read : integer? text = some n) {c : Char}
    (member : c ∈ text.toList) : isPadding c ∨ c = '-' ∨ c = '+' ∨ c = '_' ∨ isDigit c := by
  rw [integer?] at read
  obtain ⟨digits, joined, read⟩ := Option.bind_eq_some_iff.mp read
  have every : ∀ d ∈ digits, isDigit d := by
    split at read
    · cases read
    · rename_i proper
      simp only [Bool.or_eq_true, not_or, Bool.not_eq_true', Bool.not_eq_false] at proper
      exact List.all_eq_true.mp proper.1.2
  rcases mem_trimPadding member with padding | kept
  · exact Or.inl padding
  · refine Or.inr ((mem_takeSign kept).imp_right (Or.imp_right fun unsigned => ?_))
    exact (mem_joinGroups joined unsigned).imp_right (every c)

def WritesZero (number : List Char) : Prop := integer? (String.ofList number) = some 0

theorem WritesZero.unmarked {number : List Char} (zero : WritesZero number) :
    ∀ c ∈ number, c ≠ '.' ∧ c ≠ '[' ∧ c ≠ ']' := by
  intro c member
  rw [← String.toList_ofList (l := number)] at member
  have allowed := mem_of_integer? zero member
  refine ⟨?_, ?_, ?_⟩ <;> rintro rfl <;> exact absurd allowed (by decide)

theorem WritesZero.ne_nil {number : List Char} (zero : WritesZero number) : number ≠ [] := by
  rintro rfl
  have none : integer? (String.ofList []) = none := by decide
  cases none.symm.trans zero

end Text

namespace Reference

variable {base before name rest type : List Char} {selector : Option (List Char)}

/-- A selector as it stands in a reference: in brackets, or not at all. -/
def brackets : Option (List Char) → List Char
  | none => []
  | some text => '[' :: text ++ [']']

/-- What a text in brackets selects; without one it is the first configuration. -/
def selected : Option (List Char) → Selector
  | none => .index 0
  | some text => .ofReference (String.ofList text)

theorem selected_eq_first_iff (selector : Option (List Char)) :
    selected selector = .index 0 ↔ ∀ number ∈ selector, Text.WritesZero number := by
  cases selector with
  | none => simp [selected]
  | some text =>
    simp only [selected, Selector.ofReference, Option.mem_some_iff, forall_eq', Text.WritesZero]
    cases Text.integer? (String.ofList text) <;> simp

/-! The two ways to read what stands before an attribute. -/

/-- What may stand behind a type that is read exactly: a selector in brackets that is not empty, or
none, and perhaps a line end. -/
structure Closes (selector : Option (List Char)) (rest : List Char) : Prop where
  enclosed : ∀ text ∈ selector, text ≠ [] ∧ ']' ∉ text
  shape : rest = brackets selector ∨ rest = brackets selector ++ ['\n']

theorem strictSelector?_of_closes (closes : Closes selector rest) :
    strictSelector? rest = some selector := by
  obtain ⟨enclosed, shape⟩ := closes
  cases selector with
  | none => rcases shape with rfl | rfl <;> rfl
  | some text =>
    obtain ⟨present, free⟩ := enclosed text rfl
    obtain ⟨c, text, rfl⟩ := List.exists_cons_of_ne_nil present
    rcases shape with rfl | rfl
    · rw [brackets, List.cons_append, strictSelector?, Text.span_mark free]
      rfl
    · rw [brackets, List.cons_append, List.cons_append, List.append_assoc, List.singleton_append,
        strictSelector?, Text.span_mark free]
      rfl

theorem closes_of_strictSelector? (read : strictSelector? rest = some selector) :
    Closes selector rest := by
  unfold strictSelector? at read
  split at read
  · cases read
    exact ⟨by simp, Or.inl rfl⟩
  · cases read
    exact ⟨by simp, Or.inr rfl⟩
  · rename_i rest
    have whole := List.takeWhile_append_dropWhile (p := (· != ']')) (l := rest)
    have passed : ∀ c ∈ rest.takeWhile (· != ']'), (c != ']') = true := fun c =>
      List.mem_takeWhile_imp
    rw [List.span_eq_takeWhile_dropWhile] at read
    generalize rest.takeWhile (· != ']') = text at *
    generalize rest.dropWhile (· != ']') = closing at *
    have free : ']' ∉ text := fun member => by simpa using passed _ member
    have enclosed (present : text ≠ []) : ∀ inside ∈ some text, inside ≠ [] ∧ ']' ∉ inside := by
      rintro inside ⟨⟩
      exact ⟨present, free⟩
    split at read
    · cases read
    · rename_i present same
      cases read
      cases same
      exact ⟨enclosed present, Or.inl (by simp [brackets, ← whole])⟩
    · rename_i present same
      cases read
      cases same
      exact ⟨enclosed present, Or.inr (by simp [brackets, ← whole])⟩
    · cases read
  · cases read

/-- What is read exactly: a proper name or nothing, and what may stand behind it. -/
structure Exact (base name : List Char) (selector : Option (List Char)) : Prop where
  proper : ∀ c ∈ name, isNamePart c
  start : name.head?.all isNameStart
  rest : ∃ rest, Closes selector rest ∧ base = name ++ rest

theorem ne_mark_of_isNamePart {c : Char} (proper : isNamePart c) :
    c ≠ '.' ∧ c ≠ '[' ∧ c ≠ '\n' := by
  refine ⟨?_, ?_, ?_⟩ <;> rintro rfl <;> exact absurd proper (by decide)

theorem Closes.head? (closes : Closes selector rest) :
    ∀ c ∈ rest.head?, c = '[' ∨ c = '\n' := by
  rcases closes.shape with rfl | rfl <;> cases selector <;> simp [brackets]

theorem strictBase?_eq_some_iff :
    strictBase? base = some (name, selector) ↔ Exact base name selector := by
  rw [strictBase?]
  constructor
  · intro read
    have whole := List.takeWhile_append_dropWhile (p := isNamePart) (l := base)
    have proper : ∀ c ∈ base.takeWhile isNamePart, isNamePart c := fun c => List.mem_takeWhile_imp
    rw [List.span_eq_takeWhile_dropWhile] at read
    dsimp only at read
    split at read
    · rename_i start
      obtain ⟨_, closes, same⟩ := Option.map_eq_some_iff.mp read
      cases same
      exact ⟨proper, start, _, closes_of_strictSelector? closes, whole.symm⟩
    · cases read
  · rintro ⟨proper, start, rest, closes, rfl⟩
    have stopped : ∀ c ∈ rest.head?, isNamePart c = false := by
      intro c first
      rcases closes.head? c first with rfl | rfl <;> rfl
    rw [Text.span_append proper stopped]
    simp [start, strictSelector?_of_closes closes]

/-- What may stand behind a type that is read loosely: nothing, or a selector behind a bracket, with
closing brackets at its end. -/
inductive Trails : Option (List Char) → List Char → Prop
  | bare : Trails none []
  | selecting (text : List Char) (closing : Nat) :
    Trails (some text) ('[' :: (text ++ List.replicate closing ']'))

/-- What is read loosely: what stands before the first bracket, and what may stand behind it. -/
structure Loose (base name : List Char) (selector : Option (List Char)) : Prop where
  free : '[' ∉ name
  rest : ∃ rest, Trails selector rest ∧ base = name ++ rest

theorem exists_append_closing (s : List Char) :
    ∃ closing, s = s.rdropWhile (· == ']') ++ List.replicate closing ']' := by
  have closing : s.rtakeWhile (· == ']') =
      List.replicate (s.rtakeWhile (· == ']')).length ']' :=
    List.eq_replicate_iff.mpr ⟨rfl, fun c member => by simpa using List.mem_rtakeWhile_imp member⟩
  refine ⟨(s.rtakeWhile (· == ']')).length, ?_⟩
  rw [← closing, List.rdropWhile_append_rtakeWhile]

theorem rdropWhile_append_closing {s : List Char} (free : ']' ∉ s) (closing : Nat) :
    (s ++ List.replicate closing ']').rdropWhile (· == ']') = s := by
  induction closing with
  | zero =>
    rw [List.replicate_zero, List.append_nil, List.rdropWhile_eq_self_iff]
    intro present last
    exact free (beq_iff_eq.mp last ▸ List.getLast_mem present)
  | succ closing ih =>
    rw [List.replicate_succ', ← List.append_assoc, List.rdropWhile_concat_pos _ _ _ (by rfl), ih]

theorem loose_looseBase (base : List Char) :
    Loose base (looseBase base).1 (looseBase base).2 := by
  have whole : base.takeWhile (· != '[') ++ base.dropWhile (· != '[') = base :=
    List.takeWhile_append_dropWhile
  have free : '[' ∉ base.takeWhile (· != '[') := fun member => by
    simpa using List.mem_takeWhile_imp member
  rw [looseBase, List.span_eq_takeWhile_dropWhile]
  cases tail : base.dropWhile (· != '[') with
  | nil => exact ⟨free, [], .bare, by simpa [tail] using whole.symm⟩
  | cons c rest =>
    obtain rfl : c = '[' := by simpa [tail] using List.head?_dropWhile_not (· != '[') base
    obtain ⟨closing, trimmed⟩ := exists_append_closing rest
    refine ⟨free, _, .selecting (rest.rdropWhile (· == ']')) closing, ?_⟩
    rw [← trimmed]
    exact whole.symm.trans (congrArg _ tail)

theorem looseBase_append (free : '[' ∉ name) {text : List Char} (unclosed : ']' ∉ text)
    (closing : Nat) :
    looseBase (name ++ '[' :: (text ++ List.replicate closing ']')) = (name, some text) := by
  rw [looseBase, Text.span_mark free]
  exact congrArg (fun text => (name, some text)) (rdropWhile_append_closing unclosed closing)

/-! Reading a whole reference. -/

/-- What a reference says whose part before the attribute is known: if that is not read exactly, the
reference is read loosely, with an attribute of its own. -/
def interpret (reference base attr : List Char) : String × Selector × String :=
  match strictBase? base with
  | some (name, selector) => (String.ofList name, selected selector, String.ofList attr)
  | none =>
    let (before, behind) := Text.cutAtFirst '.' reference
    (String.ofList (looseBase before).1, selected (looseBase before).2, String.ofList behind)

theorem read_of_closed {reference : List Char} (closed : reference.getLast? = some ']') :
    read reference = interpret reference reference [] := by
  simp only [read, interpret, closed, BEq.rfl, if_true]
  cases strictBase? reference <;> rfl

theorem read_append (base : List Char) {attr : List Char} (free : '.' ∉ attr)
    (opened : (base ++ '.' :: attr).getLast? ≠ some ']') :
    read (base ++ '.' :: attr) = interpret (base ++ '.' :: attr) base attr := by
  simp only [read, interpret, beq_eq_false_iff_ne.mpr opened, Bool.false_eq_true, if_false,
    Text.cutAtLast?_append base free, Option.getD_some]
  cases strictBase? base <;> rfl

/-! References as they are written. -/

/-- A text that ends there or goes on with one of the marks at which references are cut. -/
def Cut (s : List Char) : Prop := ∀ c ∈ s.head?, c = '.' ∨ c = '['

private theorem drop_mark (rest : String) :
    (mark ++ rest).toList.drop mark.length = rest.toList := by
  rw [String.toList_append, ← String.length_toList, List.drop_left]

theorem toList_format_first (type attr : String) :
    (format type (.index 0) attr).toList.drop mark.length = type.toList ++ '.' :: attr.toList := by
  rw [format, if_pos (by rfl), String.append_assoc, String.append_assoc, drop_mark]
  simp

theorem exists_toList_format (type : String) (selector : Selector) (attr : String) :
    ∃ behind, Cut behind ∧ '.' ∈ behind ∧
      (format type selector attr).toList.drop mark.length = type.toList ++ behind := by
  have enclosed (text : String) : ∃ behind, Cut behind ∧ '.' ∈ behind ∧
      (mark ++ type ++ "[" ++ text ++ "]." ++ attr).toList.drop mark.length =
        type.toList ++ behind := by
    refine ⟨'[' :: (text.toList ++ ']' :: '.' :: attr.toList), by simp [Cut], by simp, ?_⟩
    simp only [String.append_assoc]
    rw [drop_mark]
    simp
  cases selector with
  | name name => exact enclosed name
  | index n =>
    by_cases first : n = 0
    · subst first
      exact ⟨_, by simp [Cut], by simp, toList_format_first type attr⟩
    · rw [format, if_neg (by simpa using first)]
      exact enclosed (toString n)

/-! Which types are taken for another one. -/

def checker : List Char := ['c', 'h', 'e', 'c', 'k', 'e', 'r']

theorem ofList_eq_checker_iff : String.ofList name = "checker" ↔ name = checker :=
  (show String.ofList checker = "checker" from rfl) ▸ String.ofList_inj

/-- The types of which some reference is read as one without a type, or as one of the first checker
configuration, although none of them is `checker`. -/
inductive Mistaken : List Char → Prop
  /-- Nothing stands before the first mark: no type is found. -/
  | absent {type : List Char} (cut : Cut type) : Mistaken type
  | absentLine : Mistaken ['\n']
  /-- What stands behind the dot is taken for the attribute. -/
  | dotted (rest : List Char) : Mistaken (checker ++ '.' :: rest)
  | line : Mistaken (checker ++ ['\n'])
  /-- A zero behind a bracket is taken for the selector, closed or not. -/
  | numbered {number rest : List Char} (zero : Text.WritesZero number) (closing : Nat)
      (cut : ∀ c ∈ rest.head?, c = '.') :
    Mistaken (checker ++ '[' :: (number ++ List.replicate closing ']' ++ rest))
  | numberedLine {number : List Char} (zero : Text.WritesZero number) :
    Mistaken (checker ++ (brackets (some number) ++ ['\n']))

/-- What is read counts: no type stands there, or an attribute of the first checker
configuration. -/
def Counts (said : String × Selector × String) : Prop :=
  said.1 = "" ∨ said.1 = "checker" ∧ said.2.1 = .index 0 ∧ said.2.2 ≠ ""

instance : DecidablePred Counts := fun said =>
  inferInstanceAs (Decidable
    (said.1 = "" ∨ said.1 = "checker" ∧ said.2.1 = .index 0 ∧ said.2.2 ≠ ""))

/-- A type and a selector as they are read in a reference that counts. -/
def Points (name : List Char) (selector : Option (List Char)) : Prop :=
  name = [] ∨ name = checker ∧ ∀ number ∈ selector, Text.WritesZero number

variable {tail : List Char}

/-- If two texts are the same, one of them cut at a mark and the other one with a part without marks
at its front, that part is at the front of what stands before the mark too. -/
theorem exists_of_cut {first behind : List Char} (cut : Cut tail)
    (plain : ∀ c ∈ first, c ≠ '.' ∧ c ≠ '[') (same : type ++ tail = first ++ behind) :
    ∃ rest, type = first ++ rest ∧ behind = rest ++ tail := by
  rcases List.append_eq_append_iff.mp same with ⟨more, split, rest⟩ | ⟨more, split, rest⟩
  · cases more with
    | nil => exact ⟨[], by simpa using split.symm, by simpa using rest.symm⟩
    | cons c more =>
      have marked := cut c (by rw [rest]; rfl)
      have unmarked := plain c (by rw [split]; simp)
      exact absurd marked (not_or.mpr unmarked)
  · exact ⟨more, split, rest⟩

theorem unmarked_closed {number closing : List Char} (zero : Text.WritesZero number)
    (closes : ∀ c ∈ closing, c = ']' ∨ c = '\n') :
    ∀ c ∈ number ++ closing, c ≠ '.' ∧ c ≠ '[' := by
  intro c member
  rcases List.mem_append.mp member with inside | inside
  · exact ⟨(zero.unmarked c inside).1, (zero.unmarked c inside).2.1⟩
  · rcases closes c inside with rfl | rfl <;> decide

theorem eq_of_cut_closed {number closing held : List Char} (cut : Cut tail)
    (zero : Text.WritesZero number) (closes : ∀ c ∈ closing, c = ']' ∨ c = '\n')
    (whole : held ++ tail = number ++ closing) : held = number ++ closing := by
  obtain ⟨rest, rfl, nothing⟩ := exists_of_cut cut (unmarked_closed zero closes)
    (whole.trans (List.append_nil _).symm)
  rw [(List.append_eq_nil_iff.mp nothing.symm).1, List.append_nil]

theorem Points.settled (points : Points name selector) : name = checker ∨ Mistaken name :=
  points.symm.imp And.left fun bare => .absent (by simp [Cut, bare])

theorem mistaken_of_exact (cut : Cut tail) (exact : Exact (type ++ tail) name selector)
    (points : Points name selector) : type = checker ∨ Mistaken type := by
  obtain ⟨rest, closes, same⟩ := exact.rest
  obtain ⟨more, rfl, rest⟩ := exists_of_cut cut (fun c member =>
    (ne_mark_of_isNamePart (exact.proper c member)).imp_right And.left) same
  cases more with
  | nil =>
    rw [List.append_nil]
    exact points.settled
  | cons c more =>
    right
    cases selector with
    | none =>
      obtain ⟨rfl, rfl⟩ : c = '\n' ∧ more = [] := by
        rcases closes.shape with shape | shape <;> simp_all [brackets]
      rcases points with rfl | ⟨rfl, _⟩
      · exact .absentLine
      · exact .line
    | some number =>
      obtain rfl : c = '[' := by
        rcases closes.shape with shape | shape <;> simp_all [brackets]
      rcases points with rfl | ⟨rfl, zero⟩
      · exact .absent (by simp [Cut])
      · have written := zero number rfl
        rcases closes.shape with rfl | rfl
        · have numbered : Mistaken (checker ++ '[' :: (number ++ List.replicate 1 ']' ++ [])) :=
            .numbered written 1 (by simp)
          have held : more = number ++ [']'] :=
            eq_of_cut_closed cut written (by simp) (by simpa [brackets] using rest.symm)
          simpa [held] using numbered
        · have numbered := Mistaken.numberedLine written
          have held : more = number ++ [']', '\n'] :=
            eq_of_cut_closed cut written (by simp) (by simpa [brackets] using rest.symm)
          simpa [held, brackets] using numbered

theorem mistaken_of_loose {behind : List Char} (cut : Cut tail) (free : '.' ∉ base)
    (loose : Loose base name selector) (same : type ++ tail = base ++ '.' :: behind)
    (points : Points name selector) : type = checker ∨ Mistaken type := by
  obtain ⟨trail, trails, rfl⟩ := loose.rest
  rw [List.append_assoc] at same
  obtain ⟨more, rfl, rest⟩ := exists_of_cut cut (fun c member =>
    ⟨ne_of_mem_of_not_mem (List.mem_append_left trail member) free,
      ne_of_mem_of_not_mem member loose.free⟩) same
  cases more with
  | nil =>
    rw [List.append_nil]
    exact points.settled
  | cons c more =>
    right
    cases trails with
    | bare =>
      obtain ⟨rfl, _⟩ := List.cons.inj rest
      rcases points with rfl | ⟨rfl, _⟩
      · exact .absent (by simp [Cut])
      · exact .dotted more
    | selecting number closing =>
      rw [List.cons_append, List.cons_append] at rest
      obtain ⟨rfl, held⟩ := List.cons.inj rest
      rcases points with rfl | ⟨rfl, zero⟩
      · exact .absent (by simp [Cut])
      · have closes : ∀ c ∈ List.replicate closing ']', c = ']' ∨ c = '\n' := fun c member =>
          Or.inl (List.eq_of_mem_replicate member)
        have unmarked := unmarked_closed (zero number rfl) closes
        obtain ⟨further, rfl, ends⟩ := exists_of_cut cut unmarked held.symm
        refine .numbered (zero number rfl) closing fun c first => ?_
        cases further with
        | nil => cases first
        | cons d further =>
          cases first
          exact (List.cons.inj ends).1.symm

theorem points_of_counts {attr : String}
    (counts : Counts (String.ofList name, selected selector, attr)) : Points name selector := by
  rcases counts with untyped | ⟨named, first, _⟩
  · exact Or.inl (by simpa using untyped)
  · exact Or.inr ⟨ofList_eq_checker_iff.mp named, (selected_eq_first_iff selector).mp first⟩

/-- A reference is read as one that counts only if it was written for the type `checker` or for a
type that is mistaken for another one. -/
theorem mistaken_of_counts (cut : Cut tail) (dotted : '.' ∈ tail)
    (counts : Counts (read (type ++ tail))) : type = checker ∨ Mistaken type := by
  have interpreted {front attr : List Char} (cutFront : Cut front)
      (counts : Counts (interpret (type ++ tail) (type ++ front) attr)) :
      type = checker ∨ Mistaken type := by
    rw [interpret] at counts
    split at counts
    · rename_i read
      exact mistaken_of_exact cutFront (strictBase?_eq_some_iff.mp read) (points_of_counts counts)
    · obtain ⟨before, behind, same, free⟩ :=
        List.eq_append_cons_of_mem (List.mem_append_right type dotted)
      rw [same, Text.cutAtFirst_append free] at counts
      exact mistaken_of_loose cut free (loose_looseBase before) same (points_of_counts counts)
  by_cases closed : (type ++ tail).getLast? = some ']'
  · rw [read_of_closed closed] at counts
    exact interpreted cut counts
  · obtain ⟨front, attr, rfl, free⟩ := Text.exists_append_last dotted
    have cutFront : Cut front := by
      cases front with
      | nil => simp [Cut]
      | cons c front => exact cut
    rw [← List.append_assoc] at counts closed
    rw [read_append _ free closed, List.append_assoc] at counts
    exact interpreted cutFront counts

theorem not_mistaken_of_proper (present : type ≠ []) (proper : ∀ c ∈ type, isNamePart c) :
    ¬Mistaken type := by
  have unmarked (c : Char) (member : c ∈ type) := ne_mark_of_isNamePart (proper c member)
  intro mistaken
  cases mistaken with
  | absent cut =>
    obtain ⟨c, rest, rfl⟩ := List.exists_cons_of_ne_nil present
    have plain := unmarked c List.mem_cons_self
    exact (cut c rfl).elim plain.1 plain.2.1
  | absentLine => exact (unmarked '\n' (by simp)).2.2 rfl
  | dotted rest => exact (unmarked '.' (by simp)).1 rfl
  | line => exact (unmarked '\n' (by simp)).2.2 rfl
  | numbered zero closing cut => exact (unmarked '[' (by simp)).2.1 rfl
  | numberedLine zero => exact (unmarked '[' (by simp [brackets])).2.1 rfl

/-! References that show the mistake. -/

theorem read_of_exact (exact : Exact base name selector) :
    read (base ++ ['.', 'x']) = (String.ofList name, selected selector, "x") := by
  rw [read_append base (by decide) (by simp), interpret, strictBase?_eq_some_iff.mpr exact]

theorem Closes.getLast? (closes : Closes selector rest) :
    ∀ c ∈ rest.getLast?, c = ']' ∨ c = '\n' := by
  intro c last
  rcases closes.shape with rfl | rfl
  · cases selector with
    | none => cases last
    | some text =>
      rw [brackets, List.getLast?_concat] at last
      exact Or.inl (Option.some.inj last).symm
  · rw [List.getLast?_concat] at last
    exact Or.inr (Option.some.inj last).symm

theorem strictBase?_dotted (type : List Char) : strictBase? (type ++ ['.', 'x']) = none := by
  rw [Option.eq_none_iff_forall_ne_some]
  rintro ⟨name, selector⟩ read
  obtain ⟨proper, _, rest, closes, same⟩ := strictBase?_eq_some_iff.mp read
  cases rest with
  | nil =>
    have member : '.' ∈ name := by
      rw [← List.append_nil name, ← same]
      simp
    exact (ne_mark_of_isNamePart (proper _ member)).1 rfl
  | cons c rest =>
    have last := congrArg List.getLast? same
    rw [List.getLast?_append_of_ne_nil _ (List.cons_ne_nil _ _),
      List.getLast?_append_of_ne_nil _ (List.cons_ne_nil _ _)] at last
    rcases closes.getLast? 'x' last.symm with letter | letter <;> cases letter

theorem read_of_loose {before behind : List Char} (free : '.' ∉ before)
    (same : type ++ ['.', 'x', '.', 'x'] = before ++ '.' :: behind) :
    read (type ++ ['.', 'x', '.', 'x']) =
      (String.ofList (looseBase before).1, selected (looseBase before).2,
        String.ofList behind) := by
  have split : type ++ ['.', 'x', '.', 'x'] = (type ++ ['.', 'x']) ++ '.' :: ['x'] := by simp
  rw [split, read_append _ (by decide) (by simp), interpret, strictBase?_dotted, ← split, same,
    Text.cutAtFirst_append free]

theorem counts_of_loose {before behind : List Char} (free : '.' ∉ before)
    (same : type ++ ['.', 'x', '.', 'x'] = before ++ '.' :: behind)
    (points : Points (looseBase before).1 (looseBase before).2) (present : behind ≠ []) :
    Counts (read (type ++ ['.', 'x', '.', 'x'])) := by
  rw [read_of_loose free same]
  rcases points with nameless | ⟨named, first⟩
  · exact Or.inl (by rw [nameless])
  · exact Or.inr ⟨ofList_eq_checker_iff.mpr named, (selected_eq_first_iff _).mpr first,
      by simpa using present⟩

theorem nameless_of_cut {before behind : List Char} (cut : Cut type) (free : '.' ∉ before)
    (same : type ++ ['.', 'x', '.', 'x'] = before ++ '.' :: behind) :
    (looseBase before).1 = [] := by
  obtain ⟨bracketFree, rest, _, split⟩ := loose_looseBase before
  by_contra present
  obtain ⟨c, name, named⟩ := List.exists_cons_of_ne_nil present
  have dotFree : c ≠ '.' := ne_of_mem_of_not_mem (by rw [split, named]; simp) free
  have first : (type ++ ['.', 'x', '.', 'x']).head? = some c := by
    rw [same, split, named]
    rfl
  cases type with
  | nil => exact dotFree (Option.some.inj first).symm
  | cons d type =>
    obtain rfl := Option.some.inj first
    exact (cut d rfl).elim dotFree (ne_of_mem_of_not_mem (named ▸ List.mem_cons_self) bracketFree)

theorem exists_counts (mistaken : Mistaken type) :
    ∃ attr ∈ ["x", "x.x"], Counts (read (type ++ '.' :: attr.toList)) := by
  cases mistaken with
  | absent cut =>
    refine ⟨"x.x", by simp, ?_⟩
    have dotted : '.' ∈ type ++ ['.', 'x', '.', 'x'] := by simp
    obtain ⟨before, behind, same, free⟩ := List.eq_append_cons_of_mem dotted
    change Counts (read (type ++ ['.', 'x', '.', 'x']))
    rw [read_of_loose free same, nameless_of_cut cut free same]
    exact Or.inl rfl
  | absentLine => exact ⟨"x", by simp, Or.inl (by decide)⟩
  | dotted rest =>
    have free : '.' ∉ checker := by decide
    exact ⟨"x.x", by simp, counts_of_loose free (List.append_assoc _ _ _)
      (Or.inr ⟨rfl, by simp [looseBase, checker]⟩) (by simp)⟩
  | line => exact ⟨"x", by simp, Or.inr (by decide)⟩
  | @numbered number rest zero closing cut =>
    refine ⟨"x.x", by simp, ?_⟩
    have unmarked : ∀ c ∈ number ++ List.replicate closing ']', c ≠ '.' ∧ c ≠ '[' :=
      unmarked_closed zero fun c member => Or.inl (List.eq_of_mem_replicate member)
    have unclosed : ']' ∉ number := fun member => (zero.unmarked _ member).2.2 rfl
    have free : '.' ∉ checker ++ '[' :: (number ++ List.replicate closing ']') := fun member =>
      (List.mem_append.mp member).elim (by decide) fun behind =>
        (List.mem_cons.mp behind).elim (by decide) fun inside => (unmarked _ inside).1 rfl
    obtain ⟨behind, same, present⟩ : ∃ behind, rest ++ ['.', 'x', '.', 'x'] = '.' :: behind ∧
        behind ≠ [] := by
      cases rest with
      | nil => exact ⟨_, rfl, by simp⟩
      | cons c rest =>
        obtain rfl := cut c rfl
        exact ⟨_, rfl, by simp⟩
    refine counts_of_loose free (by simp [same]) ?_ present
    rw [looseBase_append (by decide) unclosed]
    exact Or.inr ⟨rfl, fun text member => Option.some.inj member ▸ zero⟩
  | @numberedLine number zero =>
    refine ⟨"x", by simp, ?_⟩
    have unclosed : ']' ∉ number := fun member => (zero.unmarked _ member).2.2 rfl
    have exact : Exact (checker ++ (brackets (some number) ++ ['\n'])) checker (some number) :=
      ⟨List.all_eq_true.mp (by rfl), by decide, _,
        ⟨by simpa using ⟨zero.ne_nil, unclosed⟩, Or.inr rfl⟩, rfl⟩
    have first : selected (some number) = .index 0 :=
      (selected_eq_first_iff _).mpr fun text member => Option.some.inj member ▸ zero
    rw [show "x".toList = ['x'] from rfl, read_of_exact exact, first]
    exact Or.inr (by decide)

end Reference

end Assay
