import Assay.Value.Data
import Mathlib.Data.List.Forall2

/-!
Fields: entries looked up by the text that their key is. Values, data and layouts all hold their
entries as lists of pairs, and looking a field up commutes with every map between such lists that
keeps the texts of keys.
-/

set_option autoImplicit false
set_option relaxedAutoImplicit false

namespace Assay.Fields

section

variable {κ β : Type} (name : κ → Option String)

def find? (entries : List (κ × β)) (key : String) : Option β :=
  (entries.find? fun entry => name entry.1 == some key).map Prod.snd

def put (text : String → κ) : List (κ × β) → String → β → List (κ × β)
  | [], key, v => [(text key, v)]
  | entry :: rest, key, v =>
    if name entry.1 == some key then (entry.1, v) :: rest else entry :: put text rest key v

def restrict (entries : List (κ × β)) (keys : List String) : List (κ × β) :=
  entries.filter fun entry => keys.any fun key => name entry.1 == some key

variable {name}

@[simp]
theorem find?_nil (key : String) : find? (β := β) name [] key = none := rfl

theorem find?_cons (entry : κ × β) (rest : List (κ × β)) (key : String) :
    find? name (entry :: rest) key =
      if name entry.1 == some key then some entry.2 else find? name rest key := by
  simp only [find?, List.find?_cons]
  split <;> simp_all

theorem find?_split {entries : List (κ × β)} {key : String} {v : β}
    (found : find? name entries key = some v) :
    ∃ before k after, entries = before ++ (k, v) :: after ∧ name k = some key ∧
      ∀ entry ∈ before, name entry.1 ≠ some key := by
  induction entries with
  | nil => simp at found
  | cons entry rest ih =>
    rw [find?_cons] at found
    split at found
    · rename_i here
      refine ⟨[], entry.1, rest, ?_, by simpa using here, by simp⟩
      rw [← Option.some.inj found]
      rfl
    · rename_i other
      obtain ⟨before, k, after, split, named, apart⟩ := ih found
      refine ⟨entry :: before, k, after, by rw [split]; rfl, named, ?_⟩
      intro e member
      rcases List.mem_cons.mp member with rfl | member
      · simpa using other
      · exact apart e member

theorem find?_put_ne {text : String → κ} (named : ∀ key, name (text key) = some key)
    {entries : List (κ × β)} {key other : String} (differs : other ≠ key) (v : β) :
    find? name (put name text entries key v) other = find? name entries other := by
  induction entries with
  | nil =>
    have mismatch : ¬(name (text key) == some other) = true := by
      rw [named, beq_iff_eq]
      exact fun same => differs (Option.some.inj same).symm
    rw [put, find?_cons, if_neg mismatch]
  | cons entry rest ih =>
    rw [put]
    split
    · rename_i here
      have mismatch : ¬(name entry.1 == some other) = true := by
        intro there
        rw [beq_iff_eq] at here there
        exact differs (Option.some.inj (there.symm.trans here))
      rw [find?_cons, find?_cons, if_neg mismatch, if_neg mismatch]
    · rw [find?_cons, find?_cons, ih]

theorem find?_put_same {text : String → κ} (named : ∀ key, name (text key) = some key)
    (entries : List (κ × β)) (key : String) (v : β) :
    find? name (put name text entries key v) key = some v := by
  induction entries with
  | nil => rw [put, find?_cons, named, if_pos (beq_self_eq_true _)]
  | cons entry rest ih =>
    rw [put]
    split
    · rename_i here
      rw [find?_cons, if_pos here]
    · rename_i other
      rw [find?_cons, if_neg other, ih]

theorem keys_put {text : String → κ} {entries : List (κ × β)} {key : String} {old : β}
    (found : find? name entries key = some old) (v : β) :
    (put name text entries key v).map Prod.fst = entries.map Prod.fst := by
  induction entries with
  | nil => simp at found
  | cons entry rest ih =>
    rw [find?_cons] at found
    rw [put]
    split
    · rfl
    · rename_i other
      rw [if_neg other] at found
      rw [List.map_cons, List.map_cons, ih found]

theorem find?_restrict (entries : List (κ × β)) (keys : List String) (key : String) :
    find? name (restrict name entries keys) key =
      if key ∈ keys then find? name entries key else none := by
  induction entries with
  | nil => simp [restrict, find?]
  | cons entry rest ih =>
    rw [restrict, List.filter_cons, find?_cons]
    split
    · rename_i kept
      rw [find?_cons]
      split
      · rename_i here
        simp only [List.any_eq_true, beq_iff_eq] at kept here
        obtain ⟨other, member, there⟩ := kept
        have same : other = key := Option.some.inj (there.symm.trans here)
        rw [if_pos (same ▸ member)]
      · exact ih
    · rename_i dropped
      have later : find? name (rest.filter fun e => keys.any fun k => name e.1 == some k) key =
          if key ∈ keys then find? name rest key else none := ih
      rw [later]
      split
      · rename_i member
        rw [if_neg]
        intro here
        exact dropped (List.any_eq_true.mpr ⟨key, member, here⟩)
      · rfl

end

section

variable {κ β κ' β' : Type} {name : κ → Option String} {name' : κ' → Option String}
  {f : κ → κ'} {g : β → β'}

theorem find?_map (keeps : ∀ k, name' (f k) = name k) (entries : List (κ × β)) (key : String) :
    find? name' (entries.map fun e => (f e.1, g e.2)) key = (find? name entries key).map g := by
  induction entries with
  | nil => rfl
  | cons entry rest ih =>
    rw [List.map_cons, find?_cons, find?_cons, keeps, ih]
    split <;> rfl

end

end Assay.Fields

namespace Assay

@[simp]
theorem Value.text?_text (key : String) : (Value.text key).text? = some key := rfl

theorem Value.eq_text_of_text? {v : Value} {s : String} (text : v.text? = some s) :
    v = .text s := by
  unfold Value.text? at text
  split at text
  · rw [Option.some.inj text]
  · cases text

theorem Value.eq_text_iff (v : Value) (key : String) :
    (v == Value.text key) = (v.text? == some key) := by
  rw [Bool.eq_iff_iff, beq_iff_eq, beq_iff_eq]
  constructor
  · rintro rfl
    rfl
  · exact Value.eq_text_of_text?

namespace Entries

open Fields

theorem valueOf?_eq (entries : Entries) (key : String) :
    entries.valueOf? key = find? Value.text? entries key := by
  simp only [valueOf?, find?, Value.eq_text_iff]

theorem get_eq (entries : Entries) (key : String) :
    entries.get key = (find? Value.text? entries key).getD .null := by
  rw [get, valueOf?_eq]

theorem put_eq (entries : Entries) (key : String) (v : Value) :
    entries.put key v = Fields.put Value.text? Value.text entries key v := by
  induction entries with
  | nil => rfl
  | cons entry rest ih => rw [put, Fields.put, Value.eq_text_iff, ih]

theorem restrict_eq (entries : Entries) (keys : List String) :
    Entries.restrict entries keys = Fields.restrict Value.text? entries keys := by
  simp only [restrict, Fields.restrict, Value.eq_text_iff]

theorem valueOf?_restrict {entries : Entries} {keys : List String} {key : String}
    (kept : key ∈ keys) : (Entries.restrict entries keys).valueOf? key = entries.valueOf? key := by
  rw [valueOf?_eq, valueOf?_eq, restrict_eq, find?_restrict, if_pos kept]

theorem valueOf?_restrict_of_not_mem {entries : Entries} {keys : List String} {key : String}
    (dropped : key ∉ keys) : (Entries.restrict entries keys).valueOf? key = none := by
  rw [valueOf?_eq, restrict_eq, find?_restrict, if_neg dropped]

theorem restrict_restrict (entries : Entries) (names : List String) :
    (Entries.restrict entries names).restrict names = Entries.restrict entries names := by
  simp only [Entries.restrict, List.filter_filter, Bool.and_self]

theorem valueOf?_put_ne (entries : Entries) {key other : String} (differs : other ≠ key)
    (v : Value) : (entries.put key v).valueOf? other = entries.valueOf? other := by
  rw [valueOf?_eq, valueOf?_eq, put_eq, find?_put_ne Value.text?_text differs]

theorem valueOf?_put_same (entries : Entries) (key : String) (v : Value) :
    (entries.put key v).valueOf? key = some v := by
  rw [valueOf?_eq, put_eq, find?_put_same Value.text?_text]

theorem mem_put {entries : Entries} {key : String} {r : Value} {entry : Value × Value}
    (member : entry ∈ entries.put key r) : entry ∈ entries ∨ entry = (.text key, r) := by
  induction entries with
  | nil => exact Or.inr (List.mem_singleton.mp member)
  | cons first rest ih =>
    rw [put] at member
    by_cases here : (first.1 == .text key) = true
    · rw [if_pos here, List.mem_cons, eq_of_beq here] at member
      exact member.symm.imp_left (List.mem_cons_of_mem first)
    · rw [if_neg here, List.mem_cons] at member
      rcases member with rfl | member
      · exact Or.inl List.mem_cons_self
      · exact (ih member).imp_left (List.mem_cons_of_mem first)

theorem put_of_valueOf? {entries : Entries} {key : String} {v : Value}
    (stood : entries.valueOf? key = some v) : entries.put key v = entries := by
  induction entries with
  | nil => cases stood
  | cons entry rest ih =>
    rw [valueOf?_eq, find?_cons, ← Value.eq_text_iff] at stood
    rw [Entries.put]
    by_cases here : (entry.1 == .text key) = true
    · rw [if_pos here] at stood ⊢
      rw [← Option.some.inj stood]
    · rw [if_neg here, ← valueOf?_eq] at stood
      rw [if_neg here, ih stood]

theorem keys_put {entries : Entries} {key : String} {old : Value}
    (found : entries.valueOf? key = some old) (v : Value) :
    (entries.put key v).map Prod.fst = List.map Prod.fst entries := by
  rw [valueOf?_eq] at found
  rw [put_eq, Fields.keys_put found]

theorem forall₂_put {R : Value × Value → Value × Value → Prop}
    (keys : ∀ entry entry', R entry entry' → entry'.1 = entry.1) {old new : Entries}
    (same : List.Forall₂ R old new) {key : String} {given r : Value}
    (stood : old.valueOf? key = some given) (put : R (.text key, given) (.text key, r)) :
    List.Forall₂ R old (new.put key r) := by
  induction same with
  | nil => cases stood
  | @cons entry entry' _ _ pair rest ih =>
    rw [valueOf?_eq, find?_cons, ← Value.eq_text_iff] at stood
    rw [Entries.put, keys _ _ pair]
    by_cases here : (entry.1 == .text key) = true
    · rw [if_pos here] at stood ⊢
      obtain ⟨name, value⟩ := entry
      obtain rfl := eq_of_beq here
      obtain rfl := Option.some.inj stood
      exact .cons put rest
    · rw [if_neg here, ← valueOf?_eq] at stood
      rw [if_neg here]
      exact .cons pair (ih stood)

theorem forall₂_restrict {R : Value × Value → Value × Value → Prop}
    (keys : ∀ entry entry', R entry entry' → entry'.1 = entry.1) {old new : Entries}
    (same : List.Forall₂ R old new) (names : List String) :
    List.Forall₂ R (old.restrict names) (new.restrict names) := by
  refine List.rel_filter ?_ same
  intro entry entry' pair
  simp only
  rw [keys entry entry' pair]

theorem restrict_eq_self_iff (entries : Entries) (names : List String) :
    Entries.restrict entries names = entries ↔
      ∀ key ∈ entries.map Prod.fst, names.any fun name => key == .text name := by
  rw [Entries.restrict, List.filter_eq_self, List.forall_mem_map]

theorem keys_restrict (entries : Entries) (names : List String) :
    (Entries.restrict entries names).map Prod.fst =
      (entries.map Prod.fst).filter fun key => names.any fun name => key == .text name := by
  rw [Entries.restrict, List.filter_map]
  rfl

theorem valueOf?_isSome_iff (entries : Entries) (key : String) :
    (entries.valueOf? key).isSome ↔ .text key ∈ entries.map Prod.fst := by
  rw [valueOf?, Option.isSome_map, List.find?_isSome, List.mem_map]
  simp only [beq_iff_eq]

theorem valueOf?_filter (keep : Value → Bool) (entries : Entries) (key : String) :
    (Entries.valueOf? (entries.filter fun entry => keep entry.1) key) =
      if keep (.text key) then entries.valueOf? key else none := by
  induction entries with
  | nil => simp [valueOf?]
  | cons entry rest ih =>
    rw [valueOf?] at ih
    rw [valueOf?, valueOf?, List.filter_cons, List.find?_cons]
    by_cases here : entry.1 = .text key
    · rw [← here] at ih ⊢
      by_cases kept : keep entry.1
      · simp [kept]
      · simpa [kept] using ih
    · have differs : (entry.1 == .text key) = false := beq_eq_false_iff_ne.mpr here
      by_cases kept : keep entry.1
      · rw [if_pos kept, List.find?_cons, differs]
        exact ih
      · rw [if_neg kept, differs]
        exact ih

theorem get_filter (keep : Value → Bool) (entries : Entries) (key : String) :
    (Entries.get (entries.filter fun entry => keep entry.1) key) =
      if keep (.text key) then entries.get key else .null := by
  rw [get, valueOf?_filter, get]
  split <;> rfl

end Entries

end Assay
