import Assay.Proofs.Frame

/-!
Losses: fields that mappings lose, because they are deleted or because their value is set to absent.
It makes no difference whether fields are lost before or after a check has pruned the mappings and
put the results of other leaves back.
-/

set_option autoImplicit false
set_option relaxedAutoImplicit false

namespace Assay

/-- What becomes of a field that is lost: it is deleted, or it is there without a value. -/
inductive Drop where
  | delete
  | clear

/-- A mapping loses a field. -/
structure Loss where
  mapping : Address
  name : String
  drop : Drop

namespace Entries

theorem put_put (entries : Entries) (key : String) (r r' : Value) :
    Entries.put (entries.put key r) key r' = entries.put key r' := by
  induction entries with
  | nil => simp [put]
  | cons entry rest ih =>
    rw [put, put]
    by_cases here : (entry.1 == .text key) = true
    · rw [if_pos here, if_pos here, put, if_pos here]
    · rw [if_neg here, if_neg here, put, if_neg here, ih]

theorem put_comm {entries : Entries} {key other : String} (differs : other ≠ key) {old : Value}
    (stood : entries.valueOf? other = some old) (r r' : Value) :
    Entries.put (entries.put other r) key r' = Entries.put (entries.put key r') other r := by
  induction entries with
  | nil => cases stood
  | cons entry rest ih =>
    rw [valueOf?_eq, Fields.find?_cons, ← Value.eq_text_iff] at stood
    rw [put, put]
    by_cases here : (entry.1 == .text other) = true
    · have apart : ¬(entry.1 == .text key) = true := by
        rw [eq_of_beq here, beq_iff_eq, Value.atom.injEq, Atom.text.injEq]
        exact differs
      rw [if_pos here, if_neg apart, put, if_neg apart, put, if_pos here]
    · rw [if_neg here, ← valueOf?_eq] at stood
      rw [if_neg here]
      by_cases there : (entry.1 == .text key) = true
      · rw [if_pos there, put, if_pos there, put, if_neg here]
      · rw [if_neg there, put, if_neg there, put, if_neg here, ih stood]

theorem put_restrict (entries : Entries) {key : String} {names : List String}
    (listed : key ∈ names) (r : Value) :
    Entries.put (entries.restrict names) key r = Entries.restrict (entries.put key r) names := by
  have kept : (names.any fun name => Value.text key == .text name) = true :=
    List.any_eq_true.mpr ⟨key, listed, beq_self_eq_true _⟩
  induction entries with
  | nil => simp [restrict, put, kept]
  | cons entry rest ih =>
    rw [restrict] at ih
    rw [restrict, List.filter_cons, put]
    by_cases here : (entry.1 == .text key) = true
    · have same := eq_of_beq here
      rw [same, if_pos kept, if_pos (beq_self_eq_true _), restrict, List.filter_cons, if_pos kept,
        put, same, if_pos (beq_self_eq_true _)]
    · rw [if_neg here, restrict, List.filter_cons]
      split
      · rw [put, if_neg here, ih, restrict]
      · rw [ih, restrict]

theorem filter_put_same (entries : Entries) (key : String) (r : Value) :
    List.filter (fun entry => entry.1 != .text key) (entries.put key r) =
      entries.filter fun entry => entry.1 != .text key := by
  induction entries with
  | nil => simp [put]
  | cons entry rest ih =>
    rw [put]
    by_cases here : (entry.1 == .text key) = true
    · rw [if_pos here, List.filter_cons, List.filter_cons]
      simp only [eq_of_beq here, bne_self_eq_false, Bool.false_eq_true, if_false]
    · rw [if_neg here, List.filter_cons, List.filter_cons, ih]

theorem filter_put_ne (entries : Entries) {key other : String} (differs : other ≠ key)
    (r : Value) :
    List.filter (fun entry => entry.1 != .text key) (entries.put other r) =
      Entries.put (entries.filter fun entry => entry.1 != .text key) other r := by
  have apart : ((.text other : Value) != .text key) = true := by
    rw [bne_iff_ne, ne_eq, Value.atom.injEq, Atom.text.injEq]
    exact differs
  induction entries with
  | nil => simp [put, differs]
  | cons entry rest ih =>
    rw [put]
    by_cases here : (entry.1 == .text other) = true
    · have same := eq_of_beq here
      rw [if_pos here, List.filter_cons, List.filter_cons]
      simp only [same, apart, if_true]
      rw [put, if_pos here, same]
    · rw [if_neg here, List.filter_cons, List.filter_cons]
      split
      · rw [put, if_neg here, ih]
      · exact ih

end Entries

namespace Loss

def apply (loss : Loss) (entries : Entries) : Entries :=
  match loss.drop with
  | .delete => entries.filter fun entry => entry.1 != .text loss.name
  | .clear => entries.put loss.name .null

theorem apply_restrict (loss : Loss) (entries : Entries) {names : List String}
    (listed : loss.name ∈ names) :
    loss.apply (entries.restrict names) = Entries.restrict (loss.apply entries) names := by
  cases drop : loss.drop with
  | delete =>
    simp only [apply, drop, Entries.restrict, List.filter_filter, Bool.and_comm]
  | clear =>
    simp only [apply, drop]
    exact Entries.put_restrict entries listed .null

theorem apply_put_same (loss : Loss) (entries : Entries) (r : Value) :
    loss.apply (entries.put loss.name r) = loss.apply entries := by
  cases drop : loss.drop with
  | delete =>
    simp only [apply, drop]
    exact Entries.filter_put_same entries loss.name r
  | clear =>
    simp only [apply, drop]
    exact Entries.put_put entries loss.name r .null

section

variable {loss : Loss} {entries : Entries} {key : String} (differs : key ≠ loss.name)

include differs

theorem apply_put_ne {old : Value} (stood : entries.valueOf? key = some old) (r : Value) :
    loss.apply (entries.put key r) = Entries.put (loss.apply entries) key r := by
  cases drop : loss.drop with
  | delete =>
    simp only [apply, drop]
    exact Entries.filter_put_ne entries differs r
  | clear =>
    simp only [apply, drop]
    exact Entries.put_comm differs stood r .null

theorem valueOf?_apply_ne : (loss.apply entries).valueOf? key = entries.valueOf? key := by
  cases drop : loss.drop with
  | delete =>
    simp only [apply, drop]
    rw [Entries.valueOf?_filter fun name => name != .text loss.name, if_pos]
    rw [bne_iff_ne, ne_eq, Value.atom.injEq, Atom.text.injEq]
    exact differs
  | clear =>
    simp only [apply, drop]
    exact Entries.valueOf?_put_ne entries differs .null

end

theorem get_apply (loss : Loss) (entries : Entries) :
    (loss.apply entries).get loss.name = .null := by
  cases drop : loss.drop with
  | delete =>
    simp only [apply, drop]
    rw [Entries.get_filter fun name => name != .text loss.name, if_neg (by simp)]
  | clear =>
    simp only [apply, drop]
    rw [Entries.get, Entries.valueOf?_put_same, Option.getD_some]

theorem mem_apply {loss : Loss} {entries : Entries} {entry : Value × Value}
    (member : entry ∈ loss.apply entries) :
    entry ∈ entries ∨ entry = (.text loss.name, .null) := by
  cases drop : loss.drop with
  | delete =>
    simp only [apply, drop] at member
    exact Or.inl (List.mem_of_mem_filter member)
  | clear =>
    simp only [apply, drop] at member
    exact Entries.mem_put member

end Loss

/-- What is left of the entries of a mapping when fields are lost. -/
def Entries.lose (losses : List Loss) (a : Address) (entries : Entries) : Entries :=
  losses.foldl (fun entries loss => if loss.mapping = a then loss.apply entries else entries)
    entries

/-- What is left of a store when mappings lose fields. -/
def Store.lose (losses : List Loss) (store : Store) : Store :=
  losses.foldl
    (fun store loss => store.setEntries loss.mapping (loss.apply (store.entries loss.mapping)))
    store

namespace Store

variable {losses : List Loss}

theorem sequences_lose (losses : List Loss) (store : Store) :
    (store.lose losses).sequences = store.sequences := by
  induction losses generalizing store with
  | nil => rfl
  | cons loss rest ih => exact ih (store.setEntries loss.mapping _)

theorem entries_lose (losses : List Loss) {store : Store} {a : Address}
    (bound : a < store.mappings.size) :
    (store.lose losses).entries a = Entries.lose losses a (store.entries a) := by
  induction losses generalizing store with
  | nil => rfl
  | cons loss rest ih =>
    have later := @ih (store.setEntries loss.mapping (loss.apply (store.entries loss.mapping)))
      (by rwa [size_mappings_setEntries])
    rw [lose, List.foldl_cons, Entries.lose, List.foldl_cons]
    refine later.trans (congrArg (Entries.lose rest a) ?_)
    by_cases here : loss.mapping = a
    · rw [if_pos here, ← here, entries_setEntries_same store (here ▸ bound)]
    · rw [if_neg here, entries_setEntries_ne store here]

theorem keeps_lose (losses : List Loss) (store : Store) :
    Keeps (losses.map Loss.mapping) store (store.lose losses) := by
  induction losses generalizing store with
  | nil => exact Keeps.refl _ _
  | cons loss rest ih =>
    have first := (keeps_setEntries store loss.mapping
      (loss.apply (store.entries loss.mapping))).mono
      (List.cons_subset_cons loss.mapping (List.nil_subset (rest.map Loss.mapping)))
    exact first.trans ((ih _).mono (List.subset_cons_self _ _))

end Store

namespace Entries

def Lost (losses : List Loss) (a : Address) (name : String) : Prop :=
  ∃ loss ∈ losses, loss.mapping = a ∧ loss.name = name

variable {losses : List Loss} {a : Address} {entries : Entries}

theorem lose_cons (loss : Loss) (rest : List Loss) (a : Address) (entries : Entries) :
    lose (loss :: rest) a entries =
      lose rest a (if loss.mapping = a then loss.apply entries else entries) := rfl

theorem lost_cons {loss : Loss} {rest : List Loss} {name : String} :
    Lost (loss :: rest) a name ↔ (loss.mapping = a ∧ loss.name = name) ∨ Lost rest a name := by
  simp [Lost]

theorem lose_of_not_mem (apart : a ∉ losses.map Loss.mapping) (entries : Entries) :
    lose losses a entries = entries := by
  induction losses with
  | nil => rfl
  | cons loss rest ih =>
    rw [List.map_cons, List.mem_cons, not_or] at apart
    rw [lose_cons, if_neg (Ne.symm apart.1), ih apart.2]

theorem lose_restrict {names : List String} (listed : ∀ name, Lost losses a name → name ∈ names)
    (entries : Entries) :
    lose losses a (entries.restrict names) = Entries.restrict (lose losses a entries) names := by
  induction losses generalizing entries with
  | nil => rfl
  | cons loss rest ih =>
    have later := ih fun name lost => listed name (lost_cons.mpr (Or.inr lost))
    rw [lose_cons, lose_cons]
    by_cases here : loss.mapping = a
    · rw [if_pos here, if_pos here,
        loss.apply_restrict entries (listed _ (lost_cons.mpr (Or.inl ⟨here, rfl⟩))), later]
    · rw [if_neg here, if_neg here, later]

theorem valueOf?_lose {name : String} (kept : ¬Lost losses a name) (entries : Entries) :
    (lose losses a entries).valueOf? name = entries.valueOf? name := by
  induction losses generalizing entries with
  | nil => rfl
  | cons loss rest ih =>
    rw [lost_cons, not_or] at kept
    rw [lose_cons, ih kept.2]
    by_cases here : loss.mapping = a
    · rw [if_pos here, Loss.valueOf?_apply_ne fun same => kept.1 ⟨here, same.symm⟩]
    · rw [if_neg here]

theorem get_lose {name : String} (lost : Lost losses a name) (entries : Entries) :
    (lose losses a entries).get name = .null := by
  induction losses generalizing entries with
  | nil =>
    obtain ⟨_, member, _⟩ := lost
    cases member
  | cons loss rest ih =>
    rw [lose_cons]
    by_cases later : Lost rest a name
    · exact ih later _
    · obtain ⟨here, rfl⟩ := (lost_cons.mp lost).resolve_right later
      rw [if_pos here, get, valueOf?_lose later]
      exact loss.get_apply entries

section

variable {name : String} {old : Value} (stood : entries.valueOf? name = some old)

include stood

theorem lose_put_kept (kept : ¬Lost losses a name) (r : Value) :
    lose losses a (entries.put name r) = Entries.put (lose losses a entries) name r := by
  induction losses generalizing entries with
  | nil => rfl
  | cons loss rest ih =>
    rw [lost_cons, not_or] at kept
    rw [lose_cons, lose_cons]
    by_cases here : loss.mapping = a
    · have differs : name ≠ loss.name := fun same => kept.1 ⟨here, same.symm⟩
      rw [if_pos here, if_pos here, Loss.apply_put_ne differs stood]
      exact ih ((Loss.valueOf?_apply_ne differs).trans stood) kept.2
    · rw [if_neg here, if_neg here]
      exact ih stood kept.2

theorem lose_put_lost (lost : Lost losses a name) (r : Value) :
    lose losses a (entries.put name r) = lose losses a entries := by
  induction losses generalizing entries with
  | nil =>
    obtain ⟨_, member, _⟩ := lost
    cases member
  | cons loss rest ih =>
    rw [lose_cons, lose_cons]
    by_cases here : loss.mapping = a
    · rw [if_pos here, if_pos here]
      by_cases same : name = loss.name
      · rw [same, loss.apply_put_same]
      · rw [Loss.apply_put_ne same stood]
        refine ih ((Loss.valueOf?_apply_ne same).trans stood) ?_
        exact (lost_cons.mp lost).resolve_left fun first => same first.2.symm
    · rw [if_neg here, if_neg here]
      exact ih stood ((lost_cons.mp lost).resolve_left fun first => here first.1)

end

theorem mem_lose {entry : Value × Value} (member : entry ∈ lose losses a entries) :
    entry ∈ entries ∨ ∃ name, entry = (.text name, .null) := by
  induction losses generalizing entries with
  | nil => exact Or.inl member
  | cons loss rest ih =>
    rw [lose_cons] at member
    rcases ih member with inside | cleared
    · split at inside
      · exact (Loss.mem_apply inside).imp_right fun same => ⟨_, same⟩
      · exact Or.inl inside
    · exact Or.inr cleared

end Entries

end Assay
