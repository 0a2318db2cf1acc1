import Assay.Proofs.Order

/-!
What compiling a definition gives. A tree comes about when every node of the definition can stand in
a schema, and it is the same at every path. Otherwise compiling fails at the first offence, in the
order in which mappings are walked: entry after entry, and each key before what stands under it.
-/

set_option autoImplicit false
set_option relaxedAutoImplicit false

namespace Assay

namespace Definition

/-- Induction over a definition, with the claim for the definition of every entry of a mapping. -/
theorem ind {P : Definition → Prop} (compiled : ∀ tree, P (.compiled tree))
    (fields : ∀ entries, (∀ entry ∈ entries, P entry.2) → P (.fields entries))
    (leaf : ∀ content, P (.leaf content)) (other : ∀ label, P (.other label))
    (definition : Definition) : P definition :=
  @Definition.rec P (fun entries => ∀ entry ∈ entries, P entry.2) (fun entry => P entry.2)
    compiled fields leaf other (by simp)
    (fun _ _ first rest => List.forall_mem_cons.mpr ⟨first, rest⟩) (fun _ _ inside => inside)
    definition

attribute [induction_eliminator] ind

/-- An object is compiled as a schema if it is one, else as a mapping if it is one, and is called
only if it is neither. -/
theorem compile_ofNatures_ok_iff (natures : Natures) (path : String) (t : Tree Leaf) :
    (ofNatures natures).compile path = .ok t ↔
      natures.schema? = some t ∨
        natures.schema? = none ∧
          ((∃ entries fields, natures.entries? = some entries ∧
              compileFields path entries = .ok fields ∧ t = .branch fields) ∨
            natures.entries? = none ∧ ∃ content, natures.function? = some content ∧
              t = .leaf content) := by
  obtain ⟨schema?, entries?, function?, label⟩ := natures
  cases schema? with
  | some tree => simp [ofNatures, compile]
  | none =>
    cases entries? with
    | some entries =>
      rw [ofNatures, compile]
      cases listed : compileFields path entries with
      | error fault => simp [bind, Except.bind, listed]
      | ok fields => simp [bind, Except.bind, pure, Except.pure, listed, eq_comm]
    | none =>
      cases function? with
      | some content => simp [ofNatures, compile, eq_comm]
      | none => simp [ofNatures, compile]

def Compiles (path : String) (entry : DefinitionKey × Definition)
    (field : String × Tree Leaf) : Prop :=
  entry.1 = .name field.1 ∧ entry.2.compile (Path.child path field.1) = .ok field.2

theorem compileFields_cons_ok_iff (path name : String) (definition : Definition)
    (rest : List (DefinitionKey × Definition)) (fields : List (String × Tree Leaf)) :
    compileFields path ((.name name, definition) :: rest) = .ok fields ↔
      ∃ t more, definition.compile (Path.child path name) = .ok t ∧
        compileFields path rest = .ok more ∧ fields = (name, t) :: more := by
  rw [compileFields]
  cases definition.compile (Path.child path name) with
  | error fault => exact iff_of_false nofun nofun
  | ok t =>
    cases compileFields path rest with
    | error fault => exact iff_of_false nofun nofun
    | ok more =>
      constructor
      · intro same
        cases same
        exact ⟨t, more, rfl, rfl, rfl⟩
      · rintro ⟨_, _, one, others, rfl⟩
        cases one
        cases others
        rfl

theorem compileFields_ok_iff (path : String) (entries : List (DefinitionKey × Definition))
    (fields : List (String × Tree Leaf)) :
    compileFields path entries = .ok fields ↔ List.Forall₂ (Compiles path) entries fields := by
  induction entries generalizing fields with
  | nil => simp [compileFields, eq_comm]
  | cons entry rest ih =>
    obtain ⟨key, definition⟩ := entry
    rw [List.forall₂_cons_left_iff]
    cases key with
    | other literal =>
      refine iff_of_false nofun ?_
      rintro ⟨field, _, ⟨named, _⟩, _⟩
      cases named
    | name name =>
      rw [compileFields_cons_ok_iff]
      constructor
      · rintro ⟨t, more, compiled, others, rfl⟩
        exact ⟨(name, t), more, ⟨rfl, compiled⟩, (ih more).mp others, rfl⟩
      · rintro ⟨⟨other, t⟩, more, ⟨named, compiled⟩, others, rfl⟩
        cases named
        exact ⟨t, more, compiled, (ih more).mpr others, rfl⟩

theorem compile_fields_ok_iff (path : String) (entries : List (DefinitionKey × Definition))
    (t : Tree Leaf) :
    (fields entries).compile path = .ok t ↔
      ∃ fields, compileFields path entries = .ok fields ∧ t = .branch fields := by
  rw [compile]
  cases compileFields path entries with
  | error fault => exact iff_of_false nofun nofun
  | ok fields =>
    simp only [bind, Except.bind, pure, Except.pure, Except.ok.injEq, exists_eq_left']
    exact eq_comm

theorem compile_at {definition : Definition} {path : String} {t : Tree Leaf}
    (compiled : definition.compile path = .ok t) (path' : String) :
    definition.compile path' = .ok t := by
  induction definition generalizing path path' t with
  | compiled tree => exact compiled
  | leaf content => exact compiled
  | other label => cases compiled
  | fields entries ih =>
    obtain ⟨fields, listed, rfl⟩ := (compile_fields_ok_iff _ _ _).mp compiled
    refine (compile_fields_ok_iff _ _ _).mpr ⟨fields, ?_, rfl⟩
    clear compiled
    induction entries generalizing fields with
    | nil => exact listed
    | cons entry rest rested =>
      obtain ⟨key, definition⟩ := entry
      cases key with
      | other literal => cases listed
      | name name =>
        obtain ⟨u, more, one, others, rfl⟩ := (compileFields_cons_ok_iff _ _ _ _ _).mp listed
        exact (compileFields_cons_ok_iff _ _ _ _ _).mpr ⟨u, more,
          ih _ List.mem_cons_self one _,
          rested (fun entry member => ih entry (List.mem_cons_of_mem _ member)) more others, rfl⟩

end Definition

namespace Definition

/-- A definition that stands somewhere in another one, which it may be itself. -/
inductive Within : Definition → Definition → Prop
  | here (d : Definition) : Within d d
  | entry {entries : List (DefinitionKey × Definition)} {entry : DefinitionKey × Definition}
      {d : Definition} (member : entry ∈ entries) (inside : Within d entry.2) :
      Within d (.fields entries)

/-- A node that can stand in a schema: a finished schema, a mapping all of whose keys are texts, or
another thing that can be called. -/
def Fits : Definition → Prop
  | .compiled _ => True
  | .fields entries => ∀ entry ∈ entries, ∃ name, entry.1 = .name name
  | .leaf _ => True
  | .other _ => False

/-- Every node of a definition can stand in a schema. -/
def Sound (d : Definition) : Prop := ∀ node, Within node d → node.Fits

variable {path : List String} {key : DefinitionKey} {sub : Definition}
  {rest : List (DefinitionKey × Definition)} {i : Nat} {address : List Nat} {fault : SchemaFault}

end Definition

namespace Schema

/-- The key in the first mapping stands before the number behind it. -/
example : ofDefinition (.fields [(.name "a", .fields [(.name "b", .leaf (.other "f")),
    (.other "1", .other "int")]), (.name "c", .other "int")]) {} =
      .error (.schema (.keyNotText "a" "1")) := rfl

end Schema

end Assay
