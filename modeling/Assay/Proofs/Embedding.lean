import Assay.Catalogue
import Assay.Proofs.Compilation
import Mathlib.Logic.Function.Basic

/-!
Schemas inside definitions. A finished schema may stand wherever a definition may, also in the
definition of another schema and in several places at once. What is made of a definition is what is
made of it with each schema replaced by the definition from which it was made, and the modes of the
schemas inside have no part in it.
-/

set_option autoImplicit false
set_option relaxedAutoImplicit false

namespace Assay

namespace Definition

/-- No finished schema stands in a definition. -/
def Bare (d : Definition) : Prop := ∀ tree, ¬Within (.compiled tree) d

theorem bare_fields {entries : List (DefinitionKey × Definition)}
    (each : ∀ entry ∈ entries, entry.2.Bare) : (fields entries).Bare := by
  intro tree inside
  cases inside with
  | entry member inside => exact each _ member tree inside

theorem bare_leaf (content : Leaf) : (leaf content).Bare := nofun

theorem bare_other (label : String) : (other label).Bare := nofun

theorem compile_fields_congr {entries entries' : List (DefinitionKey × Definition)}
    (same : List.Forall₂ (fun entry entry' => entry.1 = entry'.1 ∧
      ∀ path, entry.2.compile path = entry'.2.compile path) entries entries') (path : String) :
    (fields entries).compile path = (fields entries').compile path := by
  have listed : compileFields path entries = compileFields path entries' := by
    induction same with
    | nil => rfl
    | @cons entry entry' rest rest' first _ ih =>
      obtain ⟨key, sub⟩ := entry
      obtain ⟨key', sub'⟩ := entry'
      obtain ⟨rfl, alike⟩ := first
      cases key with
      | other literal => rw [compileFields, compileFields]
      | name name => rw [compileFields, compileFields, alike, ih]
  rw [compile, compile, listed]

end Definition

/-- What is made of a definition and a value for the modes. -/
def Schema.made (store : Store) (definition : Definition) (mode : Value) :
    Except Failure Schema := do
  let schema ← ofDefinition definition {}
  return { schema with mode := ← Mode.coerce store (.ofValue store mode) }

theorem Schema.compile_of_made {store : Store} {definition : Definition} {mode : Value}
    {schema : Schema} (made : Schema.made store definition mode = .ok schema) :
    definition.compile "" = .ok schema.root := by
  unfold Schema.made ofDefinition at made
  cases compiled : definition.compile "" with
  | error fault => simp [compiled, bind, Except.bind] at made
  | ok root =>
    cases coerced : Mode.coerce store (.ofValue store mode) with
    | error failure => simp [compiled, coerced, bind, Except.bind] at made
    | ok modes =>
      simp only [compiled, coerced, bind, Except.bind, pure, Except.pure, Except.ok.injEq] at made
      rw [← made]

theorem Schema.made_congr {store : Store} {d d' : Definition} (mode : Value)
    (same : d.compile "" = d'.compile "") :
    Schema.made store d mode = Schema.made store d' mode := by
  simp only [Schema.made, ofDefinition, same]

namespace Catalogue

variable {catalogue : Catalogue} {store : Store} {origin : Nat → Definition}

/-- The definition that a value is with each schema in it replaced by its origin, followed through
at most `fuel` levels of mappings. -/
def unfoldedWithin (catalogue : Catalogue) (store : Store) (origin : Nat → Definition) :
    Nat → Value → Definition
  | fuel + 1, .map _ a =>
    .fields ((store.entries a).map fun entry =>
      (catalogue.definitionKey store entry.1, unfoldedWithin catalogue store origin fuel entry.2))
  | fuel, .atom (.object handle) =>
    match catalogue.get? handle with
    | some (.schema _) => origin handle.index
    | _ => catalogue.definitionWithin store fuel (.atom (.object handle))
  | fuel, v => catalogue.definitionWithin store fuel v

def unfolded (catalogue : Catalogue) (store : Store) (origin : Nat → Definition) (v : Value) :
    Definition :=
  catalogue.unfoldedWithin store origin store.depth v

/-- The catalogues that come about when objects are made one after another, with the origins of the
schemas in them: a schema is made of what a value was when it was made, in the store of that time,
and its origin is that definition, with the schemas in it replaced by theirs. -/
inductive Recorded : Catalogue → (Nat → Definition) → Prop
  | empty (origin : Nat → Definition) : Recorded {} origin
  | object {catalogue : Catalogue} {origin : Nat → Definition} {entity : Entity}
      (recorded : Recorded catalogue origin) (plain : ∀ schema, entity ≠ .schema schema) :
      Recorded (catalogue.add entity).2 origin
  | schema {catalogue : Catalogue} {origin : Nat → Definition} {store : Store}
      {definition mode : Value} {schema : Schema} (recorded : Recorded catalogue origin)
      (made : catalogue.schema store definition mode = .ok schema) :
      Recorded (catalogue.add (.schema schema)).2
        (Function.update origin catalogue.entities.size
          (catalogue.unfolded store origin definition))

/-- The catalogue with other modes for the schemas in it. -/
def withModes (catalogue : Catalogue) (modes : Nat → Mode) : Catalogue where
  entities := catalogue.entities.mapIdx fun i entity =>
    match entity with
    | .schema schema => .schema { schema with mode := modes i }
    | entity => entity

theorem schema_eq (catalogue : Catalogue) (store : Store) (definition mode : Value) :
    catalogue.schema store definition mode =
      Schema.made store (catalogue.definition store definition) mode := rfl

theorem definitionWithin_map (fuel : Nat) (kind : MapKind) (a : Address) :
    catalogue.definitionWithin store (fuel + 1) (.map kind a) =
      .fields ((store.entries a).map fun entry =>
        (catalogue.definitionKey store entry.1,
          catalogue.definitionWithin store fuel entry.2)) := by
  have entity : catalogue.entity? (.map kind a) = none := rfl
  simp [definitionWithin, Definition.ofNatures, tree?, entity]

theorem definitionWithin_schema {handle : Handle} {schema : Schema}
    (found : catalogue.get? handle = some (.schema schema)) (fuel : Nat) :
    catalogue.definitionWithin store fuel (.atom (.object handle)) = .compiled schema.root := by
  have entity : catalogue.entity? (.atom (.object handle)) = some (.schema schema) := found
  simp [definitionWithin, Definition.ofNatures, tree?, entity]

/-- The origins of the schemas of a catalogue: no schema stands in one, and it is compiled to what
the schema is, wherever it stands. -/
def Sourced (catalogue : Catalogue) (origin : Nat → Definition) : Prop :=
  ∀ i schema, catalogue.entities[i]? = some (.schema schema) →
    (origin i).Bare ∧ ∀ path, (origin i).compile path = .ok schema.root

private theorem bare_definitionWithin_object {handle : Handle}
    (plain : ∀ schema, catalogue.get? handle ≠ some (.schema schema)) (fuel : Nat) :
    (catalogue.definitionWithin store fuel (.atom (.object handle))).Bare := by
  cases found : catalogue.get? handle with
  | none =>
    have entity : catalogue.entity? (.atom (.object handle)) = none := found
    simpa [definitionWithin, Definition.ofNatures, tree?, leaf?, entity] using
      Definition.bare_other _
  | some object =>
    have entity : catalogue.entity? (.atom (.object handle)) = some object := found
    cases object with
    | schema schema => exact absurd found (plain schema)
    | checker | check | factory =>
      simpa [definitionWithin, Definition.ofNatures, tree?, leaf?, entity] using
        Definition.bare_leaf _
    | options =>
      simpa [definitionWithin, Definition.ofNatures, tree?, leaf?, entity] using
        Definition.bare_other _

private theorem Sourced.unfoldedWithin_atom (sourced : catalogue.Sourced origin) (fuel : Nat)
    (content : Atom) :
    (catalogue.unfoldedWithin store origin fuel (.atom content)).Bare ∧
      ∀ path, (catalogue.unfoldedWithin store origin fuel (.atom content)).compile path =
        (catalogue.definitionWithin store fuel (.atom content)).compile path := by
  cases content with
  | object handle =>
    by_cases plain : ∀ schema, catalogue.get? handle ≠ some (.schema schema)
    · have kept : catalogue.unfoldedWithin store origin fuel (.atom (.object handle)) =
          catalogue.definitionWithin store fuel (.atom (.object handle)) := by
        simp [Catalogue.unfoldedWithin]
      exact ⟨kept ▸ bare_definitionWithin_object plain fuel, fun path => by rw [kept]⟩
    · obtain ⟨schema, found⟩ := not_forall_not.mp plain
      have replaced : catalogue.unfoldedWithin store origin fuel (.atom (.object handle)) =
          origin handle.index := by
        simp [Catalogue.unfoldedWithin, found]
      obtain ⟨bare, compiled⟩ := sourced handle.index schema found
      refine ⟨replaced ▸ bare, fun path => ?_⟩
      rw [replaced, compiled, definitionWithin_schema found, Definition.compile]
  | _ =>
    simp only [Catalogue.unfoldedWithin, implies_true, and_true]
    cases fuel <;> exact Definition.bare_other _

/-- Replacing the schemas in a definition by their origins leaves none of them, and changes nothing
about what is made of it. -/
theorem Sourced.unfoldedWithin (sourced : catalogue.Sourced origin) (store : Store) (fuel : Nat)
    (v : Value) :
    (catalogue.unfoldedWithin store origin fuel v).Bare ∧
      ∀ path, (catalogue.unfoldedWithin store origin fuel v).compile path =
        (catalogue.definitionWithin store fuel v).compile path := by
  induction fuel generalizing v with
  | zero =>
    cases v with
    | atom content => exact sourced.unfoldedWithin_atom 0 content
    | seq | map => exact ⟨Definition.bare_other _, fun path => rfl⟩
  | succ fuel ih =>
    cases v with
    | atom content => exact sourced.unfoldedWithin_atom (fuel + 1) content
    | seq => exact ⟨Definition.bare_other _, fun path => rfl⟩
    | map kind a =>
      rw [Catalogue.unfoldedWithin, definitionWithin_map]
      refine ⟨Definition.bare_fields ?_, Definition.compile_fields_congr ?_⟩
      · intro entry member
        obtain ⟨inner, -, rfl⟩ := List.mem_map.mp member
        exact (ih inner.2).1
      · exact List.forall₂_map_left_iff.mpr (List.forall₂_map_right_iff.mpr
          (List.forall₂_same.mpr fun entry _ => ⟨rfl, (ih entry.2).2⟩))

theorem Recorded.sourced (recorded : catalogue.Recorded origin) : catalogue.Sourced origin := by
  induction recorded with
  | empty origin => exact fun i schema found => nomatch found
  | @object catalogue origin entity _ plain ih =>
    intro i schema found
    have old : catalogue.entities[i]? = some (.schema schema) := by
      simp only [add, Array.getElem?_push] at found
      split at found
      · exact absurd (Option.some.inj found) (plain schema)
      · exact found
    exact ih i schema old
  | @schema catalogue origin store definition mode schema _ made ih =>
    intro i other found
    simp only [add, Array.getElem?_push] at found
    split at found
    next last =>
      subst last
      obtain rfl : schema = other := by simpa using found
      rw [Function.update_self]
      obtain ⟨bare, same⟩ := ih.unfoldedWithin store store.depth definition
      refine ⟨bare, fun path => ?_⟩
      rw [Catalogue.unfolded, same path]
      exact Definition.compile_at (Schema.compile_of_made made) path
    next earlier =>
      rw [Function.update_of_ne earlier]
      exact ih i other found

section Modes

variable (catalogue : Catalogue) (modes : Nat → Mode)

theorem get?_withModes (handle : Handle) :
    (catalogue.withModes modes).get? handle =
      (catalogue.get? handle).map fun entity =>
        match entity with
        | .schema schema => .schema { schema with mode := modes handle.index }
        | entity => entity := by
  simp only [get?, withModes, Array.getElem?_mapIdx]

theorem literalWithin_withModes (store : Store) (fuel : Nat) :
    (catalogue.withModes modes).literalWithin store fuel = catalogue.literalWithin store fuel := by
  induction fuel with
  | zero => rfl
  | succ fuel ih =>
    funext handle
    rw [literalWithin, literalWithin, ih, get?_withModes]
    cases catalogue.get? handle with
    | none => rfl
    | some entity => cases entity <;> rfl

theorem definitionKey_withModes (store : Store) (key : Value) :
    (catalogue.withModes modes).definitionKey store key = catalogue.definitionKey store key := by
  have size : (catalogue.withModes modes).entities.size = catalogue.entities.size := by
    simp [withModes]
  simp only [definitionKey, literal, size, literalWithin_withModes]

/-- Other modes make another object of a schema only, and leave its tree. -/
theorem entity?_withModes (v : Value) :
    (catalogue.withModes modes).entity? v = catalogue.entity? v ∨
      ∃ schema mode, catalogue.entity? v = some (.schema schema) ∧
        (catalogue.withModes modes).entity? v = some (.schema { schema with mode }) := by
  cases v with
  | atom content =>
    cases content with
    | object handle =>
      rw [entity?, entity?, get?_withModes]
      cases catalogue.get? handle with
      | none => exact Or.inl rfl
      | some entity =>
        cases entity with
        | schema schema => exact Or.inr ⟨schema, modes handle.index, rfl, rfl⟩
        | checker | options | check | factory => exact Or.inl rfl
    | _ => exact Or.inl rfl
  | seq | map => exact Or.inl rfl

theorem tree?_withModes (v : Value) : (catalogue.withModes modes).tree? v = catalogue.tree? v := by
  rw [tree?, tree?]
  rcases catalogue.entity?_withModes modes v with same | ⟨schema, mode, here, there⟩
  · rw [same]
  · rw [here, there]

theorem leaf?_withModes (v : Value) : (catalogue.withModes modes).leaf? v = catalogue.leaf? v := by
  rw [leaf?, leaf?]
  rcases catalogue.entity?_withModes modes v with same | ⟨schema, mode, here, there⟩
  · rw [same]
  · rw [here, there]

theorem definitionWithin_withModes (store : Store) (fuel : Nat) (v : Value) :
    (catalogue.withModes modes).definitionWithin store fuel v =
      catalogue.definitionWithin store fuel v := by
  induction fuel generalizing v with
  | zero => simp only [definitionWithin, tree?_withModes, leaf?_withModes]
  | succ fuel ih =>
    cases v with
    | atom | seq => simp only [definitionWithin, tree?_withModes, leaf?_withModes]
    | map kind a =>
      rw [definitionWithin_map, definitionWithin_map]
      simp only [definitionKey_withModes, ih]

end Modes

/-- What is made of a value that holds finished schemas, made one after another and of one another,
is the very schema that is made of it with each of them replaced by the definition of which it was
made, so every check comes out the same; the modes that they were given make no difference. -/
theorem schema_unfolded (recorded : catalogue.Recorded origin) (store : Store)
    (definition mode : Value) :
    (catalogue.unfolded store origin definition).Bare ∧
    catalogue.schema store definition mode =
      Schema.made store (catalogue.unfolded store origin definition) mode ∧
    ∀ modes, (catalogue.withModes modes).schema store definition mode =
      catalogue.schema store definition mode := by
  obtain ⟨bare, same⟩ := recorded.sourced.unfoldedWithin store store.depth definition
  refine ⟨bare, (Schema.made_congr mode (same "")).symm, fun modes => ?_⟩
  have kept : (catalogue.withModes modes).definition store definition =
      catalogue.definition store definition :=
    catalogue.definitionWithin_withModes modes store store.depth definition
  rw [schema_eq, schema_eq, kept]

def reusedStore : Store where
  mappings := #[[(.text "a", .atom (.object ⟨.function, 0⟩))],
    [(.text "x", .atom (.object ⟨.schema, 1⟩)), (.text "y", .atom (.object ⟨.schema, 1⟩))],
    [(.text "partial", .bool true)]]

def taken : CustomCheck := ⟨"taken", fun v _ => pure v⟩

def reusedOrigin : Definition := .fields [(.name "a", .leaf (.custom taken))]

def reused : Catalogue where
  entities := #[.check taken,
    .schema { root := .branch [("a", .leaf (.custom taken))], mode := { partialCheck := true } }]

theorem reused_recorded :
    reused.Recorded (Function.update (fun _ => .other "") 1 reusedOrigin) :=
  @Recorded.schema _ _ reusedStore (.map .plain 0) (.map .plain 2) _
    (.object (.empty _) fun _ => Entity.noConfusion) rfl

theorem schema_unfolded_reused :
    reused.schema reusedStore (.map .plain 1) .null =
      Schema.ofDefinition (.fields [(.name "x", reusedOrigin), (.name "y", reusedOrigin)]) {} ∧
    (reused.withModes fun _ => { sanitize := true }).schema reusedStore (.map .plain 1) .null =
      reused.schema reusedStore (.map .plain 1) .null :=
  have ⟨_, same, anyModes⟩ := schema_unfolded reused_recorded reusedStore (.map .plain 1) .null
  ⟨same, anyModes _⟩

end Catalogue

end Assay
