import Assay.Factory
import Assay.Mode.Source
import Assay.Schema.Basic

/-!
Catalogues: the objects that values refer to by handles. What a value means as options, as a custom
check or as a schema definition is looked up here.
-/

set_option autoImplicit false
set_option relaxedAutoImplicit false

namespace Assay

/-- An object that a value can refer to. -/
inductive Entity where
  | checker (checker : Checker)
  | options (options : Options)
  | schema (schema : Schema)
  | check (check : CustomCheck)
  | factory (factory : Factory)

def Entity.sort : Entity → ObjectSort
  | .checker c => .checker c.checkerClass
  | .options _ => .options
  | .schema _ => .schema
  | .check _ => .function
  | .factory _ => .function

structure Catalogue where
  entities : Array Entity := #[]

namespace Catalogue

def add (catalogue : Catalogue) (entity : Entity) : Value × Catalogue :=
  (.atom (.object ⟨entity.sort, catalogue.entities.size⟩), ⟨catalogue.entities.push entity⟩)

def get? (catalogue : Catalogue) (handle : Handle) : Option Entity :=
  catalogue.entities[handle.index]?

def entity? (catalogue : Catalogue) : Value → Option Entity
  | .atom (.object handle) => catalogue.get? handle
  | _ => none

def optionsSource (catalogue : Catalogue) (store : Store) (v : Value) : OptionsSource :=
  match v, catalogue.entity? v with
  | .atom .null, _ => .absent
  | _, some (.options o) => .record o
  | .map _ a, _ => .mapping (store.entries a)
  | _, _ => .other v.label

def extensionSource (store : Store) : Value → ExtensionSource
  | .atom .null => .absent
  | .map _ a => .mapping (store.entries a)
  | _ => .other

/-- The custom check that a value is: any function, of which a checker is one. A factory takes other
arguments and fails when it is called as a check. -/
def callable? (catalogue : Catalogue) (v : Value) : Option CustomCheck :=
  match catalogue.entity? v with
  | some (.checker c) => some ⟨c.checkerClass.label, c.check⟩
  | some (.check check) => some check
  | some (.factory factory) => some ⟨factory.name, fun _ _ => throw (.fault .wrongType)⟩
  | _ => none

def registrant (catalogue : Catalogue) (v : Value) : Registrant :=
  match catalogue.entity? v with
  | some (.factory factory) => .factory factory
  | _ => .value v

/-- What a registry holds for a value that can be called. -/
def callableRegistrant? (catalogue : Catalogue) (v : Value) : Option Registrant :=
  (catalogue.callable? v).map fun _ => catalogue.registrant v

/-- The text of an object; the first argument bounds the number of objects inside each other. -/
def literalWithin (catalogue : Catalogue) (store : Store) : Nat → Handle → String
  | 0, handle => handle.plainLiteral
  | fuel + 1, handle =>
    let object := literalWithin catalogue store fuel
    match catalogue.get? handle with
    | some (.checker c) => c.literal store object
    | some (.options o) => o.literal store object
    | some (.schema schema) => schema.literal store object
    | _ => handle.plainLiteral

def literal (catalogue : Catalogue) (store : Store) : Handle → String :=
  literalWithin catalogue store (catalogue.entities.size + 1)

def definitionKey (catalogue : Catalogue) (store : Store) (key : Value) : DefinitionKey :=
  match key.text? with
  | some name => .name name
  | none => .other ((store.freeze key).literal (catalogue.literal store))

/-- The tree of the schema that a value is. -/
def tree? (catalogue : Catalogue) (v : Value) : Option (Tree Leaf) :=
  match catalogue.entity? v with
  | some (.schema schema) => some schema.root
  | _ => none

/-- What a schema calls where a function stands. -/
def leaf? (catalogue : Catalogue) (v : Value) : Option Leaf :=
  match catalogue.entity? v with
  | some (.checker c) => some (.checker c)
  | some (.check check) => some (.custom check)
  | some (.factory factory) => some (.other factory.name)
  | _ => none

/-- The definition that a value is, followed through at most `fuel` levels of mappings. -/
def definitionWithin (catalogue : Catalogue) (store : Store) : Nat → Value → Definition
  | fuel, v => .ofNatures {
      schema? := catalogue.tree? v
      entries? :=
        match v, fuel with
        | .map _ a, fuel + 1 =>
          some ((store.entries a).map fun entry =>
            (catalogue.definitionKey store entry.1, definitionWithin catalogue store fuel entry.2))
        | _, _ => none
      function? := catalogue.leaf? v
      label := v.label }

def definition (catalogue : Catalogue) (store : Store) (v : Value) : Definition :=
  catalogue.definitionWithin store store.depth v

def schema (catalogue : Catalogue) (store : Store) (definition mode : Value) :
    Except Failure Schema := do
  let schema ← Schema.ofDefinition (catalogue.definition store definition) {}
  return { schema with mode := ← Mode.coerce store (.ofValue store mode) }

end Catalogue

end Assay
