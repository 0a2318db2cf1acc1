import Assay.Checker.Basic

/-!
Schema definitions and schema trees. A definition is a checker or another function, a mapping from
field names to definitions, or a finished schema; it is compiled into a tree once. Compiling reports
the first fault when mappings are walked in the order of their entries, each key before what stands
under it.
-/

set_option autoImplicit false
set_option relaxedAutoImplicit false

namespace Assay

/-- A tree of described fields with something at its leaves. -/
inductive Tree (α : Type) where
  | leaf (content : α)
  | branch (fields : List (String × Tree α))

/-- What a schema calls at a leaf: a checker, a custom check, or a function that takes other
arguments than a value and a context. -/
inductive Leaf where
  | checker (checker : Checker)
  | custom (check : CustomCheck)
  | other (name : String)

namespace Leaf

def name : Leaf → String
  | .checker c => c.checkerClass.label
  | .custom check => check.name
  | .other name => name

def call : Leaf → Value → Context → CheckM Value
  | .checker c, v, ctx => c.check v ctx
  | .custom check, v, ctx => check.run v ctx
  | .other _, _, _ => throw (.fault .wrongType)

end Leaf

/-- A key of a mapping that stands for a definition: a field name, or the literal of another
value. -/
inductive DefinitionKey where
  | name (name : String)
  | other (literal : String)
  deriving DecidableEq

/-- A schema definition; what is no definition is known by the word for its type. -/
inductive Definition where
  | compiled (tree : Tree Leaf)
  | fields (entries : List (DefinitionKey × Definition))
  | leaf (content : Leaf)
  | other (label : String)

/-- What an object is to a schema that is made of it. It may be a schema, a mapping and a function
all at once. -/
structure Natures where
  schema? : Option (Tree Leaf) := none
  entries? : Option (List (DefinitionKey × Definition)) := none
  function? : Option Leaf := none
  label : String

namespace Definition

/-- The definition that an object is: a schema before a mapping, and a mapping before a function. -/
def ofNatures (natures : Natures) : Definition :=
  match natures.schema?, natures.entries?, natures.function? with
  | some tree, _, _ => .compiled tree
  | none, some entries, _ => .fields entries
  | none, none, some content => .leaf content
  | none, none, none => .other natures.label

mutual

/-- The tree of a definition that stands at a path. -/
def compile (path : String) : Definition → Except SchemaFault (Tree Leaf)
  | .compiled tree => .ok tree
  | .fields entries => do return .branch (← compileFields path entries)
  | .leaf content => .ok (.leaf content)
  | .other label => .error (.noDefinition path label)

/-- The fields of a mapping that stands at a path. -/
def compileFields (path : String) :
    List (DefinitionKey × Definition) → Except SchemaFault (List (String × Tree Leaf))
  | [] => .ok []
  | (.other literal, _) :: _ => .error (.keyNotText path literal)
  | (.name name, definition) :: rest => do
    let tree ← compile (Path.child path name) definition
    return (name, tree) :: (← compileFields path rest)

end

end Definition

end Assay
