import Assay.Document.Yaml
import Assay.Mode.Environment

/-!
Modes from a configuration file. A file maps types to configurations: one mapping or a list of them,
each of which may be kept in a file of its own. The entry `settings` gives values for what a
configuration leaves out, and texts may ask for variables of the environment. The first
configuration of type `checker` gives the modes.
-/

set_option autoImplicit false
set_option relaxedAutoImplicit false

namespace Assay

abbrev Files := List (String × String)

inductive FileFormat where
  | json
  | yaml

namespace ConfigFile

/-- The name of a file: what stands behind the last slash of its path. -/
def nameOf (path : String) : String :=
  match Text.cutAtLast? '/' path.toList with
  | some (_, name) => String.ofList name
  | none => path

/-- The path of a file that stands beside another one. -/
def beside (path name : String) : String :=
  match Text.cutAtLast? '/' path.toList with
  | some (directory, _) => String.ofList directory ++ "/" ++ name
  | none => name

/-- The suffix of a path: the last dot of the file name and what follows it, unless the dot is at
one of the ends of the name. -/
def suffix (path : String) : String :=
  match Text.cutAtLast? '.' (nameOf path).toList with
  | some (before, behind) =>
    if before.isEmpty || behind.isEmpty then "" else "." ++ String.ofList behind
  | none => ""

/-- The format that a suffix stands for, in any case of its letters. -/
def formatOf? (suffix : String) : Option FileFormat :=
  let lower := Text.lower suffix
  if lower == ".yaml" || lower == ".yml" then some .yaml
  else if lower == ".json" then some .json
  else none

def parse (format : FileFormat) (text : String) : Except Failure Data :=
  match format with
  | .json =>
    match Json.document? text with
    | some data => .ok data
    | none => .error (.fault .badJson)
  | .yaml =>
    match Yaml.document? text with
    | some data => .ok data
    | none => .error (.fault .badYaml)

/-- Reads the file at a path; `main` is the path of the configuration file that is being read, and
`cause` what is wrong if the file is not there. -/
def read (files : Files) (main path : String) (cause : FileFault) : Except Failure Data :=
  match files.lookup path with
  | none => .error (.file main cause)
  | some text =>
    match formatOf? (suffix path) with
    | none => .error (.file main (.unsupported (suffix path)))
    | some format => parse format text

/-- Entries of a mapping in a document. -/
abbrev Fields := List (Data × Data)

def field? (fields : Fields) (name : String) : Option Data :=
  (fields.find? fun entry => entry.1 == Data.text name).map Prod.snd

/-- The fields with a value under a text, unless there is one. -/
def addDefault (fields : Fields) (name : String) (value : Data) : Fields :=
  if (field? fields name).isSome then fields else fields ++ [(.text name, value)]

/-- The settings that are about paths and give no values. -/
def pathSettings : List String := ["config_root", "global_root", "path_resolution_attributes"]

/-- The settings that give a value to every type: those without a dot. -/
def generalSettings (settings : Fields) : List (String × Data) :=
  settings.filterMap fun (key, value) =>
    match key.text? with
    | some name =>
      if name.contains '.' || pathSettings.contains name then none else some (name, value)
    | none => none

/-- The settings that give a value to one type: those that begin with its name and a dot. -/
def typeSettings (settings : Fields) (type : String) : List (String × Data) :=
  settings.filterMap fun (key, value) =>
    match key.text? with
    | some name =>
      (Text.stripStart? (type ++ ".").toList name.toList).map fun rest =>
        (String.ofList rest, value)
    | none => none

/-- A variable at the start of a text, after its dollar sign and brace: its name, what stands for it
if it is not set, and the rest of the text. -/
def leadingVariable? (s : List Char) : Option (String × Option String × List Char) :=
  match s.span fun c => c != '}' && c != ':' with
  | ([], _) => none
  | (name, '}' :: rest) => some (String.ofList name, none, rest)
  | (name, ':' :: rest) =>
    match rest.span (· != '}') with
    | (default, '}' :: rest) =>
      let default := match default with | '-' :: default => default | _ => default
      some (String.ofList name, some (String.ofList default), rest)
    | _ => none
  | _ => none

/-- The text that a variable stands for. -/
def lookupVariable (env : Environment) (name : String) (default : Option String) :
    Except Failure String :=
  match env.lookup name, default with
  | some text, _ => .ok text
  | none, some text => .ok text
  | none, none => .error (.fault .wrongValue)

def replaceVariables (env : Environment) : Nat → List Char → Except Failure (List Char)
  | 0, s => .ok s
  | _ + 1, [] => .ok []
  | fuel + 1, c :: rest =>
    let more : Except Failure (List Char) := do return c :: (← replaceVariables env fuel rest)
    match c, rest with
    | '$', '{' :: inside =>
      match leadingVariable? inside with
      | some (name, default, rest) => do
        let text ← lookupVariable env name default
        return text.toList ++ (← replaceVariables env fuel rest)
      | none => more
    | _, _ => more

/-- What a text stands for: a text that is one variable has the value of its text, and in others the
variables are replaced. -/
def substituteText (env : Environment) (text : String) : Except Failure Data := do
  let whole :=
    match text.toList with
    | '$' :: '{' :: inside =>
      match leadingVariable? inside with
      | some (name, default, []) => some (name, default)
      | _ => none
    | _ => none
  match whole with
  | some (name, default) =>
    return .atom (Environment.valueOf (← lookupVariable env name default))
  | none => return .text (String.ofList (← replaceVariables env (text.length + 1) text.toList))

mutual

/-- Data with the variables in its texts replaced; keys stay. -/
def substitute (env : Environment) : Data → Except Failure Data
  | .atom (.text s) => substituteText env s
  | .atom a => .ok (.atom a)
  | .seq kind items => do return .seq kind (← substituteItems env items)
  | .map kind fields => do return .map kind (← substituteFields env fields)
  | .endless => .ok .endless

def substituteItems (env : Environment) : List Data → Except Failure (List Data)
  | [] => .ok []
  | item :: rest => do
    let item ← substitute env item
    return item :: (← substituteItems env rest)

def substituteFields (env : Environment) : Fields → Except Failure Fields
  | [] => .ok []
  | (key, value) :: rest => do
    let value ← substitute env value
    return (key, value) :: (← substituteFields env rest)

end

/-- What a configuration file is read with: the files, its path, the environment and its
settings. -/
structure Source where
  files : Files
  path : String
  env : Environment
  settings : Fields := []

namespace Source

/-- Refuses a layout that is not made of mappings. -/
def notLaidOut {α : Type} (source : Source) : Except Failure α :=
  .error (.file source.path .notLaidOut)

/-- A configuration as it stands in the file, or in the file that it names. -/
def dereference (source : Source) (config : Data) : Except Failure Data :=
  match config with
  | .atom (.text s) =>
    match s.toList with
    | '@' :: name =>
      let path := beside source.path (String.ofList name)
      read source.files source.path path (.referenceAbsent path)
    | _ => .ok config
  | _ => .ok config

/-- The fields of a configuration of a type: what the file gives, then the settings for every type,
then those for its type. -/
def configuration (source : Source) (type : Data) (config : Data) : Except Failure Fields := do
  match ← source.dereference config with
  | .map _ fields =>
    let typeName := type.shown Handle.plainLiteral
    match field? fields "type" with
    | some found =>
      if !(found == type) then
        throw (.file source.path (.typeMismatch typeName (found.shown Handle.plainLiteral)))
    | none => pure ()
    let fields := addDefault fields "type" type
    let defaults := generalSettings source.settings ++ typeSettings source.settings typeName
    substituteFields source.env
      (defaults.foldl (fun fields (name, value) => addDefault fields name value) fields)
  | _ => source.notLaidOut

def configurations (source : Source) : Fields → Except Failure (List (Data × List Fields))
  | [] => .ok []
  | (type, found) :: rest => do
    if type == Data.text "settings" then source.configurations rest
    else
      let configs :=
        match found with
        | .seq .list items => items
        | config => [config]
      let configs ← configs.mapM (source.configuration type)
      return (type, configs) :: (← source.configurations rest)

end Source

def isEmpty : Data → Bool
  | .atom .null => true
  | .atom (.bool b) => !b
  | .atom (.number n) => n.isZero
  | .atom (.text s) => s == ""
  | .seq _ items => items.isEmpty
  | .map _ fields => fields.isEmpty
  | _ => false

def load (files : Files) (path : String) (env : Environment) :
    Except Failure (List (Data × List Fields)) := do
  let document ← read files path path .absent
  let source : Source := { files, path, env }
  if isEmpty document then return []
  match document with
  | .map _ fields =>
    match field? fields "settings" with
    | none => source.configurations fields
    | some (.map _ settings) =>
      if settings.all fun entry => entry.1.text?.isSome then
        ({ source with settings } : Source).configurations fields
      else source.notLaidOut
    | some _ => source.notLaidOut
  | _ => source.notLaidOut

end ConfigFile

/-- The modes that the configuration file at a path sets. The name and the type of the configuration
are no modes. -/
def Mode.ofFile (files : Files) (path : String) (env : Environment) : Except Failure Mode := do
  let configurations ← ConfigFile.load files path env
  match configurations.find? fun entry => entry.1 == Data.text "checker" with
  | none => return {}
  | some (_, []) => throw (.noConfiguration 0)
  | some (_, fields :: _) =>
    let own := fields.filter fun entry =>
      !(entry.1 == Data.text "type") && !(entry.1 == Data.text "name")
    let (entries, store) := thawEntries own {}
    Mode.ofEntries store entries

end Assay
