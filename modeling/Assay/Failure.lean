import Assay.Value.Literal

/-!
Failures. A failure is a cause; its class, message, path and context are read off the cause by
`Failure.report?`. A fault, such as an operation on a value of the wrong type, has no report.
-/

set_option autoImplicit false
set_option relaxedAutoImplicit false

namespace Assay

inductive ErrorClass where
  | base
  | configuration
  | notFound
  | operation
  | validation
  | missing
  | invalid
  | invalidSchema
  | assertion
  | reference
  | noConfiguration
  deriving DecidableEq

namespace ErrorClass

/-- The word for the kind of a validation failure; other failures have no kind. -/
def kind? : ErrorClass → Option String
  | .validation => some "invalid"
  | .missing => some "missing"
  | .invalid => some "invalid"
  | .invalidSchema => some "invalidSchema"
  | .assertion => some "assertion"
  | _ => none

/-- Whether every failure of the first class is one of the second. -/
def within (a b : ErrorClass) : Bool :=
  a == b || b == .base || (b == .validation && a.kind?.isSome)

end ErrorClass

/-- What a caller is told about a failure. The path means something for validation failures only. -/
structure Report where
  errorClass : ErrorClass
  message : String
  path : String := ""
  context : List (Data × Data)

namespace Report

/-- The context with an entry under a text, unless there is one. -/
def addDefault (context : List (Data × Data)) (key value : String) : List (Data × Data) :=
  if context.any fun entry => entry.1 == Data.text key then context
  else context ++ [(.text key, .text value)]

/-- A validation failure: its kind and path are entered into the context unless they are there. -/
def validation (errorClass : ErrorClass) (message path : String) (context : List (Data × Data)) :
    Report :=
  let kind := errorClass.kind?.getD ""
  { errorClass, message, path
    context := addDefault (addDefault context "kind" kind) "path" path }

/-- The standard validation failure at a path: the path, or a word for the root, and the kind. -/
def standard (errorClass : ErrorClass) (path : String) : Report :=
  validation errorClass (Path.shown path "value" ++ " is " ++ errorClass.kind?.getD "") path []

/-- A failure that is about no value: its particulars are the details if there are any, and else the
context. -/
def general (errorClass : ErrorClass) (message : String) (context details : List (Data × Data)) :
    Report :=
  { errorClass, message, context := if details.isEmpty then context else details }

end Report

/-- Ways to misuse the makers of checkers. -/
inductive Misuse where
  | wrongExactValue (kind : String)
  | wrongBound (option : String)
  | wrongSize (option : String)
  | wrongPattern
  | unknownOptions (names : List String)
  | optionsNotMapping (label : String)
  | extensionNotMapping
  | unknownExtensionKeys (keys : List String)
  | noKind
  | noCheck
  | unknownKind (kind : Data) (available : Option (List Data))
  | factoryNotCallable (kind : Data)

namespace Misuse

def message : Misuse → String
  | .wrongExactValue kind => "options.value must be a " ++ kind
  | .wrongBound option => "options." ++ option ++ " must be a number"
  | .wrongSize option => "options." ++ option ++ " must be a non-negative integer"
  | .wrongPattern => "options.regex must be a string or a compiled pattern"
  | .unknownOptions names => "unknown checker options: " ++ ", ".intercalate names
  | .optionsNotMapping label => "checker options must be a mapping, got " ++ label
  | .extensionNotMapping => "extension must be a mapping with 'type' and 'check'"
  | .unknownExtensionKeys keys => "unknown extension keys: " ++ ", ".intercalate keys
  | .noKind => "no type to extend"
  | .noCheck => "no check method"
  | .unknownKind kind _ =>
    "type '" ++ kind.shown Handle.plainLiteral ++ "' unknown to the checker registry"
  | .factoryNotCallable _ => "checker factory must be callable"

def texts (names : List String) : Data := .seq .list (names.map Data.text)

def context : Misuse → List (Data × Data)
  | .wrongExactValue kind => [(.text "checker_kind", .text kind)]
  | .wrongBound option => [(.text "option", .text option)]
  | .wrongSize option => [(.text "option", .text option)]
  | .unknownOptions names => [(.text "options", texts names)]
  | .unknownExtensionKeys keys => [(.text "unknown", texts keys)]
  | .unknownKind kind none => [(.text "checker_kind", kind)]
  | .unknownKind kind (some available) =>
    [(.text "checker_kind", kind), (.text "available_kinds", .seq .list available)]
  | .factoryNotCallable kind => [(.text "checker_kind", kind)]
  | _ => []

end Misuse

/-- What makes a schema definition malformed, and where. -/
inductive SchemaFault where
  | keyNotText (path : String) (key : String)
  | noDefinition (path : String) (label : String)

namespace SchemaFault

def path : SchemaFault → String
  | .keyNotText path _ => path
  | .noDefinition path _ => path

def message : SchemaFault → String
  | .keyNotText path key =>
    "input schema is invalid: key " ++ key ++ " at " ++ Path.shown path "root" ++
      " is not a string"
  | .noDefinition path label =>
    "input schema is invalid at " ++ Path.shown path "root" ++
      ": expected a checker or a mapping, got " ++ label

end SchemaFault

/-- What makes the modes of a check unreadable. -/
inductive ModeFault where
  | unknownOptions (names : List String)
  | notBoolean (option : String) (label : String) (value : Data)

namespace ModeFault

def message : ModeFault → String
  | .unknownOptions names => "Unknown check options: " ++ ", ".intercalate names
  | .notBoolean option label _ => "Check option '" ++ option ++ "' must be a boolean, got " ++ label

def context : ModeFault → List (Data × Data)
  | .unknownOptions names =>
    [(.text "unknown", Misuse.texts names), (.text "known", Misuse.texts ["partial", "sanitize"])]
  | .notBoolean option _ value => [(.text "option", .text option), (.text "value", value)]

end ModeFault

/-- What makes a configuration file unreadable. -/
inductive FileFault where
  | absent
  | referenceAbsent (referenced : String)
  | unsupported (suffix : String)
  | typeMismatch (expected found : String)
  | notLaidOut

/-- What is wrong with the configuration file at a path. -/
def FileFault.message (path : String) : FileFault → String
  | .absent => "Configuration file not found: " ++ path
  | .referenceAbsent referenced => "Referenced configuration file not found: " ++ referenced
  | .unsupported suffix => "Unsupported file format: " ++ suffix
  | .typeMismatch expected found => "Type mismatch: expected " ++ expected ++ ", got " ++ found
  | .notLaidOut => "Configuration file must map configuration types to settings: " ++ path

/-- What a registry refuses. -/
inductive RegistryFault where
  | taken (key : Data)
  | absent (key : Data) (available : Option (List Data))

/-- Operations that a value does not allow, and texts that cannot be read. They stop the work and
are not reported as failures of the data. -/
inductive Fault where
  | wrongType
  | wrongValue
  | noAttribute
  | badPattern
  | badJson
  | badYaml
  | outOfRange
  | undefined
  | overflow
  | endless
  deriving DecidableEq

/-- Why something failed. -/
inductive Failure where
  | missing (path : String)
  | invalid (path : String)
  | schema (cause : SchemaFault)
  | misuse (cause : Misuse)
  | mode (cause : ModeFault)
  | file (path : String) (cause : FileFault)
  | registry (cause : RegistryFault)
  | reference (text : String)
  | noConfiguration (index : Nat)
  | stated (report : Report)
  | fault (cause : Fault)

namespace Failure

/-- What a caller is told about a failure; nothing about a fault. -/
def report? : Failure → Option Report
  | .missing path => some (.standard .missing path)
  | .invalid path => some (.standard .invalid path)
  | .schema cause => some (.validation .invalidSchema cause.message cause.path [])
  | .misuse cause => some (.validation .assertion cause.message "" cause.context)
  | .mode cause =>
    some { errorClass := .configuration, message := cause.message, context := cause.context }
  | .file path cause =>
    some
      { errorClass := .configuration, message := cause.message path
        context := [(.text "path", .text path)] }
  | .registry (.taken key) =>
    some
      { errorClass := .operation
        message := "Item '" ++ key.shown Handle.plainLiteral ++ "' already registered in checkers"
        context := [(.text "key", key), (.text "registry", .text "checkers")] }
  | .registry (.absent key available) =>
    some
      { errorClass := .notFound
        message := "Item not found: " ++ key.shown Handle.plainLiteral
        context :=
          [(.text "key", key), (.text "registry", .text "checkers")] ++
            (available.map fun keys => (Data.text "available_keys", Data.seq .list keys)).toList }
  | .reference text =>
    some
      { errorClass := .reference, message := "Missing type in reference: " ++ text, context := [] }
  | .noConfiguration index =>
    some
      { errorClass := .noConfiguration, message := "Index out of range: " ++ toString index
        context := [] }
  | .stated report => some report
  | .fault _ => none

end Failure

/-- A condition that must hold: a failure with the message and the particulars unless it does. -/
def ensure (condition : Bool) (message : String) (context : List (Data × Data)) :
    Except Failure Unit :=
  if condition then .ok () else .error (.stated (.validation .assertion message "" context))

end Assay
