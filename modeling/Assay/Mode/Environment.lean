import Assay.Mode.Source
import Assay.Number.Text
import Assay.Text.Case
import Assay.Text.Split

/-!
Modes from the environment. A reader collects what variables with a prefix set, by references, and
reads the references back; those of the first configuration of type `checker` give the modes. How
variables are collected and how references are read is the reader's affair. The standard reader
knows variables whose names are a prefix, a type, a selector and an attribute with two underscores
between them.
-/

set_option autoImplicit false
set_option relaxedAutoImplicit false

namespace Assay

abbrev Environment := List (String × String)

namespace Environment

def defaultPrefix : String := "DATAKNOBS_"

/-- The settings with one more: in place if its name is there, else at the end. -/
def put {α : Type} : List (String × α) → String → α → List (String × α)
  | [], name, item => [(name, item)]
  | entry :: rest, name, item =>
    if entry.1 == name then (name, item) :: rest else entry :: put rest name item

/-- The settings that a list makes, of which a later one wins. -/
def ofList {α : Type} (settings : List (String × α)) : List (String × α) :=
  settings.foldl (fun found setting => put found setting.1 setting.2) []

/-- What an environment sets, by reference, if each variable sets one reference at most. -/
def collect {α : Type} (reference? : String → Option String) (valueOf : String → α)
    (env : Environment) : List (String × α) :=
  env.foldl
    (fun found entry =>
      match reference? entry.1 with
      | some reference => put found reference (valueOf entry.2)
      | none => found)
    []

/-- The value that the text of a variable stands for: a truth value for six words, else a whole
number, else a double, else the text itself. -/
def valueOf (text : String) : Atom :=
  let word := Text.lower text
  if word == "true" || word == "yes" || word == "1" then .bool true
  else if word == "false" || word == "no" || word == "0" then .bool false
  else
    match Text.integer? text with
    | some n => .number (.int n)
    | none =>
      match Text.double? 0 text with
      | some d => .number (.double d)
      | none => .text text

end Environment

/-- What selects one configuration of a type: its number or its name. -/
inductive Selector where
  | index (n : Int)
  | name (name : String)
  deriving DecidableEq

namespace Selector

/-- The selector in the name of a variable. Digits that write no number select nothing. -/
def ofPart? (part : String) : Option Selector :=
  let digits :=
    match part.toList with
    | '-' :: rest => rest
    | chars => chars
  if !digits.isEmpty && digits.all Text.isDigitLike then (Text.integer? part).map .index
  else some (.name (Text.lower part))

/-- The selector in a reference: a number if it can be read as one. -/
def ofReference (text : String) : Selector :=
  match Text.integer? text with
  | some n => .index n
  | none => .name text

end Selector

namespace Reference

/-- The mark at the start of a reference. -/
def mark : String := "xref:"

/-- The text of a reference; the first configuration of a type needs no selector. -/
def format (type : String) (selector : Selector) (attr : String) : String :=
  match selector with
  | .index n =>
    if n == 0 then mark ++ type ++ "." ++ attr
    else mark ++ type ++ "[" ++ toString n ++ "]." ++ attr
  | .name name => mark ++ type ++ "[" ++ name ++ "]." ++ attr

/-- Whether a character may begin the name of a type. -/
def isNameStart (c : Char) : Bool := ('a' ≤ c && c ≤ 'z') || ('A' ≤ c && c ≤ 'Z') || c == '_'

/-- Whether a character may go on in the name of a type. -/
def isNamePart (c : Char) : Bool := isNameStart c || ('0' ≤ c && c ≤ '9')

/-- What may stand behind a type: a selector in brackets or nothing, and perhaps a line end. -/
def strictSelector? : List Char → Option (Option (List Char))
  | [] | ['\n'] => some none
  | '[' :: rest =>
    match rest.span (· != ']') with
    | ([], _) => none
    | (selector, [']']) | (selector, [']', '\n']) => some (some selector)
    | _ => none
  | _ => none

/-- A type and perhaps a selector, if the text is exactly that; the type may be empty. -/
def strictBase? (base : List Char) : Option (List Char × Option (List Char)) :=
  match base.span isNamePart with
  | (name, rest) =>
    if name.head?.all isNameStart then (strictSelector? rest).map fun selector => (name, selector)
    else none

/-- A type before the first bracket and a selector behind it, less the brackets at its end. -/
def looseBase (base : List Char) : List Char × Option (List Char) :=
  match base.span (· != '[') with
  | (name, _ :: rest) => (name, some (rest.reverse.dropWhile (· == ']')).reverse)
  | (name, []) => (name, none)

/-- What a reference says, after its mark: type, selector and attribute. The attribute stands behind
the last dot if what stands before is a proper type with or without a selector, and else behind the
first dot. -/
def read (reference : List Char) : String × Selector × String :=
  let (base, attr) :=
    if reference.getLast? == some ']' then (reference, [])
    else (Text.cutAtLast? '.' reference).getD (reference, [])
  let ((name, selector), attr) :=
    match strictBase? base with
    | some found => (found, attr)
    | none =>
      let (base, attr) := Text.cutAtFirst '.' reference
      (looseBase base, attr)
  let selector :=
    match selector with
    | none => Selector.index 0
    | some text => Selector.ofReference (String.ofList text)
  (String.ofList name, selector, String.ofList attr)

end Reference

/-- The parts of a list of characters between pairs of underscores. -/
def splitAtUnderscores : List Char → List (List Char)
  | [] => [[]]
  | '_' :: '_' :: rest => [] :: splitAtUnderscores rest
  | c :: rest =>
    match splitAtUnderscores rest with
    | [] => [[c]]
    | part :: parts => (c :: part) :: parts

namespace Environment

/-- The reference that a variable sets, if its name has the prefix and at least three parts. -/
def reference? (lead name : String) : Option String := do
  let rest ← Text.stripStart? lead.toList name.toList
  match splitAtUnderscores rest with
  | type :: selector :: first :: more =>
    let attr := "__".intercalate ((first :: more).map String.ofList)
    let selector ← Selector.ofPart? (String.ofList selector)
    some (Reference.format (Text.lower (String.ofList type)) selector (Text.lower attr))
  | _ => none

end Environment

/-- What collects the settings of an environment and reads their references back. -/
structure EnvironmentReader where
  /-- The values that variables with a prefix set, by reference. -/
  overrides : Environment → String → List (String × Atom)
  /-- The type, the selector and the attribute that a reference names. -/
  read : String → Except Failure (String × Selector × String)

namespace EnvironmentReader

/-- The attributes of the first checker configuration among values by reference. Every reference is
read, whatever it is for. -/
def attributes (reader : EnvironmentReader) :
    List (String × Atom) → Entries → Except Failure Entries
  | [], entries => .ok entries
  | (reference, item) :: rest, entries => do
    let (type, selector, attr) ← reader.read reference
    if type == "checker" && selector == .index 0 && attr != "" then
      attributes reader rest (entries.put attr (.atom item))
    else attributes reader rest entries

/-- The reader of environments in which two underscores part the names of variables. An empty prefix
means the default one, and a reference without a type is refused. -/
def standard : EnvironmentReader where
  overrides env lead :=
    let lead := if lead == "" then Environment.defaultPrefix else lead
    env.collect (Environment.reference? lead) Environment.valueOf
  read reference :=
    let said := Reference.read (reference.toList.drop Reference.mark.length)
    if said.1 == "" then .error (.reference reference) else .ok said

end EnvironmentReader

/-- The modes that an environment sets through names with a prefix. -/
def Mode.ofEnvironmentBy (reader : EnvironmentReader) (env : Environment) (lead : String) :
    Except Failure Mode := do
  let entries ← reader.attributes (reader.overrides env lead) []
  Mode.ofEntries {} entries

/-- The modes that the standard reader finds in an environment. -/
def Mode.ofEnvironment : Environment → String → Except Failure Mode :=
  Mode.ofEnvironmentBy .standard

end Assay
