import Assay.Failure
import Assay.Options.Basic

/-!
Where options come from: nothing, options made before, or a mapping of option names, each time with
single options given beside it that win. The pattern has three spellings, of which the first that
holds something counts, in a fixed order.
-/

set_option autoImplicit false
set_option relaxedAutoImplicit false

namespace Assay

/-- The ways to give options. -/
inductive OptionsSource where
  | absent
  | record (options : Options)
  | mapping (entries : Entries)
  | other (label : String)

/-- Single options by name. -/
abbrev Keywords := List (String × Value)

/-- Whether one text stands before another, character by character. -/
def textBefore (a b : String) : Bool := a < b

/-- Texts in rising order. -/
def sortTexts (texts : List String) : List String :=
  texts.mergeSort fun a b => !textBefore b a

/-- Texts in rising order, each once. -/
def sortedSet (texts : List String) : List String := sortTexts texts.eraseDups

namespace Options

/-- The spellings of the pattern option, in order of precedence. -/
def regexSpellings : List String := ["re", "reg", "regex"]

/-- The option that a written name means. -/
def nameOf? (label : String) : Option OptionName :=
  if regexSpellings.contains label then some .regex else OptionName.ofLabel? label

/-- The pattern that a mapping gives: what the first spelling that counts as true holds. -/
def regexOf (store : Store) (entries : Entries) : Value :=
  ((regexSpellings.map entries.get).find? store.truthy).getD .null

def unknownKeys (entries : Entries) : List Value :=
  (entries.map Prod.fst).filter fun key => (key.text?.bind nameOf?).isNone

/-- The options with those that a mapping names, the pattern apart. -/
def fill (o : Options) (entries : Entries) : Options :=
  entries.foldl
    (fun o entry =>
      match entry.1.text?.bind nameOf? with
      | some .regex => o
      | some name => o.set entry.2 name
      | none => o)
    o

/-- The options that a mapping of option names gives. A key that names no option is refused; the
refusal lists such keys in order, and keys that are no texts cannot be listed. -/
def ofEntries (store : Store) (entries : Entries) : Except Failure Options :=
  match unknownKeys entries with
  | [] => .ok { (({} : Options).fill entries) with regex := regexOf store entries }
  | unknown =>
    match unknown.mapM Value.text? with
    | some names => .error (.misuse (.unknownOptions (sortedSet names)))
    | none => .error (.fault .wrongType)

/-- The options with those that single options name. If one of the spellings of the pattern is
given, the pattern is what they give together. -/
def override (o : Options) (store : Store) (keywords : Keywords) : Except Failure Options := do
  if keywords.isEmpty then return o
  let overrides ← ofEntries store (keywords.map fun keyword => (.text keyword.1, keyword.2))
  return keywords.foldl
    (fun o keyword =>
      match nameOf? keyword.1 with
      | some name => o.set (overrides.get name) name
      | none => o)
    o

/-- The options that a source and single options give. -/
def coerce (store : Store) (source : OptionsSource) (keywords : Keywords) :
    Except Failure Options := do
  let base ←
    match source with
    | .absent => pure {}
    | .record options => pure options
    | .mapping entries => ofEntries store entries
    | .other label => throw (.misuse (.optionsNotMapping label))
  base.override store keywords

/-- Whether the options that a source and single options give are the very ones given. -/
def isKept (source : OptionsSource) (keywords : Keywords) : Bool :=
  match source with
  | .record _ => keywords.isEmpty
  | _ => false

/-- The options with some of them changed, under their own names alone. -/
def withChanges (o : Options) (changes : Keywords) : Except Failure Options :=
  changes.foldlM
    (fun o change =>
      match OptionName.ofLabel? change.1 with
      | some name => .ok (o.set change.2 name)
      | none => .error (.fault .wrongType))
    o

end Options

end Assay
