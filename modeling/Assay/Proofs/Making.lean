import Assay.Proofs.BuiltIn

/-!
Options that do not suit. Making a checker of a built-in kind from options under written names
succeeds or fails with an assertion, whatever the options hold and however patterns are read, but
for two things. A text that is given as the pattern of a string and is no pattern is read unguarded,
and the fault comes through as it is. And a single option under a name that a call on the way has
taken for an argument of its own is a fault of that call.
-/

set_option autoImplicit false
set_option relaxedAutoImplicit false

namespace Assay

variable {read : PatternReading} {store : Store} {source : OptionsSource} {keywords : Keywords}

namespace Failure

def isAssertion (failure : Failure) : Bool :=
  failure.report?.any fun report => report.errorClass == .assertion

end Failure

/-- An outcome is orderly if there is a result or an assertion failed. -/
def Orderly {α : Type} : Except Failure α → Prop
  | .ok _ => True
  | .error failure => failure.isAssertion

theorem orderly_ok {α : Type} (a : α) : Orderly (.ok a) := trivial

theorem orderly_misuse {α : Type} (cause : Misuse) :
    Orderly (.error (.misuse cause) : Except Failure α) := rfl

theorem orderly_require (condition : Prop) [Decidable condition] (cause : Misuse) :
    Orderly (if condition then .ok () else .error (.misuse cause)) := by
  split
  · exact orderly_ok ()
  · exact orderly_misuse cause

theorem orderly_bind {α β : Type} {x : Except Failure α} {f : α → Except Failure β}
    (first : Orderly x) (next : ∀ a, x = .ok a → Orderly (f a)) : Orderly (x >>= f) := by
  cases x with
  | error failure => exact first
  | ok a => exact next a rfl

namespace Options

private theorem texts_of_keyed {keys : List Value} (keyed : ∀ key ∈ keys, key.text?.isSome) :
    ∃ names, keys.mapM Value.text? = some names := by
  induction keys with
  | nil => exact ⟨[], rfl⟩
  | cons key rest ih =>
    obtain ⟨name, named⟩ := Option.isSome_iff_exists.mp (keyed key List.mem_cons_self)
    obtain ⟨names, listed⟩ := ih fun other member => keyed other (List.mem_cons_of_mem key member)
    exact ⟨name :: names, by simp [List.mapM_cons, named, listed]⟩

theorem ofEntries_orderly {entries : Entries} (keyed : ∀ entry ∈ entries, entry.1.text?.isSome) :
    Orderly (ofEntries store entries) := by
  have named : ∀ key ∈ unknownKeys entries, key.text?.isSome := by
    intro key member
    obtain ⟨entry, present, rfl⟩ := List.mem_map.mp (List.mem_filter.mp member).1
    exact keyed entry present
  obtain ⟨names, listed⟩ := texts_of_keyed named
  rw [ofEntries]
  split
  · exact orderly_ok _
  · rw [listed]
    exact orderly_misuse _

theorem override_orderly (o : Options) : Orderly (o.override store keywords) := by
  rw [override]
  split
  · exact orderly_ok o
  · refine orderly_bind (ofEntries_orderly fun entry member => ?_) fun overrides _ => orderly_ok _
    obtain ⟨keyword, _, rfl⟩ := List.mem_map.mp member
    rfl

end Options

/-- The keys of a mapping of options are texts. -/
def OptionsSource.Keyed : OptionsSource → Prop
  | .mapping entries => ∀ entry ∈ entries, entry.1.text?.isSome
  | _ => True

namespace Options

theorem coerce_orderly (keyed : source.Keyed) : Orderly (coerce store source keywords) := by
  cases source with
  | absent => exact override_orderly {}
  | record o => exact override_orderly o
  | mapping entries =>
    exact orderly_bind (ofEntries_orderly keyed) fun base _ => override_orderly base
  | other label => exact orderly_misuse _

/-- A string checker has nothing to refuse in the options apart from their pattern. -/
def SuitString (o : Options) : Prop :=
  (o.value = .null ∨ o.value.text?.isSome) ∧
    ∀ name ∈ [OptionName.length, .minLength, .maxLength],
      o.get name = .null ∨ (o.get name).natural?.isSome

end Options

/-- A text that cannot be read as a pattern. -/
def Value.NoPattern (read : PatternReading) (v : Value) (fault : PatternFault) : Prop :=
  ∃ written, v = .text written ∧ read written = .error fault

/-- All that is wrong with the options that a source and single options give is that the pattern of
a string is none. -/
def Options.Unreadable (read : PatternReading) (store : Store) (source : OptionsSource)
    (keywords : Keywords) (fault : PatternFault) : Prop :=
  ∃ o, coerce store source keywords = .ok o ∧ o.SuitString ∧ o.regex.NoPattern read fault

/-- Some single option has a name that is reserved. -/
def Keywords.Clash (keywords : Keywords) (reserved : List String) : Prop :=
  ∃ keyword ∈ keywords, keyword.1 ∈ reserved

namespace Factory

variable {reserved : List String}

theorem requireFree_of_clash (clash : keywords.Clash reserved) :
    requireFree reserved keywords = .error (.fault .wrongType) := by
  obtain ⟨keyword, member, taken⟩ := clash
  exact if_pos (List.any_eq_true.mpr ⟨keyword, member, by simpa using taken⟩)

theorem requireFree_of_not_clash (free : ¬keywords.Clash reserved) :
    requireFree reserved keywords = .ok () := by
  refine if_neg fun taken => free ?_
  obtain ⟨keyword, member, taken⟩ := List.any_eq_true.mp taken
  exact ⟨keyword, member, by simpa using taken⟩

theorem not_clash_of_coerce {o : Options} (coerced : Options.coerce store source keywords = .ok o)
    (unknown : ∀ name ∈ reserved, Options.nameOf? name = none) : ¬keywords.Clash reserved := by
  rintro ⟨keyword, member, taken⟩
  obtain ⟨base, overridden⟩ : ∃ base : Options, base.override store keywords = .ok o := by
    cases source with
    | absent => exact ⟨{}, coerced⟩
    | record base => exact ⟨base, coerced⟩
    | mapping entries =>
      obtain ⟨base, _, overridden⟩ := bind_eq_ok.mp coerced
      exact ⟨base, overridden⟩
    | other label => cases coerced
  rw [Options.override, if_neg (by simpa using List.ne_nil_of_mem member)] at overridden
  obtain ⟨overrides, given, _⟩ := bind_eq_ok.mp overridden
  have refused : Value.text keyword.1 ∈ Options.unknownKeys
      (keywords.map fun keyword => (.text keyword.1, keyword.2)) := by
    refine List.mem_filter.mpr ⟨?_, ?_⟩
    · simp only [List.map_map, List.mem_map]
      exact ⟨keyword, member, rfl⟩
    · change (Options.nameOf? keyword.1).isNone = true
      rw [unknown _ taken]
      rfl
  rw [Options.ofEntries] at given
  split at given
  · rename_i none
    rw [none] at refused
    cases refused
  · split at given <;> cases given

theorem nameOf?_of_reserved (factory : Factory) :
    ∀ name ∈ factory.reserved, Options.nameOf? name = none := by
  unfold Factory.reserved
  split <;> decide

theorem requireFree_of_coerce {o : Options} (factory : Factory)
    (coerced : Options.coerce store source keywords = .ok o) :
    requireFree factory.reserved keywords = .ok () :=
  requireFree_of_not_clash (not_clash_of_coerce coerced (nameOf?_of_reserved factory))

end Factory

namespace Checker

theorem requireSizes_orderly (o : Options) : Orderly (requireSizes o) :=
  orderly_bind (orderly_require _ _) fun _ _ =>
    orderly_bind (orderly_require _ _) fun _ _ => orderly_require _ _

theorem makeBoolean_orderly (o : Options) : Orderly (makeBoolean o) :=
  orderly_bind (orderly_require _ _) fun _ _ => orderly_ok _

theorem makeNumber_orderly (o : Options) : Orderly (makeNumber o) :=
  orderly_bind (orderly_require _ _) fun _ _ =>
    orderly_bind (orderly_require _ _) fun _ _ =>
      orderly_bind (orderly_require _ _) fun _ _ => orderly_ok _

theorem makeArray_orderly (o : Options) : Orderly (makeArray store o) :=
  orderly_bind (orderly_require _ _) fun _ _ =>
    orderly_bind (requireSizes_orderly o) fun _ _ => orderly_ok _

theorem shapeOf_orderly {v : Value} (reads : ∀ fault, ¬v.NoPattern read fault) :
    Orderly (shapeOf read v) := by
  rw [shapeOf.eq_def]
  split
  · exact orderly_ok none
  · exact orderly_ok _
  · rename_i written
    split
    · exact orderly_ok _
    · rename_i fault faulty
      exact absurd ⟨written, rfl, faulty⟩ (reads fault)
  · exact orderly_misuse _

theorem requireExact_string {o : Options} :
    requireExact (.string o none) = .ok () ↔ o.value = .null ∨ o.value.text?.isSome := by
  have typed : (Checker.string o none).isType o.value = o.value.text?.isSome := rfl
  rw [requireExact, options, typed]
  split <;> simp_all

theorem requireSizes_ok_iff {o : Options} :
    requireSizes o = .ok () ↔ ∀ name ∈ [OptionName.length, .minLength, .maxLength],
      o.get name = .null ∨ (o.get name).natural?.isSome := by
  have one : ∀ name, requireSize o name = .ok () ↔
      o.get name = .null ∨ (o.get name).natural?.isSome := by
    intro name
    rw [requireSize]
    split <;> simp_all
  simp only [requireSizes, bind_eq_ok, one, List.forall_mem_cons, List.not_mem_nil,
    IsEmpty.forall_iff, implies_true, and_true, exists_const]

theorem makeString_orderly {o : Options}
    (reads : o.SuitString → ∀ fault, ¬o.regex.NoPattern read fault) :
    Orderly (makeString read o) := by
  refine orderly_bind (orderly_require _ _) fun _ exact => ?_
  refine orderly_bind (requireSizes_orderly o) fun _ sizes => ?_
  have suits : o.SuitString := ⟨requireExact_string.mp exact, requireSizes_ok_iff.mp sizes⟩
  exact orderly_bind (shapeOf_orderly (reads suits)) fun _ _ => orderly_ok _

theorem makeString_noPattern {o : Options} {fault : PatternFault} (suits : o.SuitString)
    (faulty : o.regex.NoPattern read fault) :
    makeString read o = .error (ofPatternFault fault) := by
  obtain ⟨written, regex, unread⟩ := faulty
  have shape : shapeOf read o.regex = .error (ofPatternFault fault) := by
    rw [regex, shapeOf, unread]
  rw [makeString, requireExact_string.mpr suits.1, requireSizes_ok_iff.mpr suits.2, shape]
  rfl

end Checker

/-- The name of the string kind means no other kind. -/
def Kinds.Intact (kinds : Kinds) : Prop :=
  ∀ registrant, kinds.find? (.text "string") = some registrant →
    registrant = .factory (.builtin .string)

theorem Kinds.count_ne_zero {kinds : Kinds} {kind : Data} {registrant : Registrant}
    (found : kinds.find? kind = some registrant) : kinds.count ≠ 0 := by
  rintro none
  obtain rfl : kinds = {} := by
    cases kinds
    simpa [Registry.count] using none
  cases found

namespace Factory

open Checker

theorem shapedOptions_orderly (regex : Value) (keyed : source.Keyed) :
    Orderly (shapedOptions store regex source keywords) :=
  orderly_bind (Options.coerce_orderly keyed) fun _ _ => orderly_ok _

theorem makeString_orderly_of_shaped {p : Pattern} {o : Options}
    (shaped : shapedOptions store (.atom (.pattern p)) source keywords = .ok o) :
    Orderly (makeString read o) := by
  refine makeString_orderly fun _ fault faulty => ?_
  obtain ⟨written, regex, _⟩ := faulty
  rw [regex_of_shapedOptions shaped] at regex
  cases regex

theorem extendKind_shaped_orderly {kinds : Kinds} (p : Pattern) (check : CustomCheck)
    (intact : kinds.Intact) (keyed : source.Keyed) :
    Orderly (do
      let o ← shapedOptions store (.atom (.pattern p)) source keywords
      extendKind (makeWithin read store kinds kinds.count) kinds (.record o) "string" check) := by
  refine orderly_bind (shapedOptions_orderly _ keyed) fun o shaped => ?_
  rw [extendKind]
  split
  · exact orderly_misuse _
  · rename_i registrant found
    obtain rfl := intact registrant found
    obtain ⟨fuel, count⟩ := Nat.exists_eq_succ_of_ne_zero (Kinds.count_ne_zero found)
    rw [count]
    exact orderly_bind (makeString_orderly_of_shaped shaped) fun _ _ => orderly_ok _

/-- The factory of a built-in kind is orderly but for reserved names, and for a pattern of a string
that cannot be read. -/
theorem makeBy_orderly {kinds : Kinds} {kind : Kind} (intact : kinds.Intact) (keyed : source.Keyed)
    (free : ¬keywords.Clash (reserved (.builtin kind)))
    (reads : ¬(kind = .string ∧ ∃ fault, Options.Unreadable read store source keywords fault)) :
    Orderly (makeBy read store kinds (.builtin kind) source keywords) := by
  have coerced : Orderly (Options.coerce store source keywords) := Options.coerce_orderly keyed
  have passed : Orderly (requireFree (reserved (.builtin kind)) keywords) := by
    rw [requireFree_of_not_clash free]
    exact orderly_ok ()
  refine orderly_bind passed fun _ _ => ?_
  cases kind with
  | boolean => exact orderly_bind coerced fun o _ => makeBoolean_orderly o
  | number => exact orderly_bind coerced fun o _ => makeNumber_orderly o
  | string =>
    exact orderly_bind coerced fun o given => makeString_orderly fun suits fault faulty =>
      reads ⟨rfl, fault, o, given, suits, faulty⟩
  | array => exact orderly_bind coerced fun o _ => makeArray_orderly o
  | mac | ipv4 | objectId | email =>
    exact orderly_bind (shapedOptions_orderly _ keyed) fun _ => makeString_orderly_of_shaped
  | ipv6 => exact extendKind_shaped_orderly _ _ intact keyed
  | siret => exact extendKind_shaped_orderly _ _ intact keyed

theorem makeBy_clash {kinds : Kinds} {factory : Factory}
    (clash : keywords.Clash factory.reserved) :
    makeBy read store kinds factory source keywords = .error (.fault .wrongType) := by
  rw [makeBy, makeWithin, requireFree_of_clash clash]
  rfl

theorem makeBy_unreadable {kinds : Kinds} {fault : PatternFault}
    (unreadable : Options.Unreadable read store source keywords fault) :
    makeBy read store kinds (.builtin .string) source keywords =
      .error (ofPatternFault fault) := by
  obtain ⟨o, given, suits, faulty⟩ := unreadable
  have made : makeBy read store kinds (.builtin .string) source keywords =
      (requireFree (reserved (.builtin .string)) keywords >>= fun _ =>
        Options.coerce store source keywords >>= makeString read) := rfl
  rw [made, requireFree_of_coerce _ given, given]
  exact makeString_noPattern suits faulty

end Factory

namespace Kinds

theorem intact_builtin : builtin.Intact := by
  intro registrant found
  rw [find?_string] at found
  exact (Option.some.inj found).symm

/-- The factory of a built-in kind is orderly, however patterns are read, unless a single option has
a reserved name, or the kind is that of strings and the one thing wrong with its options is that a
text is no pattern. Then that fault comes through. A kind is made by its factory, after its own
arguments have been set apart. -/
theorem make_builtin {kinds : Kinds} {kind : Kind} {name : Data} (key : name.isKey)
    (named : kinds.find? name = some (.factory (.builtin kind))) (intact : kinds.Intact)
    (keyed : source.Keyed) :
    (Orderly (Factory.makeBy read store kinds (.builtin kind) source keywords) ↔
      ¬keywords.Clash (Factory.reserved (.builtin kind)) ∧
        ¬(kind = .string ∧ ∃ fault, Options.Unreadable read store source keywords fault)) ∧
    (keywords.Clash (Factory.reserved (.builtin kind)) →
      Factory.makeBy read store kinds (.builtin kind) source keywords =
        .error (.fault .wrongType)) ∧
    (∀ fault, kind = .string → Options.Unreadable read store source keywords fault →
      Factory.makeBy read store kinds (.builtin kind) source keywords =
        .error (Checker.ofPatternFault fault)) ∧
    (keywords.Clash ["kind", "options"] →
      kinds.makeBy read store name source keywords = .error (.fault .wrongType)) ∧
    (¬keywords.Clash ["kind", "options"] →
      kinds.makeBy read store name source keywords =
        Factory.makeBy read store kinds (.builtin kind) source keywords) := by
  refine ⟨⟨fun orderly => ⟨fun clash => ?_, ?_⟩, fun ⟨free, reads⟩ =>
    Factory.makeBy_orderly intact keyed free reads⟩, Factory.makeBy_clash, ?_, ?_, ?_⟩
  · rw [Factory.makeBy_clash clash] at orderly
    cases orderly
  · rintro ⟨rfl, fault, unreadable⟩
    rw [Factory.makeBy_unreadable unreadable] at orderly
    cases fault <;> cases orderly
  · rintro fault rfl unreadable
    exact Factory.makeBy_unreadable unreadable
  · intro clash
    rw [makeBy, Factory.requireFree_of_clash clash]
    rfl
  · intro free
    rw [makeBy, Factory.requireFree_of_not_clash free, key, named]
    rfl

theorem make_builtin_paren :
    Factory.makeBy Pattern.ofSource {} builtin (.builtin .string)
      (.mapping [(.text "regex", .text "(")]) [] = .error (.fault .badPattern) := by
  have keyed : OptionsSource.Keyed (.mapping [(.text "regex", .text "(")]) := by
    simp [OptionsSource.Keyed, Value.text?]
  have suits : Options.SuitString { regex := .text "(" } := by
    simp [Options.SuitString, Options.get]
  have made := @make_builtin Pattern.ofSource {} _ [] builtin .string _ rfl find?_string
    intact_builtin keyed
  exact made.2.2.1 .malformed rfl ⟨{ regex := .text "(" }, rfl, suits, "(", rfl, rfl⟩

theorem make_string_unguarded :
    ¬Orderly (builtin.make {} (.text "string") (.mapping [(.text "regex", .text "(")]) []) := by
  have failed : builtin.make {} (.text "string") (.mapping [(.text "regex", .text "(")]) [] =
      .error (.fault .badPattern) := by
    rw [make, makeBy, find?_string]
    rfl
  rw [failed]
  exact Bool.false_ne_true

end Kinds

end Assay
