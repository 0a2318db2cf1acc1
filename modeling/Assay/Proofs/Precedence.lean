import Assay.Proofs.Making

/-!
Which option counts. Single options win over the mapping or the record that they stand beside, and
what nobody names keeps its default. The pattern can be named in three spellings: where single
options name it in any of them, they alone decide it, even if what they hold is empty.
-/

set_option autoImplicit false
set_option relaxedAutoImplicit false

namespace Assay

def Keywords.entries (keywords : Keywords) : Entries :=
  keywords.map fun keyword => (.text keyword.1, keyword.2)

namespace Entries

theorem valueOf?_cons (entry : Value × Value) (rest : Entries) (key : String) :
    Entries.valueOf? (entry :: rest) key =
      if entry.1 = .text key then some entry.2 else rest.valueOf? key := by
  rw [valueOf?_eq, valueOf?_eq, Fields.find?_cons, ← Value.eq_text_iff]
  simp only [beq_iff_eq]

/-- Whether something that counts as true is held under a key. -/
def holds (entries : Entries) (store : Store) (key : String) : Bool :=
  (entries.valueOf? key).any store.truthy

/-- The pattern that entries give: the first of the spellings that holds something. -/
def pattern (entries : Entries) (store : Store) : Value :=
  if entries.holds store "re" then entries.get "re"
  else if entries.holds store "reg" then entries.get "reg"
  else if entries.holds store "regex" then entries.get "regex"
  else .null

def namesPattern (entries : Entries) : Bool :=
  ["re", "reg", "regex"].any fun key => (entries.valueOf? key).isSome

/-- What entries say about an option, where something else holds unless they name it. -/
def optionOr (entries : Entries) (store : Store) (otherwise : Value) : OptionName → Value
  | .regex => if entries.namesPattern then entries.pattern store else otherwise
  | name => (entries.valueOf? name.label).getD otherwise

/-- The names that mean something in a mapping of options: those of the options and two more for the
pattern. -/
def optionLabels : List String := OptionName.all.map OptionName.label ++ ["re", "reg"]

/-- Some key is a text that names no option. -/
def NamesUnknown (entries : Entries) : Prop :=
  ∃ entry ∈ entries, ∃ label, entry.1 = .text label ∧ label ∉ optionLabels

end Entries

namespace OptionsSource

/-- What is given as options is nothing, a record, or a mapping in which every key is a text and
stands once. -/
def Proper : OptionsSource → Prop
  | .mapping entries =>
    (∀ entry ∈ entries, entry.1.text?.isSome) ∧ (entries.map Prod.fst).Nodup
  | .other _ => False
  | _ => True

theorem Proper.keyed {source : OptionsSource} (proper : source.Proper) : source.Keyed := by
  cases source with
  | mapping entries => exact proper.1
  | absent | record o | other label => trivial

/-- What a source says about an option by itself. -/
def option (store : Store) : OptionsSource → OptionName → Value
  | .record o, name => o.get name
  | .mapping entries, name => entries.optionOr store (({} : Options).get name) name
  | _, name => ({} : Options).get name

/-- A mapping has a key that names no option. -/
def NamesUnknown : OptionsSource → Prop
  | .mapping entries => entries.NamesUnknown
  | _ => False

end OptionsSource

namespace OptionName

theorem nameOf?_label (name : OptionName) : Options.nameOf? name.label = some name := by
  cases name <;> decide

theorem label_of_ofLabel? {label : String} {name : OptionName}
    (named : ofLabel? label = some name) : name.label = label := by
  rw [ofLabel?] at named
  simpa using List.find?_some named

end OptionName

namespace Options

variable {store : Store} {entries : Entries} {keywords : Keywords} {name : OptionName}

theorem nameOf?_eq_some_iff (other : name ≠ .regex) (label : String) :
    nameOf? label = some name ↔ label = name.label := by
  constructor
  · intro named
    rw [nameOf?] at named
    split at named
    · exact absurd (Option.some.inj named).symm other
    · exact (OptionName.label_of_ofLabel? named).symm
  · rintro rfl
    exact name.nameOf?_label

theorem nameOf?_eq_regex_iff (label : String) :
    nameOf? label = some .regex ↔ label ∈ ["re", "reg", "regex"] := by
  constructor
  · intro named
    rw [nameOf?] at named
    split at named
    · rename_i spelled
      simpa [regexSpellings] using spelled
    · rw [← OptionName.label_of_ofLabel? named]
      simp [OptionName.label]
  · intro spelled
    rw [nameOf?, if_pos (by simpa [regexSpellings] using spelled)]

theorem nameOf?_isSome_iff (label : String) :
    (nameOf? label).isSome ↔ label ∈ Entries.optionLabels := by
  have every : ∀ name, name ∈ OptionName.all := by
    intro name
    cases name <;> decide
  rw [Option.isSome_iff_exists, Entries.optionLabels, List.mem_append, List.mem_map]
  constructor
  · rintro ⟨name, named⟩
    by_cases pattern : name = .regex
    · subst pattern
      have spelled := (nameOf?_eq_regex_iff label).mp named
      simp only [List.mem_cons, List.not_mem_nil, or_false] at spelled ⊢
      rcases spelled with rfl | rfl | rfl
      · exact Or.inr (Or.inl rfl)
      · exact Or.inr (Or.inr rfl)
      · exact Or.inl ⟨.regex, every .regex, rfl⟩
    · exact Or.inl ⟨name, every name, ((nameOf?_eq_some_iff pattern label).mp named).symm⟩
  · rintro (⟨name, _, rfl⟩ | spelled)
    · exact ⟨name, name.nameOf?_label⟩
    · exact ⟨.regex, (nameOf?_eq_regex_iff label).mpr (by
        simp only [List.mem_cons, List.not_mem_nil, or_false] at spelled ⊢
        exact spelled.imp_right Or.inl)⟩

theorem text?_bind_nameOf? (other : name ≠ .regex) (key : Value) :
    key.text?.bind nameOf? = some name ↔ key = .text name.label := by
  rw [Option.bind_eq_some_iff]
  constructor
  · rintro ⟨label, text, named⟩
    rw [Value.eq_text_of_text? text, (nameOf?_eq_some_iff other label).mp named]
  · rintro rfl
    exact ⟨name.label, rfl, name.nameOf?_label⟩

private theorem fill_cons (o : Options) (entry : Value × Value) (rest : Entries) :
    o.fill (entry :: rest) =
      fill (match entry.1.text?.bind nameOf? with
        | some .regex => o
        | some name => o.set entry.2 name
        | none => o) rest := rfl

private theorem get_enter (other : name ≠ .regex) (o : Options) (entry : Value × Value) :
    (match entry.1.text?.bind nameOf? with
      | some .regex => o
      | some name => o.set entry.2 name
      | none => o).get name = if entry.1 = .text name.label then entry.2 else o.get name := by
  simp only [← text?_bind_nameOf? other]
  split
  · rename_i pattern
    rw [pattern, if_neg (by simpa using other.symm)]
  · rename_i found _ named
    rw [named, get_set]
    simp only [Option.some.injEq, eq_comm]
  · rename_i unknown
    rw [unknown, if_neg (by simp)]

theorem get_fill (other : name ≠ .regex) (distinct : (entries.map Prod.fst).Nodup) (o : Options) :
    (o.fill entries).get name = (entries.valueOf? name.label).getD (o.get name) := by
  induction entries generalizing o with
  | nil => rfl
  | cons entry rest ih =>
    obtain ⟨fresh, later⟩ := List.nodup_cons.mp distinct
    rw [fill_cons, ih later, get_enter other, Entries.valueOf?_cons]
    by_cases here : entry.1 = .text name.label
    · have nothing : Entries.valueOf? rest name.label = none := by
        rw [← Option.not_isSome_iff_eq_none, Entries.valueOf?_isSome_iff, ← here]
        exact fresh
      rw [nothing, if_pos here, if_pos here]
      rfl
    · rw [if_neg here, if_neg here]

/-- The pattern of a mapping is the first of the spellings that holds something. -/
theorem regexOf_eq_pattern (store : Store) (entries : Entries) :
    regexOf store entries = entries.pattern store := by
  have held (key : String) : store.truthy (entries.get key) = entries.holds store key := by
    rw [Entries.get, Entries.holds]
    cases entries.valueOf? key <;> rfl
  simp only [regexOf, regexSpellings, List.map_cons, List.map_nil, List.find?_cons, held,
    List.find?_nil, Entries.pattern]
  cases entries.holds store "re" <;> cases entries.holds store "reg" <;>
    cases entries.holds store "regex" <;> rfl

theorem pattern_eq_null (store : Store) (unnamed : ¬entries.namesPattern) :
    entries.pattern store = .null := by
  have empty : ∀ key ∈ ["re", "reg", "regex"], entries.holds store key = false := by
    intro key member
    have none : entries.valueOf? key = none := by
      rw [Entries.namesPattern, List.any_eq_true] at unnamed
      rw [← Option.not_isSome_iff_eq_none]
      exact fun some => unnamed ⟨key, member, some⟩
    rw [Entries.holds, none]
    rfl
  simp only [List.forall_mem_cons] at empty
  obtain ⟨re, reg, regex, _⟩ := empty
  rw [Entries.pattern, re, reg, regex]
  rfl

theorem unknownKeys_eq_nil_iff (keyed : ∀ entry ∈ entries, entry.1.text?.isSome) :
    unknownKeys entries = [] ↔ ¬entries.NamesUnknown := by
  have one : ∀ entry ∈ entries, ((entry.1.text?.bind nameOf?).isNone ↔
      ∃ label, entry.1 = .text label ∧ label ∉ Entries.optionLabels) := by
    intro entry member
    obtain ⟨label, text⟩ := Option.isSome_iff_exists.mp (keyed entry member)
    rw [Value.eq_text_of_text? text, Value.text?_text, Option.bind_some, Option.isNone_iff_eq_none,
      ← Option.not_isSome_iff_eq_none, nameOf?_isSome_iff]
    constructor
    · exact fun unknown => ⟨label, rfl, unknown⟩
    · rintro ⟨other, same, unknown⟩
      cases same
      exact unknown
  rw [unknownKeys, List.filter_eq_nil_iff, List.forall_mem_map]
  constructor
  · rintro none ⟨entry, member, unknown⟩
    exact none entry member ((one entry member).mpr unknown)
  · intro known entry member unknown
    exact known ⟨entry, member, (one entry member).mp unknown⟩

private theorem optionOr_of_ne (other : name ≠ .regex) (store : Store) (d : Value) :
    entries.optionOr store d name = (entries.valueOf? name.label).getD d := by
  cases name with
  | regex => exact absurd rfl other
  | mandatory | value | maxLength | minLength | length | isFloat | isInteger | isPositive
  | isNegative | isNotNull | minimum | maximum => rfl

theorem ofEntries_eq_ok (keyed : ∀ entry ∈ entries, entry.1.text?.isSome)
    (distinct : (entries.map Prod.fst).Nodup) (known : ¬entries.NamesUnknown) (store : Store) :
    ∃ o, ofEntries store entries = .ok o ∧
      ∀ name, o.get name = entries.optionOr store (({} : Options).get name) name := by
  have read : ofEntries store entries =
      .ok ((({} : Options).fill entries).set (regexOf store entries) .regex) := by
    rw [ofEntries, (unknownKeys_eq_nil_iff keyed).mpr known]
    rfl
  refine ⟨_, read, fun name => ?_⟩
  rw [get_set]
  by_cases pattern : name = .regex
  · subst pattern
    rw [if_pos rfl, regexOf_eq_pattern, Entries.optionOr]
    split
    · rfl
    · rename_i unnamed
      exact pattern_eq_null store unnamed
  · rw [if_neg pattern, optionOr_of_ne pattern, get_fill pattern distinct]

theorem ofEntries_eq_error (keyed : ∀ entry ∈ entries, entry.1.text?.isSome)
    (unknown : entries.NamesUnknown) (store : Store) :
    ∃ failure, ofEntries store entries = .error failure := by
  rw [ofEntries]
  split
  · rename_i none
    exact absurd unknown ((unknownKeys_eq_nil_iff keyed).mp none)
  · split <;> exact ⟨_, rfl⟩

end Options

namespace Keywords

variable {keywords : Keywords} {store : Store} {name : OptionName}

/-- One of the single options names an option. -/
def Names (keywords : Keywords) (name : OptionName) : Prop :=
  ∃ keyword ∈ keywords, Options.nameOf? keyword.1 = some name

theorem entries_keyed (keywords : Keywords) :
    ∀ entry ∈ keywords.entries, entry.1.text?.isSome := by
  intro entry member
  obtain ⟨keyword, _, rfl⟩ := List.mem_map.mp member
  rfl

theorem entries_distinct (once : (keywords.map Prod.fst).Nodup) :
    (keywords.entries.map Prod.fst).Nodup := by
  have keys : keywords.entries.map Prod.fst = (keywords.map Prod.fst).map Value.text := by
    rw [entries, List.map_map, List.map_map]
    rfl
  rw [keys]
  exact once.map fun a b same => Atom.text.inj (Value.atom.inj same)

theorem valueOf?_entries_isSome_iff (keywords : Keywords) (key : String) :
    (keywords.entries.valueOf? key).isSome ↔ ∃ keyword ∈ keywords, keyword.1 = key := by
  rw [Entries.valueOf?_isSome_iff, entries, List.map_map, List.mem_map]
  simp only [Function.comp_apply, Value.atom.injEq, Atom.text.injEq]

theorem names_iff (other : name ≠ .regex) :
    keywords.Names name ↔ (keywords.entries.valueOf? name.label).isSome := by
  rw [valueOf?_entries_isSome_iff, Names]
  simp only [Options.nameOf?_eq_some_iff other]

theorem names_regex_iff : keywords.Names .regex ↔ keywords.entries.namesPattern := by
  simp only [Names, Options.nameOf?_eq_regex_iff, Entries.namesPattern, List.any_eq_true,
    valueOf?_entries_isSome_iff]
  constructor
  · rintro ⟨keyword, member, spelled⟩
    exact ⟨keyword.1, spelled, keyword, member, rfl⟩
  · rintro ⟨_, spelled, keyword, member, rfl⟩
    exact ⟨keyword, member, spelled⟩

theorem optionOr_of_names (named : keywords.Names name) (store : Store) (d e : Value) :
    keywords.entries.optionOr store d name = keywords.entries.optionOr store e name := by
  by_cases pattern : name = .regex
  · subst pattern
    rw [Entries.optionOr, Entries.optionOr, if_pos (names_regex_iff.mp named),
      if_pos (names_regex_iff.mp named)]
  · obtain ⟨v, held⟩ := Option.isSome_iff_exists.mp ((names_iff pattern).mp named)
    rw [Options.optionOr_of_ne pattern, Options.optionOr_of_ne pattern, held]
    rfl

theorem optionOr_of_not_names (unnamed : ¬keywords.Names name) (store : Store) (d : Value) :
    keywords.entries.optionOr store d name = d := by
  by_cases pattern : name = .regex
  · subst pattern
    rw [Entries.optionOr, if_neg fun names => unnamed (names_regex_iff.mpr names)]
  · rw [names_iff pattern, Option.not_isSome_iff_eq_none] at unnamed
    rw [Options.optionOr_of_ne pattern, unnamed]
    rfl

end Keywords

namespace Options

variable {store : Store} {keywords : Keywords} {name : OptionName}

def taking (overrides o : Options) (keyword : String × Value) : Options :=
  match nameOf? keyword.1 with
  | some name => o.set (overrides.get name) name
  | none => o

private theorem get_taking_of_names {overrides o : Options} {keyword : String × Value}
    (named : nameOf? keyword.1 = some name) :
    (taking overrides o keyword).get name = overrides.get name := by
  rw [taking, named, get_set, if_pos rfl]

private theorem get_taking_of_ne {overrides o : Options} {keyword : String × Value}
    (unnamed : nameOf? keyword.1 ≠ some name) :
    (taking overrides o keyword).get name = o.get name := by
  rw [taking]
  split
  · rename_i other named
    rw [get_set, if_neg]
    rintro rfl
    exact unnamed named
  · rfl

private theorem get_foldl_of_not_names {overrides : Options} (unnamed : ¬keywords.Names name)
    (o : Options) : (keywords.foldl (taking overrides) o).get name = o.get name := by
  induction keywords generalizing o with
  | nil => rfl
  | cons keyword rest ih =>
    have first : nameOf? keyword.1 ≠ some name :=
      fun named => unnamed ⟨keyword, List.mem_cons_self, named⟩
    have later : ¬Keywords.Names rest name := by
      rintro ⟨other, member, named⟩
      exact unnamed ⟨other, List.mem_cons_of_mem keyword member, named⟩
    rw [List.foldl_cons, ih later, get_taking_of_ne first]

private theorem get_foldl_of_names {overrides : Options} (named : keywords.Names name)
    (o : Options) : (keywords.foldl (taking overrides) o).get name = overrides.get name := by
  induction keywords generalizing o with
  | nil =>
    obtain ⟨keyword, member, _⟩ := named
    cases member
  | cons keyword rest ih =>
    -- The last single option that names it counts, so a later one is looked for first.
    rw [List.foldl_cons]
    by_cases later : Keywords.Names rest name
    · exact ih later _
    · obtain ⟨other, member, here⟩ := named
      rcases List.mem_cons.mp member with rfl | member
      · rw [get_foldl_of_not_names later, get_taking_of_names here]
      · exact absurd ⟨other, member, here⟩ later

theorem override_eq (o : Options) (store : Store) (keywords : Keywords) :
    o.override store keywords =
      ofEntries store keywords.entries >>= fun overrides =>
        .ok (keywords.foldl (taking overrides) o) := by
  cases keywords <;> rfl

theorem override_eq_ok (once : (keywords.map Prod.fst).Nodup)
    (known : ¬keywords.entries.NamesUnknown) (o : Options) (store : Store) :
    ∃ o', o.override store keywords = .ok o' ∧
      ∀ name, o'.get name = keywords.entries.optionOr store (o.get name) name := by
  obtain ⟨overrides, read, holds⟩ :=
    ofEntries_eq_ok keywords.entries_keyed (Keywords.entries_distinct once) known store
  have taken : o.override store keywords = .ok (keywords.foldl (taking overrides) o) := by
    rw [override_eq, read]
    rfl
  refine ⟨_, taken, fun name => ?_⟩
  by_cases named : keywords.Names name
  · rw [get_foldl_of_names named, holds, Keywords.optionOr_of_names named]
  · rw [get_foldl_of_not_names named, Keywords.optionOr_of_not_names named]

theorem override_eq_error (unknown : keywords.entries.NamesUnknown) (o : Options)
    (store : Store) : ∃ failure, o.override store keywords = .error failure := by
  obtain ⟨failure, read⟩ := ofEntries_eq_error keywords.entries_keyed unknown store
  refine ⟨failure, ?_⟩
  rw [override_eq, read]
  rfl

/-- A mapping says as much as the same single options beside nothing. -/
theorem coerce_entries {given : Keywords} (once : (given.map Prod.fst).Nodup) (store : Store) :
    coerce store (.mapping given.entries) [] = coerce store .absent given := by
  have alone : coerce store (.mapping given.entries) [] = ofEntries store given.entries := by
    have read : coerce store (.mapping given.entries) [] =
        ofEntries store given.entries >>= fun base => .ok base := rfl
    rw [read]
    cases ofEntries store given.entries <;> rfl
  have beside : coerce store .absent given = ({} : Options).override store given := rfl
  rw [alone, beside]
  by_cases unknown : given.entries.NamesUnknown
  · obtain ⟨failure, read⟩ := ofEntries_eq_error given.entries_keyed unknown store
    rw [override_eq, read]
    rfl
  · obtain ⟨o, read, holds⟩ :=
      ofEntries_eq_ok given.entries_keyed (Keywords.entries_distinct once) unknown store
    obtain ⟨o', overridden, holds'⟩ := override_eq_ok once unknown {} store
    rw [read, overridden, ext_get fun name => (holds name).trans (holds' name).symm]

private theorem exists_base {source : OptionsSource} (proper : source.Proper)
    (known : ¬source.NamesUnknown) (store : Store) :
    ∃ base : Options, (∀ name, base.get name = source.option store name) ∧
      ∀ keywords, coerce store source keywords = base.override store keywords := by
  cases source with
  | absent => exact ⟨{}, fun _ => rfl, fun _ => rfl⟩
  | record o => exact ⟨o, fun _ => rfl, fun _ => rfl⟩
  | other label => exact proper.elim
  | mapping entries =>
    obtain ⟨base, read, holds⟩ := ofEntries_eq_ok proper.1 proper.2 known store
    refine ⟨base, holds, fun keywords => ?_⟩
    have first : coerce store (.mapping entries) keywords =
        ofEntries store entries >>= fun base => base.override store keywords := rfl
    rw [first, read]
    rfl

private theorem coerce_eq_error {source : OptionsSource} (proper : source.Proper)
    (unknown : source.NamesUnknown ∨ keywords.entries.NamesUnknown) (store : Store) :
    ∃ failure, coerce store source keywords = .error failure := by
  by_cases known : source.NamesUnknown
  · cases source with
    | absent | record o | other label => exact known.elim
    | mapping entries =>
      obtain ⟨failure, read⟩ := ofEntries_eq_error proper.1 known store
      have first : coerce store (.mapping entries) keywords =
          ofEntries store entries >>= fun base => base.override store keywords := rfl
      rw [first, read]
      exact ⟨failure, rfl⟩
  · obtain ⟨base, _, coerced⟩ := exists_base proper known store
    obtain ⟨failure, overridden⟩ := override_eq_error (unknown.resolve_left known) base store
    exact ⟨failure, (coerced keywords).trans overridden⟩

private theorem coerce_eq_ok {source : OptionsSource} (proper : source.Proper)
    (once : (keywords.map Prod.fst).Nodup)
    (known : ¬(source.NamesUnknown ∨ keywords.entries.NamesUnknown)) (store : Store) :
    ∃ o, coerce store source keywords = .ok o ∧
      ∀ name, o.get name = keywords.entries.optionOr store (source.option store name) name := by
  obtain ⟨knownSource, knownKeywords⟩ := not_or.mp known
  obtain ⟨base, holds, coerced⟩ := exists_base proper knownSource store
  obtain ⟨o, overridden, wins⟩ := override_eq_ok once knownKeywords base store
  exact ⟨o, (coerced keywords).trans overridden, fun name => by rw [wins, holds]⟩

/-- Which options a source and single options give. There is a report exactly if one of them names
an option that there is not. Otherwise what the single options name counts, then what the source
says, then the default; the pattern is named by any of its three spellings, and what they hold is
weighed in their order of precedence. So it makes no difference whether options are given by a
mapping or one by one. -/
theorem coerce_precedence {source : OptionsSource} (proper : source.Proper)
    (once : (keywords.map Prod.fst).Nodup) :
    ((∃ failure, coerce store source keywords = .error failure) ↔
      source.NamesUnknown ∨ keywords.entries.NamesUnknown) ∧
    (∀ failure, coerce store source keywords = .error failure → failure.isAssertion) ∧
    (∀ o, coerce store source keywords = .ok o →
      ∀ name, o.get name = keywords.entries.optionOr store (source.option store name) name) ∧
    ∀ given : Keywords, (given.map Prod.fst).Nodup →
      coerce store (.mapping given.entries) [] = coerce store .absent given := by
  refine ⟨⟨?_, fun unknown => coerce_eq_error proper unknown store⟩, ?_, ?_,
    fun given single => coerce_entries single store⟩
  · rintro ⟨failure, failed⟩
    by_contra known
    obtain ⟨o, coerced, _⟩ := coerce_eq_ok proper once known store
    rw [coerced] at failed
    cases failed
  · intro failure failed
    have orderly : Orderly (coerce store source keywords) := coerce_orderly proper.keyed
    rwa [failed] at orderly
  · intro o given
    have known : ¬(source.NamesUnknown ∨ keywords.entries.NamesUnknown) := by
      intro unknown
      obtain ⟨failure, failed⟩ := coerce_eq_error proper unknown store
      rw [given] at failed
      cases failed
    obtain ⟨o', coerced, wins⟩ := coerce_eq_ok proper once known store
    rw [given] at coerced
    rw [Except.ok.inj coerced]
    exact wins

abbrev sizedPattern : OptionsSource :=
  .mapping [(.text "reg", .text "[a-z]*"), (.text "length", .int 3), (.text "mandatory", .int 1)]

abbrev clearing : Keywords := [("re", .text ""), ("length", .int 5)]

theorem coerce_precedence_cleared :
    sizedPattern.Proper ∧ (clearing.map Prod.fst).Nodup ∧
      ∃ o, coerce {} sizedPattern clearing = .ok o ∧
        o.regex = .null ∧ o.length = .int 5 ∧ o.mandatory = .int 1 ∧ o.minLength = .null := by
  have proper : sizedPattern.Proper := by
    refine ⟨?_, by decide⟩
    simp [Value.text?]
  have once : (clearing.map Prod.fst).Nodup := by decide
  have coerced : coerce {} sizedPattern clearing =
      .ok { mandatory := .int 1, length := .int 5 } := rfl
  have wins := (@coerce_precedence {} _ _ proper once).2.2.1 _ coerced
  exact ⟨proper, once, _, coerced, wins .regex, wins .length, wins .mandatory, wins .minLength⟩

end Options

end Assay
