import Assay.Proofs.Formats
import Assay.Proofs.Precedence
import Assay.Proofs.Refusal

/-!
Formats as compositions. The checker of a format asks for two things, one after the other: what a
string checker with the same options but without a pattern asks for, and what the format without
options asks for. The pattern that a caller gives, in whichever of its spellings, has no part in it.
-/

set_option autoImplicit false
set_option relaxedAutoImplicit false

namespace Assay

def Entries.withoutPattern (entries : Entries) : Entries :=
  entries.filter fun entry => entry.1.text?.bind Options.nameOf? ≠ some .regex

def Keywords.withoutPattern (keywords : Keywords) : Keywords :=
  keywords.filter fun keyword => Options.nameOf? keyword.1 ≠ some .regex

def Options.withoutPattern (o : Options) : Options := { o with regex := .null }

def OptionsSource.withoutPattern : OptionsSource → OptionsSource
  | .record o => .record o.withoutPattern
  | .mapping entries => .mapping entries.withoutPattern
  | source => source

namespace Options

variable {store : Store} {entries : Entries} {keywords : Keywords} {name : OptionName}

theorem entries_withoutPattern (keywords : Keywords) :
    keywords.withoutPattern.entries = keywords.entries.withoutPattern := by
  rw [Keywords.entries, Keywords.entries, Entries.withoutPattern, List.filter_map]
  rfl

@[simp]
theorem get_withoutPattern (o : Options) (name : OptionName) :
    o.withoutPattern.get name = if name = .regex then .null else o.get name :=
  o.get_set .null .regex name

theorem withoutPattern_set (other : name ≠ .regex) (o : Options) (v : Value) :
    (o.set v name).withoutPattern = o.withoutPattern.set v name := by
  refine ext_get fun any => ?_
  rw [get_withoutPattern, get_set, get_set, get_withoutPattern]
  by_cases pattern : any = .regex
  · rw [if_pos pattern, if_pos pattern, if_neg fun same => other (same.symm.trans pattern)]
  · rw [if_neg pattern, if_neg pattern]

theorem unknownKeys_withoutPattern (entries : Entries) :
    unknownKeys entries.withoutPattern = unknownKeys entries := by
  rw [unknownKeys, unknownKeys, Entries.withoutPattern, List.filter_map, List.filter_map,
    List.filter_filter]
  refine congrArg _ (List.filter_congr fun entry _ => ?_)
  simp only [Function.comp_apply]
  cases entry.1.text?.bind nameOf? with
  | none => rfl
  | some name => simp

theorem fill_withoutPattern (o : Options) (entries : Entries) :
    o.fill entries.withoutPattern = o.fill entries := by
  rw [fill, fill, Entries.withoutPattern, List.foldl_filter]
  refine congrArg (fun step => entries.foldl step o) (funext fun o => funext fun entry => ?_)
  by_cases pattern : entry.1.text?.bind nameOf? = some .regex
  · rw [if_neg (by simp [pattern]), pattern]
  · rw [if_pos (by simp [pattern])]

theorem regexOf_withoutPattern (store : Store) (entries : Entries) :
    regexOf store entries.withoutPattern = .null := by
  rw [regexOf_eq_pattern]
  refine pattern_eq_null store fun named => ?_
  obtain ⟨key, member, some⟩ := List.any_eq_true.mp named
  have pattern := (nameOf?_eq_regex_iff key).mpr member
  rw [Entries.withoutPattern,
    Entries.valueOf?_filter fun key => key.text?.bind nameOf? ≠ .some .regex,
    if_neg (by simp [pattern])] at some
  cases some

theorem ofEntries_withoutPattern (store : Store) (entries : Entries) :
    ofEntries store entries.withoutPattern =
      (ofEntries store entries).map Options.withoutPattern := by
  rw [ofEntries, ofEntries, unknownKeys_withoutPattern, fill_withoutPattern,
    regexOf_withoutPattern]
  split
  · rfl
  · split <;> rfl

theorem foldl_withoutPattern (overrides o : Options) (keywords : Keywords) :
    keywords.withoutPattern.foldl (taking overrides.withoutPattern) o.withoutPattern =
      (keywords.foldl (taking overrides) o).withoutPattern := by
  -- A single option that means the pattern is undone in the end; any other does the same on both
  -- sides.
  induction keywords generalizing o with
  | nil => rfl
  | cons keyword rest ih =>
    rw [List.foldl_cons, ← ih, Keywords.withoutPattern, List.filter_cons]
    by_cases pattern : nameOf? keyword.1 = some .regex
    · rw [if_neg (by simp [pattern]), taking, pattern]
      rfl
    · have step : taking overrides.withoutPattern o.withoutPattern keyword =
          (taking overrides o keyword).withoutPattern := by
        rw [taking, taking]
        split
        · rename_i name named
          have other : name ≠ .regex := fun same => pattern (same ▸ named)
          rw [withoutPattern_set other, get_withoutPattern, if_neg other]
        · rfl
      rw [if_pos (by simp [pattern]), List.foldl_cons, step]
      rfl

theorem override_withoutPattern (o : Options) (store : Store) (keywords : Keywords) :
    o.withoutPattern.override store keywords.withoutPattern =
      (o.override store keywords).map Options.withoutPattern := by
  rw [override_eq, override_eq, entries_withoutPattern, ofEntries_withoutPattern]
  cases ofEntries store keywords.entries with
  | error failure => rfl
  | ok overrides => exact congrArg Except.ok (foldl_withoutPattern overrides o keywords)

theorem coerce_withoutPattern (store : Store) (source : OptionsSource) (keywords : Keywords) :
    coerce store source.withoutPattern keywords.withoutPattern =
      (coerce store source keywords).map Options.withoutPattern := by
  cases source with
  | absent => exact override_withoutPattern {} store keywords
  | record o => exact override_withoutPattern o store keywords
  | other label => rfl
  | mapping entries =>
    have read (entries : Entries) (keywords : Keywords) :
        coerce store (.mapping entries) keywords =
          ofEntries store entries >>= fun base => base.override store keywords := rfl
    rw [OptionsSource.withoutPattern, read, read, ofEntries_withoutPattern]
    cases ofEntries store entries with
    | error failure => rfl
    | ok base => exact override_withoutPattern base store keywords

end Options

namespace Checker

variable {o : Options} {v : Value} {ctx : Context} {store : Store}

def sized (o : Options) (v : Value) : Bool := v.text?.any fun s => sizeAccepted o s.length

theorem check_string_null (o : Options) (shape : Option Pattern) (ctx : Context) (store : Store) :
    (Checker.string o shape).check .null ctx store =
      if store.truthy o.mandatory && !ctx.mode.partialCheck then .error (.missing ctx.path) store
      else .ok .null store := by
  have basic : (Checker.string o shape).check .null ctx store =
      (Checker.string o shape).checkBasic .null ctx store := rfl
  rw [basic, checkBasic_eq, admits, if_pos rfl, answer, if_pos rfl, failure_null, options]
  cases store.truthy o.mandatory && !ctx.mode.partialCheck <;> rfl

theorem check_string_present (free : o.value = .null) {shape : Option Pattern}
    (textual : ∀ p ∈ shape, p.forBytes = false) (present : v ≠ .null) (ctx : Context)
    (store : Store) :
    (Checker.string o shape).check v ctx store =
      if sized o v && v.text?.any (fun s => shape.all fun p => p.accepts s) then .ok v store
      else .error (.invalid ctx.path) store := by
  have anyValue : (Checker.string o shape).options.value = .null := free
  have basic : (Checker.string o shape).check v ctx store =
      (Checker.string o shape).checkBasic v ctx store := rfl
  rw [basic, checkBasic_eq, admits, if_neg present, if_pos anyValue, answer, if_neg present,
    if_pos anyValue, failure_of_clear (clear_string textual o v), refusal, if_neg present, isType,
    accepts, sized]
  cases v.text? <;> rfl

theorem check_string_sized (free : o.value = .null) (present : v ≠ .null) (ctx : Context)
    (store : Store) :
    (Checker.string o none).check v ctx store =
      if sized o v then .ok v store else .error (.invalid ctx.path) store := by
  have anyText : (sized o v && v.text?.any fun s => (none : Option Pattern).all fun p =>
      p.accepts s) = sized o v := by
    rw [sized]
    cases v.text? with
    | none => rfl
    | some s => exact Bool.and_true _
  have noPattern : ∀ p ∈ (none : Option Pattern), p.forBytes = false := by
    intro p found
    cases found
  rw [check_string_present free noPattern present, anyText]

private theorem ofFormat_some (o : Options) (p : Pattern) (check : CustomCheck) :
    Checker.ofFormat o p (some check) = .extended (.ofFormat o p none) check := rfl

private theorem check_ofFormat_of_refused {p : Pattern} {failure : Failure}
    (refused : (Checker.ofFormat o p none).check v ctx store = .error failure store)
    (check : Option CustomCheck) :
    (Checker.ofFormat o p check).check v ctx store = .error failure store := by
  cases check with
  | none => exact refused
  | some check =>
    rw [ofFormat_some, check_extended, refused]

private theorem check_ofFormat_congr {o' : Options} {p : Pattern}
    (same : (Checker.ofFormat o p none).check v ctx store =
      (Checker.ofFormat o' p none).check v ctx store)
    (check : Option CustomCheck) :
    (Checker.ofFormat o p check).check v ctx store =
      (Checker.ofFormat o' p check).check v ctx store := by
  cases check with
  | none => exact same
  | some check =>
    rw [ofFormat_some, ofFormat_some, check_extended, check_extended, same]

theorem check_ofFormat_null (o : Options) (p : Pattern) (check : Option CustomCheck)
    (ctx : Context) (store : Store) :
    (Checker.ofFormat o p check).check .null ctx store =
      (Checker.string o.withoutPattern none).check .null ctx store := by
  have plain : (Checker.ofFormat o p none).check .null ctx store =
      (Checker.string o.withoutPattern none).check .null ctx store := by
    rw [ofFormat, check_string_null, check_string_null]
    rfl
  cases check with
  | none => exact plain
  | some check =>
    rw [ofFormat_some, check_extended, plain]
    cases (Checker.string o.withoutPattern none).check .null ctx store <;> simp

/-- The checker of a format asks a string checker without a pattern first and then, unless the value
is absent, the checker of the format without options. -/
theorem check_ofFormat (free : o.value = .null) {p : Pattern} (textual : p.forBytes = false)
    (check : Option CustomCheck) (v : Value) (ctx : Context) (store : Store) :
    (Checker.ofFormat o p check).check v ctx store =
      match (Checker.string o.withoutPattern none).check v ctx store with
      | .error failure after => .error failure after
      | .ok r after =>
        if v = .null then .ok r after else (Checker.ofFormat {} p check).check v ctx after := by
  -- An absent value never gets as far as the pattern; of any other the size is looked at first.
  by_cases null : v = .null
  · subst null
    rw [check_ofFormat_null]
    cases (Checker.string o.withoutPattern none).check .null ctx store <;> simp
  · have each := forBytes_of_mem_some textual
    have free' : o.withoutPattern.value = .null := free
    have shaped : Options.value { o with regex := .atom (.pattern p) } = .null := free
    have fits : sized { o with regex := .atom (.pattern p) } v = sized o.withoutPattern v := rfl
    rw [check_string_sized free' null]
    cases size : sized o.withoutPattern v with
    | false =>
      refine check_ofFormat_of_refused ?_ check
      rw [ofFormat, check_string_present shaped each null, fits, size]
      rfl
    | true =>
      obtain ⟨s, text, _⟩ := (Option.any_eq_true _ _).mp size
      obtain rfl := Value.eq_text_of_text? text
      have anySize : sized { ({} : Options) with regex := .atom (.pattern p) } (.text s) = true :=
        rfl
      rw [if_pos rfl]
      simp only [if_neg null]
      refine check_ofFormat_congr ?_ check
      rw [ofFormat, ofFormat, check_string_present shaped each null,
        check_string_present rfl each null, fits, size, anySize]

theorem ofFormat_made {kind : Kind} {p : Pattern} {check : Option CustomCheck}
    (format : kind.format? = some (p, check)) (exact : o.value = .null ∨ o.value.text?.isSome) :
    (Checker.ofFormat o p check).Made := by
  cases kind with
  | mac | ipv4 | objectId | email =>
    cases format
    exact Made.string exact
  | ipv6 =>
    cases format
    exact @Made.ipv6 { o with regex := .atom (.pattern Shapes.ipv6) } exact
  | siret =>
    cases format
    exact @Made.siret { o with regex := .atom (.pattern Shapes.siret) } exact
  | boolean | number | string | array => cases format

theorem textual_of_format {kind : Kind} {p : Pattern} {check : Option CustomCheck}
    (format : kind.format? = some (p, check)) : p.forBytes = false := by
  cases kind with
  | boolean | number | string | array => cases format
  | mac | ipv4 | ipv6 | objectId | email | siret =>
    cases format
    rfl

theorem refusal_of_ofFormat {kind : Kind} {p : Pattern} {check : Option CustomCheck}
    (format : kind.format? = some (p, check)) (free : o.value = .null) {before after : Store}
    {failure : Failure}
    (failed : (Checker.ofFormat o p check).check v ctx before = .error failure after) :
    failure = refusal v ctx := by
  have made : (Checker.ofFormat o p check).Made := ofFormat_made format (Or.inl free)
  have readable : (Checker.ofFormat o p check).Readable := by
    intro o' shape e form exactly
    have options : (Checker.ofFormat o p check).options = o' := by rw [form]; rfl
    have free' : o'.value = .null := by
      rw [← options]
      cases check <;> exact free
    rw [exactly] at free'
    exact absurd free' (Value.text_ne_null e)
  have textual : (Checker.ofFormat o p check).Textual := by
    cases check with
    | none => exact textual_of_forBytes (textual_of_format format)
    | some check =>
      intro o' p' form
      cases form
  rcases made.failure_cases failed with same | ⟨_, cause, rfl⟩
  · exact same
  · exact absurd (made.refuses readable textual _ _ _ _ _ failed) Bool.false_ne_true

end Checker

namespace Factory

variable {store : Store} {kinds : Kinds} {source : OptionsSource} {keywords : Keywords}

private theorem shapedOptions_withoutPattern (regex : Value) (source : OptionsSource)
    (keywords : Keywords) :
    shapedOptions store regex source.withoutPattern keywords.withoutPattern =
      shapedOptions store regex source keywords := by
  rw [shapedOptions, shapedOptions, Options.coerce_withoutPattern]
  cases Options.coerce store source keywords <;> rfl

private theorem requireFree_withoutPattern (factory : Factory) (keywords : Keywords) :
    requireFree factory.reserved keywords.withoutPattern =
      requireFree factory.reserved keywords := by
  have same : keywords.withoutPattern.any (fun keyword => factory.reserved.contains keyword.1) =
      keywords.any fun keyword => factory.reserved.contains keyword.1 := by
    rw [Keywords.withoutPattern, List.any_filter]
    congr 1
    funext keyword
    by_cases taken : keyword.1 ∈ factory.reserved
    · simp [nameOf?_of_reserved factory _ taken]
    · simp [taken]
  rw [requireFree, requireFree, same]

theorem make_withoutPattern {kind : Kind} (format : kind.format?.isSome) (source : OptionsSource)
    (keywords : Keywords) :
    make store kinds (.builtin kind) source.withoutPattern keywords.withoutPattern =
      make store kinds (.builtin kind) source keywords := by
  cases kind with
  | boolean | number | string | array => cases format
  | mac | ipv4 | ipv6 | objectId | email | siret =>
    simp only [make, makeBy, makeWithin, requireFree_withoutPattern, shapedOptions_withoutPattern]

/-- The checker of a format is the composition of two. Whenever the options suit a string checker and
ask for no exact value, the checker is made, and so are a string checker of the same options without
their pattern and the checker of the format without options. What both of these accept it accepts;
an absent value is up to the first alone, which also says whether it is missing. The pattern of the
caller, under any of its names, makes no difference. -/
theorem make_format_composed {kind : Kind} {c : Checker} (format : kind.format?.isSome)
    (string : kinds.KnowsString)
    (suits : make store kinds (.builtin .string) source keywords = .ok c)
    (free : c.options.value = .null) :
    (∃ plain bare f : Checker,
      make store kinds (.builtin .string) source.withoutPattern keywords.withoutPattern =
        .ok plain ∧
      make store kinds (.builtin kind) .absent [] = .ok bare ∧
      make store kinds (.builtin kind) source keywords = .ok f ∧
      ∀ (v : Value) (ctx : Context) (before : Store),
        ((∃ r after, f.check v ctx before = .ok r after) ↔
          (∃ r after, plain.check v ctx before = .ok r after) ∧
            (v ≠ .null → ∃ r after, bare.check v ctx before = .ok r after)) ∧
        (∀ path after, f.check v ctx before = .error (.missing path) after ↔
          plain.check v ctx before = .error (.missing path) after) ∧
        ∀ failure after, f.check v ctx before = .error failure after →
          failure = Checker.refusal v ctx) ∧
    ∀ (source : OptionsSource) (keywords : Keywords),
      make store kinds (.builtin kind) source.withoutPattern keywords.withoutPattern =
        make store kinds (.builtin kind) source keywords := by
  refine ⟨?_, make_withoutPattern format⟩
  obtain ⟨⟨p, check⟩, format⟩ := Option.isSome_iff_exists.mp format
  obtain ⟨_, _, suits⟩ := bind_eq_ok.mp suits
  obtain ⟨o, coerced, made⟩ := bind_eq_ok.mp suits
  obtain ⟨suited, shape, _, rfl⟩ := Checker.makeString_eq_ok_iff.mp made
  have free : o.value = .null := free
  have less : Options.coerce store source.withoutPattern keywords.withoutPattern =
      .ok o.withoutPattern := by
    rw [Options.coerce_withoutPattern, coerced]
    rfl
  have plain : Checker.makeString Pattern.ofSource o.withoutPattern =
      .ok (.string o.withoutPattern none) :=
    Checker.makeString_eq_ok_iff.mpr ⟨suited.shaped .null, none, rfl, rfl⟩
  have none : Options.Free {} := ⟨rfl, rfl, rfl, rfl⟩
  refine ⟨_, _, _,
    bind_eq_ok.mpr ⟨(), requireFree_of_coerce _ less, bind_eq_ok.mpr ⟨_, less, plain⟩⟩,
    make_format format (fun _ => string) rfl none.suits,
    make_format format (fun _ => string) coerced suited, fun v ctx before => ⟨?_, ?_, ?_⟩⟩
  · rw [Checker.check_ofFormat free (Checker.textual_of_format format)]
    by_cases null : v = .null
    · subst null
      cases (Checker.string o.withoutPattern .none).check .null ctx before <;> simp
    · rw [Checker.check_string_sized (o := o.withoutPattern) free null]
      cases Checker.sized o.withoutPattern v <;> simp [null]
  · -- Only an absent value is missing, and about that the two say the same.
    intro path after
    constructor
    · intro failed
      obtain rfl := (Checker.ofFormat_made format (Or.inl free)).null_of_missing failed
      rwa [Checker.check_ofFormat_null] at failed
    · intro failed
      have made : (Checker.string o.withoutPattern .none).Made := .string (Or.inl free)
      obtain rfl := made.null_of_missing failed
      rwa [Checker.check_ofFormat_null]
  · exact fun failure after => Checker.refusal_of_ofFormat format free

/-- A pattern that no establishment number looks like, under one of the names of the option. -/
abbrev otherPattern : OptionsSource :=
  .mapping [(.text "reg", .atom (.pattern Shapes.mac)), (.text "mandatory", .bool true)]

theorem make_format_composed_sized :
    Kind.siret.format?.isSome ∧ Kinds.builtin.KnowsString ∧
      ∃ c, make {} Kinds.builtin (.builtin .string) otherPattern [("length", .int 14)] = .ok c ∧
        c.options.value = .null ∧
        ∃ f, make {} Kinds.builtin (.builtin .siret) otherPattern [("length", .int 14)] = .ok f ∧
          (∃ r after, f.check (.text "53268510400012") {} {} = .ok r after) ∧
          (¬∃ r after, f.check (.text "532 685 104 00012") {} {} = .ok r after) ∧
          ∃ path after, f.check .null {} {} = .error (.missing path) after := by
  have less : make {} Kinds.builtin (.builtin .string) otherPattern.withoutPattern
      (Keywords.withoutPattern [("length", .int 14)]) =
        .ok (.string { mandatory := .bool true, length := .int 14 } none) := rfl
  have siret := @make_siret {} Kinds.builtin .absent [] _ Kinds.find?_string rfl
    ⟨rfl, rfl, rfl, rfl⟩
  obtain ⟨c, suits, free⟩ : ∃ c, make {} Kinds.builtin (.builtin .string) otherPattern
      [("length", .int 14)] = .ok c ∧ c.options.value = .null := ⟨_, rfl, rfl⟩
  obtain ⟨⟨plain, bare, f, plainly, barely, made, composed⟩, _⟩ :=
    @make_format_composed {} Kinds.builtin _ _ .siret c rfl Kinds.find?_string suits free
  cases Except.ok.inj (plainly.symm.trans less)
  cases Except.ok.inj (barely.symm.trans siret)
  refine ⟨rfl, Kinds.find?_string, c, suits, free, f, made, ?_, ?_, ?_⟩
  · exact (composed _ _ _).1.mpr ⟨⟨_, _, rfl⟩, fun _ => ⟨_, _, rfl⟩⟩
  · intro accepted
    obtain ⟨⟨r, after, plain⟩, _⟩ := (composed _ _ _).1.mp accepted
    cases plain
  · exact ⟨_, _, ((composed _ _ _).2.1 _ _).mpr rfl⟩

end Factory

end Assay
