import Assay.Proofs.Making

/-!
Formats without further demands. When the options ask for no exact value and no size, the checker of
a format is always made, and what it says about a text is up to its pattern and, behind it, to its
own check.
-/

set_option autoImplicit false
set_option relaxedAutoImplicit false

namespace Assay

/-- Options that ask for no exact value and no size. -/
structure Options.Free (o : Options) : Prop where
  value : o.value = .null
  length : o.length = .null
  minLength : o.minLength = .null
  maxLength : o.maxLength = .null

theorem Options.Free.shaped {o : Options} (free : o.Free) (regex : Value) :
    Options.Free { o with regex } :=
  ⟨free.value, free.length, free.minLength, free.maxLength⟩

/-- The pattern of a format that has no check of its own. -/
def Kind.shape? : Kind → Option Pattern
  | .mac => some Shapes.mac
  | .ipv4 => some Shapes.ipv4
  | .objectId => some Shapes.objectId
  | .email => some Shapes.email
  | _ => none

/-- The pattern of a format, and its own check behind it if there is one. -/
def Kind.format? : Kind → Option (Pattern × Option CustomCheck)
  | .mac => some (Shapes.mac, none)
  | .ipv4 => some (Shapes.ipv4, none)
  | .ipv6 => some (Shapes.ipv6, some AddressV6.check)
  | .objectId => some (Shapes.objectId, none)
  | .email => some (Shapes.email, none)
  | .siret => some (Shapes.siret, some Siret.check)
  | .boolean | .number | .string | .array => none

/-- The checker of a format: it holds its own pattern in the place of that of the options. -/
def Checker.ofFormat (o : Options) (p : Pattern) : Option CustomCheck → Checker
  | none => .string { o with regex := .atom (.pattern p) } (some p)
  | some check => .extended (.string { o with regex := .atom (.pattern p) } (some p)) check

/-- A registry in which the name of the string kind means that kind. -/
def Kinds.KnowsString (kinds : Kinds) : Prop :=
  kinds.find? (.text "string") = some (.factory (.builtin .string))

namespace Options

theorem Free.suits {o : Options} (free : o.Free) : o.SuitString := by
  refine ⟨Or.inl free.value, ?_⟩
  simp only [List.forall_mem_cons]
  exact ⟨Or.inl free.length, Or.inl free.minLength, Or.inl free.maxLength, by simp⟩

theorem SuitString.shaped {o : Options} (suits : o.SuitString) (regex : Value) :
    SuitString { o with regex } := by
  refine ⟨suits.1, fun name member => ?_⟩
  have sized := suits.2 name member
  simp only [List.mem_cons, List.not_mem_nil, or_false] at member
  rcases member with rfl | rfl | rfl <;> exact sized

end Options

theorem Checker.makeString_eq_ok_iff {read : PatternReading} {o : Options} {c : Checker} :
    makeString read o = .ok c ↔
      o.SuitString ∧ ∃ shape, shapeOf read o.regex = .ok shape ∧ c = .string o shape := by
  rw [makeString]
  constructor
  · intro made
    simp only [bind_eq_ok] at made
    obtain ⟨_, exact, _, sizes, shape, looks, made⟩ := made
    exact ⟨⟨requireExact_string.mp exact, requireSizes_ok_iff.mp sizes⟩, shape, looks,
      (Except.ok.inj made).symm⟩
  · rintro ⟨suits, shape, looks, rfl⟩
    rw [requireExact_string.mpr suits.1, requireSizes_ok_iff.mpr suits.2, looks]
    rfl

namespace Factory

variable {store : Store} {kinds : Kinds} {source : OptionsSource} {keywords : Keywords}
  {o : Options}

private theorem makeString_shaped (read : PatternReading) (suits : o.SuitString) (p : Pattern) :
    Checker.makeString read { o with regex := .atom (.pattern p) } = .ok (.ofFormat o p none) :=
  Checker.makeString_eq_ok_iff.mpr ⟨suits.shaped _, some p, rfl, rfl⟩

private theorem shapedOptions_of_coerce (coerced : Options.coerce store source keywords = .ok o)
    (regex : Value) : shapedOptions store regex source keywords = .ok { o with regex } := by
  rw [shapedOptions, coerced]
  rfl

/-- A format is made whenever its options can be read and suit a string checker. One with a check of
its own is made by way of the string kind. -/
theorem make_format {kind : Kind} {p : Pattern} {check : Option CustomCheck}
    (format : kind.format? = some (p, check)) (string : check.isSome → kinds.KnowsString)
    (coerced : Options.coerce store source keywords = .ok o) (suits : o.SuitString) :
    make store kinds (.builtin kind) source keywords = .ok (.ofFormat o p check) := by
  have free := requireFree_of_coerce (.builtin kind) coerced
  have plain (q : Pattern) : (do
      let o ← shapedOptions store (.atom (.pattern q)) source keywords
      Checker.makeString Pattern.ofSource o) = .ok (.ofFormat o q none) :=
    bind_eq_ok.mpr ⟨_, shapedOptions_of_coerce coerced _, makeString_shaped _ suits q⟩
  have extended (known : kinds.KnowsString) (q : Pattern) (check : CustomCheck) : (do
      let o ← shapedOptions store (.atom (.pattern q)) source keywords
      extendKind (makeWithin Pattern.ofSource store kinds kinds.count) kinds (.record o) "string"
        check) = .ok (.ofFormat o q (some check)) := by
    refine bind_eq_ok.mpr ⟨_, shapedOptions_of_coerce coerced _, ?_⟩
    obtain ⟨fuel, count⟩ := Nat.exists_eq_succ_of_ne_zero (Kinds.count_ne_zero known)
    rw [extendKind, known, count]
    exact bind_eq_ok.mpr ⟨_, makeString_shaped _ suits q, rfl⟩
  refine bind_eq_ok.mpr ⟨(), free, ?_⟩
  cases kind with
  | mac | ipv4 | objectId | email =>
    cases format
    exact plain _
  | ipv6 | siret =>
    cases format
    exact extended (string rfl) _ _
  | boolean | number | string | array => cases format

theorem make_shape {kind : Kind} {p : Pattern} (shape : kind.shape? = some p)
    (coerced : Options.coerce store source keywords = .ok o) (free : o.Free) :
    make store kinds (.builtin kind) source keywords =
      .ok (.string { o with regex := .atom (.pattern p) } (some p)) := by
  have format : kind.format? = some (p, none) := by
    cases kind <;> cases shape <;> rfl
  exact make_format format nofun coerced free.suits

theorem make_ipv6 (string : kinds.KnowsString)
    (coerced : Options.coerce store source keywords = .ok o) (free : o.Free) :
    make store kinds (.builtin .ipv6) source keywords =
      .ok (.extended (.string { o with regex := .atom (.pattern Shapes.ipv6) } (some Shapes.ipv6))
        AddressV6.check) := by
  have format : Kind.ipv6.format? = some (Shapes.ipv6, some AddressV6.check) := rfl
  exact make_format format (fun _ => string) coerced free.suits

theorem make_siret (string : kinds.KnowsString)
    (coerced : Options.coerce store source keywords = .ok o) (free : o.Free) :
    make store kinds (.builtin .siret) source keywords =
      .ok (.extended (.string { o with regex := .atom (.pattern Shapes.siret) }
        (some Shapes.siret)) Siret.check) := by
  have format : Kind.siret.format? = some (Shapes.siret, some Siret.check) := rfl
  exact make_format format (fun _ => string) coerced free.suits

end Factory

namespace Checker

variable {o : Options}

theorem checkBasic_free (free : o.Free) {p : Pattern} (textual : p.forBytes = false)
    (s : String) (ctx : Context) (store : Store) :
    (Checker.string o (some p)).checkBasic (.text s) ctx store =
      if p.accepts s then .ok (.text s) store else .error (.invalid ctx.path) store := by
  have anySize : sizeAccepted o s.length = true := by
    simp [sizeAccepted, free.length, free.minLength, free.maxLength, Value.natural?]
  rw [checkBasic_text free.value textual, anySize, Bool.true_and]

/-- Where a check passes under a condition, and otherwise refuses the value as invalid, the values
that are accepted are those of the condition. -/
theorem accepts_iff_of {c : Checker} {v : Value} {ctx : Context} {before : Store} {p : Prop}
    (passes : p → ∃ r, c.check v ctx before = .ok r before)
    (refuses : ¬p → c.check v ctx before = .error (.invalid ctx.path) before) :
    ((∃ r after, c.check v ctx before = .ok r after) ↔ p) ∧
      ∀ failure after, c.check v ctx before = .error failure after →
        failure = .invalid ctx.path := by
  by_cases holds : p
  · obtain ⟨r, passed⟩ := passes holds
    refine ⟨⟨fun _ => holds, fun _ => ⟨r, before, passed⟩⟩, fun failure after refused => ?_⟩
    rw [passed] at refused
    cases refused
  · have refused := refuses holds
    refine ⟨⟨?_, fun other => absurd other holds⟩, fun failure after again => ?_⟩
    · rintro ⟨r, after, passed⟩
      rw [refused] at passed
      cases passed
    · rw [refused] at again
      cases again
      rfl

theorem check_shape (free : o.Free) {p : Pattern} (textual : p.forBytes = false)
    (s : String) (ctx : Context) (before : Store) :
    ((∃ r after, (Checker.string o (some p)).check (.text s) ctx before = .ok r after) ↔
        p.accepts s) ∧
      ∀ failure after, (Checker.string o (some p)).check (.text s) ctx before =
        .error failure after → failure = .invalid ctx.path := by
  have checked : (Checker.string o (some p)).check (.text s) ctx before =
      if p.accepts s then .ok (.text s) before else .error (.invalid ctx.path) before :=
    checkBasic_free free textual s ctx before
  refine accepts_iff_of (fun accepted => ⟨.text s, ?_⟩) fun refused => ?_
  · rw [checked, if_pos accepted]
  · rw [checked, if_neg refused]

end Checker

end Assay
