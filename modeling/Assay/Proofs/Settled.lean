import Assay.Proofs.Spelling
import Assay.Proofs.Transport

/-!
Settled checkers: what a built-in checker has put in the place of a value it accepts again, and
leaves as it is. Numbers of establishments are the exception, as the grouped form is another text
than the one that was accepted, and need not satisfy the options that this one satisfied.
-/

set_option autoImplicit false
set_option relaxedAutoImplicit false

namespace Assay

namespace Store

/-- A later store has the sequences of an earlier one as they were, and its mappings, of which none
has got its first entry since. -/
structure Fades (before after : Store) : Prop where
  sequences : before.sequences.size ≤ after.sequences.size
  mappings : after.mappings.size = before.mappings.size
  items : ∀ a, a < before.sequences.size → after.items a = before.items a
  empty : ∀ a, before.entries a = [] → after.entries a = []

theorem Fades.refl (store : Store) : Fades store store :=
  ⟨Nat.le_refl _, rfl, fun _ _ => rfl, fun _ empty => empty⟩

theorem Fades.trans {first second third : Store} (early : Fades first second)
    (late : Fades second third) : Fades first third where
  sequences := Nat.le_trans early.sequences late.sequences
  mappings := late.mappings.trans early.mappings
  items a bound :=
    (late.items a (Nat.lt_of_lt_of_le bound early.sequences)).trans (early.items a bound)
  empty a empty := late.empty a (early.empty a empty)

theorem Keeps.fades {before after : Store} (kept : Keeps [] before after) : Fades before after :=
  ⟨kept.sequences, kept.mappings, kept.items,
    fun a empty => (kept.entries a List.not_mem_nil).trans empty⟩

theorem Fades.newSeq {before now : Store} (kind : SeqKind) {items : List Value}
    (fades : Fades (before.newSeq kind items).2 now) :
    before.sequences.size < now.sequences.size ∧ now.items before.sequences.size = items := by
  have new : before.sequences.size < (before.newSeq kind items).2.sequences.size := by
    simp [Store.newSeq]
  exact ⟨Nat.lt_of_lt_of_le new fades.sequences,
    (fades.items _ new).trans (before.items_newSeq kind items)⟩

/-- A value and a copy of it: the value itself, or two lists with the same items. -/
def Copy (store : Store) (v w : Value) : Prop :=
  v = w ∨ ∃ a b, v = .seq .list a ∧ w = .seq .list b ∧ a < store.sequences.size ∧
    b < store.sequences.size ∧ store.items a = store.items b

theorem Copy.mono {before after : Store} (fades : Fades before after) {v w : Value}
    (copy : before.Copy v w) : after.Copy v w := by
  rcases copy with same | ⟨a, b, list, other, first, second, items⟩
  · exact Or.inl same
  · refine Or.inr ⟨a, b, list, other, Nat.lt_of_lt_of_le first fades.sequences,
      Nat.lt_of_lt_of_le second fades.sequences, ?_⟩
    rw [fades.items a first, fades.items b second, items]

theorem Copy.eq_null {store : Store} {w : Value} (copy : store.Copy .null w) : w = .null := by
  rcases copy with same | ⟨a, b, list, _⟩
  · exact same.symm
  · cases list

variable {before after : Store}

theorem Stands.mono (fades : Fades before after) {v : Value} (stands : before.Stands v) :
    after.Stands v := by
  cases v with
  | atom a => trivial
  | seq kind a => exact Nat.lt_of_lt_of_le stands fades.sequences
  | map kind a => exact Nat.lt_of_lt_of_eq stands fades.mappings.symm

theorem truthy_of_fades (fades : Fades before after) {v : Value} (stands : before.Stands v)
    (truthy : after.truthy v) : before.truthy v := by
  cases v with
  | atom a =>
    cases a with
    | decimal d => cases d <;> exact truthy
    | null | bool _ | number _ | text _ | bytes _ | mode _ | pattern _ | object _ => exact truthy
  | seq kind a =>
    rw [Store.truthy] at truthy ⊢
    rwa [fades.items a stands] at truthy
  | map kind a =>
    rw [Store.truthy] at truthy ⊢
    cases empty : before.entries a with
    | cons entry rest => rfl
    | nil =>
      rw [fades.empty a empty] at truthy
      cases truthy

theorem eq_self_of_eq {a b : Atom} (equal : a.eq b) : b.eq b := by
  rw [Atom.eq] at equal ⊢
  cases amount : b.magnitude? with
  | none => exact beq_self_eq_true b
  | some n =>
    rw [amount] at equal
    cases other : a.magnitude? with
    | none =>
      rw [other] at equal
      cases equal
    | some m =>
      rw [other] at equal
      cases n with
      | finite q => exact beq_self_eq_true q
      | infinite negative => exact beq_self_eq_true negative
      | nan => cases m <;> cases equal

theorem equal_self_of_equal {v w : Value} (equal : before.equal v w) (store : Store) :
    store.equal w w := by
  have itself : store.same w w := by
    rw [same, beq_self_eq_true, Bool.true_or]
  cases w with
  | seq kind a | map kind a => exact itself
  | atom b =>
    cases v with
    | atom a => exact eq_self_of_eq equal
    | seq kind a => exact absurd equal (not_same_atom (Value.seq_ne_atom kind a) b).2
    | map kind a => exact absurd equal (not_same_atom (Value.map_ne_atom kind a) b).2

theorem itemsEqual_self {vs ws : List Value} (equal : itemsEqual before vs ws) (store : Store) :
    itemsEqual store ws ws := by
  induction ws generalizing vs with
  | nil => rfl
  | cons w rest ih =>
    cases vs with
    | nil => cases equal
    | cons v vs =>
      rw [itemsEqual, Bool.and_eq_true] at equal ⊢
      exact ⟨equal_self_of_equal equal.1 store, ih equal.2⟩

end Store

namespace Checker

variable {before between now : Store}

private theorem accepted_of_fades {o : Options} (fades : Store.Fades before now)
    (options : ∀ name, before.Stands (o.get name)) {n : Number} (accepted : n.accepted o before) :
    n.accepted o now := by
  have switch : ∀ name (test : Bool), (!before.truthy (o.get name) || test) = true →
      (!now.truthy (o.get name) || test) = true := by
    intro name test passed
    cases on : now.truthy (o.get name) with
    | false => rfl
    | true => rwa [Store.truthy_of_fades fades (options name) on] at passed
  simp only [Number.accepted, Bool.and_eq_true] at accepted ⊢
  obtain ⟨⟨⟨⟨⟨⟨isFloat, isInteger⟩, isPositive⟩, isNegative⟩, isNotNull⟩, maximum⟩, minimum⟩ :=
    accepted
  exact ⟨⟨⟨⟨⟨⟨switch .isFloat _ isFloat, switch .isInteger _ isInteger⟩,
    switch .isPositive _ isPositive⟩, switch .isNegative _ isNegative⟩,
    switch .isNotNull _ isNotNull⟩, maximum⟩, minimum⟩

private theorem accepts_of_fades {c : Checker} {v : Value} (fades : Store.Fades before now)
    (options : ∀ name, before.Stands (c.options.get name)) (stands : before.Stands v)
    (accepted : accepts before c v) : accepts now c v := by
  induction c with
  | boolean o => rfl
  | string o shape => exact accepted
  | number o =>
    rw [accepts] at accepted ⊢
    cases number : v.number? with
    | none => rfl
    | some n =>
      rw [number] at accepted
      exact accepted_of_fades fades options accepted
  | array o expected =>
    rw [accepts] at accepted ⊢
    cases v with
    | atom a => rfl
    | map kind a => rfl
    | seq kind a =>
      have items := fades.items a stands
      cases kind with
      | set => rfl
      | list | tuple =>
        change sizeAccepted o (now.items a).length = true
        rw [items]
        exact accepted
  | extended base extension ih => exact ih options accepted

private theorem matchesExact_eq {c : Checker} (scalar : c.checkerClass ≠ .array) (store : Store)
    (v : Value) : c.matchesExact store v = store.equal v c.options.value := by
  cases c with
  | array o expected => exact absurd rfl scalar
  | boolean o | number o | string o shape | extended base extension => rfl

private theorem checkBasic_of_admits {c : Checker} {v r : Value} {ctx : Context} {later : Store}
    (admitted : c.admits now ctx.mode v) (answered : c.answer v now = .ok r later) :
    c.checkBasic v ctx now = .ok r later := by
  rw [checkBasic_eq, if_pos admitted, answered]

private theorem again_of_items {o : Options} {expected : Option (List Value)}
    (strict : ¬o.value = .null) {a : Address} (bound : a < now.sequences.size)
    (here : now.items a = expected.getD [])
    (equal : itemsEqual now (expected.getD []) (expected.getD [])) {ctx : Context} :
    ∃ r' later, (Checker.array o expected).checkBasic (.seq .list a) ctx now = .ok r' later ∧
      later.Copy (.seq .list a) r' := by
  have list := Value.seq_ne_atom .list a .null
  have strict' : ¬(Checker.array o expected).options.value = .null := strict
  refine ⟨(now.newSeq .list (expected.getD [])).1, (now.newSeq .list (expected.getD [])).2,
    checkBasic_of_admits ?_ ?_, Or.inr ⟨a, now.sequences.size, rfl, rfl,
      Nat.lt_of_lt_of_le bound (by simp [Store.newSeq]), by simp [Store.newSeq], ?_⟩⟩
  · rw [admits, if_neg list, if_neg strict', Bool.and_eq_true]
    refine ⟨rfl, ?_⟩
    change itemsEqual now (now.items a) (expected.getD []) = true
    rw [here]
    exact equal
  · rw [answer, if_neg list, if_neg strict']
    rfl
  · rw [(Store.keeps_newSeq now .list _).items _ bound, here, Store.items_newSeq]

theorem checkBasic_again (c : Checker)
    (exact : c.options.value = .null ∨ c.isType c.options.value)
    (options : ∀ name, before.Stands (c.options.get name)) {v r : Value} (stands : before.Stands v)
    {ctx : Context} (checked : c.checkBasic v ctx before = .ok r between)
    (fades : Store.Fades between now) :
    ∃ r' later, c.checkBasic r ctx now = .ok r' later ∧ later.Copy r r' := by
  obtain ⟨admitted, answered⟩ := checkBasic_ok checked
  have since : Store.Fades before now :=
    ((calm_checkBasic c).keeps checked).fades.trans fades
  rcases answer_cases answered with ⟨rfl, rfl, _⟩ | ⟨present, free, rfl, _⟩ | ⟨present, strict, kept⟩
  · refine ⟨.null, now, checkBasic_of_admits ?_ rfl, Or.inl rfl⟩
    rw [admits, if_pos rfl] at admitted ⊢
    cases on : now.truthy c.options.mandatory with
    | false => rfl
    | true =>
      have wanted : before.truthy c.options.mandatory :=
        Store.truthy_of_fades since (options .mandatory) on
      rwa [wanted] at admitted
  · refine ⟨r, now, checkBasic_of_admits ?_ ?_, Or.inl rfl⟩
    · rw [admits, if_neg present, if_pos free, Bool.and_eq_true] at admitted ⊢
      exact ⟨admitted.1, accepts_of_fades since options stands admitted.2⟩
    · rw [answer, if_neg present, if_pos free]
      rfl
  · rw [admits, if_neg present, if_neg strict, Bool.and_eq_true] at admitted
    rcases exactValue_cases kept with ⟨scalar, rfl, _⟩ | ⟨o, expected, rfl, new⟩
    · rw [matchesExact_eq scalar] at admitted
      have again : c.exactValue now = .ok c.options.value now := by
        cases c with
        | array o expected => exact absurd rfl scalar
        | boolean o | number o | string o shape | extended base extension => rfl
      refine ⟨c.options.value, now, checkBasic_of_admits ?_ ?_, Or.inl rfl⟩
      · rw [admits, if_neg strict, if_neg strict, matchesExact_eq scalar, Bool.and_eq_true]
        exact ⟨exact.resolve_left strict, Store.equal_self_of_equal admitted.2 now⟩
      · rw [answer, if_neg strict, if_neg strict, again]
    · obtain ⟨rfl, rfl⟩ := Prod.mk.inj new
      obtain ⟨bound, here⟩ := fades.newSeq .list
      obtain ⟨a, _, equal⟩ := (Option.any_eq_true _ _).mp admitted.2
      exact again_of_items strict bound here (Store.itemsEqual_self equal now)

private theorem result_string {o : Options} {shape : Option Pattern} {v r : Value} {ctx : Context}
    (checked : (Checker.string o shape).checkBasic v ctx before = .ok r between) : r = v := by
  obtain ⟨admitted, answered⟩ := checkBasic_ok checked
  rcases answer_cases answered with ⟨rfl, rfl, _⟩ | ⟨_, _, rfl, _⟩ | ⟨present, strict, kept⟩
  · rfl
  · rfl
  · rw [admits, if_neg present, if_neg strict, Bool.and_eq_true] at admitted
    obtain ⟨s, text⟩ := Option.isSome_iff_exists.mp admitted.1
    obtain rfl := Value.eq_text_of_text? text
    have exactly : o.value = .text s := Store.eq_of_equal_text admitted.2
    rcases exactValue_cases kept with ⟨_, rfl, _⟩ | ⟨_, _, other, _⟩
    · exact exactly
    · cases other

/-- The text that an establishment number is replaced by. -/
def grouped (s : String) : String := String.ofList (Siret.group (Text.dropBlanks s.toList))

private theorem length_grouped {digits : List Char} {s : String}
    (spells : Siret.Spells digits s.toList) : (grouped s).length = 17 := by
  rw [← String.length_toList, grouped, String.toList_ofList, Siret.dropBlanks_of_spells spells,
    Siret.length_group spells]

/-- A checker of establishment numbers is settled when its exact value, if it has a valid checksum,
is in groups already, and when it accepts the size of a number in groups without an exact value, if
it accepts the size of any other spelling. -/
def Settled (c : Checker) : Prop :=
  ∀ o shape, c = .extended (.string o shape) Siret.check →
    (∀ e, o.value = .text e → Luhn.validText (Text.dropBlanks e.toList) = .ok true →
      grouped e = e) ∧
      (o.value = .null → sizeAccepted o 14 ∨ sizeAccepted o 15 ∨ sizeAccepted o 16 →
        sizeAccepted o 17)

private theorem admits_grouped (now : Store) {o : Options} {s : String} {mode : Mode}
    (settled : Settled (.extended (.string o (some Shapes.siret)) Siret.check))
    (admitted : (Checker.string o (some Shapes.siret)).admits before mode (.text s))
    (valid : Luhn.validText (Text.dropBlanks s.toList) = .ok true) :
    (Checker.string o (some Shapes.siret)).admits now mode (.text (grouped s)) ∧
      Luhn.validText (Text.dropBlanks (grouped s).toList) = .ok true ∧
        grouped (grouped s) = grouped s := by
  obtain ⟨exact, sizes⟩ := settled o _ rfl
  rw [admits_text] at admitted ⊢
  by_cases free : o.value = .null
  · rw [if_pos free, Bool.and_eq_true] at admitted
    rw [if_pos free, Bool.and_eq_true]
    obtain ⟨digits, spells⟩ := (Siret.accepts_iff s).mp admitted.2
    have again : Siret.Spells digits (grouped s).toList := by
      rw [grouped, String.toList_ofList, Siret.dropBlanks_of_spells spells]
      exact Siret.spells_group spells
    have size := length_grouped spells
    have bounds := Siret.length_of_spells spells
    rw [String.length_toList] at bounds
    have fits : sizeAccepted o 17 := by
      have cases : s.length = 14 ∨ s.length = 15 ∨ s.length = 16 ∨ s.length = 17 := by omega
      rcases cases with length | length | length | length
      · exact sizes free (Or.inl (length ▸ admitted.1))
      · exact sizes free (Or.inr (Or.inl (length ▸ admitted.1)))
      · exact sizes free (Or.inr (Or.inr (length ▸ admitted.1)))
      · exact length ▸ admitted.1
    refine ⟨?_, ?_, ?_⟩
    · rw [size]
      exact ⟨fits, (Siret.accepts_iff _).mpr ⟨digits, again⟩⟩
    · rw [Siret.dropBlanks_of_spells spells] at valid
      rw [Siret.dropBlanks_of_spells again, valid]
    · rw [grouped, Siret.dropBlanks_of_spells again, grouped, Siret.dropBlanks_of_spells spells]
  · rw [if_neg free] at admitted ⊢
    have exactly : o.value = .text s := Store.eq_of_equal_text admitted
    have same := exact s exactly valid
    rw [same]
    have equal : before.equal (.text s) o.value := admitted
    have again : now.equal (.text s) o.value := by
      rw [exactly] at equal ⊢
      exact Store.equal_self_of_equal equal now
    exact ⟨again, valid, same⟩

/-- What a settled checker gave it accepts again, and gives it again or a copy of it. -/
theorem Made.check_again {c : Checker} (made : c.Made) (settled : c.Settled)
    (options : ∀ name, before.Stands (c.options.get name)) {v r : Value} (stands : before.Stands v)
    {ctx : Context} (sanitize : ctx.mode.sanitize = true)
    (checked : c.check v ctx before = .ok r between) (fades : Store.Fades between now) :
    ∃ r' later, c.check r ctx now = .ok r' later ∧ later.Copy r r' := by
  cases made with
  | @boolean o exact => exact checkBasic_again (.boolean o) exact options stands checked fades
  | @number o exact => exact checkBasic_again (.number o) exact options stands checked fades
  | @string o shape exact =>
    exact checkBasic_again (.string o shape) exact options stands checked fades
  | @array o expected exact =>
    exact checkBasic_again (.array o expected) exact options stands checked fades
  | @ipv6 o exact =>
    obtain ⟨based, test⟩ := check_ipv6_ok checked
    obtain ⟨r', later, again, copy⟩ := checkBasic_again (.string o (some Shapes.ipv6)) exact
      options stands based fades
    have same := result_string based
    have passes : (decide (r = .null) || AddressV6.acceptsValue r) = true := by
      rw [Bool.or_eq_true, decide_eq_true_iff, same]
      exact test
    refine ⟨r', later, ?_, copy⟩
    rw [check_ipv6, again]
    exact if_pos passes
  | @siret o exact =>
    obtain ⟨r₀, based, ⟨rfl, rfl⟩ | ⟨s, rfl, valid, replaced⟩⟩ := check_siret_ok checked
    · have none := result_string based
      obtain ⟨r', later, again, copy⟩ := checkBasic_again (.string o (some Shapes.siret)) exact
        options stands based fades
      refine ⟨r', later, ?_, copy⟩
      rw [check_siret, again]
      exact if_pos none
    · rw [sanitize, if_pos rfl] at replaced
      obtain ⟨admitted, validly, stays⟩ :=
        admits_grouped now settled (checkBasic_ok based).1 valid
      obtain ⟨r₁, later, answered⟩ := answer_total (.string o (some Shapes.siret))
        (.text (grouped s)) now
      have again := checkBasic_of_admits admitted answered
      have present := Value.text_ne_null (grouped s)
      refine ⟨.text (grouped s), later, ?_, Or.inl replaced⟩
      have form : r = .text (grouped s) := replaced
      rw [form, check_siret, again]
      simp only [if_neg present, Value.text?, validly, sanitize, if_true]
      exact congrArg (fun t => EStateM.Result.ok (Value.text t) later) stays

private theorem exists_spelling {n : Nat} (short : n = 14 ∨ n = 15 ∨ n = 16) :
    ∃ s : String, s.length = n ∧ Siret.Spells (List.replicate 14 '0') s.toList := by
  have plain : ∀ c ∈ List.replicate 14 '0', Shapes.IsPlainDigit c := by
    intro c member
    rw [List.eq_of_mem_replicate member, Shapes.IsPlainDigit]
    decide
  have absent : Siret.IsGap [] := Or.inl rfl
  have gap : Siret.IsGap [' '] := Or.inr rfl
  rcases short with rfl | rfl | rfl
  · exact ⟨"00000000000000", by decide, rfl, plain, [], [], [], absent, absent, absent, by decide⟩
  · exact ⟨"000 00000000000", by decide, rfl, plain, [' '], [], [], gap, absent, absent,
      by decide⟩
  · exact ⟨"000 000 00000000", by decide, rfl, plain, [' '], [' '], [], gap, gap, absent,
      by decide⟩

private theorem check_text {o : Options} {s : String} {ctx : Context} {store : Store}
    (sanitize : ctx.mode.sanitize = true)
    (based : (Checker.string o (some Shapes.siret)).checkBasic (.text s) ctx store =
      .ok (.text s) store)
    (valid : Luhn.validText (Text.dropBlanks s.toList) = .ok true) :
    (Checker.extended (.string o (some Shapes.siret)) Siret.check).check (.text s) ctx store =
      .ok (.text (grouped s)) store := by
  have present := Value.text_ne_null s
  rw [check_siret, based]
  simp only [if_neg present, Value.text?, valid, sanitize, if_true]
  rfl

private theorem refused_of_moved {o : Options} {e : String} (exactly : o.value = .text e)
    (moved : grouped e ≠ e) {ctx : Context} {store : Store} {r : Value} {after : Store} :
    (Checker.extended (.string o (some Shapes.siret)) Siret.check).check (.text (grouped e)) ctx
      store ≠ .ok r after := by
  intro checked
  obtain ⟨r', based, _⟩ := check_siret_ok checked
  have admitted := (checkBasic_ok based).1
  have strict : ¬o.value = .null := by
    rw [exactly]
    exact Value.text_ne_null e
  rw [admits_text, if_neg strict] at admitted
  have same : o.value = .text (grouped e) := Store.eq_of_equal_text admitted
  rw [exactly] at same
  exact moved (Atom.text.inj (Value.atom.inj same)).symm

private theorem refused_of_size {o : Options} (free : o.value = .null)
    (refused : ¬sizeAccepted o 17) {digits : List Char} {s : String}
    (spells : Siret.Spells digits s.toList) {ctx : Context} {store : Store} {r : Value}
    {after : Store} :
    (Checker.extended (.string o (some Shapes.siret)) Siret.check).check (.text (grouped s)) ctx
      store ≠ .ok r after := by
  intro checked
  obtain ⟨r', based, _⟩ := check_siret_ok checked
  have wrongSize : sizeAccepted o (grouped s).length = false := by
    rw [length_grouped spells]
    exact eq_false_of_ne_true refused
  rw [checkBasic_text free rfl, wrongSize] at based
  cases based

private theorem checkBasic_spelled {o : Options} (free : o.value = .null) {digits : List Char}
    {s : String} (spells : Siret.Spells digits s.toList) (accepted : sizeAccepted o s.length)
    (ctx : Context) (store : Store) :
    (Checker.string o (some Shapes.siret)).checkBasic (.text s) ctx store =
      .ok (.text s) store := by
  rw [checkBasic_text free rfl, accepted, (Siret.accepts_iff s).mpr ⟨_, spells⟩]
  rfl

theorem Made.exists_refused {c : Checker} (made : c.Made) (unsettled : ¬c.Settled) :
    ∃ s g : String,
      (∀ ctx store, ctx.mode.sanitize = true →
        c.check (.text s) ctx store = .ok (.text g) store) ∧
      ∀ ctx store r after, c.check (.text g) ctx store ≠ .ok r after := by
  simp only [Settled, not_forall] at unsettled
  obtain ⟨o, shape, form, unsettled⟩ := unsettled
  obtain rfl := shape_of_made made form
  subst form
  rw [not_and_or] at unsettled
  rcases unsettled with unsettled | unsettled
  · simp only [not_forall] at unsettled
    obtain ⟨e, exactly, valid, moved⟩ := unsettled
    refine ⟨e, grouped e, fun ctx store sanitize => ?_,
      fun _ _ _ _ => refused_of_moved exactly moved⟩
    exact check_text sanitize (checkBasic_exact exactly _ ctx store) valid
  · simp only [not_forall] at unsettled
    obtain ⟨free, sizes, refused⟩ := unsettled
    obtain ⟨n, short, accepted⟩ : ∃ n, (n = 14 ∨ n = 15 ∨ n = 16) ∧ sizeAccepted o n := by
      rcases sizes with size | size | size
      · exact ⟨14, Or.inl rfl, size⟩
      · exact ⟨15, Or.inr (Or.inl rfl), size⟩
      · exact ⟨16, Or.inr (Or.inr rfl), size⟩
    obtain ⟨s, length, spells⟩ := exists_spelling short
    have valid : Luhn.validText (Text.dropBlanks s.toList) = .ok true := by
      rw [Siret.dropBlanks_of_spells spells]
      rfl
    refine ⟨s, grouped s, fun ctx store sanitize => ?_,
      fun _ _ _ _ => refused_of_size free refused spells⟩
    exact check_text sanitize (checkBasic_spelled free spells (length ▸ accepted) ctx store) valid

end Checker

end Assay
