import Assay.Proofs.Resemblance
import Assay.Proofs.Settled

/-!
Exact values. A basic checker with an exact value asks whether a value is of its type and equals
that one, and for nothing else. What it gives for all such values is the same: the exact value as the
options hold it, or a new list of the items that it had when the checker was made. What it gives it
accepts in turn.
-/

set_option autoImplicit false
set_option relaxedAutoImplicit false

namespace Assay

namespace Store

variable {store : Store} {v w : Value}

/-- Two values with one content: copies of each other, and equal, as far as their data have an end.
The data of a value that contains itself are cut off and say nothing about it. -/
structure Repeats (store : Store) (v w : Value) : Prop where
  copy : store.Copy v w
  equal : (∃ l : Layout, l.value = v ∧ store.Holds l) → store.equal v w

theorem repeats_self (equal : store.equal v v) : store.Repeats v v :=
  ⟨Or.inl rfl, fun _ => equal⟩

theorem repeats_list {a b : Address} (first : a < store.sequences.size)
    (second : b < store.sequences.size) (same : store.items a = store.items b) :
    store.Repeats (.seq .list a) (.seq .list b) := by
  refine ⟨Or.inr ⟨a, b, rfl, rfl, first, second, same⟩, ?_⟩
  rintro ⟨l, value, held⟩
  cases l with
  | atom atom => cases value
  | map kind address entries => cases value
  | seq kind address items =>
    obtain ⟨rfl, rfl⟩ := Value.seq.inj value
    -- The addresses differ, so the data decide, and the other list has them at its own address.
    obtain ⟨⟨_, here⟩, inside⟩ := (store.holds_seq _ _ items).mp held
    have held' : store.Holds (.seq .list b items) :=
      (store.holds_seq _ _ items).mpr ⟨⟨second, same.symm.trans here⟩, inside⟩
    have frozen := freeze_of_holds held
    have frozen' := freeze_of_holds held'
    have alike := Data.same_self (.seq .list address items)
    rw [Layout.value, Layout.data_seq] at frozen frozen'
    rw [Layout.data_seq] at alike
    change (_ || Data.same (store.freeze _) (store.freeze _)) = true
    rw [frozen, frozen', alike, Bool.or_true]

theorem itemsEqual_iff (store : Store) (vs ws : List Value) :
    itemsEqual store vs ws ↔ List.Forall₂ (fun v w => store.equal v w) vs ws := by
  induction vs generalizing ws with
  | nil => cases ws <;> simp [itemsEqual]
  | cons v vs ih => cases ws <;> simp [itemsEqual, ih]

end Store

/-- The basic kinds. -/
def Kind.basic : List Kind := [.boolean, .number, .string, .array]

/-- A value is of the type of a basic kind and equals another one. Lists and tuples are equal when
their items are; of the other one those items count that it had in an earlier store. -/
def Kind.Meets (past now : Store) (v e : Value) : Kind → Prop
  | .boolean => v.isBool ∧ now.equal v e
  | .number => v.number?.isSome ∧ now.equal v e
  | .string => v.text?.isSome ∧ now.equal v e
  | .array => ∃ a b, v.array? = some a ∧ e.array? = some b ∧
      List.Forall₂ (fun x y => now.equal x y) (now.items a) (past.items b)
  | _ => False

namespace Checker

/-- The checkers of the basic kinds that options with an exact value make. -/
inductive Exacting (store : Store) (o : Options) : Kind → Checker → Prop
  | boolean (typed : o.value.isBool) : Exacting store o .boolean (.boolean o)
  | number (typed : o.value.number?.isSome) : Exacting store o .number (.number o)
  | string (typed : o.value.text?.isSome) (shape : Option Pattern) :
      Exacting store o .string (.string o shape)
  | array {a : Address} (typed : o.value.array? = some a) :
      Exacting store o .array (.array o (some (store.items a)))

namespace Exacting

variable {store before between now after : Store} {o : Options} {kind : Kind} {c : Checker}
  {v v' r r' : Value} {ctx ctx' : Context}

theorem value_ne_null (exacting : Exacting store o kind c) : o.value ≠ .null := by
  intro none
  cases exacting with
  | boolean typed | number typed | string typed | array typed =>
    rw [none] at typed
    cases typed

theorem admits_iff (exacting : Exacting store o kind c) (present : v ≠ .null) (mode : Mode) :
    c.admits now mode v ↔ kind.Meets store now v o.value := by
  have exact := exacting.value_ne_null
  cases exacting with
  | boolean | number | string =>
    rw [admits, if_neg present, options, if_neg exact, Bool.and_eq_true]
    exact Iff.rfl
  | @array b typed =>
    rw [admits, if_neg present, options, if_neg exact, Bool.and_eq_true]
    change v.array?.isSome ∧ (v.array?.any fun a =>
      itemsEqual now (now.items a) (store.items b)) ↔ _
    simp only [Option.isSome_iff_exists, Option.any_eq_true, Store.itemsEqual_iff, Kind.Meets,
      typed]
    constructor
    · rintro ⟨_, a, array, equal⟩
      exact ⟨a, b, array, rfl, equal⟩
    · rintro ⟨a, b', array, same, equal⟩
      obtain rfl := Option.some.inj same
      exact ⟨⟨a, array⟩, a, array, equal⟩

theorem check_eq (exacting : Exacting store o kind c) (present : v ≠ .null) (ctx : Context)
    (now : Store) :
    c.check v ctx now =
      if c.admits now ctx.mode v then c.exactValue now else .error (.invalid ctx.path) now := by
  have exact := exacting.value_ne_null
  have basic : c.check v ctx now = c.checkBasic v ctx now := by
    cases exacting <;> rfl
  have options : c.options.value = o.value := by
    cases exacting <;> rfl
  have strict : c.options.value ≠ .null := by rwa [options]
  rw [basic, checkBasic_eq, answer, if_neg present, options, if_neg exact,
    failure_of_exact strict, refusal, if_neg present]

theorem accepts_iff (exacting : Exacting store o kind c) (present : v ≠ .null) (ctx : Context)
    (now : Store) :
    (∃ r after, c.check v ctx now = .ok r after) ↔ kind.Meets store now v o.value := by
  rw [exacting.check_eq present, ← exacting.admits_iff present ctx.mode]
  constructor
  · rintro ⟨r, after, passed⟩
    by_contra refused
    rw [if_neg refused] at passed
    cases passed
  · intro admitted
    rw [if_pos admitted]
    exact c.exactValue_total now

theorem exactValue_of_check (exacting : Exacting store o kind c) (present : v ≠ .null)
    (passed : c.check v ctx now = .ok r after) : c.exactValue now = .ok r after := by
  have admitted := (exacting.admits_iff present ctx.mode).mpr
    ((exacting.accepts_iff present _ _).mp ⟨r, after, passed⟩)
  rwa [exacting.check_eq present, if_pos admitted] at passed

private theorem list_of_exactValue {ws : List Value}
    (given : (Checker.array o (some ws)).exactValue before = .ok r after) :
    r = (before.newSeq .list ws).1 ∧ after = (before.newSeq .list ws).2 := by
  cases given
  exact ⟨rfl, rfl⟩

theorem meets_of_check (exacting : Exacting store o kind c) (present : v ≠ .null)
    (passed : c.check v ctx before = .ok r between) (fades : Store.Fades between now) :
    r ≠ .null ∧ kind.Meets store now r o.value := by
  have exact := exacting.value_ne_null
  have met := (exacting.accepts_iff present _ _).mp ⟨r, between, passed⟩
  have given := exacting.exactValue_of_check present passed
  cases exacting with
  | boolean typed | number typed | string typed =>
    cases given
    exact ⟨exact, typed, Store.equal_self_of_equal met.2 now⟩
  | @array b typed =>
    obtain ⟨rfl, rfl⟩ := list_of_exactValue given
    -- That a value equals the items shows that these equal themselves: there is no NaN among them.
    obtain ⟨a, b', _, array, equal⟩ := met
    obtain rfl := Option.some.inj (typed.symm.trans array)
    refine ⟨Value.seq_ne_atom _ _ _, _, b, rfl, typed, ?_⟩
    rw [(fades.newSeq .list).2, ← Store.itemsEqual_iff]
    exact Store.itemsEqual_self ((Store.itemsEqual_iff _ _ _).mpr equal) now

/-- What is given for two values has one content. -/
theorem repeats (exacting : Exacting store o kind c) (present : v ≠ .null)
    (passed : c.check v ctx before = .ok r between) (fades : Store.Fades between now)
    (present' : v' ≠ .null) (passed' : c.check v' ctx' now = .ok r' after) :
    after.Repeats r r' := by
  have met := (exacting.accepts_iff present _ _).mp ⟨r, between, passed⟩
  have given := exacting.exactValue_of_check present passed
  have given' := exacting.exactValue_of_check present' passed'
  cases exacting with
  | boolean typed | number typed | string typed =>
    cases given
    cases given'
    exact Store.repeats_self (Store.equal_self_of_equal met.2 now)
  | @array b typed =>
    obtain ⟨rfl, rfl⟩ := list_of_exactValue given
    obtain ⟨rfl, rfl⟩ := list_of_exactValue given'
    obtain ⟨bound, items⟩ := fades.newSeq .list
    refine Store.repeats_list (Nat.lt_of_lt_of_le bound (by simp [Store.newSeq]))
      (by simp [Store.newSeq]) ?_
    rw [(Store.keeps_newSeq now .list _).items _ bound, items, Store.items_newSeq]

end Exacting

theorem exacting_of_make {store : Store} {kinds : Kinds} {source : OptionsSource}
    {keywords : Keywords} {o : Options} {kind : Kind} {c : Checker} (basic : kind ∈ Kind.basic)
    (coerced : Options.coerce store source keywords = .ok o)
    (made : Factory.make store kinds (.builtin kind) source keywords = .ok c)
    (exact : o.value ≠ .null) : Exacting store o kind c := by
  simp only [Kind.basic, List.mem_cons, List.not_mem_nil, or_false] at basic
  obtain ⟨_, _, made⟩ := bind_eq_ok.mp made
  rcases basic with rfl | rfl | rfl | rfl
  · have built : (Options.coerce store source keywords >>= makeBoolean) = .ok c := made
    rw [coerced] at built
    obtain ⟨rfl, typed⟩ := makeBoolean_ok built
    exact .boolean (typed.resolve_left exact)
  · have built : (Options.coerce store source keywords >>= makeNumber) = .ok c := made
    rw [coerced] at built
    obtain ⟨rfl, typed⟩ := makeNumber_ok built
    exact .number (typed.resolve_left exact)
  · have built : (Options.coerce store source keywords >>= makeString Pattern.ofSource) = .ok c := made
    rw [coerced] at built
    obtain ⟨shape, _, rfl, typed⟩ := makeString_ok built
    exact .string (typed.resolve_left exact) shape
  · have built : (Options.coerce store source keywords >>= makeArray store) = .ok c := made
    rw [coerced] at built
    obtain ⟨rfl, typed⟩ := makeArray_ok built
    obtain ⟨a, array⟩ := Option.isSome_iff_exists.mp (typed.resolve_left exact)
    rw [array]
    exact .array array

end Checker

namespace Factory

variable {store : Store} {kinds : Kinds} {source : OptionsSource} {keywords : Keywords}
  {o : Options}

/-- Options with an exact value make a checker of a basic kind that accepts, of what is there, the
values of its type that equal it, whatever else the options ask for, and refuses the others as
invalid. As long as no sequence is changed, what is given for one of them has the content of what is
given for any other later on, and is accepted itself with a result of the same content. -/
theorem make_exact_accepts_iff {kind : Kind} {c : Checker} (basic : kind ∈ Kind.basic)
    (coerced : Options.coerce store source keywords = .ok o) (exact : o.value ≠ .null)
    (made : make store kinds (.builtin kind) source keywords = .ok c) :
    (∀ (v : Value) (ctx : Context) (before : Store), v ≠ .null →
      ((∃ r after, c.check v ctx before = .ok r after) ↔ kind.Meets store before v o.value) ∧
      ∀ failure after, c.check v ctx before = .error failure after →
        failure = .invalid ctx.path) ∧
    ∀ (v : Value) (ctx : Context) (before : Store) (r : Value) (between now : Store), v ≠ .null →
      c.check v ctx before = .ok r between → Store.Fades between now →
        (∀ (v' : Value) (ctx' : Context) (r' : Value) (after : Store), v' ≠ .null →
          c.check v' ctx' now = .ok r' after → after.Repeats r r') ∧
        ∀ ctx', ∃ r' after, c.check r ctx' now = .ok r' after ∧ after.Repeats r r' := by
  have exacting := Checker.exacting_of_make basic coerced made exact
  constructor
  · intro v ctx before present
    refine ⟨exacting.accepts_iff present ctx before, fun failure after failed => ?_⟩
    rw [exacting.check_eq present] at failed
    split at failed
    · obtain ⟨r, after', given⟩ := c.exactValue_total before
      rw [given] at failed
      cases failed
    · cases failed
      rfl
  · intro v ctx before r between now present passed fades
    refine ⟨fun v' ctx' r' after present' passed' =>
      exacting.repeats present passed fades present' passed', fun ctx' => ?_⟩
    obtain ⟨given, met⟩ := exacting.meets_of_check present passed fades
    obtain ⟨r', after, passed'⟩ := (exacting.accepts_iff given ctx' now).mpr met
    exact ⟨r', after, passed', exacting.repeats present passed fades given passed'⟩

abbrev pairOfOne : Options := { value := .seq .tuple 0, minLength := .int 5 }

/-- A list with a double is accepted for a tuple with a whole number. -/
theorem make_exact_accepts_double :
    Kind.array ∈ Kind.basic ∧
      Options.coerce { sequences := #[[.int 2]] } (.record pairOfOne) [] = .ok pairOfOne ∧
      pairOfOne.value ≠ .null ∧
      ∃ c, make { sequences := #[[.int 2]] } Kinds.builtin (.builtin .array) (.record pairOfOne) [] =
          .ok c ∧
        ∃ r between, c.check (.seq .list 1) {}
            { sequences := #[[.int 2], [.atom (.number (.double (.finite 2)))]] } =
              .ok r between ∧
          ∃ r' after, c.check r {} between = .ok r' after ∧ after.Repeats r r' := by
  have basic : Kind.array ∈ Kind.basic := by decide
  have exact : pairOfOne.value ≠ .null := nofun
  obtain ⟨c, made⟩ : ∃ c, make { sequences := #[[.int 2]] } Kinds.builtin (.builtin .array)
      (.record pairOfOne) [] = .ok c := ⟨_, rfl⟩
  obtain ⟨accepts, again⟩ := make_exact_accepts_iff basic rfl exact made
  have meets : Kind.Meets { sequences := #[[.int 2]] }
      { sequences := #[[.int 2], [.atom (.number (.double (.finite 2)))]] } (.seq .list 1)
      pairOfOne.value .array := by
    refine ⟨1, 0, rfl, rfl, ?_⟩
    exact .cons rfl .nil
  have present := Value.seq_ne_atom .list 1 .null
  obtain ⟨r, between, passed⟩ := (accepts _ {} _ present).1.mpr meets
  exact ⟨basic, rfl, exact, c, made, r, between, passed,
    (again _ _ _ _ _ _ present passed (Store.Fades.refl between)).2 {}⟩

end Factory

end Assay
