import Assay.Proofs.Resemblance

/-!
Kinship: values in two stores that compare alike with all that has the same contents in both. They
have the same contents themselves, and one of them has an end or they are one and the same value. A
checker of a built-in kind whose options have the same contents in both stores answers kindred
values alike.
-/

set_option autoImplicit false
set_option relaxedAutoImplicit false

namespace Assay

namespace Store

variable {store store' : Store} {v v' w w' : Value}

theorem Resembles.trans {third : Store} {v'' : Value} (first : store.Resembles v store' v')
    (second : store'.Resembles v' third v'') : store.Resembles v third v'' :=
  fun n => (second n).trans (first n)

/-- A value in a store and one in another store that have the same contents, all of it there. One of
them has an end, or they are the same value. -/
structure Kin (store store' : Store) (v v' : Value) : Prop where
  like : store.Resembles v store' v'
  clear : store.Clear [] v
  clear' : store'.Clear [] v'
  finite : (∃ l : Layout, l.value = v ∧ store.Holds l) ∨ v' = v

private theorem same_of_holds {l : Layout} (held : store.Holds l) {n : Nat}
    (enough : l.places.card ≤ n) (w : Value) :
    store.same l.value w = Data.same l.data (store.freezeWithin n w) := by
  have deep : (store.freeze l.value == store.freeze w) =
      Data.same l.data (store.freezeWithin n w) := by
    rw [freeze_of_holds held, freeze]
    exact same_freezeWithin held (card_places_le_depth held) enough w
  rw [same, deep]
  by_cases self : l.value = w
  · rw [← self, freezeWithin_of_holds held n enough, Data.same_self, Bool.or_true]
  · rw [beq_eq_false_iff_ne.mpr self, Bool.false_or]

private theorem same_of_endless (clear : store.Clear [] v)
    (endless : ¬∃ l : Layout, l.value = v ∧ store.Holds l) (w : Value) :
    store.same v w = (v == w) := by
  have differs : ¬(store.freeze v == store.freeze w) := fun alike =>
    endless (exists_layout_of_same clear alike)
  rw [same, Bool.eq_false_iff.mpr differs, Bool.or_false]

private theorem Kin.same (kin : store.Kin store' v v') (like : store.Resembles w store' w) :
    store'.same v' w = store.same v w := by
  by_cases ends : ∃ l : Layout, l.value = v ∧ store.Holds l
  · obtain ⟨l, rfl, held⟩ := ends
    obtain ⟨l', rfl, held', data⟩ := exists_layout_of_resembles held kin.like kin.clear'
    rw [same_of_holds held (Nat.le_max_left _ l'.places.card) w,
      same_of_holds held' (Nat.le_max_right l.places.card _) w, data, like]
  · obtain rfl := kin.finite.resolve_left ends
    have ends' : ¬∃ l : Layout, l.value = v' ∧ store'.Holds l := by
      rintro ⟨l', rfl, held'⟩
      obtain ⟨l, same, held, _⟩ := exists_layout_of_resembles held' kin.like.symm kin.clear
      exact ends ⟨l, same, held⟩
    rw [same_of_endless kin.clear ends, same_of_endless kin.clear' ends']

theorem Kin.equal (kin : store.Kin store' v v') (like : store.Resembles w store' w) :
    store'.equal v' w = store.equal v w := by
  have compared := kin.same like
  have here := kin.like
  cases v with
  | atom a =>
    rw [here.eq_atom] at compared ⊢
    cases w with
    | atom b => rfl
    | seq kind b | map kind b => exact compared
  | seq kind a =>
    obtain ⟨b, rfl, _⟩ := here.items
    exact compared
  | map kind a =>
    obtain ⟨b, rfl⟩ := here.eq_map
    exact compared

/-- Values to which a checker cannot tell a difference: the same atom, sequences with kindred items,
or mappings, which no checker accepts. -/
inductive Akin (store store' : Store) : Value → Value → Prop
  | atom (a : Atom) : Akin store store' (.atom a) (.atom a)
  | seq {kind : SeqKind} {a b : Address}
      (items : List.Forall₂ (store.Kin store') (store.items a) (store'.items b)) :
      Akin store store' (.seq kind a) (.seq kind b)
  | map (kind : MapKind) (a b : Address) : Akin store store' (.map kind a) (.map kind b)

theorem akin_of_holds {l : Layout} (held : store.Holds l) (like : store.Resembles l.value store' v')
    (clear' : store'.Clear [] v') : store.Akin store' l.value v' := by
  cases l with
  | atom a =>
    rw [like.eq_atom]
    exact .atom a
  | map kind a entries =>
    obtain ⟨b, rfl⟩ := like.eq_map
    exact .map kind a b
  | seq kind a items =>
    obtain ⟨b, rfl, alike⟩ := like.items
    obtain ⟨⟨_, listed⟩, inside⟩ := (store.holds_seq kind a items).mp held
    refine .seq ((forall₂_mem alike).imp fun x y ⟨same, member, member'⟩ => ?_)
    rw [listed] at member
    obtain ⟨item, found, rfl⟩ := List.mem_map.mp member
    exact ⟨same, clear_of_holds (inside item found) (List.disjoint_nil_right _),
      clear'.item member', Or.inl ⟨item, rfl, inside item found⟩⟩

theorem Akin.null_iff (akin : store.Akin store' v v') : v' = .null ↔ v = .null := by
  cases akin with
  | atom a => exact Iff.rfl
  | @seq kind a b => exact iff_of_false (Value.seq_ne_atom kind b _) (Value.seq_ne_atom kind a _)
  | map kind a b => exact iff_of_false (Value.map_ne_atom kind b _) (Value.map_ne_atom kind a _)

end Store

namespace Checker

variable {c : Checker} {store store' : Store} {v v' : Value}

private theorem Made.check_container (made : c.Made) (container : ∀ a, v ≠ .atom a)
    (unfit : c.checkerClass = .array → v.array? = none) (ctx : Context) :
    c.check v ctx store = .error (.invalid ctx.path) store := by
  have noText := text?_of_container container
  have refused : ∀ base : Checker, base.isType v = false →
      base.checkBasic v ctx store = .error (.invalid ctx.path) store := by
    intro base wrong
    rw [checkBasic_eq, admits, if_neg (container .null), wrong, Bool.false_and,
      if_neg Bool.false_ne_true, failure_of_text? noText (container .null)]
  have notBool : v.isBool = false := by
    cases v with
    | atom a => exact absurd rfl (container a)
    | seq kind a | map kind a => rfl
  have notNumber : v.number?.isSome = false := by
    cases v with
    | atom a => exact absurd rfl (container a)
    | seq kind a | map kind a => rfl
  have notText : v.text?.isSome = false := by rw [noText, Option.isSome_none]
  cases made with
  | boolean => exact refused _ notBool
  | number => exact refused _ notNumber
  | string => exact refused _ notText
  | array => exact refused _ (by rw [isType, unfit rfl, Option.isSome_none])
  | @ipv6 o exact => rw [check_ipv6, refused (.string o _) notText]
  | @siret o exact => rw [check_siret, refused (.string o _) notText]

/-- What two calls for values that are akin give: these values, the same atom, or new lists of the
same items. -/
inductive Yields (c : Checker) (store store' : Store) (v v' : Value) :
    Value → Store → Value → Store → Prop
  | kept : Yields c store store' v v' v store v' store'
  | atom (a : Atom) : Yields c store store' v v' (.atom a) store (.atom a) store'
  | list {items : List Value} (held : ∀ x ∈ items, x ∈ c.holdings) :
      Yields c store store' v v' (.seq .list store.sequences.size) (store.newSeq .list items).2
        (.seq .list store'.sequences.size) (store'.newSeq .list items).2

theorem Yields.keeps {r r' : Value} {after after' : Store}
    (yields : c.Yields store store' v v' r after r' after') :
    Store.Keeps [] store after ∧ Store.Keeps [] store' after' := by
  cases yields with
  | kept | atom => exact ⟨Store.Keeps.refl [] store, Store.Keeps.refl [] store'⟩
  | list => exact ⟨store.keeps_newSeq .list _, store'.keeps_newSeq .list _⟩

theorem Yields.null_iff {r r' : Value} {after after' : Store}
    (yields : c.Yields store store' v v' r after r' after') (akin : store.Akin store' v v') :
    r' = .null ↔ r = .null := by
  cases yields with
  | kept => exact akin.null_iff
  | atom => exact Iff.rfl
  | list => exact iff_of_false (Value.seq_ne_atom _ _ _) (Value.seq_ne_atom _ _ _)

section

variable {ctx : Context}

/-- Two calls fail alike and change nothing, or give values that go together. -/
abbrev Answers (c : Checker) (ctx : Context) (store store' : Store) (v v' : Value) : Prop :=
  (∃ failure, c.check v ctx store = .error failure store ∧
      c.check v' ctx store' = .error failure store') ∨
    ∃ r after r' after', c.check v ctx store = .ok r after ∧
      c.check v' ctx store' = .ok r' after' ∧ (v.fields? = none ∧ v'.fields? = none) ∧
        c.Yields store store' v v' r after r' after'

private theorem Made.answers_atom (made : c.Made)
    (like : ∀ w ∈ c.holdings, store.Resembles w store' w) (a : Atom) :
    c.Answers ctx store store' (.atom a) (.atom a) := by
  have path : ctx.path = ctx.path := rfl
  rcases made.check_of_resembles (store.holds_atom a) (store'.holds_atom a) like path rfl with
    ⟨r, after, r', after', checked, checked'⟩ | refused
  · refine Or.inr ⟨r, after, r', after', checked, checked', ⟨rfl, rfl⟩, ?_⟩
    rcases made.check_twice checked checked' with
      ⟨rfl, rfl, rfl, rfl | ⟨b, rfl⟩⟩ | ⟨items, listed, new, new'⟩
    · exact .kept
    · exact .atom b
    · obtain ⟨rfl, rfl⟩ := Prod.mk.inj new
      obtain ⟨rfl, rfl⟩ := Prod.mk.inj new'
      exact .list fun x member => mem_holdings_of_consulted (listed x member)
  · exact Or.inl refused

private theorem answers_seq {o : Options} {expected : Option (List Value)}
    (like : ∀ w ∈ (array o expected).holdings, store.Resembles w store' w) {kind : SeqKind}
    {a b : Address} (items : List.Forall₂ (store.Kin store') (store.items a) (store'.items b)) :
    (array o expected).Answers ctx store store' (.seq kind a) (.seq kind b) := by
  have equal : itemsEqual store' (store'.items b) (expected.getD []) =
      itemsEqual store (store.items a) (expected.getD []) :=
    itemsEqual_congr (items.imp fun x y kin w member =>
      kin.equal (like w (List.mem_append_right _ member)))
  have agrees : (array o expected).admits store' ctx.mode (.seq kind b) =
      (array o expected).admits store ctx.mode (.seq kind a) :=
    admits_seq_congr items.length_eq.symm equal ctx.mode
  have here := checkBasic_eq (array o expected) (.seq kind a) ctx store
  have there := checkBasic_eq (array o expected) (.seq kind b) ctx store'
  have present := Value.seq_ne_atom kind a .null
  have present' := Value.seq_ne_atom kind b .null
  rw [agrees, failure_of_text? rfl present'] at there
  rw [failure_of_text? rfl present] at here
  by_cases admitted : (array o expected).admits store ctx.mode (.seq kind a)
  · right
    rw [if_pos admitted, answer, if_neg present] at here
    rw [if_pos admitted, answer, if_neg present'] at there
    by_cases free : o.value = .null
    · refine ⟨_, _, _, _, here.trans ?_, there.trans ?_, ⟨rfl, rfl⟩, .kept⟩
      · rw [options, if_pos free]
        rfl
      · rw [options, if_pos free]
        rfl
    · refine ⟨_, _, _, _, here.trans ?_, there.trans ?_, ⟨rfl, rfl⟩,
        .list fun x member => List.mem_append_right _ member⟩
      · rw [options, if_neg free]
        rfl
      · rw [options, if_neg free]
        rfl
  · left
    rw [if_neg admitted] at here there
    exact ⟨_, here, there⟩

/-- A built-in checker answers values that are akin alike when its options have the same contents in
both stores. -/
theorem Made.check_akin (made : c.Made) (akin : store.Akin store' v v')
    (like : ∀ w ∈ c.holdings, store.Resembles w store' w) (ctx : Context) :
    c.Answers ctx store store' v v' := by
  cases akin with
  | atom a => exact made.answers_atom like a
  | map kind a b =>
    exact Or.inl ⟨_, made.check_container (Value.map_ne_atom kind a) (fun _ => rfl) ctx,
      made.check_container (Value.map_ne_atom kind b) (fun _ => rfl) ctx⟩
  | @seq kind a b items =>
    by_cases array : c.checkerClass = .array
    · cases made with
      | array exact => exact answers_seq like items
      | boolean | number | string | ipv6 | siret => cases array
    · have other : c.checkerClass = .array → ∀ d, (Value.seq kind d).array? = none :=
        fun same => absurd same array
      exact Or.inl ⟨_,
        made.check_container (Value.seq_ne_atom kind a) (fun same => other same a) ctx,
        made.check_container (Value.seq_ne_atom kind b) (fun same => other same b) ctx⟩

end

end Checker

end Assay
