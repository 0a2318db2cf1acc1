import Assay.Proofs.Likeness

/-!
Resemblance: values in two stores that have the same contents. A checker that finds in both stores
what it consults takes one as it takes the other.
-/

set_option autoImplicit false
set_option relaxedAutoImplicit false

namespace Assay

theorem forall₂_mem {α β : Type} {R : α → β → Prop} {xs : List α} {ys : List β}
    (related : List.Forall₂ R xs ys) :
    List.Forall₂ (fun x y => R x y ∧ x ∈ xs ∧ y ∈ ys) xs ys := by
  induction related with
  | nil => exact .nil
  | cons here _ ih =>
    refine .cons ⟨here, List.mem_cons_self, List.mem_cons_self⟩ (ih.imp fun x y h => ?_)
    exact ⟨h.1, List.mem_cons_of_mem _ h.2.1, List.mem_cons_of_mem _ h.2.2⟩

namespace Data

private theorem pairwise_self {xs : List Data} (each : ∀ x ∈ xs, same x x) : pairwise xs xs := by
  induction xs with
  | nil => rw [pairwise]
  | cons x rest ih =>
    rw [List.forall_mem_cons] at each
    rw [pairwise, each.1, ih each.2, Bool.and_self]

private theorem within_of_mem {xs ys : List Data} (each : ∀ x ∈ xs, x ∈ ys ∧ same x x) :
    within xs ys := by
  induction xs with
  | nil => rw [within]
  | cons x rest ih =>
    rw [List.forall_mem_cons] at each
    rw [within, Bool.and_eq_true, List.any_eq_true]
    exact ⟨⟨x, each.1⟩, ih each.2⟩

private theorem entriesWithin_of_mem {xs ys : List (Data × Data)}
    (each : ∀ x ∈ xs, x ∈ ys ∧ same x.1 x.1 ∧ same x.2 x.2) : entriesWithin xs ys := by
  induction xs with
  | nil => rw [entriesWithin]
  | cons x rest ih =>
    rw [List.forall_mem_cons] at each
    obtain ⟨⟨member, key, value⟩, later⟩ := each
    rw [entriesWithin, Bool.and_eq_true, List.any_eq_true]
    exact ⟨⟨x, member, by rw [key, value, Bool.and_self]⟩, ih later⟩

private theorem sameKeys_self {xs : List (Data × Data)} (each : ∀ x ∈ xs, same x.1 x.1) :
    sameKeys xs xs := by
  induction xs with
  | nil => rw [sameKeys]
  | cons x rest ih =>
    rw [List.forall_mem_cons] at each
    rw [sameKeys, each.1, ih each.2, Bool.and_self]

theorem same_self (l : Layout) : same l.data l.data := by
  induction l with
  | atom a => simp [Layout.data, same, Atom.same]
  | seq kind a items ih =>
    rw [Layout.data_seq]
    have each : ∀ x ∈ items.map Layout.data, same x x := List.forall_mem_map.mpr ih
    have pairs := pairwise_self each
    have members := within_of_mem fun x member => ⟨member, each x member⟩
    cases kind <;> simp [same, pairs, members]
  | map kind a entries ih =>
    rw [Layout.data_map]
    have each : ∀ x ∈ entries.map fun e => (e.1.data, e.2.data), same x.1 x.1 ∧ same x.2 x.2 :=
      List.forall_mem_map.mpr ih
    have members := entriesWithin_of_mem fun x member => ⟨member, each x member⟩
    have keys := sameKeys_self fun x member => (each x member).1
    simp [same, members, keys]

end Data

namespace Store

open Layout

variable {store store' : Store} {v v' : Value}

theorem Resembles.symm (like : store.Resembles v store' v') : store'.Resembles v' store v :=
  fun n => (like n).symm

theorem resembles_atom (store store' : Store) (a : Atom) :
    store.Resembles (.atom a) store' (.atom a) := by
  intro n
  cases n <;> rfl

theorem Resembles.eq_atom {a : Atom} (like : store.Resembles (.atom a) store' v') :
    v' = .atom a := by
  have here := like 0
  cases v' with
  | atom b =>
    injection here with same
    rw [same]
  | seq kind b | map kind b => cases here

private theorem forall₂_of_map {α α' β : Type} {f : Nat → α → β} {g : Nat → α' → β} {xs : List α}
    {ys : List α'} (same : ∀ n, ys.map (g n) = xs.map (f n)) :
    List.Forall₂ (fun x y => ∀ n, g n y = f n x) xs ys := by
  induction xs generalizing ys with
  | nil =>
    obtain rfl := List.map_eq_nil_iff.mp (same 0)
    exact .nil
  | cons x xs ih =>
    cases ys with
    | nil => cases same 0
    | cons y ys =>
      exact .cons (fun n => (List.cons.inj (same n)).1) (ih fun n => (List.cons.inj (same n)).2)

theorem Resembles.items {kind : SeqKind} {a : Address}
    (like : store.Resembles (.seq kind a) store' v') :
    ∃ b, v' = .seq kind b ∧
      List.Forall₂ (fun x y => store.Resembles x store' y) (store.items a) (store'.items b) := by
  cases v' with
  | atom b => cases like 0
  | map kind' b => cases like 1
  | seq kind' b =>
    obtain ⟨same, _⟩ := Data.seq.inj (like 1)
    subst same
    exact ⟨b, rfl, forall₂_of_map fun n => (Data.seq.inj (like (n + 1))).2⟩

theorem Resembles.eq_map {kind : MapKind} {a : Address}
    (like : store.Resembles (.map kind a) store' v') : ∃ b, v' = .map kind b := by
  cases v' with
  | atom b => cases like 0
  | seq kind' b => cases like 1
  | map kind' b =>
    obtain ⟨same, _⟩ := Data.map.inj (like 1)
    exact ⟨b, by rw [same]⟩

theorem exists_layout_of_resembles {l : Layout} (held : store.Holds l)
    (like : store.Resembles l.value store' v') (clear : store'.Clear [] v') :
    ∃ l' : Layout, l'.value = v' ∧ store'.Holds l' ∧ l'.data = l.data := by
  have whole : store'.freezeWithin l.places.card v' = l.data := by
    rw [like, freezeWithin_of_holds held _ (Nat.le_refl _)]
  have alike : Data.same (store'.freezeWithin l.places.card v') l.data := by
    rw [whole]
    exact Data.same_self l
  obtain ⟨l', rfl, holds⟩ := exists_layout_of_same clear alike
  refine ⟨l', rfl, holds, ?_⟩
  have deep := like (max l.places.card l'.places.card)
  rwa [freezeWithin_of_holds holds _ (Nat.le_max_right _ _),
    freezeWithin_of_holds held _ (Nat.le_max_left _ _)] at deep

private theorem exists_layout_of_like {l : Layout} (held : store.Holds l)
    (clear : store.Clear [] v) (alike : store.same v l.value) :
    ∃ k : Layout, k.value = v ∧ store.Holds k ∧ Data.same k.data l.data := by
  by_cases self : v = l.value
  · exact ⟨l, self.symm, held, Data.same_self l⟩
  · rw [same, beq_eq_false_iff_ne.mpr self, Bool.false_or] at alike
    obtain ⟨k, rfl, holds⟩ := exists_layout_of_same clear alike
    refine ⟨k, rfl, holds, ?_⟩
    rwa [freeze_of_holds holds, freeze_of_holds held] at alike

section

variable {l : Layout} (held : store.Holds l) (holds : store'.Holds l)
  (like : store.Resembles v store' v')

include held holds like

private theorem same_of_alike (clear : store.Clear [] v) (clear' : store'.Clear [] v')
    (alike : store.same v l.value) : store'.same v' l.value := by
  obtain ⟨k, rfl, stands, alike⟩ := exists_layout_of_like held clear alike
  obtain ⟨k', rfl, stands', data⟩ := exists_layout_of_resembles stands like clear'
  rw [same, freeze_of_holds stands', freeze_of_holds holds, data, Bool.or_eq_true]
  exact Or.inr alike

theorem equal_of_resembles (clear : store.Clear [] v) (clear' : store'.Clear [] v') :
    store'.equal v' l.value = store.equal v l.value := by
  have compared : store'.same v' l.value = store.same v l.value := Bool.eq_iff_iff.mpr
    ⟨same_of_alike holds held like.symm clear' clear,
      same_of_alike held holds like clear clear'⟩
  cases v with
  | atom a =>
    rw [like.eq_atom] at compared ⊢
    cases l with
    | atom b => rfl
    | seq kind b items | map kind b entries => exact compared
  | seq kind a =>
    obtain ⟨b, rfl, _⟩ := like.items
    exact compared
  | map kind a =>
    obtain ⟨b, rfl⟩ := like.eq_map
    exact compared

end

theorem resembles_seq {kind : SeqKind} {a b : Address}
    (items : List.Forall₂ (fun x y => store.Resembles x store' y) (store.items a)
      (store'.items b)) : store.Resembles (.seq kind a) store' (.seq kind b) := by
  intro n
  cases n with
  | zero => rfl
  | succ n =>
    rw [freezeWithin, freezeWithin, Data.seq.injEq]
    refine ⟨rfl, ?_⟩
    generalize store.items a = xs, store'.items b = ys at items
    induction items with
    | nil => rfl
    | cons here _ ih => rw [List.map_cons, List.map_cons, here n, ih]

theorem resembles_newSeq {items : List Value}
    (stand : ∀ w ∈ items, ∃ l : Layout, l.value = w ∧ store.Holds l ∧ store'.Holds l) :
    (store.newSeq .list items).2.Resembles (.seq .list store.sequences.size)
      (store'.newSeq .list items).2 (.seq .list store'.sequences.size) := by
  refine resembles_seq ?_
  rw [items_newSeq, items_newSeq]
  refine List.forall₂_same.mpr fun w member => ?_
  obtain ⟨l, rfl, held, holds⟩ := stand w member
  exact resembles_of_holds
    (holds_of_keeps (store.keeps_newSeq .list items) held fun _ _ => List.not_mem_nil)
    (holds_of_keeps (store'.keeps_newSeq .list items) holds fun _ _ => List.not_mem_nil)

end Store

namespace Checker

/-- What a check looks into of the options of a checker and of the items that it expects. The other
options are numbers and texts, or are not looked at. -/
def consulted : Checker → List Value
  | .boolean o | .string o _ => [o.mandatory]
  | .number o =>
    [o.mandatory, o.isFloat, o.isInteger, o.isPositive, o.isNegative, o.isNotNull]
  | .array o expected => o.mandatory :: expected.getD []
  | .extended base _ => consulted base

theorem mem_holdings_of_consulted {c : Checker} {w : Value} (member : w ∈ c.consulted) :
    w ∈ c.holdings := by
  induction c with
  | boolean o =>
    rw [List.mem_singleton.mp member]
    exact mem_holdings_get (.boolean o) .mandatory
  | string o shape =>
    rw [List.mem_singleton.mp member]
    exact mem_holdings_get (.string o shape) .mandatory
  | number o =>
    have among : (number o).consulted ⊆ (number o).holdings := by
      simp [consulted, holdings, OptionName.all, Options.get]
    exact among member
  | array o expected =>
    rcases List.mem_cons.mp member with rfl | item
    · exact mem_holdings_get (.array o expected) .mandatory
    · exact List.mem_append_right _ item
  | extended base extension ih => exact ih member

/-- Two outcomes that no caller can tell apart: the values have the same contents, or the failures
are the same. -/
inductive Alike : EStateM.Result Failure Store Value → EStateM.Result Failure Store Value → Prop
  | ok {r r' : Value} {store store' : Store} (like : store.Resembles r store' r') :
    Alike (.ok r store) (.ok r' store')
  | error {failure : Failure} {store store' : Store} :
    Alike (.error failure store) (.error failure store')

variable {store store' : Store} {v v' : Value}

/-- What a checker consults stands in both stores. -/
abbrev Consults (c : Checker) (store store' : Store) : Prop :=
  ∀ w ∈ c.consulted, ∃ l : Layout, l.value = w ∧ store.Holds l ∧ store'.Holds l

private theorem truthy_of_consults {c : Checker} (consults : c.Consults store store') :
    ∀ w ∈ c.consulted, store'.truthy w = store.truthy w := by
  intro w member
  obtain ⟨l, rfl, held, holds⟩ := consults w member
  exact Store.truthy_of_resembles (Store.resembles_of_holds held holds)

private theorem mandatory_mem_consulted (c : Checker) : c.options.mandatory ∈ c.consulted := by
  induction c with
  | boolean o | number o | string o shape | array o expected => exact List.mem_cons_self
  | extended base extension ih => exact ih

private theorem admits_atom_congr {c : Checker} (exact : ∃ b, c.options.value = .atom b)
    (scalar : c.checkerClass ≠ .array) (basic : c.checkerClass ≠ .extended)
    (truthy : ∀ w ∈ c.consulted, store'.truthy w = store.truthy w) (mode : Mode) (a : Atom) :
    c.admits store' mode (.atom a) = c.admits store mode (.atom a) := by
  obtain ⟨b, exact⟩ := exact
  have accepted : c.accepts store' (.atom a) = c.accepts store (.atom a) := by
    cases c with
    | boolean o | string o shape => rfl
    | array o expected => exact absurd rfl scalar
    | extended base extension => exact absurd rfl basic
    | number o =>
      have switch : ∀ w ∈ (number o).consulted, store'.truthy w = store.truthy w := truthy
      simp only [consulted, List.forall_mem_cons] at switch
      obtain ⟨_, isFloat, isInteger, isPositive, isNegative, isNotNull, _⟩ := switch
      simp only [accepts, Number.accepted, isFloat, isInteger, isPositive, isNegative, isNotNull]
  have matched : c.matchesExact store' (.atom a) = c.matchesExact store (.atom a) := by
    cases c with
    | array o expected => exact absurd rfl scalar
    | boolean o | string o shape | number o | extended base extension =>
      simp only [matchesExact]
      rw [exact]
      rfl
  rw [admits, admits, truthy _ (mandatory_mem_consulted c), accepted, matched]

theorem itemsEqual_congr {vs vs' ws : List Value}
    (each : List.Forall₂ (fun x y => ∀ w ∈ ws, store'.equal y w = store.equal x w) vs vs') :
    itemsEqual store' vs' ws = itemsEqual store vs ws := by
  induction ws generalizing vs vs' with
  | nil => cases each <;> rfl
  | cons w ws ih =>
    cases each with
    | nil => rfl
    | cons here rest =>
      have later := rest.imp fun x y same other member => same other (List.mem_cons_of_mem w member)
      rw [itemsEqual, itemsEqual, here w List.mem_cons_self, ih later]

/-- Sequences of one kind are let pass alike by an array checker when they have the same number of
items and these are equal to the same ones. -/
theorem admits_seq_congr {o : Options} {expected : Option (List Value)} {kind : SeqKind}
    {a b : Address} (length : (store'.items b).length = (store.items a).length)
    (equal : itemsEqual store' (store'.items b) (expected.getD []) =
      itemsEqual store (store.items a) (expected.getD [])) (mode : Mode) :
    (array o expected).admits store' mode (.seq kind b) =
      (array o expected).admits store mode (.seq kind a) := by
  cases kind with
  | set => rfl
  | list | tuple =>
    rw [admits, admits, if_neg (Value.seq_ne_atom _ a .null),
      if_neg (Value.seq_ne_atom _ b .null)]
    simp only [isType, accepts, matchesExact, Value.array?, Option.all_some, Option.any_some,
      Option.isSome_some, length, equal]

private theorem admits_array {o : Options} {expected : Option (List Value)}
    (consults : (array o expected).Consults store store') (like : store.Resembles v store' v')
    (clear : store.Clear [] v) (clear' : store'.Clear [] v') (mode : Mode) :
    (array o expected).admits store' mode v' = (array o expected).admits store mode v := by
  have mandatory : store'.truthy o.mandatory = store.truthy o.mandatory :=
    truthy_of_consults consults _ List.mem_cons_self
  cases v with
  | atom a =>
    rw [like.eq_atom, admits, admits, Checker.options, mandatory]
    rfl
  | map kind a =>
    obtain ⟨b, rfl⟩ := like.eq_map
    rfl
  | seq kind a =>
    obtain ⟨b, rfl, items⟩ := like.items
    refine admits_seq_congr items.length_eq.symm (itemsEqual_congr ?_) mode
    refine (forall₂_mem items).imp fun x y both w member => ?_
    obtain ⟨same, inside, inside'⟩ := both
    obtain ⟨l, rfl, held, holds⟩ := consults w (List.mem_cons_of_mem _ member)
    exact Store.equal_of_resembles held holds same (clear.item inside) (clear'.item inside')

private theorem checkBasic_scalar {c : Checker} (exact : ∃ b, c.options.value = .atom b)
    (scalar : c.checkerClass ≠ .array) (basic : c.checkerClass ≠ .extended)
    (consults : c.Consults store store') (like : store.Resembles v store' v') (ctx : Context) :
    (∃ a b, v = .atom a ∧ v' = .atom a ∧ c.checkBasic v ctx store = .ok (.atom b) store ∧
        c.checkBasic v' ctx store' = .ok (.atom b) store') ∨
      ∃ failure, c.checkBasic v ctx store = .error failure store ∧
        c.checkBasic v' ctx store' = .error failure store' := by
  have unfit : ∀ {w : Value} {now : Store}, (∀ a, w ≠ .atom a) →
      c.checkBasic w ctx now = .error (.invalid ctx.path) now := by
    intro w now container
    have refused : c.admits now ctx.mode w = false := by
      cases w with
      | atom a => exact absurd rfl (container a)
      | seq kind a | map kind a =>
        cases c with
        | boolean o | number o | string o shape => rfl
        | array o expected => exact absurd rfl scalar
        | extended base extension => exact absurd rfl basic
    rw [checkBasic_eq, refused, if_neg Bool.false_ne_true,
      failure_of_text? (text?_of_container container) (container .null)]
  cases v with
  | seq kind a =>
    obtain ⟨b, rfl, _⟩ := like.items
    exact Or.inr ⟨_, unfit (Value.seq_ne_atom kind a), unfit (Value.seq_ne_atom kind b)⟩
  | map kind a =>
    obtain ⟨b, rfl⟩ := like.eq_map
    exact Or.inr ⟨_, unfit (Value.map_ne_atom kind a), unfit (Value.map_ne_atom kind b)⟩
  | atom a =>
    obtain rfl := like.eq_atom
    rw [checkBasic_eq, checkBasic_eq,
      admits_atom_congr exact scalar basic (truthy_of_consults consults)]
    by_cases admitted : c.admits store ctx.mode (.atom a)
    · left
      rw [if_pos admitted, if_pos admitted, answer]
      obtain ⟨b, exact⟩ := exact
      have kept : c.exactValue = pure (.atom b) := by
        cases c with
        | array o expected => exact absurd rfl scalar
        | boolean o | number o | string o shape | extended base extension =>
          rw [← exact]
          rfl
      split
      · exact ⟨a, .null, rfl, rfl, rfl, rfl⟩
      · split
        · exact ⟨a, a, rfl, rfl, rfl, rfl⟩
        · rw [kept]
          exact ⟨a, b, rfl, rfl, rfl, rfl⟩
    · right
      rw [if_neg admitted, if_neg admitted]
      exact ⟨_, rfl, rfl⟩

private theorem alike_scalar {c : Checker} (exact : ∃ b, c.options.value = .atom b)
    (scalar : c.checkerClass ≠ .array) (basic : c.checkerClass ≠ .extended)
    (consults : c.Consults store store') (like : store.Resembles v store' v') (ctx : Context) :
    Alike (c.checkBasic v ctx store) (c.checkBasic v' ctx store') := by
  rcases checkBasic_scalar exact scalar basic consults like ctx with
    ⟨a, b, _, _, checked, checked'⟩ | ⟨failure, failed, failed'⟩
  · rw [checked, checked']
    exact .ok (Store.resembles_atom store store' b)
  · rw [failed, failed']
    exact .error

private theorem alike_array {o : Options} {expected : Option (List Value)}
    (consults : (array o expected).Consults store store') (like : store.Resembles v store' v')
    (clear : store.Clear [] v) (clear' : store'.Clear [] v') (ctx : Context) :
    Alike ((array o expected).checkBasic v ctx store)
      ((array o expected).checkBasic v' ctx store') := by
  have null : v' = .null ↔ v = .null := by
    constructor
    · rintro rfl
      exact like.symm.eq_atom
    · rintro rfl
      exact like.eq_atom
  have fails : ∀ w : Value, (array o expected).failure w ctx = refusal w ctx :=
    fun w => failure_of_clear rfl ctx
  rw [checkBasic_eq, checkBasic_eq, admits_array consults like clear clear', fails, fails, refusal,
    refusal, answer, answer]
  simp only [null]
  split
  · split
    · exact .ok (Store.resembles_atom store store' .null)
    · split
      · exact .ok like
      · exact .ok (Store.resembles_newSeq fun w member =>
          consults w (List.mem_cons_of_mem _ member))
  · exact .error

theorem exact_atom (c : Checker) (scalar : c.checkerClass ≠ .array)
    (basic : c.checkerClass ≠ .extended)
    (exact : c.options.value = .null ∨ c.isType c.options.value) :
    ∃ b, c.options.value = .atom b := by
  cases value : c.options.value with
  | atom b => exact ⟨b, rfl⟩
  | seq kind a | map kind a =>
    rw [value] at exact
    cases c with
    | boolean o | number o | string o shape => rcases exact with null | fits <;> contradiction
    | array o expected => exact absurd rfl scalar
    | extended base extension => exact absurd rfl basic

theorem Made.check_alike {c : Checker} (made : c.Made) (consults : c.Consults store store')
    (like : store.Resembles v store' v') (clear : store.Clear [] v) (clear' : store'.Clear [] v')
    (ctx : Context) : Alike (c.check v ctx store) (c.check v' ctx store') := by
  cases made with
  | @boolean o exact =>
    exact alike_scalar (exact_atom (.boolean o) nofun nofun exact) nofun nofun consults like ctx
  | @number o exact =>
    exact alike_scalar (exact_atom (.number o) nofun nofun exact) nofun nofun consults like ctx
  | @string o shape exact =>
    exact alike_scalar (exact_atom (.string o shape) nofun nofun exact) nofun nofun consults like
      ctx
  | array exact => exact alike_array consults like clear clear' ctx
  | @ipv6 o exact =>
    rw [check_ipv6, check_ipv6]
    rcases checkBasic_scalar (exact_atom (.string o (some Shapes.ipv6)) nofun nofun exact) nofun
        nofun consults like ctx with
      ⟨a, b, rfl, rfl, checked, checked'⟩ | ⟨failure, failed, failed'⟩
    · rw [checked, checked']
      simp only
      split
      · exact .ok (Store.resembles_atom store store' b)
      · exact .error
    · rw [failed, failed']
      exact .error
  | @siret o exact =>
    rw [check_siret, check_siret]
    rcases checkBasic_scalar (exact_atom (.string o (some Shapes.siret)) nofun nofun exact) nofun
        nofun consults like ctx with
      ⟨a, b, rfl, rfl, checked, checked'⟩ | ⟨failure, failed, failed'⟩
    · rw [checked, checked']
      simp only
      split
      · exact .ok (Store.resembles_atom store store' b)
      · split
        · exact .error
        · split
          · exact .error
          · exact .error
          · split
            · exact .ok (Store.resembles_atom store store' _)
            · exact .ok (Store.resembles_atom store store' b)
    · rw [failed, failed']
      exact .error

section

variable {c : Checker} {ctx : Context} {after after' : Store} {r r' : Value}

private theorem answer_twice (checked : c.checkBasic v ctx store = .ok r after)
    (checked' : c.checkBasic v ctx store' = .ok r' after') :
    (after = store ∧ after' = store' ∧ r' = r ∧ (r = v ∨ r = .null)) ∨
      c.exactValue store = .ok r after ∧ c.exactValue store' = .ok r' after' := by
  have answered := (checkBasic_ok checked).2
  have answered' := (checkBasic_ok checked').2
  rw [answer] at answered answered'
  by_cases null : v = .null
  · rw [if_pos null] at answered answered'
    cases answered
    cases answered'
    exact Or.inl ⟨rfl, rfl, rfl, Or.inr rfl⟩
  · rw [if_neg null] at answered answered'
    by_cases free : c.options.value = .null
    · rw [if_pos free] at answered answered'
      cases answered
      cases answered'
      exact Or.inl ⟨rfl, rfl, rfl, Or.inl rfl⟩
    · rw [if_neg free] at answered answered'
      exact Or.inr ⟨answered, answered'⟩

private theorem scalar_twice (exact : ∃ b, c.options.value = .atom b)
    (scalar : c.checkerClass ≠ .array) (checked : c.checkBasic v ctx store = .ok r after)
    (checked' : c.checkBasic v ctx store' = .ok r' after') :
    after = store ∧ after' = store' ∧ r' = r ∧ (r = v ∨ ∃ a, r = .atom a) := by
  rcases answer_twice checked checked' with ⟨one, two, same, rfl | null⟩ | ⟨kept, kept'⟩
  · exact ⟨one, two, same, Or.inl rfl⟩
  · exact ⟨one, two, same, Or.inr ⟨.null, null⟩⟩
  · cases c with
    | array o expected => exact absurd rfl scalar
    | boolean o | number o | string o shape | extended base extension =>
      cases kept
      cases kept'
      exact ⟨rfl, rfl, rfl, Or.inr exact⟩

/-- What a built-in checker answers is the value or an atom, the same in both stores, or it is in both
a new list of the items that the checker expects. -/
theorem Made.check_twice (made : c.Made) (checked : c.check v ctx store = .ok r after)
    (checked' : c.check v ctx store' = .ok r' after') :
    (after = store ∧ after' = store' ∧ r' = r ∧ (r = v ∨ ∃ a, r = .atom a)) ∨
      ∃ items, (∀ x ∈ items, x ∈ c.consulted) ∧ (r, after) = store.newSeq .list items ∧
        (r', after') = store'.newSeq .list items := by
  cases made with
  | @boolean o exact =>
    exact Or.inl (scalar_twice (exact_atom (.boolean o) nofun nofun exact) nofun checked checked')
  | @number o exact =>
    exact Or.inl (scalar_twice (exact_atom (.number o) nofun nofun exact) nofun checked checked')
  | @string o shape exact =>
    exact Or.inl (scalar_twice (exact_atom (.string o shape) nofun nofun exact) nofun checked
      checked')
  | @array o expected exact =>
    rcases answer_twice checked checked' with ⟨one, two, same, rfl | null⟩ | ⟨kept, kept'⟩
    · exact Or.inl ⟨one, two, same, Or.inl rfl⟩
    · exact Or.inl ⟨one, two, same, Or.inr ⟨.null, null⟩⟩
    · cases kept
      cases kept'
      exact Or.inr ⟨expected.getD [], fun x member => List.mem_cons_of_mem _ member, rfl, rfl⟩
  | @ipv6 o exact =>
    exact Or.inl (scalar_twice (exact_atom (.string o _) nofun nofun exact) nofun
      (check_ipv6_ok checked).1 (check_ipv6_ok checked').1)
  | @siret o exact =>
    obtain ⟨s, based, given⟩ := check_siret_ok checked
    obtain ⟨s', based', given'⟩ := check_siret_ok checked'
    obtain ⟨one, two, rfl, result⟩ :=
      scalar_twice (exact_atom (.string o _) nofun nofun exact) nofun based based'
    refine Or.inl ⟨one, two, ?_⟩
    rcases given with ⟨rfl, rfl⟩ | ⟨t, rfl, _, grouped⟩
    · rcases given' with ⟨_, rfl⟩ | ⟨_, text, _⟩
      · exact ⟨rfl, result⟩
      · cases text
    · rcases given' with ⟨text, _⟩ | ⟨t', text, _, grouped'⟩
      · cases text
      · cases text
        refine ⟨grouped'.trans grouped.symm, ?_⟩
        split at grouped
        · exact Or.inr ⟨_, grouped⟩
        · exact grouped ▸ result

end

end Checker

end Assay
