import Assay.Proofs.Transport

/-!
Likeness: a value that was found equal to another one is found equal to it later, when nothing that
either of them holds was touched. Of a value that holds itself this is so because it equals nothing
but itself; every other one has a layout.
-/

set_option autoImplicit false
set_option relaxedAutoImplicit false

namespace Assay

namespace Data

private theorem exists_of_pairwise {xs ys : List Data} (alike : pairwise xs ys) :
    ∀ x ∈ xs, ∃ y, same x y := by
  induction xs generalizing ys with
  | nil => exact nofun
  | cons x rest ih =>
    cases ys with
    | nil => simp [pairwise] at alike
    | cons y ys =>
      rw [pairwise, Bool.and_eq_true] at alike
      exact List.forall_mem_cons.mpr ⟨⟨y, alike.1⟩, ih alike.2⟩

private theorem exists_of_within {xs ys : List Data} (alike : within xs ys) :
    ∀ x ∈ xs, ∃ y, same x y := by
  induction xs with
  | nil => exact nofun
  | cons x rest ih =>
    rw [within, Bool.and_eq_true, List.any_eq_true] at alike
    obtain ⟨⟨y, _, here⟩, later⟩ := alike
    exact List.forall_mem_cons.mpr ⟨⟨y, here⟩, ih later⟩

private theorem exists_of_entriesWithin {xs ys : List (Data × Data)}
    (alike : entriesWithin xs ys) : ∀ x ∈ xs, (∃ y, same x.1 y) ∧ ∃ y, same x.2 y := by
  induction xs with
  | nil => exact nofun
  | cons x rest ih =>
    rw [entriesWithin, Bool.and_eq_true, List.any_eq_true] at alike
    obtain ⟨⟨y, _, here⟩, later⟩ := alike
    rw [Bool.and_eq_true] at here
    exact List.forall_mem_cons.mpr ⟨⟨⟨_, here.1⟩, ⟨_, here.2⟩⟩, ih later⟩

private theorem exists_of_same_seq {kind : SeqKind} {xs : List Data} {d : Data}
    (alike : same (.seq kind xs) d) : ∀ x ∈ xs, ∃ y, same x y := by
  cases d with
  | atom b => simp [same] at alike
  | map other ys => simp [same] at alike
  | endless => simp [same] at alike
  | seq other ys =>
    cases kind <;> cases other <;> simp [same] at alike
    case list.list | tuple.tuple => exact exists_of_pairwise alike
    case set.set => exact exists_of_within alike.2

private theorem exists_of_same_map {kind : MapKind} {xs : List (Data × Data)} {d : Data}
    (alike : same (.map kind xs) d) : ∀ x ∈ xs, (∃ y, same x.1 y) ∧ ∃ y, same x.2 y := by
  cases d with
  | atom b => simp [same] at alike
  | seq other ys => simp [same] at alike
  | endless => simp [same] at alike
  | map other ys =>
    rw [same, Bool.and_eq_true, Bool.and_eq_true] at alike
    exact exists_of_entriesWithin alike.1.2

end Data

namespace Store

open Layout

private theorem exists_map_eq {α β : Type} {f : β → α} {P : β → Prop} {xs : List α}
    (each : ∀ x ∈ xs, ∃ b, f b = x ∧ P b) : ∃ bs : List β, bs.map f = xs ∧ ∀ b ∈ bs, P b := by
  induction xs with
  | nil => exact ⟨[], rfl, nofun⟩
  | cons x rest ih =>
    rw [List.forall_mem_cons] at each
    obtain ⟨⟨b, rfl, here⟩, later⟩ := each
    obtain ⟨bs, rfl, inside⟩ := ih later
    exact ⟨b :: bs, rfl, List.forall_mem_cons.mpr ⟨here, inside⟩⟩

/-- A value that equals something as far as it is followed has an end. -/
theorem exists_layout_of_same {store : Store} {touched : List Address} {n : Nat} {v : Value}
    {d : Data} (clear : store.Clear touched v) (alike : Data.same (store.freezeWithin n v) d) :
    ∃ l, l.value = v ∧ store.Holds l := by
  induction n generalizing v d with
  | zero =>
    cases v with
    | atom a => exact ⟨.atom a, rfl, store.holds_atom a⟩
    | seq kind a => cases d <;> simp [freezeWithin, Data.same] at alike
    | map kind a => cases d <;> simp [freezeWithin, Data.same] at alike
  | succ n ih =>
    have stands := (clear v (.self v)).1
    cases v with
    | atom a => exact ⟨.atom a, rfl, store.holds_atom a⟩
    | seq kind a =>
      rw [freezeWithin] at alike
      have each : ∀ x ∈ store.items a, ∃ l, l.value = x ∧ store.Holds l := by
        intro x member
        obtain ⟨y, here⟩ := Data.exists_of_same_seq alike _ (List.mem_map_of_mem member)
        exact ih (clear.item member) here
      obtain ⟨items, values, held⟩ := exists_map_eq each
      exact ⟨.seq kind a items, rfl, (store.holds_seq kind a items).mpr
        ⟨⟨stands, values.symm⟩, held⟩⟩
    | map kind a =>
      rw [freezeWithin] at alike
      have each : ∀ x ∈ store.entries a,
          ∃ e, entryValue e = x ∧ store.Holds e.1 ∧ store.Holds e.2 := by
        intro x member
        obtain ⟨⟨_, key⟩, ⟨_, value⟩⟩ :=
          Data.exists_of_same_map alike _ (List.mem_map_of_mem member)
        obtain ⟨k, first, stood⟩ := ih (clear.entry member).1 key
        obtain ⟨w, second, stood'⟩ := ih (clear.entry member).2 value
        exact ⟨(k, w), Prod.ext first second, stood, stood'⟩
      obtain ⟨entries, values, held⟩ := exists_map_eq each
      exact ⟨.map kind a entries, rfl, (store.holds_map kind a entries).mpr
        ⟨⟨stands, values.symm⟩, held⟩⟩

theorem reaches_of_mem_parts {store : Store} {l part : Layout} (held : store.Holds l)
    (member : part ∈ l.parts) : store.Reaches l.value part.value := by
  induction l with
  | atom a =>
    rw [parts, List.mem_singleton] at member
    rw [member]
    exact .self _
  | seq kind a items ih =>
    rw [parts, List.mem_cons, itemsParts_eq, List.mem_flatMap] at member
    obtain ⟨⟨_, here⟩, inside⟩ := (store.holds_seq kind a items).mp held
    rcases member with rfl | ⟨item, listed, below⟩
    · exact .self _
    · refine .item ?_ (ih item listed (inside item listed) below)
      rw [here]
      exact List.mem_map_of_mem listed
  | map kind a entries ih =>
    rw [parts, List.mem_cons, entriesParts_eq, List.mem_flatMap] at member
    obtain ⟨⟨_, here⟩, inside⟩ := (store.holds_map kind a entries).mp held
    rcases member with rfl | ⟨entry, listed, below⟩
    · exact .self _
    · have stands : entryValue entry ∈ store.entries a := by
        rw [here]
        exact List.mem_map_of_mem listed
      rcases List.mem_append.mp below with key | value
      · exact .key stands ((ih entry listed).1 (inside entry listed).1 key)
      · exact .value stands ((ih entry listed).2 (inside entry listed).2 value)

theorem reaches_of_mem_mappings {store : Store} {l : Layout} (held : store.Holds l) {a : Address}
    (member : a ∈ l.mappings) : ∃ kind, store.Reaches l.value (.map kind a) := by
  obtain ⟨part, inside, here⟩ := List.mem_filterMap.mp member
  have reached := reaches_of_mem_parts held inside
  cases part with
  | atom b => cases here
  | seq kind b items => cases here
  | map kind b entries =>
    obtain rfl := Option.some.inj here
    exact ⟨kind, reached⟩

variable {touched : List Address} {before after : Store}

theorem holds_of_clear (kept : Keeps touched before after) {l : Layout} (held : before.Holds l)
    (clear : before.Clear touched l.value) : after.Holds l := by
  refine holds_of_keeps kept held fun a member => ?_
  obtain ⟨kind, reached⟩ := reaches_of_mem_mappings held member
  exact (clear _ reached).2 kind a rfl

theorem same_later (kept : Keeps touched before after) {v w : Value}
    (clear : before.Clear touched v) (clear' : before.Clear touched w)
    (alike : before.same v w) : after.same v w := by
  by_cases self : v = w
  · rw [same, self, beq_self_eq_true, Bool.true_or]
  · have frozen := alike
    rw [same, beq_eq_false_iff_ne.mpr self, Bool.false_or] at frozen
    obtain ⟨l, rfl, held⟩ := exists_layout_of_same clear frozen
    rw [same_of_resembles held (holds_of_clear kept held clear) (resembles_of_clear kept clear')]
    exact alike

theorem equal_later (kept : Keeps touched before after) {v w : Value}
    (clear : before.Clear touched v) (clear' : before.Clear touched w)
    (alike : before.equal v w) : after.equal v w := by
  cases v with
  | atom a =>
    cases w with
    | atom b => exact alike
    | seq kind b | map kind b => exact same_later kept clear clear' alike
  | seq kind a | map kind a => exact same_later kept clear clear' alike

theorem itemsEqual_later (kept : Keeps touched before after) {vs ws : List Value}
    (clear : ∀ v ∈ vs, before.Clear touched v) (clear' : ∀ w ∈ ws, before.Clear touched w)
    (alike : itemsEqual before vs ws) : itemsEqual after vs ws := by
  induction vs generalizing ws with
  | nil => cases ws <;> exact alike
  | cons v rest ih =>
    cases ws with
    | nil => cases alike
    | cons w ws =>
      rw [itemsEqual, Bool.and_eq_true] at alike ⊢
      rw [List.forall_mem_cons] at clear clear'
      exact ⟨equal_later kept clear.1 clear'.1 alike.1, ih clear.2 clear'.2 alike.2⟩

end Store

namespace Checker

variable {touched : List Address} {before after : Store}

private theorem admits_atom {c : Checker} (kept : Store.Keeps touched before after)
    (options : ∀ w ∈ c.holdings, before.Clear touched w) (mode : Mode) (a : Atom) :
    c.admits after mode (.atom a) = c.admits before mode (.atom a) :=
  admits_of_resembles (l := .atom a) (before.holds_atom a) (after.holds_atom a)
    (fun w member => Store.resembles_of_clear kept (options w member)) mode

private theorem atom_of_admits {c : Checker} {mode : Mode} {v : Value}
    (admitted : c.admits before mode v) (scalar : c.checkerClass ≠ .array)
    (basic : c.checkerClass ≠ .extended) : ∃ a, v = .atom a := by
  cases v with
  | atom a => exact ⟨a, rfl⟩
  | seq kind a | map kind a =>
    cases c with
    | boolean o | number o | string o shape => cases admitted
    | array o expected => exact absurd rfl scalar
    | extended base extension => exact absurd rfl basic

private theorem admits_array_later {o : Options} {expected : Option (List Value)}
    (kept : Store.Keeps touched before after)
    (options : ∀ w ∈ (array o expected).holdings, before.Clear touched w) {v : Value}
    (stands : before.Stands v) (exact : o.value ≠ .null → before.Clear touched v) {mode : Mode}
    (admitted : (array o expected).admits before mode v) :
    (array o expected).admits after mode v := by
  by_cases null : v = .null
  · subst null
    rwa [admits_atom kept options]
  rw [admits, if_neg null, Bool.and_eq_true] at admitted ⊢
  refine ⟨admitted.1, ?_⟩
  obtain ⟨a, array⟩ := Option.isSome_iff_exists.mp admitted.1
  have items : after.items a = before.items a := by
    refine kept.items a ?_
    cases v with
    | atom b => cases array
    | map kind b => cases array
    | seq kind b =>
      cases kind with
      | list | tuple => exact Option.some.inj array ▸ stands
      | set => cases array
  have passed := admitted.2
  by_cases free : o.value = .null
  · rw [Checker.options, if_pos free] at passed ⊢
    rw [accepts, array, Option.all_some] at passed ⊢
    rwa [items]
  · rw [Checker.options, if_neg free] at passed ⊢
    rw [matchesExact, array, Option.any_some] at passed ⊢
    rw [items]
    refine Store.itemsEqual_later kept (fun x member => ?_)
      (fun w member => options w (List.mem_append_right _ member)) passed
    have clear := exact free
    cases v with
    | atom b => cases array
    | map kind b => cases array
    | seq kind b =>
      cases kind with
      | list | tuple =>
        rw [← Option.some.inj array] at member
        exact clear.item member
      | set => cases array

/-- What an array checker with an exact value, and no other, looks into. -/
def LooksInto (c : Checker) : Prop :=
  ∃ o expected, c = .array o expected ∧ o.value ≠ .null

/-- A value that is accepted is accepted later too, when nothing that the options hold was touched,
and nothing that the value holds if the checker looks into it. -/
theorem Made.accepts_later {c : Checker} (made : c.Made) (kept : Store.Keeps touched before after)
    (options : ∀ w ∈ c.holdings, before.Clear touched w) {v : Value} (stands : before.Stands v)
    (exact : c.LooksInto → before.Clear touched v) {ctx : Context} {r : Value} {between : Store}
    (checked : c.check v ctx before = .ok r between) :
    ∃ r' later, c.check v ctx after = .ok r' later := by
  have agrees : c.basic.admits after ctx.mode v = c.basic.admits before ctx.mode v := by
    cases made with
    | boolean | number | string =>
      obtain ⟨a, rfl⟩ := atom_of_admits (checkBasic_ok checked).1 nofun nofun
      exact admits_atom kept options _ a
    | @array o expected =>
      have admitted := (checkBasic_ok checked).1
      exact (admits_array_later kept options stands (fun free => exact ⟨o, expected, rfl, free⟩)
        admitted).trans admitted.symm
    | ipv6 =>
      obtain ⟨a, rfl⟩ := atom_of_admits (checkBasic_ok (check_ipv6_ok checked).1).1 nofun nofun
      exact admits_atom kept options _ a
    | siret =>
      obtain ⟨_, based, _⟩ := check_siret_ok checked
      obtain ⟨a, rfl⟩ := atom_of_admits (checkBasic_ok based).1 nofun nofun
      exact admits_atom kept options _ a
  rcases made.check_congr (Eq.refl ctx.path) agrees with
    ⟨_, _, r', later, _, checked'⟩ | ⟨failure, refused, _⟩
  · exact ⟨r', later, checked'⟩
  · rw [refused] at checked
    cases checked

end Checker

end Assay
