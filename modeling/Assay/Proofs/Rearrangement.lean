import Assay.Proofs.Compilation
import Assay.Proofs.Fulfilment
import Mathlib.Data.List.Perm.Basic

/-!
Rearranged definitions: the fields of mappings stand in another order, at any depth. A check goes
through the fields in another order then and may fail for another one, but what a value has to
satisfy and what is left of it is the same. So a check that replaces no values succeeds against both
definitions or against neither, unless an option of a checker holds a mapping that is pruned.
-/

set_option autoImplicit false
set_option relaxedAutoImplicit false

namespace Assay

theorem Entries.restrict_perm (entries : Entries) {names names' : List String}
    (order : names.Perm names') : entries.restrict names' = Entries.restrict entries names := by
  refine List.filter_congr fun entry _ => Bool.eq_iff_iff.mpr ?_
  simp only [List.any_eq_true, order.mem_iff]

namespace Tree

variable {α : Type}

/-- Trees of which one is the other with the fields of branches in another order. Any field comes
first in some order, so a tree may be rearranged anywhere. -/
inductive Rearranged : Tree α → Tree α → Prop
  | refl (t : Tree α) : Rearranged t t
  | trans {t u w : Tree α} (first : Rearranged t u) (second : Rearranged u w) : Rearranged t w
  | order {fields fields' : List (String × Tree α)} (order : fields.Perm fields') :
      Rearranged (.branch fields) (.branch fields')
  | first {name : String} {t u : Tree α} (rest : List (String × Tree α))
      (inside : Rearranged t u) :
      Rearranged (.branch ((name, t) :: rest)) (.branch ((name, u) :: rest))

variable {t u : Tree α}

theorem Rearranged.symm (same : t.Rearranged u) : u.Rearranged t := by
  induction same with
  | refl t => exact .refl t
  | trans _ _ first second => exact .trans second first
  | order order => exact .order order.symm
  | first rest _ ih => exact .first rest ih

theorem Rearranged.node_cases (same : t.Rearranged u) :
    (∃ content, t = .leaf content ∧ u = .leaf content) ∨
      ∃ fields fields', t = .branch fields ∧ u = .branch fields' ∧
        (fields.map Prod.fst).Perm (fields'.map Prod.fst) := by
  induction same with
  | refl t =>
    cases t with
    | leaf content => exact Or.inl ⟨content, rfl, rfl⟩
    | branch fields => exact Or.inr ⟨fields, fields, rfl, rfl, List.Perm.refl _⟩
  | trans _ _ first second =>
    rcases first with ⟨content, rfl, rfl⟩ | ⟨fields, middle, rfl, rfl, order⟩
    · rcases second with ⟨other, same, rfl⟩ | ⟨_, _, same, _⟩
      · exact Or.inl ⟨content, rfl, same.symm⟩
      · cases same
    · rcases second with ⟨_, same, _⟩ | ⟨_, fields', same, rfl, order'⟩
      · cases same
      · cases same
        exact Or.inr ⟨fields, fields', rfl, rfl, order.trans order'⟩
  | order order => exact Or.inr ⟨_, _, rfl, rfl, order.map Prod.fst⟩
  | first rest => exact Or.inr ⟨_, _, rfl, rfl, List.Perm.refl _⟩

theorem Rearranged.distinct (same : t.Rearranged u) (distinct : t.Distinct) : u.Distinct := by
  induction same with
  | refl => exact distinct
  | trans _ _ first second => exact second (first distinct)
  | order order =>
    rw [Distinct, fieldsDistinct_iff] at distinct ⊢
    exact ⟨(order.map Prod.fst).nodup_iff.mp distinct.1,
      fun field member => distinct.2 field (order.mem_iff.mpr member)⟩
  | first rest _ ih =>
    rw [Distinct, FieldsDistinct] at distinct ⊢
    exact ⟨distinct.1, ih distinct.2.1, distinct.2.2⟩

theorem Rearranged.leaves (same : t.Rearranged u) : t.leaves.Perm u.leaves := by
  induction same with
  | refl => exact List.Perm.refl _
  | trans _ _ first second => exact first.trans second
  | order order =>
    rw [Tree.leaves, Tree.leaves, fieldLeaves_eq, fieldLeaves_eq]
    exact order.flatMap_right _
  | first rest _ ih =>
    rw [Tree.leaves, Tree.leaves, fieldLeaves, fieldLeaves]
    exact ih.append_right _

theorem lookup_perm {fields fields' : List (String × Tree α)} (order : fields.Perm fields')
    (names : (fields.map Prod.fst).Nodup) (name : String) :
    fields'.lookup name = fields.lookup name := by
  have names' := (order.map Prod.fst).nodup_iff.mp names
  refine Option.ext fun sub => ⟨fun found => ?_, fun found => ?_⟩
  · exact lookup_of_mem names (order.mem_iff.mpr (mem_of_lookup found))
  · exact lookup_of_mem names' (order.mem_iff.mp (mem_of_lookup found))

theorem Rearranged.at? (same : t.Rearranged u) (distinct : t.Distinct) {path : List String}
    {sub : Tree α} (there : t.at? path = some sub) :
    ∃ sub', u.at? path = some sub' ∧ sub.Rearranged sub' := by
  induction same generalizing path sub with
  | refl => exact ⟨sub, there, .refl sub⟩
  | trans one _ first second =>
    obtain ⟨middle, here, left⟩ := first distinct there
    obtain ⟨sub', here', right⟩ := second (one.distinct distinct) here
    exact ⟨sub', here', left.trans right⟩
  | order order =>
    cases path with
    | nil =>
      cases there
      exact ⟨_, rfl, .order order⟩
    | cons name rest =>
      rw [Distinct] at distinct
      rw [Tree.at?, field?, ← lookup_perm order distinct.1 name] at there
      exact ⟨sub, there, .refl sub⟩
  | @first name t u rest inside ih =>
    cases path with
    | nil =>
      cases there
      exact ⟨_, rfl, .first rest inside⟩
    | cons other below =>
      rw [Tree.at?, field?, List.lookup_cons] at there ⊢
      split at there
      · rw [Distinct, FieldsDistinct] at distinct
        exact ih distinct.2.1 there
      · exact ⟨sub, there, .refl sub⟩

theorem Rearranged.leaf_at? (same : t.Rearranged u) (distinct : t.Distinct) {path : List String}
    {content : α} (there : t.at? path = some (.leaf content)) :
    u.at? path = some (.leaf content) := by
  obtain ⟨sub, here, inside⟩ := same.at? distinct there
  rcases inside.node_cases with ⟨other, leaf, rfl⟩ | ⟨_, _, branch, _⟩
  · cases leaf
    exact here
  · cases branch

theorem Rearranged.branch_at? (same : t.Rearranged u) (distinct : t.Distinct) {path : List String}
    {fields : List (String × Tree α)} (there : t.at? path = some (.branch fields)) :
    ∃ fields', u.at? path = some (.branch fields') ∧
      (fields.map Prod.fst).Perm (fields'.map Prod.fst) := by
  obtain ⟨sub, here, inside⟩ := same.at? distinct there
  rcases inside.node_cases with ⟨_, leaf, _⟩ | ⟨_, fields', branch, rfl, order⟩
  · cases leaf
  · cases branch
    exact ⟨fields', here, order⟩

end Tree

namespace Definition

/-- Definitions of which one is the other with the fields of mappings in another order, also of the
mappings from which a finished schema was made. -/
inductive Rearranged : Definition → Definition → Prop
  | refl (d : Definition) : Rearranged d d
  | trans {d e f : Definition} (first : Rearranged d e) (second : Rearranged e f) : Rearranged d f
  | order {entries entries' : List (DefinitionKey × Definition)} (order : entries.Perm entries') :
      Rearranged (.fields entries) (.fields entries')
  | first {key : DefinitionKey} {d e : Definition} (rest : List (DefinitionKey × Definition))
      (inside : Rearranged d e) :
      Rearranged (.fields ((key, d) :: rest)) (.fields ((key, e) :: rest))
  | compiled {t u : Tree Leaf} (same : t.Rearranged u) : Rearranged (.compiled t) (.compiled u)

theorem Rearranged.compile {d d' : Definition} (same : d.Rearranged d') {path : String}
    {t : Tree Leaf} (compiled : d.compile path = .ok t) :
    ∃ u, d'.compile path = .ok u ∧ t.Rearranged u := by
  induction same generalizing path t with
  | refl => exact ⟨t, compiled, .refl t⟩
  | trans _ _ first second =>
    obtain ⟨middle, there, left⟩ := first compiled
    obtain ⟨u, here, right⟩ := second there
    exact ⟨u, here, left.trans right⟩
  | order order =>
    obtain ⟨fields, listed, rfl⟩ := (compile_fields_ok_iff _ _ _).mp compiled
    obtain ⟨fields', listed', order'⟩ :=
      List.perm_comp_forall₂ order.symm ((compileFields_ok_iff _ _ _).mp listed)
    exact ⟨.branch fields', (compile_fields_ok_iff _ _ _).mpr
      ⟨fields', (compileFields_ok_iff _ _ _).mpr listed', rfl⟩, .order order'.symm⟩
  | @first key d e rest inside ih =>
    obtain ⟨fields, listed, rfl⟩ := (compile_fields_ok_iff _ _ _).mp compiled
    obtain ⟨field, more, ⟨named, one⟩, others, rfl⟩ :=
      List.forall₂_cons_left_iff.mp ((compileFields_ok_iff _ _ _).mp listed)
    obtain ⟨u, one', inner⟩ := ih one
    have listed' : List.Forall₂ (Compiles path) ((key, e) :: rest) ((field.1, u) :: more) :=
      .cons ⟨named, one'⟩ others
    exact ⟨.branch ((field.1, u) :: more), (compile_fields_ok_iff _ _ _).mpr
      ⟨_, (compileFields_ok_iff _ _ _).mpr listed', rfl⟩, .first more inner⟩
  | compiled inner =>
    cases compiled
    exact ⟨_, rfl, inner⟩

end Definition

namespace Schema

variable {schema schema' : Schema} {store : Store} {v : Value} {mode : Mode}

section

variable (same : schema.root.Rearranged schema'.root) (built : schema.BuiltIn)

include same built

theorem BuiltIn.rearranged : schema'.BuiltIn where
  distinct := same.distinct built.distinct
  leaves leaf member := built.leaves leaf (same.leaves.mem_iff.mpr member)

private theorem prunes_rearranged {a : Address} (prunes : schema'.Prunes store v a) :
    schema.Prunes store v a := by
  obtain ⟨path, fields', there', mapping, loses⟩ := prunes
  obtain ⟨fields, there, order⟩ := same.symm.branch_at? (same.distinct built.distinct) there'
  refine ⟨path, fields, there, mapping, ?_⟩
  rwa [Entries.restrict_perm _ order]

private theorem apart_rearranged (apart : schema.Apart store v) : schema'.Apart store v :=
  fun c member option held w reached =>
    have free := apart c (same.leaves.mem_iff.mpr member) option held w reached
    ⟨free.1, fun kind a shape prunes => free.2 kind a shape (prunes_rearranged same built prunes)⟩

private theorem satisfied_rearranged (satisfied : schema.Satisfied store mode v) :
    schema'.Satisfied store mode v where
  branches path fields' there' := by
    obtain ⟨fields, there, _⟩ := same.symm.branch_at? (same.distinct built.distinct) there'
    exact satisfied.branches path fields there
  leaves path leaf there' :=
    satisfied.leaves path leaf (same.symm.leaf_at? (same.distinct built.distinct) there')

variable {after after' : Store} (projected : schema.Projected v store after)
  (projected' : schema'.Projected v store after')

include projected projected'

private theorem entries_rearranged (a : Address) : after'.entries a = after.entries a := by
  by_cases branch : ∃ path fields, schema.root.at? path = some (.branch fields) ∧
      (store.valueAt v path).fields? = some a
  · obtain ⟨path, fields, there, mapping⟩ := branch
    obtain ⟨fields', there', order⟩ := same.branch_at? built.distinct there
    rw [projected.branches path fields a there mapping,
      projected'.branches path fields' a there' mapping, Entries.restrict_perm _ order]
  · have outside : ∀ path fields, schema.root.at? path = some (.branch fields) →
        (store.valueAt v path).fields? ≠ some a :=
      fun path fields there mapping => branch ⟨path, fields, there, mapping⟩
    rw [projected.others a outside, projected'.others a fun path fields' there' => ?_]
    obtain ⟨fields, there, _⟩ := same.symm.branch_at? (same.distinct built.distinct) there'
    exact outside path fields there

private theorem resembles_rearranged (shaped : store.TreeShaped v) :
    after.Resembles v after' v := by
  obtain ⟨l, rfl, held, _⟩ := shaped
  have fewer : ∀ a, after.entries a ⊆ store.entries a := by
    intro a
    by_cases branch : ∃ path fields, schema.root.at? path = some (.branch fields) ∧
        (store.valueAt l.value path).fields? = some a
    · obtain ⟨path, fields, there, mapping⟩ := branch
      rw [projected.branches path fields a there mapping]
      exact List.filter_subset_self _
    · rw [projected.others a fun path fields there mapping => branch ⟨path, fields, there, mapping⟩]
      exact List.Subset.refl _
  have within : ∀ n w, store.Reaches l.value w →
      after'.freezeWithin n w = after.freezeWithin n w := by
    intro n
    induction n with
    | zero =>
      intro w _
      cases w <;> rfl
    | succ n ih =>
      intro w reached
      cases w with
      | atom a => rfl
      | seq kind a =>
        have stands : a < store.sequences.size := Store.stands_of_reaches held reached
        have items : after.items a = store.items a := projected.items a stands
        rw [Store.freezeWithin, Store.freezeWithin, projected'.items a stands, items,
          Data.seq.injEq]
        exact ⟨rfl, List.map_congr_left fun x member =>
          ih x (reached.trans (.item member (.self x)))⟩
      | map kind a =>
        rw [Store.freezeWithin, Store.freezeWithin,
          entries_rearranged same built projected projected' a, Data.map.injEq]
        refine ⟨rfl, List.map_congr_left fun entry member => ?_⟩
        rw [ih _ (reached.trans (.key (fewer a member) (.self entry.1))),
          ih _ (reached.trans (.value (fewer a member) (.self entry.2)))]
  exact fun n => within n l.value (.self _)

end

/-- A check that replaces no values succeeds against a rearranged definition when it succeeds
against the definition, with the same result and the same left of it, when no option of a checker
holds a mapping that the check takes keys out of. -/
theorem check_rearranged {definition definition' : Definition}
    (rearranged : definition.Rearranged definition')
    (made : ofDefinition definition mode = .ok schema) (built : schema.BuiltIn)
    (shaped : store.TreeShaped v) (apart : schema.Apart store v) (lenient : Bool) :
    ∃ schema', ofDefinition definition' mode = .ok schema' ∧
      ((∃ result after, schema'.check ⟨false, lenient⟩ v store = .ok result after) ↔
        ∃ result after, schema.check ⟨false, lenient⟩ v store = .ok result after) ∧
      ∀ result after result' after', schema.check ⟨false, lenient⟩ v store = .ok result after →
        schema'.check ⟨false, lenient⟩ v store = .ok result' after' →
          result' = result ∧ after.Resembles result after' result' := by
  rw [ofDefinition] at made
  cases compiled : definition.compile "" with
  | error fault =>
    rw [compiled] at made
    cases made
  | ok root =>
    rw [compiled] at made
    cases made
    obtain ⟨root', compiled', same⟩ := rearranged.compile compiled
    have built' : BuiltIn ⟨root', mode⟩ := built.rearranged same
    have apart' : Apart ⟨root', mode⟩ store v := apart_rearranged same built apart
    refine ⟨⟨root', mode⟩, by rw [ofDefinition, compiled'], ?_, ?_⟩
    · rw [check_ok_iff_satisfied built shaped apart rfl,
        check_ok_iff_satisfied built' shaped apart' rfl]
      exact ⟨satisfied_rearranged same.symm built', satisfied_rearranged same built⟩
    · intro result after result' after' checked checked'
      obtain rfl := Tree.result_plain rfl checked
      obtain rfl := Tree.result_plain rfl checked'
      exact ⟨rfl, resembles_rearranged same built (projected_of_check built shaped rfl checked)
        (projected_of_check built' shaped rfl checked') shaped⟩

def twoFlags (first second : String) : Definition :=
  .fields [(.name first, .leaf (.checker (.boolean {}))),
    (.name second, .leaf (.checker (.boolean {})))]

def flagPair : Schema where
  root := .branch [("a", .leaf (.checker (.boolean {}))), ("b", .leaf (.checker (.boolean {})))]

theorem twoFlags_rearranged : (twoFlags "a" "b").Rearranged (twoFlags "b" "a") :=
  .order (List.Perm.swap _ _ _)

theorem flagPair_builtIn : flagPair.BuiltIn := by
  refine ⟨⟨by decide, trivial, trivial, trivial⟩, fun leaf member => ?_⟩
  have listed : leaf ∈ [Leaf.checker (.boolean {}), .checker (.boolean {})] := member
  simp only [List.mem_cons, List.not_mem_nil, or_false, or_self] at listed
  exact ⟨_, listed, Checker.boolean_builtIn⟩

theorem flagPair_apart : flagPair.Apart flaggedStore (.map .plain 0) := by
  intro c member option held w reached
  have listed : Leaf.checker c ∈ [Leaf.checker (.boolean {}), .checker (.boolean {})] := member
  simp only [List.mem_cons, List.not_mem_nil, or_false, or_self, Leaf.checker.injEq] at listed
  subst listed
  obtain ⟨a, rfl⟩ := atom_of_boolean held reached
  exact ⟨trivial, nofun⟩

theorem check_rearranged_flags :
    (twoFlags "a" "b").Rearranged (twoFlags "b" "a") ∧
      ofDefinition (twoFlags "a" "b") {} = .ok flagPair ∧ flagPair.BuiltIn ∧
      flaggedStore.TreeShaped (.map .plain 0) ∧ flagPair.Apart flaggedStore (.map .plain 0) ∧
      ∃ schema', ofDefinition (twoFlags "b" "a") {} = .ok schema' ∧
        ((∃ result after, schema'.check ⟨false, false⟩ (.map .plain 0) flaggedStore =
            .ok result after) ↔
          ∃ result after, flagPair.check ⟨false, false⟩ (.map .plain 0) flaggedStore =
            .ok result after) ∧
        ∀ result after result' after',
          flagPair.check ⟨false, false⟩ (.map .plain 0) flaggedStore = .ok result after →
            schema'.check ⟨false, false⟩ (.map .plain 0) flaggedStore = .ok result' after' →
              result' = result ∧ after.Resembles result after' result' :=
  ⟨twoFlags_rearranged, rfl, flagPair_builtIn, flaggedStore_treeShaped, flagPair_apart,
    check_rearranged twoFlags_rearranged rfl flagPair_builtIn flaggedStore_treeShaped
      flagPair_apart false⟩

private theorem itemAndBlank_refuses :
    itemAndBlank.check ⟨false, false⟩ (.map .plain 0) sharingStore =
      .error (.invalid "b") sharingStore := by
  have differs : ¬(sharingStore.freeze (.map .plain 2) == sharingStore.freeze (.map .plain 1)) =
      true := by
    change ¬Data.same (.map .plain []) (.map .plain [(.text "x", .atom (.number (.int 1)))]) = true
    simp [Data.same]
  have refused : Leaf.call (.checker oneMapping) (.seq .list 1)
      ((top ⟨false, false⟩).descend ["b"]) sharingStore = .error (.invalid "b") sharingStore :=
    (check_oneMapping rfl _).trans (if_neg differs)
  have steps : Step.runAll Leaf.call (top ⟨false, false⟩)
      (itemAndBlank.root.agenda sharingStore [] none (.map .plain 0)) sharingStore =
        Step.runAll Leaf.call (top ⟨false, false⟩)
          [.ask ["b"] (some (0, "b")) (.seq .list 1) (.checker oneMapping),
            .enter ["a"] (some 1) []] sharingStore := rfl
  rw [itemAndBlank_builtIn.check_error_iff (names_of_plain rfl)
    (itemAndBlank_builtIn.nodup_entered sharingStore_treeShaped), steps, Step.runAll_cons,
    Step.run_ask, refused]

/-- The mapping of an exact value is pruned before it is compared, or it is compared first: with the
one order of the fields the check succeeds and with the other one it fails. -/
theorem check_rearranged_sharing : ¬∀ (definition definition' : Definition) (mode : Mode)
    (schema schema' : Schema) (store : Store) (v : Value) (lenient : Bool),
    definition.Rearranged definition' → ofDefinition definition mode = .ok schema →
      ofDefinition definition' mode = .ok schema' → schema.BuiltIn → store.TreeShaped v →
        ((∃ result after, schema'.check ⟨false, lenient⟩ v store = .ok result after) ↔
          ∃ result after, schema.check ⟨false, lenient⟩ v store = .ok result after) := by
  intro agree
  have decides := agree
    (.fields [(.name "a", .fields []), (.name "b", .leaf (.checker oneMapping))])
    (.fields [(.name "b", .leaf (.checker oneMapping)), (.name "a", .fields [])]) {} sharing
    itemAndBlank sharingStore (.map .plain 0) false (.order (List.Perm.swap _ _ _)) rfl rfl
    sharing_builtIn sharingStore_treeShaped
  obtain ⟨after, result, checked⟩ := sharing_accepted
  obtain ⟨result', after', checked'⟩ := decides.mpr ⟨result, after, checked⟩
  rw [itemAndBlank_refuses] at checked'
  cases checked'

end Schema

end Assay
