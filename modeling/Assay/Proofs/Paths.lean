import Assay.Proofs.Agenda
import Mathlib.Data.List.Induction
import Mathlib.Data.List.Pairwise

/-!
Paths of field names: every step of an agenda belongs to a path at which the tree has a branch or a
leaf, and every such path has its step. In a tree-shaped value different paths lead to different
mappings, so that an agenda enters no mapping twice and asks no leaf about a value with a mapping
that it enters.
-/

set_option autoImplicit false
set_option relaxedAutoImplicit false

namespace Assay

namespace Tree

variable {α : Type}

/-- The tree under a field name; a leaf has no fields. -/
def field? : Tree α → String → Option (Tree α)
  | .leaf _, _ => none
  | .branch fields, name => fields.lookup name

/-- The tree at a path of field names. -/
def at? : Tree α → List String → Option (Tree α)
  | t, [] => some t
  | t, name :: rest => (t.field? name).bind fun sub => at? sub rest

theorem lookup_of_mem {fields : List (String × Tree α)} (names : (fields.map Prod.fst).Nodup)
    {name : String} {t : Tree α} (member : (name, t) ∈ fields) : fields.lookup name = some t := by
  induction fields with
  | nil => cases member
  | cons field rest ih =>
    obtain ⟨other, tree⟩ := field
    rw [List.map_cons, List.nodup_cons] at names
    rcases List.mem_cons.mp member with here | later
    · obtain ⟨rfl, rfl⟩ := Prod.mk.inj here
      rw [List.lookup_cons_self]
    · have differs : name ≠ other := by
        rintro rfl
        exact names.1 (List.mem_map.mpr ⟨_, later, rfl⟩)
      rw [List.lookup_cons, beq_eq_false_iff_ne.mpr differs]
      exact ih names.2 later

theorem mem_of_lookup {fields : List (String × Tree α)} {name : String} {t : Tree α}
    (found : fields.lookup name = some t) : (name, t) ∈ fields := by
  induction fields with
  | nil => cases found
  | cons field rest ih =>
    obtain ⟨other, tree⟩ := field
    rw [List.lookup_cons] at found
    split at found
    · rename_i same
      rw [beq_iff_eq] at same
      rw [same, Option.some.inj found]
      exact List.mem_cons_self
    · exact List.mem_cons_of_mem _ (ih found)

theorem at?_concat {t sub : Tree α} {up : List String} {name : String}
    (there : t.at? (up ++ [name]) = some sub) :
    ∃ fields, t.at? up = some (.branch fields) ∧ fields.lookup name = some sub := by
  induction up generalizing t with
  | nil =>
    cases t with
    | leaf content => cases there
    | branch fields =>
      rw [List.nil_append, at?, field?] at there
      obtain ⟨tree, found, there⟩ := Option.bind_eq_some_iff.mp there
      exact ⟨fields, rfl, found.trans there⟩
  | cons first rest ih =>
    rw [List.cons_append, at?] at there
    obtain ⟨tree, found, there⟩ := Option.bind_eq_some_iff.mp there
    obtain ⟨fields, above, here⟩ := ih there
    exact ⟨fields, by rw [at?, found]; exact above, here⟩

theorem at?_append (t : Tree α) (up rest : List String) :
    t.at? (up ++ rest) = (t.at? up).bind fun sub => sub.at? rest := by
  induction up generalizing t with
  | nil => rfl
  | cons name up ih =>
    rw [List.cons_append, at?, at?, Option.bind_assoc]
    exact congrArg _ (funext ih)

theorem at?_field {t sub : Tree α} {up : List String} {fields : List (String × Tree α)}
    {name : String} (above : t.at? up = some (.branch fields))
    (found : fields.lookup name = some sub) : t.at? (up ++ [name]) = some sub := by
  rw [at?_append, above, Option.bind_some, at?, field?, found]
  rfl

theorem not_prefix_of_leaf {t sub : Tree α} {path other : List String} {content : α}
    (leaf : t.at? path = some (.leaf content)) (there : t.at? other = some sub)
    (differs : path ≠ other) : ¬path <+: other := by
  rintro ⟨rest, rfl⟩
  rw [at?_append, leaf, Option.bind_some] at there
  cases rest with
  | nil => exact differs (List.append_nil path).symm
  | cons name rest => cases there

theorem distinct_at? {t sub : Tree α} (distinct : t.Distinct) {path : List String}
    (there : t.at? path = some sub) : sub.Distinct := by
  induction path generalizing t with
  | nil => rwa [← Option.some.inj there]
  | cons name rest ih =>
    cases t with
    | leaf content => cases there
    | branch fields =>
      rw [at?, field?] at there
      obtain ⟨tree, found, there⟩ := Option.bind_eq_some_iff.mp there
      rw [Distinct, fieldsDistinct_iff] at distinct
      exact ih (distinct.2 _ (mem_of_lookup found)) there

theorem name_mem_of_lookup {fields : List (String × Tree α)} {name : String} {t : Tree α}
    (found : fields.lookup name = some t) : name ∈ fields.map Prod.fst :=
  List.mem_map.mpr ⟨_, mem_of_lookup found, rfl⟩

theorem agenda_subset (store : Store) {t sub : Tree α} {rel : List String}
    (there : t.at? rel = some sub) (path : List String) (place : Option (Address × String))
    (v : Value) :
    ∃ inner, agenda store sub (path ++ rel) inner (store.valueAt v rel) ⊆
      agenda store t path place v := by
  induction rel generalizing t path place v with
  | nil =>
    obtain rfl := Option.some.inj there
    rw [List.append_nil]
    exact ⟨place, List.Subset.refl _⟩
  | cons name rest ih =>
    cases t with
    | leaf content => cases there
    | branch fields =>
      simp only [at?, field?] at there
      obtain ⟨tree, found, there⟩ := Option.bind_eq_some_iff.mp there
      have member := mem_of_lookup found
      obtain ⟨inner, inside⟩ := ih there (path ++ [name]) (v.fields?.map fun a => (a, name))
        (store.field v name)
      rw [List.append_assoc, List.singleton_append] at inside
      refine ⟨inner, fun step listed => ?_⟩
      rw [agenda, fieldAgenda_eq]
      exact List.mem_cons_of_mem _ (List.mem_flatMap.mpr ⟨_, member, inside listed⟩)

theorem enter_mem_agenda (store : Store) {t : Tree α} {rel : List String}
    {fields : List (String × Tree α)} (there : t.at? rel = some (.branch fields))
    (path : List String) (place : Option (Address × String)) (v : Value) :
    .enter (path ++ rel) (store.valueAt v rel).fields? (fields.map Prod.fst) ∈
      agenda store t path place v := by
  obtain ⟨inner, inside⟩ := agenda_subset store there path place v
  exact inside (by rw [agenda]; exact List.mem_cons_self)

theorem ask_mem_agenda (store : Store) {t : Tree α} {rel : List String} {content : α}
    (there : t.at? rel = some (.leaf content)) (path : List String)
    (place : Option (Address × String)) (v : Value) :
    ∃ inner, .ask (path ++ rel) inner (store.valueAt v rel) content ∈
      agenda store t path place v := by
  obtain ⟨inner, inside⟩ := agenda_subset store there path place v
  exact ⟨inner, inside (by rw [agenda]; exact List.mem_cons_self)⟩

theorem ask_field_mem_agenda (store : Store) {t : Tree α} {rel : List String}
    {fields : List (String × Tree α)} (there : t.at? rel = some (.branch fields)) {name : String}
    {content : α} (member : (name, Tree.leaf content) ∈ fields) (path : List String)
    (place : Option (Address × String)) (v : Value) {a : Address}
    (mapping : (store.valueAt v rel).fields? = some a) :
    .ask (path ++ rel ++ [name]) (some (a, name)) ((store.entries a).get name) content ∈
      agenda store t path place v := by
  obtain ⟨inner, inside⟩ := agenda_subset store there path place v
  apply inside
  rw [agenda, fieldAgenda_eq]
  refine List.mem_cons_of_mem _ (List.mem_flatMap.mpr ⟨_, member, ?_⟩)
  rw [agenda, mapping, Option.map_some, Store.field_of_fields? mapping]
  exact List.mem_singleton_self _

/-- A step belongs to a path: it enters the branch or asks the leaf that the tree has there, and a
leaf below the top is asked about a field of the mapping above it. -/
theorem path_of_mem_agenda {store : Store} {t : Tree α} (distinct : t.Distinct)
    {path : List String} {place : Option (Address × String)} {v : Value} {step : Step α}
    (member : step ∈ agenda store t path place v) :
    (∃ rel fields, t.at? rel = some (.branch fields) ∧
        step = .enter (path ++ rel) (store.valueAt v rel).fields? (fields.map Prod.fst)) ∨
      ∃ rel content inner, t.at? rel = some (.leaf content) ∧
        step = .ask (path ++ rel) inner (store.valueAt v rel) content ∧
        ((rel = [] ∧ inner = place) ∨ ∃ up name, rel = up ++ [name] ∧
          inner = (store.valueAt v up).fields?.map fun a => (a, name)) := by
  induction t generalizing path place v with
  | leaf content =>
    rw [agenda, List.mem_singleton] at member
    exact Or.inr ⟨[], content, place, rfl, by rw [member, List.append_nil]; rfl,
      Or.inl ⟨rfl, rfl⟩⟩
  | branch fields ih =>
    rw [Distinct, fieldsDistinct_iff] at distinct
    rw [agenda, List.mem_cons, fieldAgenda_eq, List.mem_flatMap] at member
    rcases member with rfl | ⟨⟨name, tree⟩, inside, member⟩
    · exact Or.inl ⟨[], fields, rfl, by rw [List.append_nil]; rfl⟩
    · have found := lookup_of_mem distinct.1 inside
      have down : ∀ rel, (Tree.branch fields).at? (name :: rel) = tree.at? rel := by
        intro rel
        rw [at?, field?, found]
        rfl
      rcases ih _ inside (distinct.2 _ inside) member with
        ⟨rel, below, there, same⟩ | ⟨rel, content, inner, there, same, stands⟩
      · refine Or.inl ⟨name :: rel, below, (down rel).trans there, ?_⟩
        rw [same, List.append_assoc]
        rfl
      · refine Or.inr ⟨name :: rel, content, inner, (down rel).trans there, ?_, Or.inr ?_⟩
        · rw [same, List.append_assoc]
          rfl
        · rcases stands with ⟨rfl, top⟩ | ⟨up, last, rfl, deep⟩
          · exact ⟨[], name, rfl, top⟩
          · exact ⟨name :: up, last, rfl, deep⟩

theorem at?_of_ask {store : Store} {t : Tree α} (distinct : t.Distinct) {v : Value}
    {path : List String} {inner : Option (Address × String)} {given : Value} {content : α}
    (member : .ask path inner given content ∈ agenda store t [] none v) :
    t.at? path = some (.leaf content) ∧ given = store.valueAt v path := by
  rcases path_of_mem_agenda distinct member with
    ⟨_, _, _, same⟩ | ⟨rel, other, _, there, same, _⟩
  · cases same
  · injection same with paths _ values contents
    subst paths contents
    exact ⟨there, values⟩

end Tree

namespace Layout

/-- The layout of a field; what is no mapping that can be changed has no fields. -/
def field (l : Layout) (name : String) : Layout :=
  match l with
  | .map _ _ entries =>
    if l.value.fields?.isSome then
      (Fields.find? (fun key => key.value.text?) entries name).getD (.atom .null)
    else .atom .null
  | _ => .atom .null

theorem map_of_fields? {l : Layout} {a : Address} (mapping : l.value.fields? = some a) :
    ∃ kind entries, l = .map kind a entries := by
  cases l with
  | atom _ => cases mapping
  | seq _ _ _ => cases mapping
  | map kind b entries =>
    cases kind with
    | plain => exact ⟨_, _, by rw [Option.some.inj mapping]⟩
    | ordered => exact ⟨_, _, by rw [Option.some.inj mapping]⟩
    | view => cases mapping

theorem field_cases (l : Layout) (name : String) :
    l.field name = .atom .null ∨
      ∃ kind a entries key, l = .map kind a entries ∧ (key, l.field name) ∈ entries ∧
        key.value.text? = some name := by
  cases l with
  | atom _ => exact Or.inl rfl
  | seq _ _ _ => exact Or.inl rfl
  | map kind a entries =>
    rw [field]
    split
    · cases found : Fields.find? (fun key : Layout => key.value.text?) entries name with
      | none => exact Or.inl rfl
      | some inner =>
        obtain ⟨before, key, after, split, named, _⟩ := Fields.find?_split found
        refine Or.inr ⟨kind, a, entries, key, rfl, ?_, named⟩
        rw [split]
        exact List.mem_append_right _ List.mem_cons_self
    · exact Or.inl rfl

theorem value_field {store : Store} {l : Layout} (held : store.Holds l) (name : String) :
    (l.field name).value = store.field l.value name := by
  cases mapping : l.value.fields? with
  | none =>
    rw [Store.field, mapping]
    cases l with
    | atom _ => rfl
    | seq _ _ _ => rfl
    | map _ _ _ => rw [field, mapping, Option.isSome_none, if_neg Bool.false_ne_true]; rfl
  | some a =>
    rw [Store.field_of_fields? mapping]
    obtain ⟨kind, entries, rfl⟩ := map_of_fields? mapping
    obtain ⟨⟨_, here⟩, _⟩ := (store.holds_map kind a entries).mp held
    rw [field, mapping, Option.isSome_some, if_pos rfl, Entries.get_eq, here]
    have found : Fields.find? Value.text? (entries.map fun e => (e.1.value, e.2.value)) name =
        (Fields.find? (fun key : Layout => key.value.text?) entries name).map Layout.value :=
      Fields.find?_map (fun _ => rfl) entries name
    have values : entries.map entryValue = entries.map fun e => (e.1.value, e.2.value) := rfl
    rw [values, found]
    cases Fields.find? (fun key : Layout => key.value.text?) entries name <;> rfl

theorem holds_field {store : Store} {l : Layout} (held : store.Holds l) (name : String) :
    store.Holds (l.field name) := by
  rcases l.field_cases name with null | ⟨kind, a, entries, key, shape, member, _⟩
  · rw [null]
    exact store.holds_atom .null
  · rw [shape] at held
    exact (((store.holds_map kind a entries).mp held).2 _ member).2

theorem mappings_field_subset (l : Layout) (name : String) :
    (l.field name).mappings ⊆ l.mappings := by
  rcases l.field_cases name with null | ⟨kind, a, entries, key, shape, member, _⟩
  · rw [null]
    exact List.nil_subset _
  · intro b inside
    rw [shape, mappings_map]
    exact List.mem_cons_of_mem _ (List.mem_flatMap.mpr ⟨_, member, List.mem_append_right _ inside⟩)

theorem nodup_field {l : Layout} (nodup : l.mappings.Nodup) (name : String) :
    (l.field name).mappings.Nodup := by
  rcases l.field_cases name with null | ⟨kind, a, entries, key, shape, member, _⟩
  · rw [null]
    exact List.nodup_nil
  · rw [shape, mappings_map, List.nodup_cons, List.nodup_flatMap] at nodup
    exact (List.nodup_append.mp (nodup.2.1 _ member)).2.1

theorem not_mem_field {l : Layout} (nodup : l.mappings.Nodup) {a : Address}
    (mapping : l.value.fields? = some a) (name : String) : a ∉ (l.field name).mappings := by
  intro inside
  rcases l.field_cases name with null | ⟨kind, b, entries, key, shape, member, _⟩
  · rw [null] at inside
    cases inside
  · have same : b = a := by
      obtain ⟨_, _, other⟩ := map_of_fields? mapping
      rw [other] at shape
      injection shape with _ same _
      exact same.symm
    rw [shape, mappings_map, List.nodup_cons] at nodup
    exact nodup.1 (List.mem_flatMap.mpr ⟨_, member, List.mem_append_right _ (same ▸ inside)⟩)

theorem disjoint_field {l : Layout} (nodup : l.mappings.Nodup) {name other : String}
    (differs : name ≠ other) : List.Disjoint (l.field name).mappings (l.field other).mappings := by
  intro b first second
  rcases l.field_cases name with null | ⟨kind, a, entries, key, shape, member, named⟩
  · rw [null] at first
    cases first
  · rcases l.field_cases other with null | ⟨kind', a', entries', key', shape', member', named'⟩
    · rw [null] at second
      cases second
    · have same : entries' = entries := by
        rw [shape'] at shape
        injection shape
      subst same
      rw [shape, mappings_map, List.nodup_cons, List.nodup_flatMap] at nodup
      have apart : (key, l.field name) ≠ (key', l.field other) := by
        intro equal
        rw [(Prod.mk.inj equal).1, named'] at named
        exact differs (Option.some.inj named).symm
      have symmetric : Std.Symm (Function.onFun List.Disjoint
          fun entry : Layout × Layout => entry.1.mappings ++ entry.2.mappings) :=
        ⟨fun _ _ disjoint _ left right => disjoint right left⟩
      exact nodup.2.2.forall member member' apart (List.mem_append_right _ first)
        (List.mem_append_right _ second)

/-- The layout at a path of field names; it is absent where a field is. -/
def partAt : Layout → List String → Layout
  | l, [] => l
  | l, name :: rest => (l.field name).partAt rest

theorem holds_partAt {store : Store} {l : Layout} (held : store.Holds l) (path : List String) :
    store.Holds (l.partAt path) ∧ (l.partAt path).value = store.valueAt l.value path := by
  induction path generalizing l with
  | nil => exact ⟨held, rfl⟩
  | cons name rest ih =>
    rw [Store.valueAt, ← value_field held]
    exact ih (holds_field held name)

theorem mappings_partAt_subset (l : Layout) (path : List String) :
    (l.partAt path).mappings ⊆ l.mappings := by
  induction path generalizing l with
  | nil => exact List.Subset.refl _
  | cons name rest ih => exact List.Subset.trans (ih _) (l.mappings_field_subset name)

theorem disjoint_partAt {l : Layout} (nodup : l.mappings.Nodup) {path other : List String}
    (apart : ¬path <+: other) (apart' : ¬other <+: path) :
    List.Disjoint (l.partAt path).mappings (l.partAt other).mappings := by
  induction path generalizing l other with
  | nil => exact absurd List.nil_prefix apart
  | cons name rest ih =>
    cases other with
    | nil => exact absurd List.nil_prefix apart'
    | cons name' rest' =>
      by_cases same : name = name'
      · subst same
        rw [List.prefix_cons_inj] at apart apart'
        exact ih (nodup_field nodup name) apart apart'
      · intro a first second
        exact disjoint_field nodup same (mappings_partAt_subset _ rest first)
          (mappings_partAt_subset _ rest' second)

end Layout

namespace Tree

variable {α : Type}

theorem entered_subset {store : Store} (t : Tree α) {l : Layout} (held : store.Holds l)
    (path : List String) (place : Option (Address × String)) :
    entered (agenda store t path place l.value) ⊆ l.mappings := by
  induction t generalizing l path place with
  | leaf content => exact List.nil_subset _
  | branch fields ih =>
    rw [entered_branch]
    intro b inside
    rcases List.mem_append.mp inside with here | below
    · rw [Option.mem_toList] at here
      obtain ⟨kind, entries, rfl⟩ := Layout.map_of_fields? here
      rw [Layout.mappings_map]
      exact List.mem_cons_self
    · obtain ⟨step, listed, enters⟩ := List.mem_filterMap.mp below
      rw [fieldAgenda_eq] at listed
      obtain ⟨field, member, listed⟩ := List.mem_flatMap.mp listed
      rw [← Layout.value_field held] at listed
      exact l.mappings_field_subset field.1 (ih field member (Layout.holds_field held field.1) _ _
        (List.mem_filterMap.mpr ⟨step, listed, enters⟩))

/-- In a tree-shaped value no mapping is entered twice. -/
theorem nodup_entered {store : Store} {t : Tree α} (distinct : t.Distinct) {l : Layout}
    (held : store.Holds l) (nodup : l.mappings.Nodup) (path : List String)
    (place : Option (Address × String)) :
    (entered (agenda store t path place l.value)).Nodup := by
  induction t generalizing l path place with
  | leaf content => exact List.nodup_nil
  | branch fields ih =>
    rw [Distinct, fieldsDistinct_iff] at distinct
    rw [entered_branch, List.nodup_append]
    refine ⟨by cases l.value.fields? <;> simp, ?_, ?_⟩
    · rw [fieldAgenda_eq, entered, List.filterMap_flatMap, List.nodup_flatMap]
      constructor
      · intro field member
        rw [← Layout.value_field held]
        exact ih field member (distinct.2 field member) (Layout.holds_field held _)
          (Layout.nodup_field nodup _) _ _
      · refine (List.pairwise_map.mp distinct.1).imp ?_
        intro first second differs b left right
        simp only [← Layout.value_field held] at left right
        exact Layout.disjoint_field nodup differs
          (entered_subset first.2 (Layout.holds_field held _) _ _ left)
          (entered_subset second.2 (Layout.holds_field held _) _ _ right)
    · rintro a here b below rfl
      rw [Option.mem_toList] at here
      obtain ⟨step, listed, enters⟩ := List.mem_filterMap.mp below
      rw [fieldAgenda_eq] at listed
      obtain ⟨field, member, listed⟩ := List.mem_flatMap.mp listed
      rw [← Layout.value_field held] at listed
      exact Layout.not_mem_field nodup here field.1 (entered_subset field.2
        (Layout.holds_field held _) _ _ (List.mem_filterMap.mpr ⟨step, listed, enters⟩))

theorem nodup_of_treeShaped {store : Store} {t : Tree α} (distinct : t.Distinct) {v : Value}
    (shaped : store.TreeShaped v) : (entered (agenda store t [] none v)).Nodup := by
  obtain ⟨l, rfl, held, nodup⟩ := shaped
  exact nodup_entered distinct held nodup [] none

theorem given_apart {store : Store} {t : Tree α} (distinct : t.Distinct) {l : Layout}
    (held : store.Holds l) (nodup : l.mappings.Nodup) {path : List String}
    {place : Option (Address × String)} {p : List String} {inner : Option (Address × String)}
    {given : Value} {content : α}
    (member : .ask p inner given content ∈ agenda store t path place l.value) :
    ∃ part : Layout, part.value = given ∧ store.Holds part ∧ part.mappings ⊆ l.mappings ∧
      List.Disjoint part.mappings (entered (agenda store t path place l.value)) := by
  induction t generalizing l path place with
  | leaf other =>
    rw [agenda, List.mem_singleton] at member
    injection member with _ _ same
    exact ⟨l, same.symm, held, List.Subset.refl _, List.disjoint_nil_right _⟩
  | branch fields ih =>
    rw [Distinct, fieldsDistinct_iff] at distinct
    rw [agenda, List.mem_cons, fieldAgenda_eq, List.mem_flatMap] at member
    rcases member with member | ⟨⟨name, tree⟩, inside, member⟩
    · cases member
    · rw [← Layout.value_field held] at member
      obtain ⟨part, value, stands, within, apart⟩ := ih _ inside (distinct.2 _ inside)
        (Layout.holds_field held name) (Layout.nodup_field nodup name) member
      refine ⟨part, value, stands, List.Subset.trans within (l.mappings_field_subset name), ?_⟩
      intro b first second
      rw [entered_branch] at second
      rcases List.mem_append.mp second with here | below
      · rw [Option.mem_toList] at here
        exact Layout.not_mem_field nodup here name (within first)
      · obtain ⟨step, listed, enters⟩ := List.mem_filterMap.mp below
        rw [fieldAgenda_eq] at listed
        obtain ⟨⟨other, tree'⟩, member', listed⟩ := List.mem_flatMap.mp listed
        rw [← Layout.value_field held] at listed
        have second' := List.mem_filterMap.mpr ⟨step, listed, enters⟩
        by_cases same : name = other
        · subst same
          have equal : tree = tree' := Option.some.inj
            ((lookup_of_mem distinct.1 inside).symm.trans (lookup_of_mem distinct.1 member'))
          subst equal
          exact apart first second'
        · exact Layout.disjoint_field nodup same (within first)
            (entered_subset tree' (Layout.holds_field held other) _ _ second')

/-- The value that a leaf is asked about has a layout, which stands as long as no mappings change but
those of branches. -/
theorem given_stands {store : Store} {t : Tree α} (distinct : t.Distinct) {v : Value}
    (shaped : store.TreeShaped v) {p : List String} {inner : Option (Address × String)}
    {given : Value} {content : α}
    (member : .ask p inner given content ∈ agenda store t [] none v) :
    ∃ part : Layout, part.value = given ∧
      ∀ now, Store.Keeps (entered (agenda store t [] none v)) store now → now.Holds part := by
  obtain ⟨l, rfl, held, nodup⟩ := shaped
  obtain ⟨part, value, stands, _, separate⟩ := given_apart distinct held nodup member
  exact ⟨part, value, fun now kept => Store.holds_of_keeps kept stands separate⟩

theorem given_disjoint {store : Store} {t : Tree α} (distinct : t.Distinct) {l : Layout}
    (held : store.Holds l) (nodup : l.mappings.Nodup) {p q : List String}
    {inner inner' : Option (Address × String)} {given given' : Value} {content content' : α}
    (member : .ask p inner given content ∈ agenda store t [] none l.value)
    (member' : .ask q inner' given' content' ∈ agenda store t [] none l.value) (differs : p ≠ q) :
    ∃ part part' : Layout, (part.value = given ∧ store.Holds part) ∧
      (part'.value = given' ∧ store.Holds part') ∧ List.Disjoint part.mappings part'.mappings := by
  obtain ⟨there, rfl⟩ := at?_of_ask distinct member
  obtain ⟨there', rfl⟩ := at?_of_ask distinct member'
  obtain ⟨stands, value⟩ := Layout.holds_partAt held p
  obtain ⟨stands', value'⟩ := Layout.holds_partAt held q
  exact ⟨_, _, ⟨value, stands⟩, ⟨value', stands'⟩, Layout.disjoint_partAt nodup
    (not_prefix_of_leaf there there' differs) (not_prefix_of_leaf there' there differs.symm)⟩

theorem nodup_paths (store : Store) {t : Tree α} (distinct : t.Distinct) (path : List String)
    (place : Option (Address × String)) (v : Value) :
    ((agenda store t path place v).map Step.path).Nodup := by
  induction t generalizing path place v with
  | leaf content =>
    rw [agenda]
    exact List.nodup_singleton _
  | branch fields ih =>
    rw [Distinct, fieldsDistinct_iff] at distinct
    have below : ∀ field ∈ fields, ∀ p ∈ (agenda store field.2 (path ++ [field.1])
        (v.fields?.map fun a => (a, field.1)) (store.field v field.1)).map Step.path,
          ∃ rel, p = path ++ field.1 :: rel := by
      intro field member p listed
      obtain ⟨step, inside, rfl⟩ := List.mem_map.mp listed
      rcases path_of_mem_agenda (distinct.2 field member) inside with
        ⟨rel, _, _, rfl⟩ | ⟨rel, _, _, _, rfl, _⟩
      · exact ⟨rel, by rw [Step.path, List.append_assoc]; rfl⟩
      · exact ⟨rel, by rw [Step.path, List.append_assoc]; rfl⟩
    rw [agenda, List.map_cons, List.nodup_cons, fieldAgenda_eq, List.map_flatMap,
      List.nodup_flatMap]
    refine ⟨fun member => ?_, fun field member => ih field member (distinct.2 field member) _ _ _,
      ?_⟩
    · obtain ⟨field, inside, listed⟩ := List.mem_flatMap.mp member
      obtain ⟨rel, same⟩ := below field inside _ listed
      have lengths := congrArg List.length same
      simp [Step.path] at lengths
    · refine (List.pairwise_map.mp distinct.1).imp_of_mem ?_
      intro first second left right differs p one two
      obtain ⟨rel, rfl⟩ := below first left p one
      obtain ⟨rel', same⟩ := below second right _ two
      exact differs (List.cons.inj (List.append_cancel_left same)).1

theorem nodup_calls {call : α → Value → Context → CheckM Value} {ctx : Context} {ground : Store}
    {t : Tree α} (distinct : t.Distinct) {path : List String} {place : Option (Address × String)}
    {v : Value} (store : Store) :
    ((Step.calls call ctx (agenda ground t path place v) store).map Call.path).Nodup :=
  (Step.paths_calls_sublist _ store).nodup (nodup_paths ground distinct path place v)

private theorem eq_of_entered {steps : List (Step α)} (nodup : (entered steps).Nodup)
    {first second : Step α} (left : first ∈ steps) (right : second ∈ steps) {a : Address}
    (one : first.entered? = some a) (two : second.entered? = some a) : first = second := by
  have pairs : steps.Pairwise fun s s' => ∀ b, s.entered? = some b → s'.entered? ≠ some b := by
    refine (List.pairwise_filterMap.mp nodup).imp ?_
    intro s s' differs b enters enters'
    exact differs b enters b enters' rfl
  have symmetric : Std.Symm fun s s' : Step α =>
      ∀ b, s.entered? = some b → s'.entered? ≠ some b :=
    ⟨fun _ _ differs b enters enters' => differs b enters' enters⟩
  by_contra differs
  exact pairs.forall left right differs a one two

variable {store : Store} {t : Tree α} {v : Value} {up : List String}
  {fields : List (String × Tree α)} {a : Address}

theorem enter_of_mapping (nodup : (entered (agenda store t [] none v)).Nodup)
    (there : t.at? up = some (.branch fields)) (mapping : (store.valueAt v up).fields? = some a)
    {path names : List String}
    (member : Step.enter path (some a) names ∈ agenda store t [] none v) :
    path = up ∧ names = fields.map Prod.fst := by
  have own := enter_mem_agenda store there [] none v
  rw [mapping, List.nil_append] at own
  have same := eq_of_entered nodup member own rfl rfl
  injection same with paths _ names
  exact ⟨paths, names⟩

theorem branch_unique (nodup : (entered (agenda store t [] none v)).Nodup) {other : List String}
    {others : List (String × Tree α)} (there : t.at? up = some (.branch fields))
    (there' : t.at? other = some (.branch others))
    (mapping : (store.valueAt v up).fields? = some a)
    (mapping' : (store.valueAt v other).fields? = some a) : up = other ∧ fields = others := by
  have enters := enter_mem_agenda store there' [] none v
  rw [mapping', List.nil_append] at enters
  obtain ⟨rfl, _⟩ := enter_of_mapping nodup there mapping enters
  rw [there] at there'
  exact ⟨rfl, Tree.branch.inj (Option.some.inj there')⟩

theorem bound_of_branch (shaped : store.TreeShaped v) (there : t.at? up = some (.branch fields))
    (mapping : (store.valueAt v up).fields? = some a) :
    a ∈ entered (agenda store t [] none v) ∧ a < store.mappings.size := by
  have enters := enter_mem_agenda store there [] none v
  rw [mapping, List.nil_append] at enters
  have entered := mem_entered.mpr ⟨_, _, enters⟩
  obtain ⟨l, rfl, held, _⟩ := shaped
  exact ⟨entered, Store.lt_of_mem_mappings held (entered_subset _ held [] none entered)⟩

theorem mapping_of_ask (distinct : t.Distinct) {path : List String} {key : String} {given : Value}
    {content : α}
    (member : Step.ask path (some (a, key)) given content ∈ agenda store t [] none v) :
    ∃ up fields, t.at? up = some (.branch fields) ∧ (store.valueAt v up).fields? = some a ∧
      path = up ++ [key] ∧ (key, .leaf content) ∈ fields ∧ given = (store.entries a).get key := by
  rcases path_of_mem_agenda distinct member with
    ⟨_, _, _, same⟩ | ⟨rel, other, inner, leaf, same, stands⟩
  · cases same
  · injection same with paths place values contents
    subst contents values
    rcases stands with ⟨_, none⟩ | ⟨up, name, rfl, deep⟩
    · rw [← place] at none
      cases none
    · rw [← place] at deep
      obtain ⟨b, mapping, pair⟩ := Option.map_eq_some_iff.mp deep.symm
      obtain ⟨rfl, rfl⟩ := Prod.mk.inj pair
      obtain ⟨fields, branch, found⟩ := at?_concat leaf
      refine ⟨up, fields, branch, mapping, paths, mem_of_lookup found, ?_⟩
      rw [Store.valueAt_concat, Store.field_of_fields? mapping]

theorem ask_of_mapping (distinct : t.Distinct)
    (nodup : (entered (agenda store t [] none v)).Nodup)
    (there : t.at? up = some (.branch fields)) (mapping : (store.valueAt v up).fields? = some a)
    {path : List String} {key : String} {given : Value} {content : α}
    (member : Step.ask path (some (a, key)) given content ∈ agenda store t [] none v) :
    path = up ++ [key] ∧ (key, .leaf content) ∈ fields ∧ given = (store.entries a).get key := by
  obtain ⟨above, others, branch, elsewhere, paths, inside, stood⟩ := mapping_of_ask distinct member
  have enters := enter_mem_agenda store branch [] none v
  rw [elsewhere, List.nil_append] at enters
  obtain ⟨rfl, _⟩ := enter_of_mapping nodup there mapping enters
  rw [there] at branch
  obtain rfl := Tree.branch.inj (Option.some.inj branch)
  exact ⟨paths, inside, stood⟩

theorem spares_of_path_ne (distinct : t.Distinct)
    (nodup : (entered (agenda store t [] none v)).Nodup)
    (there : t.at? up = some (.branch fields)) (mapping : (store.valueAt v up).fields? = some a)
    {name : String} (described : name ∈ fields.map Prod.fst) {step : Step α}
    (member : step ∈ agenda store t [] none v) (elsewhere : step.path ≠ up ++ [name]) :
    step.Spares a name := by
  cases step with
  | enter path mapping' names =>
    rintro rfl
    rw [(enter_of_mapping nodup there mapping member).2]
    exact described
  | ask path place given other =>
    rintro rfl
    exact elsewhere (ask_of_mapping distinct nodup there mapping member).1

theorem spares_of_split (distinct : t.Distinct)
    (nodup : (entered (agenda store t [] none v)).Nodup)
    (there : t.at? up = some (.branch fields)) (mapping : (store.valueAt v up).fields? = some a)
    {name : String} (described : name ∈ fields.map Prod.fst) {early late : List (Step α)}
    {step : Step α} (split : agenda store t [] none v = early ++ step :: late)
    (here : step.path = up ++ [name]) : ∀ other ∈ early ++ late, other.Spares a name := by
  have paths := nodup_paths store distinct [] none v
  rw [split, List.map_append, List.map_cons, List.nodup_middle, List.nodup_cons,
    ← List.map_append] at paths
  intro other inside
  refine spares_of_path_ne distinct nodup there mapping described ?_ fun same => ?_
  · rw [split]
    rcases List.mem_append.mp inside with inside | inside
    · exact List.mem_append_left _ inside
    · exact List.mem_append_right _ (List.mem_cons_of_mem _ inside)
  · exact paths.1 (List.mem_map.mpr ⟨other, inside, same.trans here.symm⟩)

theorem exists_split (distinct : t.Distinct)
    (nodup : (entered (agenda store t [] none v)).Nodup)
    (there : t.at? up = some (.branch fields)) (mapping : (store.valueAt v up).fields? = some a)
    {name : String} {content : α} (member : (name, .leaf content) ∈ fields) :
    ∃ early late, agenda store t [] none v =
        early ++ .ask (up ++ [name]) (some (a, name)) ((store.entries a).get name) content :: late ∧
      ∀ step ∈ early ++ late, step.Spares a name := by
  have listed := ask_field_mem_agenda store there member [] none v mapping
  rw [List.nil_append] at listed
  obtain ⟨early, late, split⟩ := List.append_of_mem listed
  exact ⟨early, late, split, spares_of_split distinct nodup there mapping
    (List.mem_map.mpr ⟨_, member, rfl⟩) split rfl⟩

theorem field_congr {before after : Store} {v : Value} {name : String}
    (same : ∀ a, v.fields? = some a →
      (after.entries a).valueOf? name = (before.entries a).valueOf? name) :
    after.field v name = before.field v name := by
  cases mapping : v.fields? with
  | none => rw [Store.field, Store.field, mapping]
  | some a =>
    rw [Store.field_of_fields? mapping, Store.field_of_fields? mapping, Entries.get, Entries.get,
      same a mapping]

theorem valueAt_branch {before after : Store} {t : Tree α} {v : Value}
    (same : ∀ up fields name inner a, t.at? up = some (.branch fields) →
      fields.lookup name = some (.branch inner) → (before.valueAt v up).fields? = some a →
        (after.entries a).valueOf? name = (before.entries a).valueOf? name)
    {path : List String} {fields : List (String × Tree α)}
    (there : t.at? path = some (.branch fields)) :
    after.valueAt v path = before.valueAt v path := by
  induction path using List.reverseRecOn generalizing fields with
  | nil => rfl
  | append_singleton up name ih =>
    obtain ⟨above, higher, found⟩ := at?_concat there
    rw [Store.valueAt_concat, Store.valueAt_concat, ih higher]
    exact field_congr fun a mapping => same up above name fields a higher found mapping

theorem valueAt_congr {before after : Store} {t : Tree α} {v : Value}
    (same : ∀ up fields a name, t.at? up = some (.branch fields) →
      (before.valueAt v up).fields? = some a → name ∈ fields.map Prod.fst →
        (after.entries a).valueOf? name = (before.entries a).valueOf? name)
    {path : List String} {sub : Tree α} (there : t.at? path = some sub) :
    after.valueAt v path = before.valueAt v path := by
  rcases List.eq_nil_or_concat' path with rfl | ⟨up, name, rfl⟩
  · rfl
  · obtain ⟨fields, above, found⟩ := at?_concat there
    have higher : after.valueAt v up = before.valueAt v up :=
      valueAt_branch (fun up fields name _ a there found mapping =>
        same up fields a name there mapping (name_mem_of_lookup found)) above
    rw [Store.valueAt_concat, Store.valueAt_concat, higher]
    exact field_congr fun a mapping =>
      same up fields a name above mapping (name_mem_of_lookup found)

theorem entered_congr (before after : Store) {t : Tree α} (distinct : t.Distinct) {v w : Value}
    (same : ∀ path fields, t.at? path = some (.branch fields) →
      (after.valueAt w path).fields? = (before.valueAt v path).fields?)
    (path : List String) (place place' : Option (Address × String)) :
    entered (agenda after t path place w) = entered (agenda before t path place' v) := by
  induction t generalizing v w path place place' with
  | leaf content => rfl
  | branch fields ih =>
    rw [Distinct, fieldsDistinct_iff] at distinct
    have here : w.fields? = v.fields? := same [] fields rfl
    rw [entered_branch, entered_branch, here, fieldAgenda_eq, fieldAgenda_eq, entered, entered,
      List.filterMap_flatMap, List.filterMap_flatMap]
    refine congrArg (v.fields?.toList ++ ·) (List.flatMap_congr fun field member => ?_)
    refine ih field member (distinct.2 field member) ?_ _ _ _
    intro rest sub there
    refine same (field.1 :: rest) sub ?_
    rw [at?, field?, lookup_of_mem distinct.1 member]
    exact there

end Tree

end Assay
