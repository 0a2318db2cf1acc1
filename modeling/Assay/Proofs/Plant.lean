import Assay.Proofs.BuiltInSchema
import Assay.Proofs.Thaw

/-!
Planted values: a value for a tree that has a mapping at every branch, a text at one leaf and
nothing at the other leaves. What one leaf does to one text shows in a check against the whole tree.
-/

set_option autoImplicit false
set_option relaxedAutoImplicit false

namespace Assay

namespace Data

def field (d : Data) (name : String) : Data :=
  match d with
  | .map kind entries =>
    if kind = .view then .null else (Fields.find? text? entries name).getD .null
  | _ => .null

end Data

namespace Layout

theorem text?_data (l : Layout) : l.data.text? = l.value.text? := by
  cases l with
  | atom a => cases a <;> rfl
  | seq _ _ _ => rfl
  | map _ _ _ => rfl

theorem data_field (l : Layout) (name : String) : (l.field name).data = l.data.field name := by
  cases l with
  | atom _ => rfl
  | seq _ _ _ => rfl
  | map kind a entries =>
    have found : Fields.find? Data.text? (entries.map fun e => (e.1.data, e.2.data)) name =
        (Fields.find? (fun key : Layout => key.value.text?) entries name).map Layout.data :=
      Fields.find?_map text?_data entries name
    rw [data_map, Data.field, field, found]
    cases kind with
    | view => rfl
    | plain | ordered =>
      cases Fields.find? (fun key : Layout => key.value.text?) entries name <;> rfl

theorem value_of_data_atom {l : Layout} {a : Atom} (content : l.data = .atom a) :
    l.value = .atom a := by
  cases l with
  | atom b => exact congrArg Value.atom (Data.atom.inj content)
  | seq _ _ _ => cases content
  | map _ _ _ => cases content

theorem fields?_of_data_map {l : Layout} {entries : List (Data × Data)}
    (content : l.data = .map .plain entries) : l.value.fields?.isSome := by
  cases l with
  | atom _ => cases content
  | seq _ _ _ => cases content
  | map kind a _ =>
    rw [data_map] at content
    obtain ⟨rfl, _⟩ := Data.map.inj content
    rfl

end Layout

namespace Tree

variable {α : Type} (s : String)

/-- What is left of a path below a field name, if it leads there. -/
def follow (name : String) : Option (List String) → Option (List String)
  | some (first :: rest) => if first = name then some rest else none
  | _ => none

mutual

/-- A mapping at every branch and a text at the leaf of one path, if there is such a path. -/
def plant : Tree α → Option (List String) → Data
  | .leaf _, spot => if spot = some [] then .text s else .null
  | .branch fields, spot => .map .plain (plantFields fields spot)

def plantFields : List (String × Tree α) → Option (List String) → List (Data × Data)
  | [], _ => []
  | (name, tree) :: rest, spot =>
    (.text name, plant tree (follow name spot)) :: plantFields rest spot

end

mutual

private theorem whole_plant : ∀ (t : Tree α) (spot : Option (List String)), (plant s t spot).Whole
  | .leaf _, spot => by
    rw [plant]
    split <;> trivial
  | .branch fields, spot => whole_plantFields fields spot

private theorem whole_plantFields : ∀ (fields : List (String × Tree α))
    (spot : Option (List String)), Data.EntriesWhole (plantFields s fields spot)
  | [], _ => trivial
  | (name, tree) :: rest, spot =>
    ⟨trivial, whole_plant tree (follow name spot), whole_plantFields rest spot⟩

end

theorem field_plant {fields : List (String × Tree α)} {name : String} {tree : Tree α}
    (found : fields.lookup name = some tree) (spot : Option (List String)) :
    (plant s (.branch fields) spot).field name = plant s tree (follow name spot) := by
  rw [plant, Data.field, if_neg nofun]
  induction fields with
  | nil => cases found
  | cons field rest ih =>
    obtain ⟨other, sub⟩ := field
    rw [plantFields, Fields.find?_cons]
    rw [List.lookup_cons] at found
    by_cases same : name = other
    · subst same
      rw [beq_self_eq_true] at found
      rw [← Option.some.inj found]
      have here : ((Data.text name).text? == some name) = true := beq_self_eq_true _
      rw [if_pos here]
      rfl
    · rw [beq_eq_false_iff_ne.mpr same] at found
      have elsewhere : ¬((Data.text other).text? == some name) = true := by
        intro equal
        exact same (Option.some.inj (beq_iff_eq.mp equal)).symm
      rw [if_neg elsewhere]
      exact ih found

variable {s}

private theorem at_plant {store : Store} {t sub : Tree α} {rel : List String}
    (there : t.at? rel = some sub) {l : Layout} (held : store.Holds l)
    {spot : Option (List String)} (content : l.data = plant s t spot) :
    ∃ inner : Layout, store.valueAt l.value rel = inner.value ∧
      inner.data = plant s sub (rel.foldl (fun left name => follow name left) spot) := by
  induction rel generalizing t l spot with
  | nil =>
    obtain rfl := Option.some.inj there
    exact ⟨l, rfl, content⟩
  | cons name rest ih =>
    cases t with
    | leaf _ => cases there
    | branch fields =>
      simp only [at?, field?] at there
      obtain ⟨tree, found, there⟩ := Option.bind_eq_some_iff.mp there
      have below : (l.field name).data = plant s tree (follow name spot) := by
        rw [Layout.data_field, content, field_plant s found]
      obtain ⟨inner, value, planted⟩ := ih there (Layout.holds_field held name) below
      refine ⟨inner, ?_, planted⟩
      rw [← value, Layout.value_field held]
      rfl

private theorem follow_eq (rel spot : List String) :
    rel.foldl (fun left name => follow name left) (some spot) = some [] ↔ rel = spot := by
  have lost : ∀ rel : List String, rel.foldl (fun left name => follow name left) none = none := by
    intro rel
    induction rel with
    | nil => rfl
    | cons name rest ih => exact ih
  induction rel generalizing spot with
  | nil => simp [eq_comm]
  | cons name rest ih =>
    rw [List.foldl_cons]
    cases spot with
    | nil =>
      rw [follow, lost]
      · simp
      · simp
    | cons first later =>
      rw [follow]
      by_cases same : first = name
      · rw [if_pos same, same, List.cons.injEq, eq_self, true_and]
        exact ih later
      · rw [if_neg same, lost]
        simp only [reduceCtorEq, List.cons.injEq, false_iff, not_and]
        exact fun equal => absurd equal.symm same

/-- Over every store a value can be planted: tree-shaped, with a mapping at every branch, and with
nothing at the leaves but a text at one path. -/
theorem exists_planted (t : Tree α) (spot : List String) (s : String) (base : Store) :
    ∃ store v, base.Grows store ∧ store.TreeShaped v ∧
      (∀ rel fields, t.at? rel = some (.branch fields) →
        (store.valueAt v rel).fields?.isSome) ∧
      ∀ rel content, t.at? rel = some (.leaf content) →
        store.valueAt v rel = if rel = spot then .text s else .null := by
  obtain ⟨l, value, content, fresh⟩ := Store.fresh_thawFrom (plant s t (some spot)) base
    (whole_plant s t (some spot))
  have held := fresh.held l (List.mem_singleton_self l)
  have nodup := fresh.nodup
  rw [List.flatMap_singleton] at nodup
  refine ⟨_, l.value, fresh.grows, ⟨l, rfl, held, nodup⟩, ?_, ?_⟩
  · intro rel fields there
    obtain ⟨inner, same, planted⟩ := at_plant there held content
    rw [same]
    exact Layout.fields?_of_data_map planted
  · intro rel leaf there
    obtain ⟨inner, same, planted⟩ := at_plant there held content
    rw [same]
    rw [plant] at planted
    by_cases here : rel = spot
    · rw [if_pos ((follow_eq rel spot).mpr here)] at planted
      rw [if_pos here]
      exact Layout.value_of_data_atom planted
    · rw [if_neg fun equal => here ((follow_eq rel spot).mp equal)] at planted
      rw [if_neg here]
      exact Layout.value_of_data_atom planted

end Tree

namespace Schema

theorem BuiltIn.run_planted {schema : Schema} (built : schema.BuiltIn) (mode : Mode)
    (lenient : mode.partialCheck = true) {store : Store} {v : Value} {spot : List String}
    {s : String} {c : Checker} (there : schema.root.at? spot = some (.leaf (.checker c)))
    (branches : ∀ rel fields, schema.root.at? rel = some (.branch fields) →
      (store.valueAt v rel).fields?.isSome)
    (leaves : ∀ rel content, schema.root.at? rel = some (.leaf content) →
      store.valueAt v rel = if rel = spot then .text s else .null) :
    ∀ step ∈ schema.root.agenda store [] none v,
      (∀ before, ∃ after, step.run Leaf.call (top mode) before = .ok () after) ∨
        ∃ inner, step = .ask spot inner (.text s) (.checker c) := by
  intro step member
  rcases Tree.path_of_mem_agenda built.distinct member with
    ⟨rel, fields, branch, rfl⟩ | ⟨rel, content, inner, leaf, rfl, _⟩
  · left
    intro before
    obtain ⟨a, mapping⟩ := Option.isSome_iff_exists.mp (branches rel fields branch)
    rw [mapping, Step.run_enter_some]
    exact ⟨_, rfl⟩
  · rw [List.nil_append, leaves rel content leaf]
    by_cases here : rel = spot
    · right
      subst here
      rw [there] at leaf
      rw [if_pos rfl, ← Tree.leaf.inj (Option.some.inj leaf)]
      exact ⟨inner, rfl⟩
    · left
      intro before
      obtain ⟨other, rfl, made⟩ := built.leaves content (Tree.mem_leaves_of_at? leaf)
      have partially : ((top mode).descend rel).mode.partialCheck = true := by
        rw [Context.mode_descend]
        exact lenient
      have silent := made.made.check_null partially before
      rw [if_neg here, Step.run_ask, Leaf.call_checker, silent]
      exact ⟨_, rfl⟩

end Schema

end Assay
