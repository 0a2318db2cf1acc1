import Assay.Proofs.Lenience
import Assay.Proofs.Losses
import Assay.Proofs.Order
import Assay.Proofs.Resemblance

/-!
Dropping: a full check of a value, and a lenient one of what is left of the value when fields with
leaves are deleted or set to absent. Step by step the second check leaves what the first one leaves,
less the dropped fields. This takes that no option of a checker holds a mapping with such a field.
-/

set_option autoImplicit false
set_option relaxedAutoImplicit false

namespace Assay

theorem Entries.forall₂_put_put {R : Value × Value → Value × Value → Prop}
    (keys : ∀ entry entry', R entry entry' → entry'.1 = entry.1) {old new : Entries}
    (same : List.Forall₂ R old new) {key : String} {r r' : Value}
    (put : R (.text key, r) (.text key, r')) :
    List.Forall₂ R (old.put key r) (new.put key r') := by
  induction same with
  | nil => exact .cons put .nil
  | @cons entry entry' _ _ pair rest ih =>
    rw [Entries.put, Entries.put, keys _ _ pair]
    by_cases here : (entry.1 == .text key) = true
    · rw [if_pos here, if_pos here, eq_of_beq here]
      exact .cons put rest
    · rw [if_neg here, if_neg here]
      exact .cons pair ih

namespace Store

/-- Two values in two later stores: the same value of the first store, or lists of the same items that
were made since. -/
def Twin (ground : Store) (touched : List Address) (p q : Store) (w w' : Value) : Prop :=
  (w' = w ∧ ground.Clear touched w) ∨
    ∃ x x', w = .seq .list x ∧ w' = .seq .list x' ∧ x < p.sequences.size ∧
      x' < q.sequences.size ∧ q.items x' = p.items x ∧ ∀ i ∈ p.items x, ground.Clear touched i

/-- Entries of mappings in two later stores that have the same key and twin values. -/
def TwinEntry (ground : Store) (touched : List Address) (p q : Store) (e e' : Value × Value) :
    Prop :=
  e'.1 = e.1 ∧ ground.Clear touched e.1 ∧ Twin ground touched p q e.2 e'.2

/-- The second of two later stores has what is left of the first when fields are lost, as far as
only what stood in the beginning is followed. -/
def Trails (ground : Store) (losses : List Loss) (p q : Store) : Prop :=
  ∀ touched, touched ⊆ losses.map Loss.mapping → ∀ kind a, ground.Clear touched (.map kind a) →
    List.Forall₂ (TwinEntry ground touched p q) (Entries.lose losses a (p.entries a)) (q.entries a)

variable {ground p q p' q' : Store} {touched more less : List Address} {losses : List Loss}
  {w w' : Value}

theorem Twin.mono (twin : Twin ground touched p q w w') (one : Keeps more p p')
    (two : Keeps less q q') : Twin ground touched p' q' w w' := by
  rcases twin with same | ⟨x, x', rfl, rfl, bound, bound', items, clear⟩
  · exact Or.inl same
  · refine Or.inr ⟨x, x', rfl, rfl, Nat.lt_of_lt_of_le bound one.sequences,
      Nat.lt_of_lt_of_le bound' two.sequences, ?_, ?_⟩
    · rw [one.items x bound, two.items x' bound', items]
    · rwa [one.items x bound]

theorem TwinEntry.mono {e e' : Value × Value} (twin : TwinEntry ground touched p q e e')
    (one : Keeps more p p') (two : Keeps less q q') : TwinEntry ground touched p' q' e e' :=
  ⟨twin.1, twin.2.1, twin.2.2.mono one two⟩

theorem Twin.of_newSeq {items : List Value} (clear : ∀ i ∈ items, ground.Clear touched i)
    (new : (w, p') = p.newSeq .list items) (new' : (w', q') = q.newSeq .list items) :
    Twin ground touched p' q' w w' := by
  obtain rfl : p' = (p.newSeq .list items).2 := congrArg Prod.snd new
  obtain rfl : q' = (q.newSeq .list items).2 := congrArg Prod.snd new'
  refine Or.inr ⟨_, _, congrArg Prod.fst new, congrArg Prod.fst new', by simp [newSeq],
    by simp [newSeq], ?_, ?_⟩
  · rw [items_newSeq, items_newSeq]
  · rwa [items_newSeq]

theorem Twin.null_iff (twin : Twin ground touched p q w w') : w' = .null ↔ w = .null := by
  rcases twin with ⟨rfl, _⟩ | ⟨x, x', rfl, rfl, _⟩
  · rfl
  · exact iff_of_false (Value.seq_ne_atom .list x' .null) (Value.seq_ne_atom .list x .null)

theorem trails_lose (losses : List Loss) (ground : Store) :
    Trails ground losses ground (ground.lose losses) := by
  intro touched _ kind a clear
  rw [entries_lose losses (clear _ (.self _)).1]
  refine List.forall₂_same.mpr fun e member => ⟨rfl, ?_⟩
  rcases Entries.mem_lose member with inside | ⟨name, rfl⟩
  · exact ⟨(clear.entry inside).1, Or.inl ⟨rfl, (clear.entry inside).2⟩⟩
  · exact ⟨ground.clear_atom touched _, Or.inl ⟨rfl, ground.clear_atom touched _⟩⟩

theorem Trails.resembles (trails : Trails ground losses p q) (one : Keeps more ground p)
    (two : Keeps less ground q) (lost : touched ⊆ losses.map Loss.mapping) {left : Store}
    (items : ∀ x, left.items x = p.items x)
    (entries : ∀ kind a, ground.Clear touched (.map kind a) →
      left.entries a = Entries.lose losses a (p.entries a))
    (twin : Twin ground touched p q w w') : left.Resembles w q w' := by
  intro n
  induction n generalizing w w' with
  | zero =>
    rcases twin with ⟨rfl, _⟩ | ⟨x, x', rfl, rfl, _⟩
    · cases w' <;> rfl
    · rfl
  | succ n ih =>
    rcases twin with ⟨rfl, clear⟩ | ⟨x, x', rfl, rfl, _, _, same, clear⟩
    · cases w' with
      | atom a => rfl
      | seq kind x =>
        have bound := (clear _ (.self _)).1
        rw [freezeWithin, freezeWithin, items, one.items x bound, two.items x bound,
          Data.seq.injEq]
        exact ⟨rfl, List.map_congr_left fun i member => ih (Or.inl ⟨rfl, clear.item member⟩)⟩
      | map kind a =>
        rw [freezeWithin, freezeWithin, entries kind a clear, Data.map.injEq]
        refine ⟨rfl, Eq.symm ?_⟩
        rw [← List.forall₂_eq_eq_eq, List.forall₂_map_left_iff, List.forall₂_map_right_iff]
        refine (trails touched lost kind a clear).imp fun e e' pair => ?_
        rw [pair.1, ih (Or.inl ⟨rfl, pair.2.1⟩), ih pair.2.2]
    · rw [freezeWithin, freezeWithin, items, same, Data.seq.injEq]
      exact ⟨rfl, List.map_congr_left fun i member => ih (Or.inl ⟨rfl, clear i member⟩)⟩

theorem Trails.resembles_lose (trails : Trails ground losses p q) (one : Keeps more ground p)
    (two : Keeps less ground q) (clear : ground.Clear [] w) : (p.lose losses).Resembles w q w := by
  refine trails.resembles one two (List.nil_subset _) (fun x => ?_) (fun kind a free => ?_)
    (Or.inl ⟨rfl, clear⟩)
  · rw [items, sequences_lose]
    rfl
  · have bound : a < ground.mappings.size := (free _ (.self _)).1
    exact entries_lose losses (one.mappings ▸ bound)

theorem Trails.prune (trails : Trails ground losses p q) (a : Address) {names : List String}
    (listed : ∀ name, Entries.Lost losses a name → name ∈ names) :
    Trails ground losses (p.setEntries a ((p.entries a).restrict names))
      (q.setEntries a ((q.entries a).restrict names)) := by
  intro touched lost kind b clear
  have same := (trails touched lost kind b clear).imp fun e e' pair => pair.mono
    (keeps_setEntries p a ((p.entries a).restrict names))
    (keeps_setEntries q a ((q.entries a).restrict names))
  by_cases here : a = b
  · subst here
    rw [entries_pruned, entries_pruned, Entries.lose_restrict listed]
    exact Entries.forall₂_restrict (fun _ _ pair => pair.1) same names
  · rwa [entries_setEntries_ne p here, entries_setEntries_ne q here]

theorem Trails.call (trails : Trails ground losses p q) (one : Keeps [] p p')
    (two : Keeps [] q q') : Trails ground losses p' q' := by
  intro touched lost kind a clear
  rw [one.entries a List.not_mem_nil, two.entries a List.not_mem_nil]
  exact (trails touched lost kind a clear).imp fun e e' pair => pair.mono one two

section

variable {a : Address} {name : String} {old r r' : Value}
  (stood : (p.entries a).valueOf? name = some old)

include stood

theorem Trails.put (trails : Trails ground losses p q) (one : Keeps more ground p)
    (two : Keeps less ground q) (kept : ¬Entries.Lost losses a name)
    (twin : ∀ touched, touched ⊆ losses.map Loss.mapping → Twin ground touched p q r r') :
    Trails ground losses (p.setEntries a ((p.entries a).put name r))
      (q.setEntries a ((q.entries a).put name r')) := by
  intro touched lost kind b clear
  have first := keeps_setEntries p a ((p.entries a).put name r)
  have second := keeps_setEntries q a ((q.entries a).put name r')
  have same := (trails touched lost kind b clear).imp fun e e' pair => pair.mono first second
  by_cases here : a = b
  · subst here
    have bound : a < ground.mappings.size := (clear _ (.self _)).1
    rw [entries_setEntries_same p (one.mappings ▸ bound),
      entries_setEntries_same q (two.mappings ▸ bound), Entries.lose_put_kept stood kept]
    exact Entries.forall₂_put_put (fun _ _ pair => pair.1) same
      ⟨rfl, ground.clear_atom touched _, (twin touched lost).mono first second⟩
  · rwa [entries_setEntries_ne p here, entries_setEntries_ne q here]

theorem Trails.put_lost (trails : Trails ground losses p q) (one : Keeps more ground p)
    (gone : Entries.Lost losses a name) :
    Trails ground losses (p.setEntries a ((p.entries a).put name r)) q := by
  intro touched lost kind b clear
  have same := (trails touched lost kind b clear).imp fun e e' pair => pair.mono
    (keeps_setEntries p a ((p.entries a).put name r)) (Keeps.refl [] q)
  by_cases here : a = b
  · subst here
    have bound : a < ground.mappings.size := (clear _ (.self _)).1
    rwa [entries_setEntries_same p (one.mappings ▸ bound), Entries.lose_put_lost stood gone]
  · rwa [entries_setEntries_ne p here]

end

end Store

private theorem Step.stored_twice {ctx ctx' : Context} {path : List String}
    {place : Option (Address × String)} {given : Value} {leaf : Leaf}
    (keyed : Step.Keyed ctx (.ask path place given leaf))
    (keyed' : Step.Keyed ctx' (.ask path place given leaf))
    (sanitize : ctx'.mode.sanitize = ctx.mode.sanitize) {r r' : Value}
    (null : r' = .null ↔ r = .null) (p q : Store) :
    (Tree.stored (ctx.descend path) (place.map Prod.fst) r p = p ∧
        Tree.stored (ctx'.descend path) (place.map Prod.fst) r' q = q) ∨
      ∃ a name, place = some (a, name) ∧ r ≠ .null ∧
        Tree.stored (ctx.descend path) (place.map Prod.fst) r p =
            p.setEntries a ((p.entries a).put name r) ∧
          Tree.stored (ctx'.descend path) (place.map Prod.fst) r' q =
            q.setEntries a ((q.entries a).put name r') := by
  rcases Step.stored_cases keyed r p with ⟨same, why⟩ | ⟨a, name, rfl, something, sane, put⟩
  · rcases Step.stored_cases keyed' r' q with ⟨same', _⟩ | ⟨a, name, rfl, something, sane, _⟩
    · exact Or.inl ⟨same, same'⟩
    · rcases why with none | absent | plain
      · cases none
      · exact absurd (null.mpr absent) something
      · rw [sanitize, plain] at sane
        cases sane
  · rcases Step.stored_cases keyed' r' q with ⟨_, none | absent | plain⟩ | ⟨_, _, place, _, _, put'⟩
    · cases none
    · exact absurd (null.mp absent) something
    · rw [← sanitize, plain] at sane
      cases sane
    · cases place
      exact Or.inr ⟨a, name, rfl, something, put, put'⟩

namespace Schema

/-- A mapping at a path of a value loses a field that the schema describes by a leaf. -/
def Loses (schema : Schema) (store : Store) (v : Value) (up : List String) (loss : Loss) : Prop :=
  (∃ leaf, schema.root.at? (up ++ [loss.name]) = some (.leaf leaf)) ∧
    (store.valueAt v up).fields? = some loss.mapping

/-- What the options of the checkers hold is there, and no part of it is a mapping that loses
something. -/
def OptionsWhole (schema : Schema) (losses : List Loss) (store : Store) : Prop :=
  ∀ c, .checker c ∈ schema.root.leaves → ∀ option ∈ c.holdings,
    store.Clear (losses.map Loss.mapping) option

variable {schema : Schema} {store : Store} {v : Value} {losses : List Loss} {sanitize : Bool}

section

variable (built : schema.BuiltIn) (shaped : store.TreeShaped v)
  (fields : ∀ loss ∈ losses, ∃ up, schema.Loses store v up loss)

include built shaped fields

private theorem leaf_of_lost {up : List String} {above : List (String × Tree Leaf)} {a : Address}
    (there : schema.root.at? up = some (.branch above))
    (mapping : (store.valueAt v up).fields? = some a) {name : String}
    (lost : Entries.Lost losses a name) : ∃ leaf, above.lookup name = some (.leaf leaf) := by
  obtain ⟨loss, member, rfl, rfl⟩ := lost
  obtain ⟨other, ⟨leaf, below⟩, mapping'⟩ := fields loss member
  obtain ⟨others, there', found⟩ := Tree.at?_concat below
  obtain ⟨_, rfl⟩ := Tree.branch_unique (built.nodup_entered shaped) there there' mapping mapping'
  exact ⟨leaf, found⟩

omit built in
private theorem mappings_subset :
    losses.map Loss.mapping ⊆ Tree.entered (schema.root.agenda store [] none v) := by
  intro a member
  obtain ⟨loss, listed, rfl⟩ := List.mem_map.mp member
  obtain ⟨up, ⟨leaf, below⟩, mapping⟩ := fields loss listed
  obtain ⟨above, there, _⟩ := Tree.at?_concat below
  exact (Tree.bound_of_branch shaped there mapping).1

private theorem valueAt_lose {path : List String} {described : List (String × Tree Leaf)}
    (there : schema.root.at? path = some (.branch described)) :
    (store.lose losses).valueAt v path = store.valueAt v path := by
  refine Tree.valueAt_branch (fun up above name inner a higher found mapping => ?_) there
  rw [Store.entries_lose losses (Tree.bound_of_branch shaped higher mapping).2]
  refine Entries.valueOf?_lose (fun lost => ?_) _
  obtain ⟨leaf, same⟩ := leaf_of_lost built shaped fields higher mapping lost
  rw [found] at same
  cases same

private theorem entered_lose :
    Tree.entered (schema.root.agenda (store.lose losses) [] none v) =
      Tree.entered (schema.root.agenda store [] none v) :=
  Tree.entered_congr store (store.lose losses) built.distinct
    (fun _ _ there => congrArg Value.fields? (valueAt_lose built shaped fields there)) _ _ _

private theorem stepAt_branch {path : List String} {described : List (String × Tree Leaf)}
    (there : schema.root.at? path = some (.branch described)) :
    Tree.stepAt (store.lose losses) [] none v (path, .branch described) =
      Tree.stepAt store [] none v (path, .branch described) := by
  rw [Tree.stepAt, Tree.stepAt, valueAt_lose built shaped fields there]

private theorem stepAt_leaf {path : List String} {leaf : Leaf}
    (there : schema.root.at? path = some (.leaf leaf)) :
    (Tree.stepAt (store.lose losses) [] none v (path, .leaf leaf) =
        Tree.stepAt store [] none v (path, .leaf leaf) ∧
      ∀ a name, store.placeAt none v path = some (a, name) → ¬Entries.Lost losses a name) ∨
    ∃ up a name, path = up ++ [name] ∧ (store.valueAt v up).fields? = some a ∧
      Entries.Lost losses a name ∧
        Tree.stepAt (store.lose losses) [] none v (path, .leaf leaf) =
          .ask path (some (a, name)) .null leaf := by
  rcases List.eq_nil_or_concat' path with rfl | ⟨up, name, rfl⟩
  · refine Or.inl ⟨rfl, fun a name place => ?_⟩
    cases place
  · obtain ⟨above, higher, found⟩ := Tree.at?_concat there
    have same := valueAt_lose built shaped fields higher
    cases mapping : (store.valueAt v up).fields? with
    | none =>
      refine Or.inl ⟨?_, ?_⟩
      · rw [Tree.stepAt, Tree.stepAt, Store.placeAt_concat, Store.placeAt_concat,
          Store.valueAt_concat, Store.valueAt_concat, same, Store.field, Store.field, mapping]
      · intro a name place
        rw [Store.placeAt_concat, mapping] at place
        cases place
    | some a =>
      have entries := Store.entries_lose losses (Tree.bound_of_branch shaped higher mapping).2
      have left : ((store.lose losses).valueAt v up).fields? = some a := same ▸ mapping
      by_cases lost : Entries.Lost losses a name
      · refine Or.inr ⟨up, a, name, rfl, mapping, lost, ?_⟩
        rw [Tree.stepAt_field left, entries, Entries.get_lose lost]
      · refine Or.inl ⟨?_, ?_⟩
        · rw [Tree.stepAt_field left, Tree.stepAt_field mapping, entries, Entries.get, Entries.get,
            Entries.valueOf?_lose lost]
        · rw [Store.placeAt_concat, mapping]
          rintro _ _ ⟨⟩
          exact lost

section

variable {p q : Store} (trails : Store.Trails store losses p q)
  (one : Store.Keeps (Tree.entered (schema.root.agenda store [] none v)) store p)
  (two : Store.Keeps (Tree.entered (schema.root.agenda store [] none v)) store q)

include trails one two

private theorem call_lose (whole : schema.OptionsWhole losses store) {path : List String}
    {place : Option (Address × String)} {given : Value} {leaf : Leaf}
    (member : .ask path place given leaf ∈ schema.root.agenda store [] none v) {r : Value}
    {p' : Store}
    (called : leaf.call given ((top ⟨sanitize, false⟩).descend path) p = .ok r p') :
    ∃ r' q', leaf.call given ((top ⟨sanitize, true⟩).descend path) q = .ok r' q' ∧
      ∀ touched, touched ⊆ losses.map Loss.mapping → Store.Twin store touched p' q' r r' := by
  have lost := mappings_subset shaped fields
  obtain ⟨l, rfl, held, nodup⟩ := shaped
  obtain ⟨part, rfl, stands, _, separate⟩ := Tree.given_apart built.distinct held nodup member
  have listed := built.leaf_of_ask member
  obtain ⟨c, rfl, made⟩ := built.leaves leaf listed
  have above : (top ⟨sanitize, true⟩).path = (top ⟨sanitize, false⟩).path := rfl
  have lenient := made.made.check_lenient (Context.path_descend above path)
    (by rw [Context.mode_descend, Context.mode_descend]) (by rw [Context.mode_descend])
    (by rw [Context.mode_descend]) called
  have like : ∀ option ∈ c.holdings, p.Resembles option q option := fun option inside =>
    trails.resembles one two (List.Subset.refl _) (fun _ => rfl)
      (fun kind a clear =>
        (Entries.lose_of_not_mem ((clear _ (.self _)).2 kind a rfl) (p.entries a)).symm)
      (Or.inl ⟨rfl, whole c listed option inside⟩)
  rcases made.made.check_of_resembles (Store.holds_of_keeps one stands separate)
      (Store.holds_of_keeps two stands separate) like rfl rfl with
    ⟨_, _, r', q', _, called'⟩ | ⟨failure, failed, _⟩
  · refine ⟨r', q', called', fun touched fewer => ?_⟩
    rcases made.made.check_twice lenient called' with
      ⟨_, _, rfl, rfl | ⟨a, rfl⟩⟩ | ⟨items, expected, new, new'⟩
    · refine Or.inl ⟨rfl, Store.clear_of_holds stands fun a inside touch => ?_⟩
      exact separate inside (lost (fewer touch))
    · exact Or.inl ⟨rfl, store.clear_atom touched a⟩
    · refine Store.Twin.of_newSeq (fun i inside => ?_) new new'
      exact (whole c listed i (Checker.mem_holdings_of_consulted (expected i inside))).mono fewer
  · rw [lenient] at failed
    cases failed

end

variable (names : sanitize = true → schema.root.LeafNames fun name => '.' ∉ name.toList)
  (whole : schema.OptionsWhole losses store) {passed later : List (List String × Tree Leaf)}
  {node : List String × Tree Leaf} (split : schema.root.nodes = passed ++ node :: later)
  {p p' q : Store}
  (first : Step.runAll Leaf.call (top ⟨sanitize, false⟩) (passed.map (Tree.stepAt store [] none v))
    store = .ok () p)
  (two : Store.Keeps (Tree.entered (schema.root.agenda store [] none v)) store q)
  (trails : Store.Trails store losses p q)
  (ran : (Tree.stepAt store [] none v node).run Leaf.call (top ⟨sanitize, false⟩) p = .ok () p')

include names whole split first two trails ran

private theorem run_kept
    (same : Tree.stepAt (store.lose losses) [] none v node = Tree.stepAt store [] none v node)
    (kept : ∀ path a name given leaf, Tree.stepAt store [] none v node =
      .ask path (some (a, name)) given leaf → ¬Entries.Lost losses a name)
    (listed : ∀ path a names, Tree.stepAt store [] none v node = .enter path (some a) names →
      ∀ name, Entries.Lost losses a name → name ∈ names) :
    ∃ q', (Tree.stepAt (store.lose losses) [] none v node).run Leaf.call (top ⟨sanitize, true⟩) q =
      .ok () q' ∧ Store.Trails store losses p' q' := by
  have steps := Tree.agenda_of_split store split [] none v
  have one := built.keeps_early ⟨sanitize, false⟩ names steps first
  rw [same]
  cases step : Tree.stepAt store [] none v node with
  | enter path mapping described =>
    rw [step] at ran
    cases mapping with
    | none => cases ran
    | some a =>
      cases ran
      exact ⟨_, rfl, trails.prune a (listed path a described step)⟩
  | ask path place given leaf =>
    rw [step] at ran steps
    have member : Step.ask path place given leaf ∈ schema.root.agenda store [] none v :=
      steps ▸ List.mem_append_right _ List.mem_cons_self
    obtain ⟨r, between, called, rfl⟩ := Step.run_ask_ok ran
    obtain ⟨r', between', called', twin⟩ :=
      call_lose built shaped fields trails one two whole member called
    have calm := (built.leaves leaf (built.leaf_of_ask member)).calm
    have left := trails.call (calm.keeps called) (calm.keeps called')
    rw [Step.run_ask, called']
    refine ⟨_, rfl, ?_⟩
    rcases Step.stored_twice (built.tame ⟨sanitize, false⟩ names store v _ member).keyed
        (built.tame ⟨sanitize, true⟩ names store v _ member).keyed rfl
        (twin [] (List.nil_subset _)).null_iff between between' with
      ⟨same, same'⟩ | ⟨a, name, rfl, something, put, put'⟩
    · rw [same, same']
      exact left
    · rw [put, put']
      have stood := built.valueOf?_called ⟨sanitize, false⟩ names shaped steps first called something
      exact left.put stood (one.trans ((calm.keeps called).mono (List.nil_subset _)))
        (two.trans ((calm.keeps called').mono (List.nil_subset _)))
        (kept path a name given leaf step) twin

omit fields whole two in
private theorem run_lost {up : List String} {name : String} {leaf : Leaf} {a : Address}
    (here : node = (up ++ [name], .leaf leaf)) (mapping : (store.valueAt v up).fields? = some a)
    (gone : Entries.Lost losses a name)
    (asked : Tree.stepAt (store.lose losses) [] none v node =
      .ask (up ++ [name]) (some (a, name)) .null leaf) :
    ∃ q', (Tree.stepAt (store.lose losses) [] none v node).run Leaf.call (top ⟨sanitize, true⟩) q =
      .ok () q' ∧ Store.Trails store losses p' q' := by
  have steps := Tree.agenda_of_split store split [] none v
  have one := built.keeps_early ⟨sanitize, false⟩ names steps first
  rw [here, Tree.stepAt_field mapping] at steps ran
  have member : Step.ask (up ++ [name]) (some (a, name)) ((store.entries a).get name) leaf ∈
      schema.root.agenda store [] none v := steps ▸ List.mem_append_right _ List.mem_cons_self
  obtain ⟨c, rfl, made⟩ := built.leaves leaf (built.leaf_of_ask member)
  obtain ⟨r, between, called, rfl⟩ := Step.run_ask_ok ran
  have kept := made.made.calm.keeps called
  have left := trails.call kept (Store.Keeps.refl [] q)
  have absent : Leaf.call (.checker c) .null ((top ⟨sanitize, true⟩).descend (up ++ [name])) q =
      .ok .null q := made.made.check_null (by rw [Context.mode_descend]) q
  rw [asked, Step.run_ask, absent]
  refine ⟨q, rfl, ?_⟩
  have keyed := (built.tame ⟨sanitize, false⟩ names store v _ member).keyed
  rcases Step.stored_cases keyed r between with
    ⟨same, _⟩ | ⟨_, _, place, something, _, put⟩
  · rw [same]
    exact left
  · cases place
    rw [put]
    have stood := built.valueOf?_called ⟨sanitize, false⟩ names shaped steps first called something
    exact left.put_lost stood (one.trans (kept.mono (List.nil_subset _))) gone

/-- The step for a node leads from stores with what is left to such stores. -/
private theorem run_lose :
    ∃ q', (Tree.stepAt (store.lose losses) [] none v node).run Leaf.call (top ⟨sanitize, true⟩) q =
      .ok () q' ∧ Store.Trails store losses p' q' := by
  have there := (Tree.mem_nodes_iff built.distinct).mp
    (split ▸ List.mem_append_right passed List.mem_cons_self)
  obtain ⟨path, sub⟩ := node
  cases sub with
  | branch described =>
    refine run_kept built shaped fields names whole split first two trails ran
      (stepAt_branch built shaped fields there) nofun fun _ a listed step name lost => ?_
    injection step with _ mapping same
    obtain ⟨leaf, found⟩ := leaf_of_lost built shaped fields there mapping lost
    exact same ▸ Tree.name_mem_of_lookup found
  | leaf leaf =>
    rcases stepAt_leaf built shaped fields there with
      ⟨same, kept⟩ | ⟨up, a, name, rfl, mapping, lost, asked⟩
    · refine run_kept built shaped fields names whole split first two trails ran same
        (fun _ a name _ _ step => ?_) nofun
      injection step with _ place
      exact kept a name place
    · exact run_lost built shaped names split first trails ran rfl mapping lost asked

end

section

variable (built : schema.BuiltIn)
  (names : sanitize = true → schema.root.LeafNames fun name => '.' ∉ name.toList)
  (shaped : store.TreeShaped v) (fields : ∀ loss ∈ losses, ∃ up, schema.Loses store v up loss)

include built names shaped fields

private theorem keeps_lose {passed later : List (List String × Tree Leaf)}
    (split : schema.root.nodes = passed ++ later) {q : Store}
    (ran : Step.runAll Leaf.call (top ⟨sanitize, true⟩)
      (passed.map (Tree.stepAt (store.lose losses) [] none v)) (store.lose losses) = .ok () q) :
    Store.Keeps (Tree.entered (schema.root.agenda store [] none v)) store q := by
  have steps := Tree.agenda_eq_map (store.lose losses) schema.root [] none v
  rw [split, List.map_append] at steps
  have later := built.keeps_early ⟨sanitize, true⟩ names steps ran
  rw [entered_lose built shaped fields] at later
  exact ((Store.keeps_lose losses store).mono (mappings_subset shaped fields)).trans later

private theorem runAll_lose (whole : schema.OptionsWhole losses store)
    {passed later : List (List String × Tree Leaf)} (split : schema.root.nodes = passed ++ later)
    {p : Store} (ran : Step.runAll Leaf.call (top ⟨sanitize, false⟩)
      (passed.map (Tree.stepAt store [] none v)) store = .ok () p) :
    ∃ q, Step.runAll Leaf.call (top ⟨sanitize, true⟩)
      (passed.map (Tree.stepAt (store.lose losses) [] none v)) (store.lose losses) = .ok () q ∧
        Store.Trails store losses p q := by
  -- The last step is taken off: it starts from the stores that the steps before it have left.
  induction passed using List.reverseRecOn generalizing later p with
  | nil =>
    cases ran
    exact ⟨_, rfl, Store.trails_lose losses store⟩
  | append_singleton passed node ih =>
    rw [List.append_assoc, List.singleton_append] at split
    rw [List.map_append, List.map_singleton, Step.runAll_concat] at ran
    cases first : Step.runAll Leaf.call (top ⟨sanitize, false⟩)
        (passed.map (Tree.stepAt store [] none v)) store with
    | error failure between => simp [first] at ran
    | ok _ between =>
      rw [first] at ran
      obtain ⟨q, second, trails⟩ := ih split first
      obtain ⟨q', last, trails'⟩ := run_lose built shaped fields names whole split first
        (keeps_lose built names shaped fields split second) trails ran
      refine ⟨q', ?_, trails'⟩
      rw [List.map_append, List.map_singleton, Step.runAll_concat, second]
      exact last

end

private theorem loses_after (built : schema.BuiltIn)
    (names : sanitize = true → schema.root.LeafNames fun name => '.' ∉ name.toList)
    (shaped : store.TreeShaped v) {after : Store}
    (ran : Step.runAll Leaf.call (top ⟨sanitize, false⟩) (schema.root.agenda store [] none v)
      store = .ok () after) {up : List String} {loss : Loss}
    (loses : schema.Loses store v up loss) : schema.Loses after v up loss := by
  obtain ⟨⟨leaf, below⟩, mapping⟩ := loses
  obtain ⟨above, higher, _⟩ := Tree.at?_concat below
  have same : after.valueAt v up = store.valueAt v up := by
    refine Tree.valueAt_branch (fun rel fields name inner a there found here => ?_) higher
    refine Step.valueOf?_runAll (built.tame ⟨sanitize, false⟩ names store v)
      (fun step member => ?_) ran
    rw [Tree.agenda_eq_map] at member
    obtain ⟨node, listed, rfl⟩ := List.mem_map.mp member
    refine Tree.spares_stepAt built.distinct (built.nodup_entered shaped) there here
      (Tree.name_mem_of_lookup found) listed ?_
    rintro other rfl
    obtain ⟨fields', there', found'⟩ :=
      Tree.at?_concat ((Tree.mem_nodes_iff built.distinct).mp listed)
    rw [there] at there'
    cases there'
    rw [found] at found'
    cases found'
  exact ⟨⟨leaf, below⟩, same ▸ mapping⟩

private theorem check_leaf_lenient (built : schema.BuiltIn) {leaf : Leaf}
    (root : schema.root = .leaf leaf) {result : Value} {after : Store}
    (checked : schema.check ⟨sanitize, false⟩ v store = .ok result after) :
    schema.check ⟨sanitize, true⟩ v store = .ok result after := by
  have listed : leaf ∈ schema.root.leaves := by
    rw [root, Tree.leaves]
    exact List.mem_singleton_self leaf
  obtain ⟨c, rfl, made⟩ := built.leaves leaf listed
  have path : (top ⟨sanitize, true⟩).path = (top ⟨sanitize, false⟩).path := rfl
  rw [check, root, Tree.check_leaf] at checked ⊢
  cases called : (Leaf.checker c).call v (top ⟨sanitize, false⟩) store with
  | error failure between =>
    rw [called] at checked
    cases checked
  | ok r between =>
    rw [called] at checked
    have lenient : (Leaf.checker c).call v (top ⟨sanitize, true⟩) store = .ok r between :=
      made.made.check_lenient path rfl rfl rfl called
    rw [lenient]
    exact checked

/-- When fields with leaves are deleted or set to absent, what is left of a value that the strict
check accepts is accepted by the lenient check. Its result is the result of the strict check after
the same fields are deleted or set to absent there. -/
theorem check_dropped (built : schema.BuiltIn)
    (names : sanitize = true → schema.root.LeafNames fun name => '.' ∉ name.toList)
    (shaped : store.TreeShaped v) (fields : ∀ loss ∈ losses, ∃ up, schema.Loses store v up loss)
    (whole : schema.OptionsWhole losses store) {result : Value} {after : Store}
    (checked : schema.check ⟨sanitize, false⟩ v store = .ok result after) :
    (∀ loss ∈ losses, ∀ up, schema.Loses store v up loss → schema.Loses after result up loss) ∧
      ∃ after', schema.check ⟨sanitize, true⟩ v (store.lose losses) = .ok result after' ∧
        (after.lose losses).Resembles result after' result := by
  cases root : schema.root with
  | leaf leaf =>
    have lossless : losses = [] := by
      refine List.eq_nil_iff_forall_not_mem.mpr fun loss member => ?_
      obtain ⟨up, ⟨_, below⟩, _⟩ := fields loss member
      obtain ⟨_, higher, _⟩ := Tree.at?_concat below
      rw [root] at higher
      cases up <;> cases higher
    subst lossless
    exact ⟨nofun, after, check_leaf_lenient built root checked, fun _ => rfl⟩
  | branch described =>
    have nodup := built.nodup_entered shaped
    have left : (Tree.entered (schema.root.agenda (store.lose losses) [] none v)).Nodup := by
      rwa [entered_lose built shaped fields]
    obtain rfl := result_branch root checked
    have ran := (built.check_ok_iff names nodup after).mp ⟨_, checked⟩
    have one := built.keeps_early ⟨sanitize, false⟩ names (List.append_nil _).symm ran
    refine ⟨fun loss _ up loses => loses_after built names shaped ran loses, ?_⟩
    rw [Tree.agenda_eq_map] at ran
    obtain ⟨after', ran', trails⟩ :=
      runAll_lose built names shaped fields whole (List.append_nil _).symm ran
    have two := keeps_lose built names shaped fields (List.append_nil _).symm ran'
    rw [← Tree.agenda_eq_map] at ran'
    obtain ⟨result', checked'⟩ := (built.check_ok_iff names left after').mpr ran'
    rw [result_branch root checked'] at checked'
    refine ⟨after', checked', ?_⟩
    have clear : store.Clear [] result := by
      obtain ⟨l, rfl, held, _⟩ := shaped
      exact Store.clear_of_holds held (List.disjoint_nil_right _)
    exact trails.resembles_lose one two clear

theorem flaggedStore_optionsWhole (losses : List Loss) :
    (single "a" .mandatoryBoolean).OptionsWhole losses flaggedStore := by
  intro c member option held
  rw [leaves_single, List.mem_singleton] at member
  obtain rfl := Leaf.checker.inj member
  have atomic : ∃ a, option = .atom a := by
    obtain ⟨name, _, rfl⟩ := List.mem_map.mp held
    cases name <;> exact ⟨_, rfl⟩
  obtain ⟨a, rfl⟩ := atomic
  exact flaggedStore.clear_atom _ a

theorem mandatoryBoolean_names :
    (single "a" .mandatoryBoolean).root.LeafNames fun name => '.' ∉ name.toList :=
  Tree.leafNames_of_paths (single_builtIn "a" Checker.mandatoryBoolean_builtIn).distinct [["a"]] rfl
    (by decide)

theorem flaggedStore_loses :
    ∀ loss ∈ [Loss.mk 0 "a" .delete], ∃ up,
      (single "a" .mandatoryBoolean).Loses flaggedStore (.map .plain 0) up loss := by
  intro loss member
  rw [List.mem_singleton.mp member]
  exact ⟨[], ⟨.checker .mandatoryBoolean, rfl⟩, rfl⟩

theorem check_dropped_flagged :
    (single "a" .mandatoryBoolean).BuiltIn ∧
      ((single "a" .mandatoryBoolean).root.LeafNames fun name => '.' ∉ name.toList) ∧
      flaggedStore.TreeShaped (.map .plain 0) ∧
      (∀ loss ∈ [Loss.mk 0 "a" .delete], ∃ up,
        (single "a" .mandatoryBoolean).Loses flaggedStore (.map .plain 0) up loss) ∧
      (single "a" .mandatoryBoolean).OptionsWhole [Loss.mk 0 "a" .delete] flaggedStore ∧
      ∃ result after, (single "a" .mandatoryBoolean).check ⟨true, false⟩ (.map .plain 0)
          flaggedStore = .ok result after ∧
        (∀ loss ∈ [Loss.mk 0 "a" .delete], ∀ up,
          (single "a" .mandatoryBoolean).Loses flaggedStore (.map .plain 0) up loss →
            (single "a" .mandatoryBoolean).Loses after result up loss) ∧
        ∃ after', (single "a" .mandatoryBoolean).check ⟨true, true⟩ (.map .plain 0)
            (flaggedStore.lose [Loss.mk 0 "a" .delete]) = .ok result after' ∧
          (after.lose [Loss.mk 0 "a" .delete]).Resembles result after' result :=
  have built := single_builtIn "a" Checker.mandatoryBoolean_builtIn
  have names := mandatoryBoolean_names
  have shaped := flaggedStore_treeShaped
  have whole := flaggedStore_optionsWhole [Loss.mk 0 "a" .delete]
  ⟨built, names, shaped, flaggedStore_loses, whole, _, _, rfl,
    check_dropped built (fun _ => names) shaped flaggedStore_loses whole rfl⟩

def flagThenSharing : Schema where
  root := .branch [("a", .branch [("x", .leaf (.checker (.boolean {})))]),
    ("b", .leaf (.checker oneMapping))]

def sharedFlag : Store where
  sequences := #[[.map .plain 1], [.map .plain 2]]
  mappings := #[[(.text "a", .map .plain 1), (.text "b", .seq .list 1)],
    [(.text "x", .bool true)], [(.text "x", .bool true)]]

theorem flagThenSharing_builtIn : flagThenSharing.BuiltIn := by
  refine ⟨⟨by decide, ⟨by simp, trivial, trivial⟩, trivial, trivial⟩, fun leaf member => ?_⟩
  have leaves : flagThenSharing.root.leaves = [.checker (.boolean {}), .checker oneMapping] := rfl
  rw [leaves, List.mem_pair] at member
  rcases member with rfl | rfl
  · exact ⟨_, rfl, Checker.boolean_builtIn⟩
  · exact ⟨_, rfl, oneMapping_builtIn⟩

theorem flagThenSharing_names : flagThenSharing.root.LeafNames fun name => '.' ∉ name.toList :=
  Tree.leafNames_of_paths flagThenSharing_builtIn.distinct [["a", "x"], ["b"]] rfl (by decide)

theorem sharedFlag_treeShaped : sharedFlag.TreeShaped (.map .plain 0) := by
  refine ⟨.map .plain 0 [(.atom (.text "a"), .map .plain 1 [(.atom (.text "x"),
    .atom (.bool true))]), (.atom (.text "b"), .seq .list 1 [.map .plain 2 [(.atom (.text "x"),
      .atom (.bool true))]])], rfl, ?_, by simp⟩
  simp [Store.holds_map, Store.holds_seq, sharedFlag, Store.entries, Store.items,
    Layout.entryValue, Layout.value]

theorem sharedFlag_loses :
    ∀ loss ∈ [Loss.mk 1 "x" .clear], ∃ up,
      flagThenSharing.Loses sharedFlag (.map .plain 0) up loss := by
  intro loss member
  rw [List.mem_singleton.mp member]
  exact ⟨["a"], ⟨.checker (.boolean {}), rfl⟩, rfl⟩

private theorem flagThenSharing_accepts : ∃ result after,
    flagThenSharing.check ⟨false, false⟩ (.map .plain 0) sharedFlag = .ok result after := by
  have equal : (sharedFlag.freeze (.map .plain 2) == sharedFlag.freeze (.map .plain 1)) = true := by
    change Data.same (.map .plain [(.text "x", .atom (.bool true))])
      (.map .plain [(.text "x", .atom (.bool true))]) = true
    simp [Data.same, Data.entriesWithin, Atom.same]
  have steps : Step.runAll Leaf.call (top ⟨false, false⟩)
      (flagThenSharing.root.agenda sharedFlag [] none (.map .plain 0)) sharedFlag =
        Step.runAll Leaf.call (top ⟨false, false⟩)
          [.ask ["b"] (some (0, "b")) (.seq .list 1) (.checker oneMapping)] sharedFlag := rfl
  have answered : Leaf.call (.checker oneMapping) (.seq .list 1)
      ((top ⟨false, false⟩).descend ["b"]) sharedFlag =
        .ok (.seq .list 2) (sharedFlag.newSeq .list [.map .plain 1]).2 :=
    (check_oneMapping rfl _).trans (if_pos equal)
  rw [exists_comm]
  refine ⟨(sharedFlag.newSeq .list [.map .plain 1]).2, ?_⟩
  rw [flagThenSharing_builtIn.check_ok_iff (names_of_plain rfl)
    (flagThenSharing_builtIn.nodup_entered sharedFlag_treeShaped), steps, Step.runAll_cons,
    Step.run_ask, answered]
  rfl

private theorem flagThenSharing_refuses :
    flagThenSharing.check ⟨false, true⟩ (.map .plain 0)
        (sharedFlag.lose [Loss.mk 1 "x" .clear]) =
      .error (.invalid "b") (sharedFlag.lose [Loss.mk 1 "x" .clear]) := by
  let left := sharedFlag.lose [Loss.mk 1 "x" .clear]
  have absent : Atom.same (.bool true) .null = false := rfl
  have differs : ¬(left.freeze (.map .plain 2) == left.freeze (.map .plain 1)) = true := by
    change ¬Data.same (.map .plain [(.text "x", .atom (.bool true))])
      (.map .plain [(.text "x", .atom .null)]) = true
    simp [Data.same, Data.entriesWithin, absent]
  have refused : Leaf.call (.checker oneMapping) (.seq .list 1)
      ((top ⟨false, true⟩).descend ["b"]) left = .error (.invalid "b") left :=
    (check_oneMapping rfl _).trans (if_neg differs)
  have nodup : (Tree.entered (flagThenSharing.root.agenda left [] none (.map .plain 0))).Nodup := by
    decide
  have steps : Step.runAll Leaf.call (top ⟨false, true⟩)
      (flagThenSharing.root.agenda left [] none (.map .plain 0)) left =
        Step.runAll Leaf.call (top ⟨false, true⟩)
          [.ask ["b"] (some (0, "b")) (.seq .list 1) (.checker oneMapping)] left := rfl
  rw [flagThenSharing_builtIn.check_error_iff (names_of_plain rfl) nodup, steps, Step.runAll_cons,
    Step.run_ask, refused]

/-- A mapping that an option holds too has lost a value when it is compared with another one. Then
the lenient check refuses what is left of a value that the strict check accepts. -/
theorem check_dropped_compared : ¬∀ (schema : Schema) (store : Store) (v : Value)
    (losses : List Loss) (sanitize : Bool), schema.BuiltIn →
      (schema.root.LeafNames fun name => '.' ∉ name.toList) → store.TreeShaped v →
        (∀ loss ∈ losses, ∃ up, schema.Loses store v up loss) → ∀ result after,
          schema.check ⟨sanitize, false⟩ v store = .ok result after →
            ∃ after', schema.check ⟨sanitize, true⟩ v (store.lose losses) = .ok result after' ∧
              (after.lose losses).Resembles result after' result := by
  intro drops
  obtain ⟨result, after, accepted⟩ := flagThenSharing_accepts
  obtain ⟨after', checked, _⟩ := drops flagThenSharing sharedFlag (.map .plain 0)
    [Loss.mk 1 "x" .clear] false flagThenSharing_builtIn flagThenSharing_names
    sharedFlag_treeShaped sharedFlag_loses result after accepted
  rw [flagThenSharing_refuses] at checked
  cases checked

end Schema

end Assay
