import Assay.Proofs.Location
import Assay.Proofs.Trial

/-!
Independence: a check sees nothing of a value but what the schema describes. Two values with the
same described contents may have their keys in different orders and other keys beside them; the
checks of both fail alike or give values that correspond. This takes that no option of a checker
holds a mapping that one of the checks changes, for then an exact value changes with it.
-/

set_option autoImplicit false
set_option relaxedAutoImplicit false

namespace Assay

/-- Values in two stores that are equal as mappings: they have the same contents, or they are
mappings of one kind that have the same texts for keys, in any order, and values under them that
correspond. -/
inductive Store.Corresponds (store store' : Store) : Value → Value → Prop
  | contents {v v' : Value} (like : store.Resembles v store' v') : Corresponds store store' v v'
  | mapping {kind : MapKind} {a a' : Address}
      (texts : ∀ entry ∈ store.entries a, ∃ name, entry.1 = .text name)
      (texts' : ∀ entry ∈ store'.entries a', ∃ name, entry.1 = .text name)
      (keys : ∀ name, ((store'.entries a').valueOf? name).isSome =
        ((store.entries a).valueOf? name).isSome)
      (values : ∀ name w w', (store.entries a).valueOf? name = some w →
        (store'.entries a').valueOf? name = some w' → Corresponds store store' w w') :
      Corresponds store store' (.map kind a) (.map kind a')

/-- Both values are mappings of one kind that can be changed, or neither is a mapping that can. -/
def Value.SameMapping (v v' : Value) : Prop :=
  (v.fields? = none ∧ v'.fields? = none) ∨
    ∃ kind a a', v = .map kind a ∧ v' = .map kind a' ∧ v.fields? = some a ∧ v'.fields? = some a'

/-- Two runs give what goes together, or fail alike. -/
inductive Together {α : Type} (S : α → Store → α → Store → Prop) :
    EStateM.Result Failure Store α → EStateM.Result Failure Store α → Prop
  | ok {r r' : α} {after after' : Store} (results : S r after r' after') :
      Together S (.ok r after) (.ok r' after')
  | error {failure : Failure} {after after' : Store} :
      Together S (.error failure after) (.error failure after')

namespace Together

variable {α : Type} {S : α → Store → α → Store → Prop}
  {x x' : EStateM.Result Failure Store α}

theorem error_or_ok (together : Together S x x') :
    (∃ failure after after', x = .error failure after ∧ x' = .error failure after') ∨
      ∃ r after r' after', x = .ok r after ∧ x' = .ok r' after' ∧ S r after r' after' := by
  cases together with
  | ok results => exact Or.inr ⟨_, _, _, _, rfl, rfl, results⟩
  | error => exact Or.inl ⟨_, _, _, rfl, rfl⟩

theorem imp {S' : α → Store → α → Store → Prop} (together : Together S x x')
    (follows : ∀ r after r' after', x = .ok r after → x' = .ok r' after' → S r after r' after' →
      S' r after r' after') : Together S' x x' := by
  cases together with
  | ok results => exact .ok (follows _ _ _ _ rfl rfl results)
  | error => exact .error

end Together

namespace Schema

/-- Two values have the same described contents: there are mappings of one kind at the path of a
branch in both or in neither, a described field is there in both or in neither, and the values at
the path of a leaf have the same contents. -/
structure Concur (schema : Schema) (store : Store) (v : Value) (store' : Store) (v' : Value) :
    Prop where
  branches : ∀ path fields, schema.root.at? path = some (.branch fields) →
    (store.valueAt v path).SameMapping (store'.valueAt v' path)
  fields : ∀ path fields a a' name, schema.root.at? path = some (.branch fields) →
    (store.valueAt v path).fields? = some a → (store'.valueAt v' path).fields? = some a' →
      name ∈ fields.map Prod.fst →
        ((store'.entries a').valueOf? name).isSome = ((store.entries a).valueOf? name).isSome
  leaves : ∀ path leaf, schema.root.at? path = some (.leaf leaf) →
    store.Resembles (store.valueAt v path) store' (store'.valueAt v' path)

/-- A check changes no mapping that an option of a checker holds, as far as a leaf that is called
can see it, and none for good when values may be replaced. -/
structure SparesOptions (schema : Schema) (mode : Mode) (v : Value) (store : Store) : Prop where
  calls : ∀ call ∈ schema.calls mode v store, schema.OptionsKept store call.store
  result : mode.sanitize = true → ∀ r after, schema.check mode v store = .ok r after →
    schema.OptionsKept store after

/-- Two values with the same described contents, and the mode in which they are checked. What the
options of the checkers hold has the same contents for both. -/
private structure Peers (schema : Schema) where
  left : Trial schema
  right : Trial schema
  mode : Mode
  concur : schema.Concur left.store left.value right.store right.value
  options : ∀ c, .checker c ∈ schema.root.leaves → ∀ option ∈ c.holdings,
    left.store.Resembles option right.store option

namespace Peers

variable {schema : Schema} (peers : Peers schema)

private inductive Handed (now now' : Store) : Value → Value → Prop
  | atom (a : Atom) : Handed now now' (.atom a) (.atom a)
  | leaf {path : List String} {leaf : Leaf} (there : schema.root.at? path = some (.leaf leaf))
      (unlike : (peers.left.given path).fields? = none)
      (unlike' : (peers.right.given path).fields? = none) :
      Handed now now' (peers.left.given path) (peers.right.given path)
  | list {c : Checker} {a a' : Address} (sanitize : peers.mode.sanitize = true)
      (listed : .checker c ∈ schema.root.leaves) (held : ∀ w ∈ now.items a, w ∈ c.holdings)
      (same : now'.items a' = now.items a) (bound : a < now.sequences.size)
      (bound' : a' < now'.sequences.size) : Handed now now' (.seq .list a) (.seq .list a')

variable {peers} {now now' after after' : Store} {w w' : Value}

private theorem Handed.no_mapping (handed : peers.Handed now now' w w') :
    w.fields? = none ∧ w'.fields? = none := by
  cases handed with
  | atom a => exact ⟨rfl, rfl⟩
  | leaf _ unlike unlike' => exact ⟨unlike, unlike'⟩
  | list => exact ⟨rfl, rfl⟩

private theorem Handed.later {touched touched' : List Address}
    (handed : peers.Handed now now' w w') (kept : Store.Keeps touched now after)
    (kept' : Store.Keeps touched' now' after') : peers.Handed after after' w w' := by
  cases handed with
  | atom a => exact .atom a
  | leaf there unlike unlike' => exact .leaf there unlike unlike'
  | list sanitize listed held same bound bound' =>
    refine .list sanitize listed ?_ ?_ (Nat.lt_of_lt_of_le bound kept.sequences)
      (Nat.lt_of_lt_of_le bound' kept'.sequences)
    · rwa [kept.items _ bound]
    · rw [kept.items _ bound, kept'.items _ bound', same]

section

variable (kept : peers.left.During now) (kept' : peers.right.During now')

include kept kept'

private theorem leaf_akin {path : List String} {leaf : Leaf}
    (there : schema.root.at? path = some (.leaf leaf)) :
    now.Resembles (peers.left.given path) now' (peers.right.given path) ∧
      now.Akin now' (peers.left.given path) (peers.right.given path) := by
  have like : peers.left.store.Resembles (peers.left.given path) peers.right.store
      (peers.right.given path) := peers.concur.leaves path leaf there
  obtain ⟨l, value, held, still⟩ := Trial.leaf_during kept there
  obtain ⟨l', value', held', still'⟩ := Trial.leaf_during kept' there
  rw [← value, ← value'] at like ⊢
  have alike := (still.symm.trans like).trans still'
  exact ⟨alike, Store.akin_of_holds held alike
    (Store.clear_of_holds held' (List.disjoint_nil_right _))⟩

variable (spared : peers.left.Spared now) (spared' : peers.right.Spared now')

include spared spared'

private theorem option_kin {c : Checker} (listed : .checker c ∈ schema.root.leaves)
    {option : Value} (held : option ∈ c.holdings) : now.Kin now' option option := by
  obtain ⟨still, clear⟩ := Trial.option_during kept spared listed held
  obtain ⟨still', clear'⟩ := Trial.option_during kept' spared' listed held
  exact ⟨(still.symm.trans (peers.options c listed option held)).trans still', clear, clear',
    Or.inr rfl⟩

private theorem items_kin {c : Checker} (listed : .checker c ∈ schema.root.leaves)
    {items : List Value} (held : ∀ w ∈ items, w ∈ c.holdings) :
    List.Forall₂ (now.Kin now') items items :=
  List.forall₂_same.mpr fun w member => option_kin kept kept' spared spared' listed (held w member)

private theorem Handed.akin (handed : peers.Handed now now' w w') : now.Akin now' w w' := by
  cases handed with
  | atom a => exact .atom a
  | leaf there => exact (leaf_akin kept kept' there).2
  | list _ listed held same =>
    refine .seq ?_
    rw [same]
    exact items_kin kept kept' spared spared' listed held

omit spared spared' in
private theorem Handed.resembles (handed : peers.Handed now now' w w')
    (spared : peers.mode.sanitize = true → peers.left.Spared now)
    (spared' : peers.mode.sanitize = true → peers.right.Spared now') :
    now.Resembles w now' w' := by
  cases handed with
  | atom a => exact Store.resembles_atom now now' a
  | leaf there => exact (leaf_akin kept kept' there).1
  | list sanitize listed held same =>
    refine Store.resembles_seq ?_
    rw [same]
    exact (items_kin kept kept' (spared sanitize) (spared' sanitize) listed held).imp
      fun _ _ kin => kin.like

end

variable (peers)

/-- Two values at a path correspond in all later stores in which the mappings at the path and below
it are as they are now. -/
private def Lasting (path : List String) (now now' : Store) (w w' : Value) : Prop :=
  ∀ after after', Store.Keeps (peers.left.outside path) now after →
    Store.Keeps (peers.right.outside path) now' after' →
      (peers.mode.sanitize = true → peers.left.Spared after) →
        (peers.mode.sanitize = true → peers.right.Spared after') → after.Corresponds after' w w'

/-- How the values of a field of a branch stand while some fields are still to be checked: they are
those that were given, what the checks have put there, or mappings that have been checked. -/
private inductive Standing (path rest : List String) (now now' : Store) (name : String) :
    Value → Value → Prop
  | given {t : Tree Leaf} (there : schema.root.at? (path ++ [name]) = some t)
      (waiting : ∀ fields, t = .branch fields → name ∈ rest) :
      Standing path rest now now' name (peers.left.given (path ++ [name]))
        (peers.right.given (path ++ [name]))
  | handed {w w' : Value} (handed : peers.Handed now now' w w') :
      Standing path rest now now' name w w'
  | finished {w w' : Value} (done : name ∉ rest)
      (lasting : peers.Lasting (path ++ [name]) now now' w w') :
      Standing path rest now now' name w w'

/-- Two checks that have entered the mappings of a branch, with the same fields to be checked. -/
private structure Progress (peers : Peers schema) (path : List String) (a a' : Address)
    (rest : List String) (now now' : Store) : Prop where
  underway : peers.left.Underway path a rest now
  underway' : peers.right.Underway path a' rest now'
  fields : ∀ name, Option.Rel (peers.Standing path rest now now' name)
    ((now.entries a).valueOf? name) ((now'.entries a').valueOf? name)

variable {peers : Peers schema} {now now' after after' : Store} {w w' : Value}
  {path rest : List String} {name : String} {touched touched' : List Address}

private theorem Lasting.later (lasting : peers.Lasting path now now' w w')
    (kept : Store.Keeps touched now after) (kept' : Store.Keeps touched' now' after')
    (apart : touched ⊆ peers.left.outside path) (apart' : touched' ⊆ peers.right.outside path) :
    peers.Lasting path after after' w w' :=
  fun last last' still still' => lasting last last' ((kept.mono apart).trans still)
    ((kept'.mono apart').trans still')

private theorem Standing.later (standing : peers.Standing path rest now now' name w w')
    (kept : Store.Keeps touched now after) (kept' : Store.Keeps touched' now' after')
    (apart : name ∉ rest → touched ⊆ peers.left.outside (path ++ [name]))
    (apart' : name ∉ rest → touched' ⊆ peers.right.outside (path ++ [name])) :
    peers.Standing path rest after after' name w w' := by
  cases standing with
  | given there waiting => exact .given there waiting
  | handed handed => exact .handed (handed.later kept kept')
  | finished done lasting =>
    exact .finished done (lasting.later kept kept' (apart done) (apart' done))

private theorem Standing.next {first : String}
    (standing : peers.Standing path (first :: rest) now now' name w w')
    (checked : name = first → ∀ fields, schema.root.at? (path ++ [name]) ≠ some (.branch fields)) :
    peers.Standing path rest now now' name w w' := by
  cases standing with
  | given there waiting =>
    refine .given there fun fields branch => ?_
    subst branch
    rcases List.mem_cons.mp (waiting fields rfl) with here | later
    · exact absurd there (checked here fields)
    · exact later
  | handed handed => exact .handed handed
  | finished done lasting => exact .finished (List.not_mem_of_not_mem_cons done) lasting

private theorem rel_mono {α β : Type} {R S : α → β → Prop} {x : Option α} {y : Option β}
    (related : Option.Rel R x y) (weaker : ∀ a b, R a b → S a b) : Option.Rel S x y := by
  cases related with
  | none => exact .none
  | some here => exact .some (weaker _ _ here)

private theorem isSome_of_rel {α β : Type} {R : α → β → Prop} {x : Option α} {y : Option β}
    (related : Option.Rel R x y) : y.isSome = x.isSome := by
  cases related with
  | none => rfl
  | some => rfl

variable {a a' : Address} {fields : List (String × Tree Leaf)}

private theorem Progress.start (enters : peers.left.Enters path fields a)
    (enters' : peers.right.Enters path fields a') (awaits : peers.left.Awaits path now)
    (awaits' : peers.right.Awaits path now') :
    peers.Progress path a a' (fields.map Prod.fst)
      (now.setEntries a ((now.entries a).restrict (fields.map Prod.fst)))
      (now'.setEntries a' ((now'.entries a').restrict (fields.map Prod.fst))) where
  underway := .start enters awaits _
  underway' := .start enters' awaits' _
  fields name := by
    rw [Store.entries_pruned, Store.entries_pruned, awaits.fresh a enters.mem_inside,
      awaits'.fresh a' enters'.mem_inside]
    by_cases described : name ∈ fields.map Prod.fst
    · obtain ⟨⟨_, t⟩, member, rfl⟩ := List.mem_map.mp described
      have names := (Tree.distinct_at? peers.left.built.distinct enters.branch).1
      have below := Tree.at?_field enters.branch (Tree.lookup_of_mem names member)
      have both := peers.concur.fields path fields a a' _ enters.branch enters.mapping
        enters'.mapping described
      rw [Entries.valueOf?_restrict described, Entries.valueOf?_restrict described]
      cases found : (peers.left.store.entries a).valueOf? _ with
      | none =>
        rw [found, Option.isSome_none, Option.isSome_eq_false_iff, Option.isNone_iff_eq_none]
          at both
        rw [both]
        exact .none
      | some w =>
        rw [found, Option.isSome_some, Option.isSome_iff_exists] at both
        obtain ⟨w', found'⟩ := both
        rw [found', ← Store.valueAt_of_valueOf? enters.mapping found,
          ← Store.valueAt_of_valueOf? enters'.mapping found']
        exact .some (.given below fun _ _ => described)
    · rw [Entries.valueOf?_restrict_of_not_mem described,
        Entries.valueOf?_restrict_of_not_mem described]
      exact .none

private theorem Progress.next (progress : peers.Progress path a a' (name :: rest) now now')
    (checked : ∀ fields, schema.root.at? (path ++ [name]) ≠ some (.branch fields)) :
    peers.Progress path a a' rest now now' where
  underway := progress.underway.next
  underway' := progress.underway'.next
  fields other := rel_mono (progress.fields other) fun _ _ standing =>
    standing.next fun same => same ▸ checked

private theorem Progress.call (progress : peers.Progress path a a' rest now now')
    (kept : Store.Keeps [] now after) (kept' : Store.Keeps [] now' after') :
    peers.Progress path a a' rest after after' where
  underway := progress.underway.call kept
  underway' := progress.underway'.call kept'
  fields other := by
    rw [kept.entries a List.not_mem_nil, kept'.entries a' List.not_mem_nil]
    exact rel_mono (progress.fields other) fun _ _ standing =>
      standing.later kept kept' (fun _ => List.nil_subset _) (fun _ => List.nil_subset _)

section

variable (enters : peers.left.Enters path fields a) (enters' : peers.right.Enters path fields a')

include enters enters'

private theorem Progress.put (progress : peers.Progress path a a' rest now now')
    (handed : peers.Handed now now' w w') (key : String) :
    peers.Progress path a a' rest (now.setEntries a ((now.entries a).put key w))
      (now'.setEntries a' ((now'.entries a').put key w')) where
  underway := progress.underway.put enters key w
  underway' := progress.underway'.put enters' key w'
  fields other := by
    have kept := Store.keeps_setEntries now a ((now.entries a).put key w)
    have kept' := Store.keeps_setEntries now' a' ((now'.entries a').put key w')
    have bound : a < now.mappings.size := progress.underway.kept.mappings ▸ enters.bound.2
    have bound' : a' < now'.mappings.size := progress.underway'.kept.mappings ▸ enters'.bound.2
    rw [Store.entries_setEntries_same now bound, Store.entries_setEntries_same now' bound']
    -- The key is the last part of a name with dots, so any field may be overwritten.
    by_cases same : other = key
    · rw [same, Entries.valueOf?_put_same, Entries.valueOf?_put_same]
      exact .some (.handed (handed.later kept kept'))
    · rw [Entries.valueOf?_put_ne _ same, Entries.valueOf?_put_ne _ same]
      exact rel_mono (progress.fields other) fun _ _ standing => standing.later kept kept'
        (fun _ => List.cons_subset.mpr ⟨enters.mem_above other, List.nil_subset _⟩)
        (fun _ => List.cons_subset.mpr ⟨enters'.mem_above other, List.nil_subset _⟩)

private theorem Progress.below (progress : peers.Progress path a a' (name :: rest) now now')
    (other : name ∉ rest)
    (kept : Store.Keeps (peers.left.inside (path ++ [name])) now after)
    (kept' : Store.Keeps (peers.right.inside (path ++ [name])) now' after')
    (here : (now.entries a).valueOf? name = some w)
    (here' : (now'.entries a').valueOf? name = some w')
    (lasting : peers.Lasting (path ++ [name]) after after' w w') :
    peers.Progress path a a' rest after after' where
  underway := progress.underway.next.below enters other kept
  underway' := progress.underway'.next.below enters' other kept'
  fields key := by
    rw [kept.entries a (enters.not_mem_below name), kept'.entries a' (enters'.not_mem_below name)]
    by_cases same : key = name
    · rw [same, here, here']
      exact .some (.finished other lasting)
    · refine rel_mono (progress.fields key) fun _ _ standing => ?_
      exact (standing.later kept kept'
        (fun _ => Trial.inside_subset_outside (Ne.symm same))
        (fun _ => Trial.inside_subset_outside (Ne.symm same))).next (absurd · same)

end

private theorem Progress.get_cases (progress : peers.Progress path a a' (name :: rest) now now') :
    peers.Handed now now' ((now.entries a).get name) ((now'.entries a').get name) ∨
      (now.entries a).valueOf? name = some (peers.left.given (path ++ [name])) ∧
        (now'.entries a').valueOf? name = some (peers.right.given (path ++ [name])) := by
  have standing := progress.fields name
  rw [Entries.get, Entries.get]
  generalize (now.entries a).valueOf? name = value, (now'.entries a').valueOf? name = value'
    at standing ⊢
  cases standing with
  | none => exact Or.inl (.atom .null)
  | some standing =>
    cases standing with
    | given => exact Or.inr ⟨rfl, rfl⟩
    | handed handed => exact Or.inl handed
    | finished done => exact absurd List.mem_cons_self done

private def Advance {α : Type} (peers : Peers schema) (path : List String) (a a' : Address)
    (rest : List String) (now now' : Store) (_ : α) (after : Store) (_ : α) (after' : Store) :
    Prop :=
  peers.Progress path a a' rest after after' ∧
    Store.Keeps (peers.left.inside path) now after ∧
      Store.Keeps (peers.right.inside path) now' after'

private theorem sanitize_of_written {r : Value} {mode : Mode}
    (written : ¬(decide (r = .null) || !mode.sanitize) = true) : mode.sanitize = true := by
  rw [Bool.or_eq_true, not_or, Bool.not_eq_true, Bool.not_eq_true, Bool.not_eq_false'] at written
  exact written.2

private theorem handed_of_yields {c : Checker} {r r' : Value}
    (listed : .checker c ∈ schema.root.leaves) (sanitize : peers.mode.sanitize = true)
    (handed : peers.Handed now now' w w')
    (yields : c.Yields now now' w w' r after r' after') : peers.Handed after after' r r' := by
  cases yields with
  | kept => exact handed
  | atom b => exact .atom b
  | @list items held =>
    have new := now.items_newSeq .list items
    have new' := now'.items_newSeq .list items
    refine .list sanitize listed ?_ (new'.trans new.symm) ?_ ?_
    · rwa [new]
    · simp [Store.newSeq]
    · simp [Store.newSeq]

section

variable (enters : peers.left.Enters path fields a) (enters' : peers.right.Enters path fields a')

include enters enters'

private theorem Progress.stored (progress : peers.Progress path a a' rest now now') {r r' : Value}
    {ctx : Context} (modes : ctx.mode = peers.mode) (absent : r' = .null ↔ r = .null)
    (handed : peers.mode.sanitize = true → peers.Handed now now' r r') :
    peers.Progress path a a' rest (Tree.stored ctx (some a) r now)
      (Tree.stored ctx (some a') r' now') := by
  simp only [Tree.stored, decide_eq_decide.mpr absent, modes]
  split
  · exact progress
  · rename_i written
    exact progress.put enters enters' (handed (sanitize_of_written written)) ctx.key

private theorem Progress.leaf (progress : peers.Progress path a a' (name :: rest) now now')
    {leaf : Leaf} (there : schema.root.at? (path ++ [name]) = some (.leaf leaf))
    (spared : peers.left.Spared now) (spared' : peers.right.Spared now') {ctx : Context}
    (modes : ctx.mode = peers.mode) :
    Together (peers.Advance path a a' rest now now')
      (Tree.check Leaf.call (.leaf leaf) ((now.entries a).get name) ctx (some a) now)
      (Tree.check Leaf.call (.leaf leaf) ((now'.entries a').get name) ctx (some a') now') := by
  have kept := progress.underway.kept
  have kept' := progress.underway'.kept
  have listed := Tree.mem_leaves_of_at? there
  obtain ⟨c, rfl, made⟩ := peers.left.built.leaves leaf listed
  have like : ∀ option ∈ c.holdings, now.Resembles option now' option := fun option held =>
    (option_kin kept kept' spared spared' listed held).like
  have akin : now.Akin now' ((now.entries a).get name) ((now'.entries a').get name) := by
    rcases progress.get_cases with handed | ⟨here, here'⟩
    · exact handed.akin kept kept' spared spared'
    · rw [Entries.get, Entries.get, here, here', Option.getD_some, Option.getD_some]
      exact (leaf_akin kept kept' there).2
  rw [Tree.check_leaf, Tree.check_leaf, Leaf.call, Leaf.call]
  rcases made.made.check_akin akin like ctx with
    ⟨failure, refused, refused'⟩ | ⟨r, after, r', after', called, called', unlike, yields⟩
  · rw [refused, refused']
    exact .error
  · rw [called, called']
    obtain ⟨still, still'⟩ := yields.keeps
    have passed := (progress.call still still').next fun fields branch => by
      rw [there] at branch
      cases branch
    refine .ok ⟨passed.stored enters enters' modes (yields.null_iff akin) fun sanitize => ?_,
      (still.mono (List.nil_subset _)).trans (enters.keeps_stored ctx r after),
      (still'.mono (List.nil_subset _)).trans (enters'.keeps_stored ctx r' after')⟩
    refine handed_of_yields listed sanitize ?_ yields
    rcases progress.get_cases with handed | ⟨here, here'⟩
    · exact handed
    · rw [Entries.get, Entries.get, here, here', Option.getD_some, Option.getD_some] at unlike ⊢
      exact .leaf there unlike.1 unlike.2

variable (peers)

private def Settled (path : List String) (now now' : Store) (r : Value) (after : Store)
    (r' : Value) (after' : Store) : Prop :=
  (r = peers.left.given path ∧ r' = peers.right.given path) ∧
    (Store.Keeps (peers.left.inside path) now after ∧
      Store.Keeps (peers.right.inside path) now' after') ∧ peers.Lasting path after after' r r'

private def Settles (fields : List (String × Tree Leaf)) : Prop :=
  ∀ (path : List String) (ctx : Context) (parent parent' : Option Address) (now now' : Store),
    schema.root.at? path = some (.branch fields) → ctx.mode = peers.mode →
      peers.left.Awaits path now → peers.right.Awaits path now' →
        (∀ call ∈ Tree.calls Leaf.call (.branch fields) path (peers.left.given path) ctx parent now,
          peers.left.Spared call.store) →
          (∀ call ∈ Tree.calls Leaf.call (.branch fields) path (peers.right.given path) ctx parent'
              now', peers.right.Spared call.store) →
            Together (peers.Settled path now now')
              (Tree.check Leaf.call (.branch fields) (peers.left.given path) ctx parent now)
              (Tree.check Leaf.call (.branch fields) (peers.right.given path) ctx parent' now')

variable {peers}

private theorem Progress.branch (progress : peers.Progress path a a' (name :: rest) now now')
    (other : name ∉ rest) {inner : List (String × Tree Leaf)}
    (there : schema.root.at? (path ++ [name]) = some (.branch inner))
    (settles : peers.Settles inner) {ctx : Context} (modes : ctx.mode = peers.mode)
    (spared : ∀ call ∈ Tree.calls Leaf.call (.branch inner) (path ++ [name])
      ((now.entries a).get name) ctx (some a) now, peers.left.Spared call.store)
    (spared' : ∀ call ∈ Tree.calls Leaf.call (.branch inner) (path ++ [name])
      ((now'.entries a').get name) ctx (some a') now', peers.right.Spared call.store) :
    Together (peers.Advance path a a' rest now now')
      (Tree.check Leaf.call (.branch inner) ((now.entries a).get name) ctx (some a) now)
      (Tree.check Leaf.call (.branch inner) ((now'.entries a').get name) ctx (some a') now') := by
  rcases progress.get_cases with handed | ⟨here, here'⟩
  · obtain ⟨unlike, unlike'⟩ := handed.no_mapping
    rw [Tree.check_branch, Tree.check_branch, unlike, unlike']
    exact .error
  · rw [Entries.get, here, Option.getD_some] at spared ⊢
    rw [Entries.get, here', Option.getD_some] at spared' ⊢
    refine (settles _ ctx (some a) (some a') now now' there modes progress.underway.awaits
      progress.underway'.awaits spared spared').imp ?_
    rintro r after r' after' - - ⟨⟨rfl, rfl⟩, ⟨kept, kept'⟩, lasting⟩
    have below := List.prefix_append path [name]
    exact ⟨progress.below enters enters' other kept kept' here here' lasting,
      kept.mono (Trial.inside_mono below), kept'.mono (Trial.inside_mono below)⟩

/-- Two checks of the fields of a branch go on alike. -/
private theorem check_fields (settles : ∀ field ∈ fields, ∀ inner, field.2 = .branch inner →
      peers.Settles inner) {ctx : Context} (modes : ctx.mode = peers.mode)
    {described : List (String × Tree Leaf)} (part : described ⊆ fields)
    (names : (described.map Prod.fst).Nodup)
    (progress : peers.Progress path a a' (described.map Prod.fst) now now')
    (spared : ∀ call ∈ Tree.fieldCalls Leaf.call described path a ctx now,
      peers.left.Spared call.store)
    (spared' : ∀ call ∈ Tree.fieldCalls Leaf.call described path a' ctx now',
      peers.right.Spared call.store) :
    Together (peers.Advance path a a' [] now now')
      (Tree.checkFields Leaf.call described a ctx now)
      (Tree.checkFields Leaf.call described a' ctx now') := by
  -- The first field is dealt with by the kind of its tree; the rest is checked in the stores that
  -- are left then.
  induction described generalizing now now' with
  | nil => exact .ok ⟨progress, Store.Keeps.refl _ now, Store.Keeps.refl _ now'⟩
  | cons field rest ih =>
    obtain ⟨name, t⟩ := field
    obtain ⟨member, others⟩ := List.cons_subset.mp part
    rw [List.map_cons, List.nodup_cons] at names
    rw [Tree.fieldCalls] at spared spared'
    have described := (Tree.distinct_at? peers.left.built.distinct enters.branch).1
    have there := Tree.at?_field enters.branch (Tree.lookup_of_mem described member)
    have first : Together (peers.Advance path a a' (rest.map Prod.fst) now now')
        (Tree.check Leaf.call t ((now.entries a).get name) (ctx.child name) (some a) now)
        (Tree.check Leaf.call t ((now'.entries a').get name) (ctx.child name) (some a') now') := by
      have early := fun call inside => spared call (List.mem_append_left _ inside)
      have early' := fun call inside => spared' call (List.mem_append_left _ inside)
      cases t with
      | leaf leaf =>
        rw [Tree.calls] at early early'
        exact progress.leaf enters enters' there (early _ (List.mem_singleton_self _))
          (early' _ (List.mem_singleton_self _)) modes
      | branch inner =>
        exact progress.branch enters enters' names.1 there (settles _ member inner rfl) modes early
          early'
    rw [Tree.checkFields_cons, Tree.checkFields_cons, Tree.discard_eq, Tree.discard_eq]
    rw [Tree.discard_eq] at spared spared'
    rcases first.error_or_ok with
      ⟨failure, after, after', failed, failed'⟩ |
        ⟨r, after, r', after', checked, checked', passed, kept, kept'⟩
    · rw [failed, failed']
      exact .error
    · rw [checked] at spared ⊢
      rw [checked'] at spared' ⊢
      refine (ih others names.2 passed
        (fun call inside => spared call (List.mem_append_right _ inside))
        (fun call inside => spared' call (List.mem_append_right _ inside))).imp ?_
      rintro _ last _ last' - - ⟨final, further, further'⟩
      exact ⟨final, kept.trans further, kept'.trans further'⟩

private theorem Progress.lasting (progress : peers.Progress path a a' [] now now')
    {kind : MapKind} (shape : peers.left.given path = .map kind a)
    (shape' : peers.right.given path = .map kind a') :
    peers.Lasting path now now' (peers.left.given path) (peers.right.given path) := by
  intro last last' kept kept' spared spared'
  have during := progress.underway.kept.trans (kept.mono Trial.outside_subset_entered)
  have during' := progress.underway'.kept.trans (kept'.mono Trial.outside_subset_entered)
  have same := kept.entries a enters.not_mem_outside
  have same' := kept'.entries a' enters'.not_mem_outside
  rw [shape, shape']
  refine .mapping ?_ ?_ (fun name => ?_) fun name w w' found found' => ?_
  · rw [same]
    exact progress.underway.texts
  · rw [same']
    exact progress.underway'.texts
  · rw [same, same']
    exact isSome_of_rel (progress.fields name)
  · have standing := progress.fields name
    rw [← same, ← same', found, found'] at standing
    cases standing with
    | some standing =>
      cases standing with
      | @given t there waiting =>
        cases t with
        | leaf leaf => exact .contents (leaf_akin during during' there).1
        | branch fields => exact absurd (waiting fields rfl) List.not_mem_nil
      | handed handed =>
        exact .contents ((handed.later kept kept').resembles during during' spared spared')
      | finished _ lasting =>
        have below := List.prefix_append path [name]
        exact lasting last last' (kept.mono (Trial.outside_mono below))
          (kept'.mono (Trial.outside_mono below)) spared spared'

omit enters enters' in
private theorem settles (peers : Peers schema) {t : Tree Leaf} {fields : List (String × Tree Leaf)}
    (branch : t = .branch fields) : peers.Settles fields := by
  -- Leaves are called in the course of the branch above them, so the induction is about branches.
  induction t generalizing fields with
  | leaf leaf => cases branch
  | branch described ih =>
    cases branch
    intro path ctx parent parent' now now' there modes awaits awaits' spared spared'
    rw [Tree.check_branch, Tree.check_branch]
    rcases peers.concur.branches path described there with
      ⟨unlike, unlike'⟩ | ⟨kind, a, a', shape, shape', mapping, mapping'⟩
    · rw [unlike, unlike']
      exact .error
    · have enters : peers.left.Enters path described a := ⟨there, mapping⟩
      have enters' : peers.right.Enters path described a' := ⟨there, mapping'⟩
      rw [Tree.calls, mapping] at spared
      rw [Tree.calls, mapping'] at spared'
      rw [mapping, mapping']
      dsimp only
      rcases (check_fields enters enters' (fun field member inner same => ih field member same)
          modes (List.Subset.refl _) (Tree.distinct_at? peers.left.built.distinct there).1
          (.start enters enters' awaits awaits') spared spared').error_or_ok with
        ⟨failure, after, after', failed, failed'⟩ |
          ⟨_, after, _, after', ran, ran', final, kept, kept'⟩
      · rw [failed, failed']
        exact .error
      · rw [ran, ran']
        exact .ok ⟨⟨rfl, rfl⟩, ⟨(enters.keeps_pruned _ now).trans kept,
          (enters'.keeps_pruned _ now').trans kept'⟩, final.lasting enters enters' shape shape'⟩

end

private theorem check_single (peers : Peers schema) {leaf : Leaf} (root : schema.root = .leaf leaf)
    (spared : peers.left.Spared peers.left.store)
    (spared' : peers.right.Spared peers.right.store) :
    Together (fun r after r' after' => after.Resembles r after' r')
      (schema.check peers.mode peers.left.value peers.left.store)
      (schema.check peers.mode peers.right.value peers.right.store) := by
  have there : schema.root.at? [] = some (.leaf leaf) := by
    rw [root]
    rfl
  have listed := Tree.mem_leaves_of_at? there
  obtain ⟨c, rfl, made⟩ := peers.left.built.leaves leaf listed
  have start : peers.left.During peers.left.store := Store.Keeps.refl _ _
  have start' : peers.right.During peers.right.store := Store.Keeps.refl _ _
  have akin : peers.left.store.Akin peers.right.store peers.left.value peers.right.value :=
    (leaf_akin start start' there).2
  rw [check, check, root, Tree.check_leaf, Tree.check_leaf, Leaf.call, Leaf.call]
  rcases made.made.check_akin akin (peers.options c listed) (top peers.mode) with
    ⟨failure, refused, refused'⟩ | ⟨r, after, r', after', called, called', unlike, yields⟩
  · rw [refused, refused']
    exact .error
  · rw [called, called']
    refine .ok ?_
    obtain ⟨still, still'⟩ := yields.keeps
    have during := start.trans (still.mono (List.nil_subset _))
    have during' := start'.trans (still'.mono (List.nil_subset _))
    simp only [decide_eq_decide.mpr (yields.null_iff akin)]
    split
    · exact (leaf_akin during during' there).1
    · rename_i written
      have handed := handed_of_yields listed (sanitize_of_written written)
        (.leaf there unlike.1 unlike.2) yields
      exact handed.resembles during during' (fun _ => spared.still still)
        (fun _ => spared'.still still')

end Peers

/-- Checks of two values with the same described contents fail alike, or give values that are equal
as mappings, when they change no mapping that an option of a checker holds. -/
theorem check_independent {schema : Schema} {store store' : Store} {v v' : Value} {mode : Mode}
    (built : schema.BuiltIn) (shaped : store.TreeShaped v) (shaped' : store'.TreeShaped v')
    (concur : schema.Concur store v store' v')
    (options : ∀ c, .checker c ∈ schema.root.leaves → ∀ option ∈ c.holdings,
      store.Resembles option store' option)
    (spares : schema.SparesOptions mode v store) (spares' : schema.SparesOptions mode v' store') :
    Together (fun r after r' after' => after.Corresponds after' r r')
      (schema.check mode v store) (schema.check mode v' store') := by
  let peers : Peers schema :=
    ⟨⟨built, store, v, shaped⟩, ⟨built, store', v', shaped'⟩, mode, concur, options⟩
  cases root : schema.root with
  | leaf leaf =>
    have calls : ∀ v store, schema.calls mode v store = [⟨[], leaf, v, top mode, store⟩] :=
      fun v store => by rw [Schema.calls, root, Tree.calls]
    have spared := spares.calls _ (calls v store ▸ List.mem_singleton_self _)
    have spared' := spares'.calls _ (calls v' store' ▸ List.mem_singleton_self _)
    exact (peers.check_single root spared spared').imp
      fun _ _ _ _ _ _ like => .contents like
  | branch fields =>
    have there : schema.root.at? [] = some (.branch fields) := by
      rw [root]
      rfl
    have awaits : peers.left.Awaits [] store := ⟨Store.Keeps.refl _ store, fun _ _ => rfl⟩
    have awaits' : peers.right.Awaits [] store' := ⟨Store.Keeps.refl _ store', fun _ _ => rfl⟩
    have settled := peers.settles root [] (top mode) none none store store' there
      rfl awaits awaits' (root ▸ spares.calls) (root ▸ spares'.calls)
    rw [check, check, root]
    refine settled.imp ?_
    rintro r after r' after' checked checked' ⟨_, _, lasting⟩
    rw [← root] at checked checked'
    exact lasting after after' (Store.Keeps.refl _ after) (Store.Keeps.refl _ after')
      (fun sanitize => spares.result sanitize r after checked)
      (fun sanitize => spares'.result sanitize r' after' checked')

def arranged : Store where
  mappings := #[[(.text "a", .bool true), (.text "b", .map .plain 1)], [(.text "x", .bool false)]]

def shuffled : Store where
  mappings := #[[(.int 7, .bool true), (.text "b", .map .plain 1), (.text "a", .bool true)],
    [(.text "z", .map .plain 2), (.text "x", .bool false)], [(.text "y", .int 1)]]

theorem arranged_treeShaped : arranged.TreeShaped (.map .plain 0) := by
  refine ⟨.map .plain 0 [(.atom (.text "a"), .atom (.bool true)), (.atom (.text "b"),
    .map .plain 1 [(.atom (.text "x"), .atom (.bool false))])], rfl, ?_, by simp⟩
  simp [Store.holds_map, arranged, Store.entries, Layout.entryValue, Layout.value]

theorem shuffled_treeShaped : shuffled.TreeShaped (.map .plain 0) := by
  refine ⟨.map .plain 0 [(.atom (.number (.int 7)), .atom (.bool true)), (.atom (.text "b"),
    .map .plain 1 [(.atom (.text "z"), .map .plain 2 [(.atom (.text "y"),
      .atom (.number (.int 1)))]), (.atom (.text "x"), .atom (.bool false))]),
    (.atom (.text "a"), .atom (.bool true))], rfl, ?_, by simp⟩
  simp [Store.holds_map, shuffled, Store.entries, Layout.entryValue, Layout.value]

private theorem flagAndInner_nodes {path : List String} {sub : Tree Leaf}
    (there : flagAndInner.root.at? path = some sub) :
    (path, sub) ∈ [([], flagAndInner.root), (["a"], .leaf (.checker (.boolean {}))),
      (["b"], .branch [("x", .leaf (.checker .mandatoryBoolean))]),
      (["b", "x"], .leaf (.checker .mandatoryBoolean))] :=
  (Tree.mem_nodes_iff flagAndInner_builtIn.distinct).mpr there

private theorem flagAndInner_branch {path : List String} {fields : List (String × Tree Leaf)}
    (there : flagAndInner.root.at? path = some (.branch fields)) :
    path = [] ∧ fields.map Prod.fst = ["a", "b"] ∨ path = ["b"] ∧ fields.map Prod.fst = ["x"] := by
  have listed := flagAndInner_nodes there
  simp only [flagAndInner, List.mem_cons, List.not_mem_nil, or_false, Prod.mk.injEq,
    Tree.branch.injEq, reduceCtorEq, and_false, false_or] at listed
  rcases listed with ⟨rfl, rfl⟩ | ⟨rfl, rfl⟩
  · exact Or.inl ⟨rfl, rfl⟩
  · exact Or.inr ⟨rfl, rfl⟩

theorem flagAndInner_concur :
    flagAndInner.Concur arranged (.map .plain 0) shuffled (.map .plain 0) where
  branches path fields there := by
    rcases flagAndInner_branch there with ⟨rfl, _⟩ | ⟨rfl, _⟩
    · exact Or.inr ⟨.plain, 0, 0, rfl, rfl, rfl, rfl⟩
    · exact Or.inr ⟨.plain, 1, 1, rfl, rfl, rfl, rfl⟩
  fields path fields a a' name there mapping mapping' described := by
    rcases flagAndInner_branch there with ⟨rfl, names⟩ | ⟨rfl, names⟩ <;>
    · cases mapping
      cases mapping'
      rw [names] at described
      revert name
      decide
  leaves path leaf there := by
    have listed := flagAndInner_nodes there
    simp only [flagAndInner, List.mem_cons, List.not_mem_nil, or_false, Prod.mk.injEq,
      reduceCtorEq, and_false, false_or] at listed
    rcases listed with ⟨rfl, _⟩ | ⟨rfl, _⟩
    · exact Store.resembles_atom arranged shuffled (.bool true)
    · exact Store.resembles_atom arranged shuffled (.bool false)

theorem flagAndInner_options : ∀ c, .checker c ∈ flagAndInner.root.leaves →
    ∀ option ∈ c.holdings, ∃ a, option = .atom a := by
  intro c listed option held
  have leaves : flagAndInner.root.leaves =
      [.checker (.boolean {}), .checker .mandatoryBoolean] := rfl
  simp only [leaves, List.mem_cons, List.not_mem_nil, or_false, Leaf.checker.injEq] at listed
  rcases listed with rfl | rfl <;>
  · obtain ⟨option, _, rfl⟩ := List.mem_map.mp held
    cases option <;> exact ⟨_, rfl⟩

theorem sparesOptions_of_atoms {schema : Schema} (atoms : ∀ c, .checker c ∈ schema.root.leaves →
      ∀ option ∈ c.holdings, ∃ a, option = .atom a) (mode : Mode) (v : Value) (store : Store) :
    schema.SparesOptions mode v store := by
  have kept : ∀ after, schema.OptionsKept store after := by
    intro after c listed option held w reached
    obtain ⟨a, rfl⟩ := atoms c listed option held
    cases reached
    exact ⟨trivial, nofun⟩
  exact ⟨fun call _ => kept call.store, fun _ _ after _ => kept after⟩

theorem check_independent_shuffled :
    flagAndInner.BuiltIn ∧ arranged.TreeShaped (.map .plain 0) ∧
      shuffled.TreeShaped (.map .plain 0) ∧
      flagAndInner.Concur arranged (.map .plain 0) shuffled (.map .plain 0) ∧
      (∀ c, .checker c ∈ flagAndInner.root.leaves → ∀ option ∈ c.holdings,
        arranged.Resembles option shuffled option) ∧
      flagAndInner.SparesOptions ⟨true, false⟩ (.map .plain 0) arranged ∧
      flagAndInner.SparesOptions ⟨true, false⟩ (.map .plain 0) shuffled ∧
      (∃ after, flagAndInner.check ⟨true, false⟩ (.map .plain 0) arranged =
        .ok (.map .plain 0) after) ∧
      Together (fun r after r' after' => after.Corresponds after' r r')
        (flagAndInner.check ⟨true, false⟩ (.map .plain 0) arranged)
        (flagAndInner.check ⟨true, false⟩ (.map .plain 0) shuffled) := by
  have built := flagAndInner_builtIn
  have alike : ∀ c, .checker c ∈ flagAndInner.root.leaves → ∀ option ∈ c.holdings,
      arranged.Resembles option shuffled option := by
    intro c listed option held
    obtain ⟨a, rfl⟩ := flagAndInner_options c listed option held
    exact Store.resembles_atom arranged shuffled a
  have spares := sparesOptions_of_atoms flagAndInner_options ⟨true, false⟩ (.map .plain 0)
  exact ⟨built, arranged_treeShaped, shuffled_treeShaped, flagAndInner_concur, alike,
    spares arranged, spares shuffled, ⟨_, rfl⟩, check_independent built arranged_treeShaped
      shuffled_treeShaped flagAndInner_concur alike (spares arranged) (spares shuffled)⟩

def separateStore : Store where
  sequences := #[[.map .plain 1], [.map .plain 2]]
  mappings := #[[(.text "a", .map .plain 3), (.text "b", .seq .list 1)],
    [(.text "x", .int 1)], [], []]

theorem separateStore_treeShaped : separateStore.TreeShaped (.map .plain 0) := by
  refine ⟨.map .plain 0 [(.atom (.text "a"), .map .plain 3 []),
    (.atom (.text "b"), .seq .list 1 [.map .plain 2 []])], rfl, ?_, by simp⟩
  simp [Store.holds_map, Store.holds_seq, separateStore, Store.entries, Store.items,
    Layout.entryValue, Layout.value]

private theorem sharing_nodes {path : List String} {sub : Tree Leaf}
    (there : sharing.root.at? path = some sub) :
    (path, sub) ∈ [([], sharing.root), (["a"], .branch []), (["b"], .leaf (.checker oneMapping))] :=
  (Tree.mem_nodes_iff sharing_builtIn.distinct).mpr there

private theorem sharing_item :
    sharingStore.Resembles (.seq .list 1) separateStore (.seq .list 1) := by
  have item : Layout.value (.seq .list 1 [.map .plain 2 []]) = .seq .list 1 := rfl
  rw [← item]
  refine Store.resembles_of_holds ?_ ?_ <;>
  simp [Store.holds_map, Store.holds_seq, sharingStore, separateStore, Store.entries, Store.items,
    Layout.value]

private theorem sharing_concur :
    sharing.Concur sharingStore (.map .plain 0) separateStore (.map .plain 0) where
  branches path fields there := by
    have listed := sharing_nodes there
    simp only [sharing, List.mem_cons, List.not_mem_nil, or_false, Prod.mk.injEq,
      Tree.branch.injEq, reduceCtorEq, and_false] at listed
    rcases listed with ⟨rfl, _⟩ | ⟨rfl, _⟩
    · exact Or.inr ⟨.plain, 0, 0, rfl, rfl, rfl, rfl⟩
    · exact Or.inr ⟨.plain, 1, 3, rfl, rfl, rfl, rfl⟩
  fields path fields a a' name there mapping mapping' described := by
    have listed := sharing_nodes there
    simp only [sharing, List.mem_cons, List.not_mem_nil, or_false, Prod.mk.injEq,
      Tree.branch.injEq, reduceCtorEq, and_false] at listed
    rcases listed with ⟨rfl, rfl⟩ | ⟨rfl, rfl⟩
    · cases mapping
      cases mapping'
      simp only [List.map_cons, List.map_nil] at described
      revert name
      decide
    · cases described
  leaves path leaf there := by
    have listed := sharing_nodes there
    simp only [sharing, List.mem_cons, List.not_mem_nil, or_false, Prod.mk.injEq,
      reduceCtorEq, and_false, false_or] at listed
    rw [listed.1]
    exact sharing_item

private theorem sharing_options : ∀ c, .checker c ∈ sharing.root.leaves → ∀ option ∈ c.holdings,
    sharingStore.Resembles option separateStore option := by
  intro c listed option held
  have leaves : sharing.root.leaves = [.checker oneMapping] := rfl
  rw [leaves, List.mem_singleton] at listed
  obtain rfl := Leaf.checker.inj listed
  have mapping : sharingStore.Resembles (.map .plain 1) separateStore (.map .plain 1) :=
    Store.resembles_of_holds (l := .map .plain 1 [(.atom (.text "x"), .atom (.number (.int 1)))])
      (by simp [Store.holds_map, sharingStore, Store.entries, Layout.entryValue, Layout.value])
      (by simp [Store.holds_map, separateStore, Store.entries, Layout.entryValue, Layout.value])
  rw [Checker.holdings, Option.getD_some] at held
  rcases List.mem_append.mp held with named | item
  · obtain ⟨name, _, rfl⟩ := List.mem_map.mp named
    cases name
    case value => exact Store.resembles_seq (.cons mapping .nil)
    all_goals exact Store.resembles_atom sharingStore separateStore _
  · rw [List.mem_singleton.mp item]
    exact mapping

private theorem sharing_refuses :
    sharing.check ⟨false, false⟩ (.map .plain 0) separateStore =
      .error (.invalid "b") separateStore := by
  have differs : ¬(separateStore.freeze (.map .plain 2) == separateStore.freeze (.map .plain 1)) =
      true := by
    change ¬Data.same (.map .plain []) (.map .plain [(.text "x", .atom (.number (.int 1)))]) = true
    simp [Data.same]
  have refused : Leaf.call (.checker oneMapping) (.seq .list 1)
      ((top ⟨false, false⟩).descend ["b"]) separateStore = .error (.invalid "b") separateStore :=
    (check_oneMapping rfl _).trans (if_neg differs)
  have steps : Step.runAll Leaf.call (top ⟨false, false⟩)
      (sharing.root.agenda separateStore [] none (.map .plain 0)) separateStore =
        Step.runAll Leaf.call (top ⟨false, false⟩)
          [.ask ["b"] (some (0, "b")) (.seq .list 1) (.checker oneMapping)] separateStore := rfl
  rw [sharing_builtIn.check_error_iff (names_of_plain rfl)
    (sharing_builtIn.nodup_entered separateStore_treeShaped), steps, Step.runAll_cons,
    Step.run_ask, refused]

/-- The mapping of an exact value stands in a field in one value and apart from it in the other one.
It is pruned before it is compared in the one check only, and these end differently. -/
theorem check_independent_sharing : ¬∀ (schema : Schema) (store store' : Store) (v v' : Value)
    (mode : Mode), schema.BuiltIn → store.TreeShaped v → store'.TreeShaped v' →
      schema.Concur store v store' v' →
        (∀ c, .checker c ∈ schema.root.leaves → ∀ option ∈ c.holdings,
          store.Resembles option store' option) →
          Together (fun r after r' after' => after.Corresponds after' r r')
            (schema.check mode v store) (schema.check mode v' store') := by
  intro independent
  have together := independent sharing sharingStore separateStore (.map .plain 0) (.map .plain 0)
    ⟨false, false⟩ sharing_builtIn sharingStore_treeShaped separateStore_treeShaped sharing_concur
    sharing_options
  obtain ⟨after, result, checked⟩ := sharing_accepted
  rw [checked, sharing_refuses] at together
  cases together

end Schema

end Assay
