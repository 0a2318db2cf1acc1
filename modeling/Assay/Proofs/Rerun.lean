import Assay.Proofs.Interruption
import Assay.Proofs.Satisfaction

/-!
Running a failed check again. A check that replaces no values prunes mappings before it fails; the
same check of what is left prunes nothing more, comes to the same node and fails there in the same
way, unless an option of a checker holds a mapping that was pruned.
-/

set_option autoImplicit false
set_option relaxedAutoImplicit false

namespace Assay

namespace Step

variable {α : Type} {call : α → Value → Context → CheckM Value} {ctx : Context}

theorem runAll_idle {ground now : Store} {steps : List (Step α)}
    (idle : ∀ step ∈ steps, ∀ now, Store.Keeps [] ground now →
      ∃ next, step.run call ctx now = .ok () next ∧ Store.Keeps [] now next)
    (kept : Store.Keeps [] ground now) :
    ∃ last, runAll call ctx steps now = .ok () last ∧ Store.Keeps [] ground last := by
  induction steps generalizing now with
  | nil => exact ⟨now, rfl, kept⟩
  | cons step rest ih =>
    obtain ⟨next, first, still⟩ := idle step List.mem_cons_self now kept
    obtain ⟨last, later, final⟩ :=
      ih (fun s member => idle s (List.mem_cons_of_mem step member)) (kept.trans still)
    refine ⟨last, ?_, final⟩
    rw [runAll_cons, first]
    exact later

private theorem entries_between {early late : List (Step α)} (plain : ctx.mode.sanitize = false)
    (tame : ∀ step ∈ early ++ late, step.Tame call ctx)
    (nodup : (Tree.entered (early ++ late)).Nodup) {before middle after : Store}
    (first : runAll call ctx early before = .ok () middle)
    (ran : runAll call ctx (early ++ late) before = .ok () after) (a : Address) :
    middle.entries a = before.entries a ∨ middle.entries a = after.entries a := by
  obtain ⟨_, final⟩ := entries_runAll_plain plain tame nodup ran
  rw [Tree.entered_append] at nodup
  rcases entries_plain_cases plain (fun step member => tame step (List.mem_append_left late member))
      (List.nodup_append.mp nodup).1 first a with same | ⟨path, names, member, pruned⟩
  · exact Or.inl same
  · right
    rw [pruned, final path a names (List.mem_append_left late member)]

end Step

namespace Schema

/-- What the options of the checkers hold is there, and the mappings among it have the same contents
in a later store. -/
def OptionsKept (schema : Schema) (before after : Store) : Prop :=
  ∀ c, .checker c ∈ schema.root.leaves → ∀ option ∈ c.holdings, ∀ w, before.Reaches option w →
    before.Stands w ∧ ∀ kind a, w = .map kind a → after.entries a = before.entries a

variable {schema : Schema} {store after : Store} {v : Value} {lenient : Bool}

abbrev changed (schema : Schema) (v : Value) (before after : Store) : List Address :=
  (Tree.entered (schema.root.agenda before [] none v)).filter fun a =>
    after.entries a ≠ before.entries a

theorem clear_of_optionsKept (apart : schema.OptionsKept store after) :
    ∀ c, .checker c ∈ schema.root.leaves → ∀ option ∈ c.holdings,
      store.Clear (schema.changed v store after) option := by
  intro c listed option held w reached
  obtain ⟨there, same⟩ := apart c listed option held w reached
  refine ⟨there, fun kind a shape touched => ?_⟩
  have differs := (List.mem_filter.mp touched).2
  rw [same kind a shape] at differs
  simp at differs

section

variable {early late : List (Step Leaf)}

private theorem keeps_changed (built : schema.BuiltIn) (shaped : store.TreeShaped v)
    {first second : List (Step Leaf)} (split : schema.root.agenda store [] none v = early ++ late)
    (parts : early = first ++ second) {middle : Store}
    (ran : Step.runAll Leaf.call (top ⟨false, lenient⟩) first store = .ok () middle)
    (through : Step.runAll Leaf.call (top ⟨false, lenient⟩) early store = .ok () after) :
    Store.Keeps (schema.changed v store after) store middle := by
  subst parts
  have between := Step.entries_between rfl
    (built.tame_early ⟨false, lenient⟩ (names_of_plain rfl) split) (built.nodup_early shaped split)
    ran through
  have within : Tree.entered first ⊆ Tree.entered (schema.root.agenda store [] none v) := by
    rw [split, Tree.entered_append, Tree.entered_append, List.append_assoc]
    exact List.subset_append_left _ _
  rw [List.append_assoc] at split
  have kept := (Step.entries_runAll_plain rfl
    (built.tame_early ⟨false, lenient⟩ (names_of_plain rfl) split) (built.nodup_early shaped split)
    ran).1.mono within
  refine ⟨kept.sequences, kept.mappings, kept.items, fun a apart => ?_⟩
  by_cases entered : a ∈ Tree.entered (schema.root.agenda store [] none v)
  · rcases between a with same | same
    · exact same
    · rw [same]
      by_contra differs
      exact apart (List.mem_filter.mpr ⟨entered, by simpa using differs⟩)
  · exact kept.entries a entered

private theorem agenda_pruned (built : schema.BuiltIn) (shaped : store.TreeShaped v)
    (split : schema.root.agenda store [] none v = early ++ late)
    (ran : Step.runAll Leaf.call (top ⟨false, lenient⟩) early store = .ok () after) :
    schema.root.agenda after [] none v = schema.root.agenda store [] none v := by
  refine Tree.agenda_congr built.distinct fun up fields a name there mapping described => ?_
  rcases Step.entries_plain_cases rfl
      (built.tame_early ⟨false, lenient⟩ (names_of_plain rfl) split)
      (built.nodup_early shaped split) ran a with unchanged | ⟨path, names, member, pruned⟩
  · rw [unchanged]
  · have same := (Tree.enter_of_mapping (built.nodup_entered shaped) there mapping
      (split ▸ List.mem_append_left late member)).2
    rw [pruned, Entries.valueOf?_restrict (same ▸ described)]

private theorem idle_again (built : schema.BuiltIn) (shaped : store.TreeShaped v)
    (apart : schema.OptionsKept store after)
    (split : schema.root.agenda store [] none v = early ++ late)
    (ran : Step.runAll Leaf.call (top ⟨false, lenient⟩) early store = .ok () after)
    {step : Step Leaf} (member : step ∈ early) {now : Store} (still : Store.Keeps [] after now) :
    ∃ next, step.run Leaf.call (top ⟨false, lenient⟩) now = .ok () next ∧
      Store.Keeps [] now next := by
  have tame := built.tame_early ⟨false, lenient⟩ (names_of_plain rfl) split
  cases step with
  -- The mapping has its described keys left only, and pruning it again takes nothing out.
  | enter path mapping names =>
    obtain ⟨a, rfl⟩ := Step.mapping_of_runAll ran member
    have pruned := (Step.entries_runAll_plain rfl tame (built.nodup_early shaped split) ran).2
      path a names member
    have full : (now.entries a).restrict names = now.entries a := by
      rw [still.entries a List.not_mem_nil, pruned, Entries.restrict_restrict]
    refine ⟨_, Step.run_enter_some Leaf.call _ path a names now, ?_⟩
    rw [full]
    exact Store.keeps_setEntries_self now a
  -- The leaf answers as it did when it was asked first, as both stores differ from the beginning in
  -- mappings alone that no option holds.
  | ask path place given leaf =>
    obtain ⟨first, second, rfl⟩ := List.append_of_mem member
    have through := ran
    rw [Step.runAll_append] at ran
    cases start : Step.runAll Leaf.call (top ⟨false, lenient⟩) first store with
    | error failure middle => simp [start] at ran
    | ok _ middle =>
      simp only [start] at ran
      obtain ⟨between, asked, _⟩ := Step.runAll_cons_ok ran
      have one := keeps_changed built shaped split rfl start through
      have two := (keeps_changed built shaped split (List.append_nil _).symm through through).trans
        (still.mono (List.nil_subset _))
      have listed : Step.ask path place given leaf ∈ schema.root.agenda store [] none v :=
        split ▸ List.mem_append_left late member
      rcases built.run_congr ⟨false, lenient⟩ shaped (List.filter_subset_self _)
          (clear_of_optionsKept apart) listed one two with
        ⟨_, next, again⟩ | ⟨failure, refused, _⟩
      · refine ⟨next, again, ?_⟩
        rcases Step.run_plain (tame _ member) rfl again with ⟨_, _, _, same, _⟩ | ⟨_, kept⟩
        · cases same
        · exact kept
      · rw [refused] at asked
        cases asked

end

/-- When a check that replaces no values fails, and no option holds a mapping that it has pruned
until then, the same check of what is left fails alike and changes nothing. -/
theorem check_fails_again {failure : Failure} (built : schema.BuiltIn)
    (shaped : store.TreeShaped v)
    (failed : schema.check ⟨false, lenient⟩ v store = .error failure after)
    (apart : schema.OptionsKept store after) :
    ∃ last, schema.check ⟨false, lenient⟩ v after = .error failure last ∧
      Store.Keeps [] after last := by
  have nodup := built.nodup_entered shaped
  rw [built.check_error_iff (names_of_plain rfl) nodup] at failed
  obtain ⟨early, step, late, between, split, ran, stopped⟩ := Step.runAll_error failed
  have listed : step ∈ schema.root.agenda store [] none v :=
    split ▸ List.mem_append_right early List.mem_cons_self
  obtain rfl := built.store_of_run_error listed stopped
  obtain ⟨last, again, still⟩ := Step.runAll_idle
    (fun other member now => idle_again built shaped apart split ran member)
    (Store.Keeps.refl [] after)
  have reached := keeps_changed built shaped split (List.append_nil early).symm ran ran
  have fails : step.run Leaf.call (top ⟨false, lenient⟩) last = .error failure last := by
    rcases built.run_congr ⟨false, lenient⟩ shaped (List.filter_subset_self _)
        (clear_of_optionsKept apart) listed reached
        (reached.trans (still.mono (List.nil_subset _))) with
      ⟨⟨_, passes⟩, _⟩ | ⟨other, refused, again⟩
    · rw [passes] at stopped
      cases stopped
    · rw [refused] at stopped
      cases stopped
      exact again
  have steps := agenda_pruned built shaped split ran
  refine ⟨last, ?_, still⟩
  rw [built.check_error_iff (names_of_plain rfl) (steps ▸ nodup), steps, split,
    Step.runAll_append, again]
  simp only [Step.runAll_cons, fails]

def tupleLeft : Store where
  sequences := #[[], [], []]
  mappings := #[[(.text "a", .seq .tuple 1), (.text "b", .int 5)]]

theorem tupleLeft_optionsKept : listAndMapping.OptionsKept tupleAndNumber tupleLeft := by
  intro c listed option held w reached
  obtain ⟨there, free⟩ := listAndMapping_options c listed option held w reached
  exact ⟨there, fun kind a shape => absurd shape (free kind a)⟩

theorem check_fails_again_tuple :
    listAndMapping.BuiltIn ∧ tupleAndNumber.TreeShaped (.map .plain 0) ∧
      listAndMapping.check ⟨false, false⟩ (.map .plain 0) tupleAndNumber =
        .error (.invalid "b") tupleLeft ∧
        listAndMapping.OptionsKept tupleAndNumber tupleLeft ∧
          ∃ last, listAndMapping.check ⟨false, false⟩ (.map .plain 0) tupleLeft =
            .error (.invalid "b") last ∧ Store.Keeps [] tupleLeft last :=
  have built := listAndMapping_builtIn
  have shaped := tupleAndNumber_treeShaped
  ⟨built, shaped, rfl, tupleLeft_optionsKept,
    check_fails_again built shaped rfl tupleLeft_optionsKept⟩

/-- A schema that asks for an exact value in one field, prunes the next one and asks for a mapping
in the third. -/
def sharingThenMapping : Schema where
  root := .branch [("b", .leaf (.checker oneMapping)), ("a", .branch []), ("c", .branch [])]

def sharedMapping : Store where
  sequences := #[[.map .plain 1], [.map .plain 2]]
  mappings := #[[(.text "b", .seq .list 1), (.text "a", .map .plain 1)],
    [(.text "x", .bool true)], [(.text "x", .bool true)]]

theorem sharingThenMapping_builtIn : sharingThenMapping.BuiltIn := by
  refine ⟨⟨by decide, trivial, ⟨by simp, trivial⟩, ⟨by simp, trivial⟩, trivial⟩,
    fun leaf member => ?_⟩
  have leaves : sharingThenMapping.root.leaves = [.checker oneMapping] := rfl
  rw [leaves, List.mem_singleton] at member
  exact ⟨_, member, oneMapping_builtIn⟩

theorem sharedMapping_treeShaped : sharedMapping.TreeShaped (.map .plain 0) := by
  refine ⟨.map .plain 0 [(.atom (.text "b"), .seq .list 1 [.map .plain 2
    [(.atom (.text "x"), .atom (.bool true))]]), (.atom (.text "a"), .map .plain 1
    [(.atom (.text "x"), .atom (.bool true))])], rfl, ?_, by simp⟩
  simp [Store.holds_map, Store.holds_seq, sharedMapping, Store.entries, Store.items,
    Layout.entryValue, Layout.value]

def sharedPruned : Store where
  sequences := #[[.map .plain 1], [.map .plain 2], [.map .plain 1]]
  mappings := #[[(.text "b", .seq .list 1), (.text "a", .map .plain 1)], [],
    [(.text "x", .bool true)]]

private theorem sharedMapping_fails :
    sharingThenMapping.check ⟨false, false⟩ (.map .plain 0) sharedMapping =
      .error (.invalid "c") sharedPruned := by
  have equal : (sharedMapping.freeze (.map .plain 2) == sharedMapping.freeze (.map .plain 1)) =
      true := by
    change Data.same (.map .plain [(.text "x", .atom (.bool true))])
      (.map .plain [(.text "x", .atom (.bool true))]) = true
    simp [Data.same, Data.entriesWithin, Atom.same]
  have answered : Leaf.call (.checker oneMapping) (.seq .list 1)
      ((top ⟨false, false⟩).descend ["b"]) sharedMapping =
        .ok (.seq .list 2) (sharedMapping.newSeq .list [.map .plain 1]).2 :=
    (check_oneMapping rfl _).trans (if_pos equal)
  have steps : Step.runAll Leaf.call (top ⟨false, false⟩)
      (sharingThenMapping.root.agenda sharedMapping [] none (.map .plain 0)) sharedMapping =
        Step.runAll Leaf.call (top ⟨false, false⟩)
          [.ask ["b"] (some (0, "b")) (.seq .list 1) (.checker oneMapping),
            .enter ["a"] (some 1) [], .enter ["c"] none []] sharedMapping := rfl
  rw [sharingThenMapping_builtIn.check_error_iff (names_of_plain rfl)
    (sharingThenMapping_builtIn.nodup_entered sharedMapping_treeShaped), steps, Step.runAll_cons,
    Step.run_ask, answered]
  rfl

private theorem sharedPruned_fails :
    sharingThenMapping.check ⟨false, false⟩ (.map .plain 0) sharedPruned =
      .error (.invalid "b") sharedPruned := by
  have differs : ¬(sharedPruned.freeze (.map .plain 2) == sharedPruned.freeze (.map .plain 1)) =
      true := by
    change ¬Data.same (.map .plain [(.text "x", .atom (.bool true))]) (.map .plain []) = true
    simp [Data.same]
  have refused : Leaf.call (.checker oneMapping) (.seq .list 1)
      ((top ⟨false, false⟩).descend ["b"]) sharedPruned = .error (.invalid "b") sharedPruned :=
    (check_oneMapping rfl _).trans (if_neg differs)
  have shaped : sharedPruned.TreeShaped (.map .plain 0) := by
    refine ⟨.map .plain 0 [(.atom (.text "b"), .seq .list 1 [.map .plain 2
      [(.atom (.text "x"), .atom (.bool true))]]), (.atom (.text "a"), .map .plain 1 [])], rfl, ?_,
      by simp⟩
    simp [Store.holds_map, Store.holds_seq, sharedPruned, Store.entries, Store.items,
      Layout.entryValue, Layout.value]
  have steps : Step.runAll Leaf.call (top ⟨false, false⟩)
      (sharingThenMapping.root.agenda sharedPruned [] none (.map .plain 0)) sharedPruned =
        Step.runAll Leaf.call (top ⟨false, false⟩)
          [.ask ["b"] (some (0, "b")) (.seq .list 1) (.checker oneMapping),
            .enter ["a"] (some 1) [], .enter ["c"] none []] sharedPruned := rfl
  rw [sharingThenMapping_builtIn.check_error_iff (names_of_plain rfl)
    (sharingThenMapping_builtIn.nodup_entered shaped), steps, Step.runAll_cons, Step.run_ask,
    refused]

/-- A check that fails behind a mapping which it has pruned, and which an option holds too, fails
elsewhere when it is run again: the field that is compared with the option is not accepted any more.
-/
theorem check_fails_elsewhere : ¬∀ (schema : Schema) (store : Store) (v : Value) (lenient : Bool)
    (failure : Failure) (after : Store), schema.BuiltIn → store.TreeShaped v →
      schema.check ⟨false, lenient⟩ v store = .error failure after →
        ∃ last, schema.check ⟨false, lenient⟩ v after = .error failure last ∧
          Store.Keeps [] after last := by
  intro again
  obtain ⟨last, failed, _⟩ := again sharingThenMapping sharedMapping (.map .plain 0) false _ _
    sharingThenMapping_builtIn sharedMapping_treeShaped sharedMapping_fails
  rw [sharedPruned_fails] at failed
  injection failed with elsewhere _
  have differs : "b" ≠ "c" := by decide
  exact differs (Failure.invalid.inj elsewhere)

end Schema

end Assay
