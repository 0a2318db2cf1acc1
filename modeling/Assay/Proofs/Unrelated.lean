import Assay.Proofs.References
import Mathlib.Logic.Relation

/-!
Variables that are unrelated to the modes: those that do not have the prefix, and those that name
another type than `checker`. Main results: putting in, taking out and changing such variables leaves
the modes of an environment, or the failure to read them, as they are, exactly as long as none of
them sets a reference that the reader refuses or takes for one of the checker; with the standard
reader, as long as none of their types is one that references mistake for another.
-/

set_option autoImplicit false
set_option relaxedAutoImplicit false

namespace Assay

namespace Text

theorem stripStart?_eq_some_iff {start s rest : List Char} :
    stripStart? start s = some rest ↔ s = start ++ rest := by
  induction start generalizing s with
  | nil => rw [stripStart?, Option.some.injEq, List.nil_append]
  | cons c start ih =>
    cases s with
    | nil => simp [stripStart?]
    | cons d s =>
      rw [stripStart?, List.cons_append, List.cons.injEq]
      split
      · rename_i same
        rw [ih, ← beq_iff_eq.mp same, eq_self, true_and]
      · rename_i differs
        rw [beq_iff_eq] at differs
        simp [Ne.symm differs]

end Text

/-- A text that may stand as a part before two underscores: they neither stand nor begin in it. -/
def IsPart (part : List Char) : Prop := ¬['_', '_'] <:+: part ++ ['_']

theorem isPart_nil : IsPart [] := fun inside => absurd inside.length_le (by decide)

theorem isPart_cons_iff {c : Char} {part : List Char} (rest : List Char) :
    IsPart (c :: part) ↔
      (∀ behind, c = '_' → part ++ '_' :: '_' :: rest ≠ '_' :: behind) ∧ IsPart part := by
  have first : ['_', '_'] <+: c :: (part ++ ['_']) ↔
      ∃ behind, c = '_' ∧ part ++ '_' :: '_' :: rest = '_' :: behind := by
    cases part with
    | nil => simp [List.cons_prefix_cons, eq_comm]
    | cons d part => simp [List.cons_prefix_cons, eq_comm]
  rw [IsPart, List.cons_append, List.infix_cons_iff, not_or, first]
  simp only [not_exists, not_and, ne_eq, IsPart]

theorem splitAtUnderscores_append {part : List Char} (isPart : IsPart part) (rest : List Char) :
    splitAtUnderscores (part ++ '_' :: '_' :: rest) = part :: splitAtUnderscores rest := by
  induction part with
  | nil => rfl
  | cons c part ih =>
    obtain ⟨single, isPart⟩ := (isPart_cons_iff rest).mp isPart
    rw [List.cons_append, splitAtUnderscores, ih isPart]
    exact single

theorem exists_of_splitAtUnderscores {s part next : List Char} {more : List (List Char)}
    (split : splitAtUnderscores s = part :: next :: more) :
    ∃ rest, s = part ++ '_' :: '_' :: rest ∧ IsPart part := by
  fun_induction splitAtUnderscores s generalizing part with
  | case1 => cases split
  | case2 rest ih =>
    obtain ⟨rfl, _⟩ := List.cons.inj split
    exact ⟨rest, rfl, isPart_nil⟩
  | case3 c rest single none => cases split
  | case4 c rest single first others found ih =>
    obtain ⟨rfl, rfl⟩ := List.cons.inj split
    obtain ⟨behind, rfl, isPart⟩ := ih found
    exact ⟨behind, rfl, (isPart_cons_iff behind).mpr ⟨single, isPart⟩⟩

namespace Environment

variable {lead name reference : String}

/-- What stands between a prefix and the next two underscores in the name of a variable. -/
def HasType (lead name part : String) : Prop :=
  IsPart part.toList ∧ ∃ rest, name = lead ++ part ++ "__" ++ rest

/-- A variable that is not meant for the checker: it does not have the prefix, or what stands
between that and the next two underscores is not the type `checker` in any case of its letters. -/
def Unrelated (lead name : String) : Prop :=
  ∀ part, HasType lead name part → Text.lower part ≠ "checker"

/-- A variable sets something in a configuration of a type. -/
def Sets (lead name part : String) : Prop :=
  HasType lead name part ∧ (reference? lead name).isSome

/-- An unrelated variable that sets something for the given types alone, if it sets anything. -/
def UnrelatedFor (types : String → Prop) (lead name : String) : Prop :=
  Unrelated lead name ∧ ∀ part, Sets lead name part → types part

theorem stripStart?_of_hasType {part rest : String} (named : name = lead ++ part ++ "__" ++ rest) :
    Text.stripStart? lead.toList name.toList =
      some (part.toList ++ '_' :: '_' :: rest.toList) := by
  rw [Text.stripStart?_eq_some_iff, named]
  simp

theorem HasType.unique {part other : String} (first : HasType lead name part)
    (second : HasType lead name other) : part = other := by
  obtain ⟨isPart, rest, named⟩ := first
  obtain ⟨isOther, behind, also⟩ := second
  have same := (stripStart?_of_hasType named).symm.trans (stripStart?_of_hasType also)
  have parts := congrArg splitAtUnderscores (Option.some.inj same)
  rw [splitAtUnderscores_append isPart, splitAtUnderscores_append isOther] at parts
  exact String.toList_injective (List.cons.inj parts).1

theorem exists_of_reference? (found : reference? lead name = some reference) :
    ∃ part selector attr, HasType lead name part ∧
      reference = Reference.format (Text.lower part) selector attr := by
  obtain ⟨rest, stripped, found⟩ := Option.bind_eq_some_iff.mp found
  split at found
  · rename_i type selector first more split
    obtain ⟨chosen, _, found⟩ := Option.bind_eq_some_iff.mp found
    obtain ⟨behind, rfl, isPart⟩ := exists_of_splitAtUnderscores split
    refine ⟨String.ofList type, chosen, _, ⟨by simpa using isPart, String.ofList behind, ?_⟩,
      (Option.some.inj found).symm⟩
    rw [← String.toList_inj, Text.stripStart?_eq_some_iff.mp stripped]
    simp
  · cases found

theorem reference?_first (lead : String) {part attr : String} (isPart : IsPart part.toList)
    (plain : attr ∈ ["x", "x.x"]) :
    reference? lead (lead ++ part ++ "__" ++ ("0__" ++ attr)) =
      some (Reference.format (Text.lower part) (.index 0) attr) := by
  have zero : Selector.ofPart? "0" = some (.index 0) := by decide
  have parts : splitAtUnderscores ("0__" ++ attr).toList = [['0'], attr.toList] := by
    rcases List.mem_pair.mp plain with rfl | rfl <;> rfl
  have small : Text.lower attr = attr := by
    rcases List.mem_pair.mp plain with rfl | rfl <;> decide
  rw [reference?, stripStart?_of_hasType rfl, Option.bind_eq_bind, Option.bind_some,
    splitAtUnderscores_append isPart, parts]
  simp [zero, small]

/-! What an environment sets, setting by setting. -/

theorem collect_eq {α : Type} (reference? : String → Option String) (valueOf : String → α)
    (env : Environment) :
    env.collect reference? valueOf = ofList (env.filterMap fun entry =>
      (reference? entry.1).map fun reference => (reference, valueOf entry.2)) := by
  rw [ofList, List.foldl_filterMap, collect]
  congr 1
  funext found entry
  cases reference? entry.1 <;> rfl

theorem filter_put {α : Type} (p : String → Bool) (settings : List (String × α)) (name : String)
    (item : α) :
    (put settings name item).filter (p ·.1) =
      if p name then put (settings.filter (p ·.1)) name item else settings.filter (p ·.1) := by
  induction settings with
  | nil => rw [put, List.filter_cons]; rfl
  | cons entry rest ih =>
    rw [put]
    split
    · rename_i same
      rw [beq_iff_eq] at same
      subst same
      cases kept : p entry.1 <;> simp [kept, put]
    · rename_i differs
      rw [List.filter_cons, ih]
      cases here : p entry.1 <;> cases p name <;> simp [put, differs, here]

theorem filter_ofList {α : Type} (p : String → Bool) (settings : List (String × α)) :
    (ofList settings).filter (p ·.1) = ofList (settings.filter (p ·.1)) := by
  have general (found : List (String × α)) :
      (settings.foldl (fun found setting => put found setting.1 setting.2) found).filter (p ·.1) =
        (settings.filter (p ·.1)).foldl (fun found setting => put found setting.1 setting.2)
          (found.filter (p ·.1)) := by
    induction settings generalizing found with
    | nil => rfl
    | cons setting rest ih =>
      rw [List.foldl_cons, ih, filter_put, List.filter_cons]
      cases p setting.1 <;> rfl
  exact general []

/-! Changes to an environment. -/

/-- One variable is put in, taken out or given another text. -/
inductive Step (touched : String → Prop) : Environment → Environment → Prop
  | insert (before after : Environment) {name : String} (text : String) (allowed : touched name) :
    Step touched (before ++ after) (before ++ (name, text) :: after)
  | remove (before after : Environment) {name : String} (text : String) (allowed : touched name) :
    Step touched (before ++ (name, text) :: after) (before ++ after)
  | change (before after : Environment) {name : String} (old new : String)
      (allowed : touched name) :
    Step touched (before ++ (name, old) :: after) (before ++ (name, new) :: after)

/-- One environment becomes the other one when any number of variables are put in, taken out and
given other texts. -/
def Altered (touched : String → Prop) : Environment → Environment → Prop :=
  Relation.ReflTransGen (Step touched)

end Environment

namespace EnvironmentReader

variable {reader : EnvironmentReader} {reference? : String → String → Option String}
  {valueOf : String → Atom} {lead name reference : String} {touched : String → Prop}
  {env env' : Environment}

/-- What the modes take for granted of a reader: a variable sets one reference at most, which its
name decides, to a value that its text decides. The settings stand in the order of the variables, a
later one takes the place of an equal reference, and the word for a truth value is read as one. -/
structure Collects (reader : EnvironmentReader) (reference? : String → String → Option String)
    (valueOf : String → Atom) : Prop where
  overrides : ∀ lead, lead ≠ "" → ∀ env,
    reader.overrides env lead = env.collect (reference? lead) valueOf
  on : valueOf "true" = .bool true

/-- A reference that makes a difference: it is refused, or it is read as one for an attribute of the
first checker configuration. -/
def Counts (reader : EnvironmentReader) (reference : String) : Prop :=
  match reader.read reference with
  | .error _ => True
  | .ok (type, selector, attr) => type = "checker" ∧ selector = .index 0 ∧ attr ≠ ""

instance (reader : EnvironmentReader) : DecidablePred reader.Counts := by
  intro reference
  unfold Counts
  split <;> infer_instance

def counting (reader : EnvironmentReader) (reference? : String → Option String)
    (valueOf : String → Atom) (env : Environment) : List (String × Atom) :=
  env.filterMap fun entry =>
    ((reference? entry.1).filter (reader.Counts ·)).map fun reference =>
      (reference, valueOf entry.2)

theorem attributes_filter (found : List (String × Atom)) (entries : Entries) :
    reader.attributes (found.filter (reader.Counts ·.1)) entries =
      reader.attributes found entries := by
  induction found generalizing entries with
  | nil => rfl
  | cons setting rest ih =>
    obtain ⟨reference, item⟩ := setting
    rw [List.filter_cons]
    dsimp only
    split
    · rw [attributes, attributes]
      simp only [ih]
    · rename_i dropped
      rw [ih, attributes]
      rw [decide_eq_true_iff, Counts] at dropped
      cases said : reader.read reference with
      | error failure => simp [said] at dropped
      | ok said' =>
        obtain ⟨type, selector, attr⟩ := said'
        simp only [said] at dropped
        exact (if_neg (by simpa [and_assoc] using dropped)).symm

/-- The modes of an environment depend on what it sets as far as that counts. -/
theorem Collects.ofEnvironmentBy_eq (collects : reader.Collects reference? valueOf)
    (given : lead ≠ "") (env : Environment) :
    Mode.ofEnvironmentBy reader env lead =
      (reader.attributes
        (Environment.ofList (reader.counting (reference? lead) valueOf env)) []).bind
        (Mode.ofEntries {}) := by
  have kept : ((reader.overrides env lead).filter (reader.Counts ·.1)) =
      Environment.ofList (reader.counting (reference? lead) valueOf env) := by
    rw [collects.overrides lead given, Environment.collect_eq,
      Environment.filter_ofList (reader.Counts ·), List.filter_filterMap, counting]
    congr 2
    funext entry
    cases reference? lead entry.1 with
    | none => rfl
    | some reference =>
      by_cases counted : reader.Counts reference <;> simp [Option.filter, counted]
  rw [Mode.ofEnvironmentBy, ← kept, attributes_filter]
  rfl

theorem counting_step {reference? : String → Option String}
    (quiet : ∀ name, touched name → ∀ reference,
      reference? name = some reference → ¬reader.Counts reference)
    (step : Environment.Step touched env env') :
    reader.counting reference? valueOf env = reader.counting reference? valueOf env' := by
  have dropped {name : String} (allowed : touched name) (before after : Environment)
      (text : String) :
      reader.counting reference? valueOf (before ++ (name, text) :: after) =
        reader.counting reference? valueOf (before ++ after) := by
    have none : (reference? name).filter (reader.Counts ·) = none := by
      cases found : reference? name with
      | none => rfl
      | some reference => simp [Option.filter, quiet name allowed reference found]
    rw [counting, counting, List.filterMap_append, List.filterMap_append, List.filterMap_cons, none]
    rfl
  cases step with
  | insert before after text allowed => exact (dropped allowed before after text).symm
  | remove before after text allowed => exact dropped allowed before after text
  | change before after old new allowed =>
    exact (dropped allowed before after old).trans (dropped allowed before after new).symm

theorem counting_altered {reference? : String → Option String}
    (quiet : ∀ name, touched name → ∀ reference,
      reference? name = some reference → ¬reader.Counts reference)
    (altered : Environment.Altered touched env env') :
    reader.counting reference? valueOf env = reader.counting reference? valueOf env' := by
  induction altered with
  | refl => rfl
  | tail _ step ih => exact ih.trans (counting_step quiet step)

theorem ofEntries_on (attr : String) :
    Mode.ofEntries {} [(.text attr, .atom (.bool true))] ≠ .ok {} := by
  by_cases known : attr ∈ Mode.names
  · have one : attr = "partial" ∨ attr = "sanitize" := List.mem_pair.mp known
    rcases one with rfl | rfl
    · have on : Mode.ofEntries {} [(.text "partial", .atom (.bool true))] = .ok ⟨false, true⟩ := rfl
      simp [on]
    · have on : Mode.ofEntries {} [(.text "sanitize", .atom (.bool true))] = .ok ⟨true, false⟩ :=
        rfl
      simp [on]
  · have refused : Mode.checkNames [.text attr] =
        .error (.mode (.unknownOptions (sortedSet [attr]))) := by
      rw [Mode.checkNames, List.filter_cons_of_pos (by simpa [Value.text?] using known)]
      rfl
    rw [Mode.ofEntries, List.map_singleton, refused]
    exact nofun

theorem Collects.ofEnvironmentBy_ne (collects : reader.Collects reference? valueOf)
    (given : lead ≠ "") (found : reference? lead name = some reference)
    (counted : reader.Counts reference) :
    Mode.ofEnvironmentBy reader [(name, "true")] lead ≠ Mode.ofEnvironmentBy reader [] lead := by
  have alone : Environment.ofList
      (reader.counting (reference? lead) valueOf [(name, "true")]) =
        [(reference, .bool true)] := by
    simp [counting, found, counted, Option.filter, Environment.ofList, Environment.put,
      collects.on]
  have off : Mode.ofEnvironmentBy reader [] lead = .ok {} := by
    rw [collects.ofEnvironmentBy_eq given]
    rfl
  rw [collects.ofEnvironmentBy_eq given, off, alone, attributes]
  rw [Counts] at counted
  cases said : reader.read reference with
  | error failure => exact nofun
  | ok said' =>
    obtain ⟨type, selector, attr⟩ := said'
    simp only [said] at counted
    obtain ⟨rfl, rfl, present⟩ := counted
    change (if _ then _ else _ : Except Failure Entries).bind _ ≠ _
    rw [if_pos (by simpa using present)]
    exact ofEntries_on attr

/-! The standard reader. -/

theorem standard_collects :
    standard.Collects Environment.reference? Environment.valueOf where
  overrides lead given env := by
    rw [standard]
    dsimp only
    rw [if_neg (by simpa using given)]
  on := by decide

theorem standard_counts_iff :
    standard.Counts reference ↔
      Reference.Counts (Reference.read (reference.toList.drop Reference.mark.length)) := by
  rw [Counts, standard, Reference.Counts]
  dsimp only
  generalize Reference.read (reference.toList.drop Reference.mark.length) = said
  by_cases untyped : said.1 = "" <;> simp [untyped]

/-- Only variables for the type `checker`, and for types that are mistaken for another one, set
references that count. -/
theorem checker_or_mistaken_of_counts (found : Environment.reference? lead name = some reference)
    (counted : standard.Counts reference) :
    ∃ part, Environment.HasType lead name part ∧
      (Text.lower part = "checker" ∨ Reference.Mistaken (Text.lower part).toList) := by
  obtain ⟨part, selector, attr, named, rfl⟩ := Environment.exists_of_reference? found
  obtain ⟨behind, cut, dotted, written⟩ :=
    Reference.exists_toList_format (Text.lower part) selector attr
  rw [standard_counts_iff, written] at counted
  exact ⟨part, named,
    (Reference.mistaken_of_counts cut dotted counted).imp_left (String.toList_injective ·)⟩

end EnvironmentReader

namespace Mode

open EnvironmentReader

/-- Variables that are unrelated to the checker make no difference, whichever of them are put in,
taken out and changed, exactly as long as none of them sets a reference that counts. -/
theorem ofEnvironmentBy_altered_iff {reader : EnvironmentReader}
    {reference? : String → String → Option String} {valueOf : String → Atom}
    (collects : reader.Collects reference? valueOf) {lead : String} (given : lead ≠ "")
    (names : String → Prop) :
    (∀ env env' : Environment,
      Environment.Altered (fun name => Environment.Unrelated lead name ∧ names name) env env' →
        ofEnvironmentBy reader env lead = ofEnvironmentBy reader env' lead) ↔
    ∀ name, Environment.Unrelated lead name → names name →
      ∀ reference, reference? lead name = some reference → ¬reader.Counts reference := by
  constructor
  · intro same name unrelated chosen reference found counted
    exact collects.ofEnvironmentBy_ne given found counted
      (same _ _ (.single (.insert [] [] "true" ⟨unrelated, chosen⟩))).symm
  · intro quiet env env' altered
    rw [collects.ofEnvironmentBy_eq given, collects.ofEnvironmentBy_eq given,
      counting_altered (fun name allowed => quiet name allowed.1 allowed.2) altered]

/-- What databases are configured with makes no difference. -/
theorem ofEnvironmentBy_altered_database :
    standard.Collects Environment.reference? Environment.valueOf ∧ "DATAKNOBS_" ≠ "" ∧
    ∀ env env' : Environment,
      Environment.Altered (fun name => Environment.Unrelated "DATAKNOBS_" name ∧
        Environment.HasType "DATAKNOBS_" name "DATABASE") env env' →
        ofEnvironmentBy standard env "DATAKNOBS_" = ofEnvironmentBy standard env' "DATAKNOBS_" := by
  refine ⟨standard_collects, by decide,
    (ofEnvironmentBy_altered_iff standard_collects (by decide) _).mpr ?_⟩
  intro name unrelated named reference found counted
  obtain ⟨part, also, checker | mistaken⟩ := checker_or_mistaken_of_counts found counted
  · exact unrelated part also checker
  · have lower : (Text.lower "DATABASE").toList = ['d', 'a', 't', 'a', 'b', 'a', 's', 'e'] := by
      decide
    rw [also.unique named, lower] at mistaken
    exact Reference.not_mistaken_of_proper (by decide) (List.all_eq_true.mp (by rfl)) mistaken

/-- A variable with an empty type makes the modes of an environment unreadable, whatever it is
meant for. -/
theorem ofEnvironmentBy_disturbed :
    ¬∀ (reader : EnvironmentReader) (reference? : String → String → Option String)
      (valueOf : String → Atom), reader.Collects reference? valueOf →
        ∀ (lead : String) (env env' : Environment), lead ≠ "" →
          Environment.Altered (Environment.Unrelated lead) env env' →
            ofEnvironmentBy reader env lead = ofEnvironmentBy reader env' lead := by
  intro same
  have unrelated : Environment.Unrelated "DATAKNOBS_" "DATAKNOBS___0__X" := by
    have named : Environment.HasType "DATAKNOBS_" "DATAKNOBS___0__X" "" :=
      ⟨isPart_nil, "0__X", by decide⟩
    intro part found
    rw [found.unique named]
    decide
  have equal := same standard _ _ standard_collects "DATAKNOBS_" [] [("DATAKNOBS___0__X", "1")]
    (by decide) (.single (.insert [] [] "1" unrelated))
  have fine : ofEnvironmentBy standard [] "DATAKNOBS_" = .ok {} := by rfl
  have refused : ofEnvironmentBy standard [("DATAKNOBS___0__X", "1")] "DATAKNOBS_" =
      .error (.reference "xref:.x") := by rfl
  rw [fine, refused] at equal
  cases equal

-- What stands behind the bracket is taken for the selector, so a mode is on that nobody asked for.
example : ofEnvironment [("DATAKNOBS_CHECKER[0__0__PARTIAL", "true")] "DATAKNOBS_" =
    .ok { partialCheck := true } := by rfl

/-- With the standard reader, unrelated variables make no difference exactly as long as no type for
which one of them sets something is mistaken for another one. -/
theorem ofEnvironment_unmistaken_iff {lead : String} (given : lead ≠ "") (types : String → Prop) :
    (∀ env env' : Environment, Environment.Altered (Environment.UnrelatedFor types lead) env env' →
      ofEnvironment env lead = ofEnvironment env' lead) ↔
    ∀ part, types part → IsPart part.toList → Text.lower part ≠ "checker" →
      ¬Reference.Mistaken (Text.lower part).toList := by
  constructor
  · intro same part allowed isPart other mistaken
    obtain ⟨attr, plain, counted⟩ := Reference.exists_counts mistaken
    have named : Environment.HasType lead (lead ++ part ++ "__" ++ ("0__" ++ attr)) part :=
      ⟨isPart, _, rfl⟩
    have touched : Environment.UnrelatedFor types lead
        (lead ++ part ++ "__" ++ ("0__" ++ attr)) :=
      ⟨fun _ found => found.unique named ▸ other, fun _ found => found.1.unique named ▸ allowed⟩
    refine standard_collects.ofEnvironmentBy_ne given
      (Environment.reference?_first lead isPart plain) ?_
      (same _ _ (.single (.insert [] [] "true" touched))).symm
    rwa [standard_counts_iff, Reference.toList_format_first]
  · intro clear env env' altered
    rw [ofEnvironment, standard_collects.ofEnvironmentBy_eq given,
      standard_collects.ofEnvironmentBy_eq given, counting_altered _ altered]
    rintro name ⟨unrelated, allowed⟩ reference found counted
    obtain ⟨part, named, checker | mistaken⟩ := checker_or_mistaken_of_counts found counted
    · exact unrelated part named checker
    · exact clear part (allowed part ⟨named, Option.isSome_iff_exists.mpr ⟨_, found⟩⟩) named.1
        (unrelated part named) mistaken

end Mode

end Assay
