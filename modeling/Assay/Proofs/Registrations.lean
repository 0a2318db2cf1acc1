import Assay.Registration
import Assay.Proofs.Keys
import Mathlib.Data.List.Induction

/-!
Registries of kinds over time, whatever registry that is and whatever is called when checkers are
built. Beside a run of operations a history is kept of the names that were entered and removed.
Whatever the operations, a registry holds under each name what was entered last and lists its names
in the order in which they were entered for the first time since they were removed; an operation
that fails leaves it as it was, but for the steps that were taken inside it, and a factory under
several names stays registered under those before the first that was refused.
-/

set_option autoImplicit false
set_option relaxedAutoImplicit false

namespace Assay

/-- What happens to the names of a registry. -/
inductive Event (β : Type) where
  | entered (name : Data) (item : β)
  | removed (name : Data)
  | cleared

namespace Event

variable {β : Type}

/-- Whether an event takes a name away. -/
def drops (name : Data) : Event β → Bool
  | entered _ _ => false
  | removed other => other == name
  | cleared => true

def concerns (name : Data) : Event β → Bool
  | entered other _ => other == name
  | event => event.drops name

end Event

namespace History

variable {β : Type} {history : List (Event β)} {event : Event β} {name : Data} {item : β}
  {place : Nat}

/-- The last event that concerns a name entered an item under it. -/
def Latest (history : List (Event β)) (name : Data) (item : β) : Prop :=
  ∃ before other after, history = before ++ .entered other item :: after ∧
    (other == name) = true ∧ ∀ event ∈ after, event.concerns name = false

/-- A name was entered and has not been taken away since. -/
def Present (history : List (Event β)) (name : Data) : Prop :=
  ∃ item, Latest history name item

/-- A name was entered at a place of the history when it was not present, and has not been taken
away since. -/
def Founded (history : List (Event β)) (place : Nat) (name : Data) : Prop :=
  ∃ before item after, history = before ++ .entered name item :: after ∧
    before.length = place ∧ ¬Present before name ∧ ∀ event ∈ after, event.drops name = false

theorem latest_concat : Latest (history ++ [event]) name item ↔
    (∃ other, event = .entered other item ∧ (other == name) = true) ∨
      (event.concerns name = false ∧ Latest history name item) := by
  constructor
  · rintro ⟨before, other, after, split, same, quiet⟩
    -- Either nothing came after the entry, which is then the new event, or the new event came last.
    rcases List.eq_nil_or_concat after with rfl | ⟨after, last, rfl⟩
    · obtain ⟨-, last⟩ := List.append_inj' split rfl
      exact Or.inl ⟨other, List.cons.inj last |>.1, same⟩
    · have whole : history ++ [event] =
          (before ++ .entered other item :: after) ++ [last] := by
        simpa using split
      obtain ⟨rfl, ends⟩ := List.append_inj' whole rfl
      obtain rfl := (List.cons.inj ends).1
      have quiet' := quiet event (by simp)
      exact Or.inr ⟨quiet', before, other, after, rfl, same, fun later member =>
        quiet later (by simp [member])⟩
  · rintro (⟨other, rfl, same⟩ | ⟨quiet, before, other, after, rfl, same, silent⟩)
    · exact ⟨history, other, [], rfl, same, nofun⟩
    · refine ⟨before, other, after ++ [event], by simp, same, ?_⟩
      simpa [or_imp, forall_and] using ⟨silent, quiet⟩

theorem Founded.lt (founded : Founded history place name) : place < history.length := by
  obtain ⟨before, item, after, rfl, rfl, _, _⟩ := founded
  simp

theorem Founded.concat (founded : Founded history place name) (kept : event.drops name = false) :
    Founded (history ++ [event]) place name := by
  obtain ⟨before, item, after, rfl, length, absent, since⟩ := founded
  refine ⟨before, item, after ++ [event], by simp, length, absent, ?_⟩
  simpa [or_imp, forall_and] using ⟨since, kept⟩

theorem founded_entered (absent : ¬Present history name) (item : β) :
    Founded (history ++ [.entered name item]) history.length name :=
  ⟨history, item, [], rfl, rfl, absent, nofun⟩

end History

namespace CommonRegistry

open History

variable {ρ β : Type} [CommonRegistry ρ β] {r after : ρ} {history : List (Event β)} {name : Data}
  {item : β} {overwrite : Bool} {names before : List Data}

/-- A registry is as its history says: it holds under each name what was entered last, and its
names, no two of them equal, stand in the order of the places at which they were founded. -/
structure Reflects (r : ρ) (history : List (Event β)) : Prop where
  distinct : (keys r).Pairwise fun key other => (key == other) = false
  latest : ∀ (name : Data) (item : β), name.isKey →
    (get? r name = some item ↔ Latest history name item)
  ordered : ∃ marks : List (Nat × Data), marks.map Prod.snd = keys r ∧
    (marks.Pairwise fun mark later => mark.1 < later.1) ∧
      ∀ mark ∈ marks, Founded history mark.1 mark.2

theorem Reflects.has_iff (reflects : Reflects r history) (key : name.isKey) :
    has r name ↔ Present history name := by
  rw [has, Option.isSome_iff_exists]
  exact exists_congr fun item => reflects.latest name item key

/-! Registering an item under several names. -/

/-- Whether a name is refused after others in the same call: it can be no key, or it may not be
entered again and is taken, be it by one of the others. -/
def refuses (r : ρ) (overwrite : Bool) (before : List Data) (name : Data) : Bool :=
  !name.isKey || (!overwrite && (has r name || before.any fun other => other == name))

/-- No name is refused after those before it. -/
def Allows (r : ρ) (overwrite : Bool) (names : List Data) : Prop :=
  ∀ before name after, names = before ++ name :: after → refuses r overwrite before name = false

/-- The names before the first one that is refused. -/
def accepted (item : β) (overwrite : Bool) : ρ → List Data → List Data
  | _, [] => []
  | r, name :: rest =>
    match register r name item overwrite with
    | .ok r => name :: accepted item overwrite r rest
    | .error _ => []

theorem isKey_of_refuses (allowed : refuses r overwrite before name = false) : name.isKey := by
  simp only [refuses, Bool.or_eq_false_iff, Bool.not_eq_false'] at allowed
  exact allowed.1

theorem Enters.has_eq {other : Data} (enters : Enters r name item after)
    (key : other.isKey) : has after other = (name == other || has r other) := by
  rw [has, has, enters.get?_eq other key]
  cases name == other <;> rfl

theorem Enters.refuses_eq (enters : Enters r name item after) (overwrite : Bool)
    (before : List Data) (other : Data) :
    refuses after overwrite before other = refuses r overwrite (name :: before) other := by
  rw [refuses, refuses]
  cases key : other.isKey with
  | false => rfl
  | true =>
    rw [enters.has_eq key, List.any_cons]
    cases name == other <;> cases has r other <;> rfl

theorem Allows.cons (allowed : refuses r overwrite [] name = false)
    (enters : Enters r name item after) (allows : Allows after overwrite names) :
    Allows r overwrite (name :: names) := by
  intro earlier other later split
  cases earlier with
  | nil =>
    obtain ⟨rfl, -⟩ := List.cons.inj split
    exact allowed
  | cons first earlier =>
    obtain ⟨rfl, tail⟩ := List.cons.inj split
    exact (enters.refuses_eq overwrite earlier other).symm.trans (allows earlier other later tail)

/-! What holds of registries that do what is documented. -/

variable [LawfulRegistry ρ]

theorem isKey_of_get? (held : get? r name = some item) : name.isKey := by
  by_contra noKey
  obtain ⟨failure, stopped⟩ := LawfulRegistry.lookup_noKey r noKey
  rw [get?, stopped] at held
  cases held

theorem get?_of_keys_nil (none : keys r = []) (key : name.isKey) : get? r name = Option.none := by
  have absent := (LawfulRegistry.has_iff r key).not
  rw [none] at absent
  simpa [has] using absent

theorem reflects_cleared (r : ρ) (history : List (Event β)) :
    Reflects (clear r) (history ++ [.cleared]) where
  distinct := by
    rw [LawfulRegistry.keys_clear]
    exact List.Pairwise.nil
  latest name item key := by
    rw [get?_of_keys_nil (LawfulRegistry.keys_clear r) key, latest_concat]
    simp [Event.concerns, Event.drops]
  ordered := ⟨[], (LawfulRegistry.keys_clear r).symm, List.Pairwise.nil, nofun⟩

theorem Reflects.enter (reflects : Reflects r history) (key : name.isKey)
    (enters : Enters r name item after) : Reflects after (history ++ [.entered name item]) where
  distinct := by
    rw [enters.keys_eq]
    split
    · exact reflects.distinct
    · rename_i absent
      rw [LawfulRegistry.has_iff r key] at absent
      refine List.pairwise_append.mpr ⟨reflects.distinct, List.pairwise_singleton _ _, ?_⟩
      intro old member new last
      rw [List.mem_singleton.mp last]
      simpa using List.any_eq_false.mp (Bool.eq_false_iff.mpr absent) old member
  latest := by
    intro other later otherKey
    rw [enters.get?_eq other otherKey, latest_concat]
    cases same : name == other with
    | true =>
      rw [if_pos rfl, Option.some.injEq]
      constructor
      · rintro rfl
        exact Or.inl ⟨name, rfl, same⟩
      · rintro (⟨_, entered, _⟩ | ⟨quiet, _⟩)
        · exact (Event.entered.inj entered).2
        · rw [Event.concerns, same] at quiet
          cases quiet
    | false => simpa [Event.concerns, same] using reflects.latest other later otherKey
  ordered := by
    obtain ⟨marks, listed, rising, founded⟩ := reflects.ordered
    have kept : ∀ mark ∈ marks, Founded (history ++ [.entered name item]) mark.1 mark.2 :=
      fun mark member => (founded mark member).concat rfl
    rw [enters.keys_eq]
    split
    · exact ⟨marks, listed, rising, kept⟩
    -- The new name is founded at the end of the history, behind every place that is marked.
    · rename_i absent
      have founding := founded_entered (mt (reflects.has_iff key).mpr absent) item
      refine ⟨marks ++ [(history.length, name)], by simp [listed], ?_, ?_⟩
      · refine List.pairwise_append.mpr ⟨rising, List.pairwise_singleton _ _, ?_⟩
        intro mark member new last
        rw [List.mem_singleton.mp last]
        exact (founded mark member).lt
      · intro mark member
        rcases List.mem_append.mp member with old | new
        · exact kept mark old
        · rw [List.mem_singleton.mp new]
          exact founding

theorem Reflects.drop (reflects : Reflects r history) (key : name.isKey)
    (drops : Drops r name after) : Reflects after (history ++ [.removed name]) where
  distinct := by
    rw [drops.keys_eq]
    exact reflects.distinct.filter _
  latest := by
    intro other later otherKey
    rw [drops.get?_eq other otherKey, latest_concat]
    cases same : name == other with
    | true => simp [Event.concerns, Event.drops, same]
    | false => simpa [Event.concerns, Event.drops, same] using reflects.latest other later otherKey
  ordered := by
    obtain ⟨marks, listed, rising, founded⟩ := reflects.ordered
    refine ⟨marks.filter fun mark => !(mark.2 == name), ?_, rising.filter _, ?_⟩
    · rw [drops.keys_eq, ← listed, List.filter_map]
      rfl
    · intro mark member
      obtain ⟨member, other⟩ := List.mem_filter.mp member
      have markKey : mark.2.isKey :=
        LawfulRegistry.isKey_of_mem r (listed ▸ List.mem_map_of_mem member)
      refine (founded mark member).concat ?_
      rw [Event.drops, Data.beq_comm key markKey]
      simpa using other

theorem register_of_refuses (item : β) (refused : refuses r overwrite [] name = true) :
    ∃ failure, register r name item overwrite = .error failure ∧
      (name.isKey → failure = .registry (.taken name)) := by
  by_cases key : name.isKey
  · have ⟨once, taken⟩ : overwrite = false ∧ has r name = true := by
      simpa [refuses, key] using refused
    subst once
    exact ⟨_, LawfulRegistry.register_taken r item key taken, fun _ => rfl⟩
  · obtain ⟨failure, stopped⟩ := LawfulRegistry.register_noKey r item overwrite key
    exact ⟨failure, stopped, fun also => absurd also key⟩

theorem register_of_not_refuses (item : β) (allowed : refuses r overwrite [] name = false) :
    ∃ after, register r name item overwrite = .ok after ∧ Enters r name item after := by
  have key := isKey_of_refuses allowed
  refine LawfulRegistry.register_allowed r item key fun taken => ?_
  simpa [refuses, key, taken] using allowed

theorem refuses_of_register (registered : register r name item overwrite = .ok after) :
    refuses r overwrite [] name = false ∧ Enters r name item after := by
  cases refused : refuses r overwrite [] name with
  | true =>
    obtain ⟨failure, stopped, _⟩ := register_of_refuses item refused
    cases stopped.symm.trans registered
  | false =>
    obtain ⟨_, also, enters⟩ := register_of_not_refuses item refused
    obtain rfl := Except.ok.inj (also.symm.trans registered)
    exact ⟨rfl, enters⟩

theorem Reflects.registerAll (reflects : Reflects r history) (item : β) (overwrite : Bool)
    (names : List Data) :
    Reflects (registerAll item overwrite r names).1
      (history ++ (accepted item overwrite r names).map fun name => .entered name item) := by
  induction names generalizing r history with
  | nil => simpa [CommonRegistry.registerAll, accepted] using reflects
  | cons name names ih =>
    rw [accepted, CommonRegistry.registerAll]
    cases registered : register r name item overwrite with
    | error failure => simpa using reflects
    | ok middle =>
      obtain ⟨allowed, enters⟩ := refuses_of_register registered
      simpa using ih (reflects.enter (isKey_of_refuses allowed) enters)

end CommonRegistry

open CommonRegistry

section Steps

variable {ρ β : Type} [CommonRegistry ρ β]

/-- What a change does to the names. If it fails it does nothing, but for an entry under several
names, which reaches those before the first that is refused. -/
def RegistryChange.events (r : ρ) : RegistryChange β → List (Event β)
  | .enterChecked _ none _ => []
  | .enterChecked name (some item) overwrite =>
    (accepted item overwrite r [name]).map fun name => .entered name item
  | .enterAll names item overwrite =>
    (accepted item overwrite r names).map fun name => .entered name item
  | .remove name => if has r name then [.removed name] else []
  | .clear => [.cleared]

namespace Operation

/-- The steps that are taken inside an operation: those of the item that a build calls. -/
def within (r : ρ) : Operation β → List (Operation β)
  | .change _ => []
  | .build kind inside _ => (fetch r kind).toOption.elim [] inside
  | .make kind inside _ => (demand r kind).toOption.elim [] inside

mutual

/-- What an operation does to the names, by itself and by the steps inside it. -/
def events : Operation β → ρ → List (Event β)
  | .change c, r => c.events r
  | .build kind inside _, r =>
    match fetch r kind with
    | .ok item => history (inside item) r
    | .error _ => []
  | .make kind inside _, r =>
    match demand r kind with
    | .ok item => history (inside item) r
    | .error _ => []

/-- What a run of operations does to the names. -/
def history : List (Operation β) → ρ → List (Event β)
  | [], _ => []
  | operation :: rest, r => events operation r ++ history rest (run operation r).1

end

variable {r after : ρ} {past : List (Event β)} {failure : Failure}

theorem change_reflects [LawfulRegistry ρ] (reflects : Reflects r past)
    (change : RegistryChange β) : Reflects (change.apply r).1 (past ++ change.events r) := by
  cases change with
  | enterAll names item overwrite =>
    have entered := reflects.registerAll item overwrite names
    rw [RegistryChange.apply]
    split <;> rename_i ran <;> rwa [ran] at entered
  | clear => exact reflects_cleared r past
  | remove name =>
    rw [RegistryChange.events, RegistryChange.apply, has]
    cases held : get? r name with
    | none =>
      obtain ⟨failure, stopped⟩ := LawfulRegistry.unregister_absent r held
      simpa [stopped] using reflects
    | some item =>
      obtain ⟨after, removed, drops⟩ := LawfulRegistry.unregister_held r held
      simpa [removed] using reflects.drop (isKey_of_get? held) drops
  | enterChecked name item? overwrite =>
    cases item? with
    | none => simpa [RegistryChange.events, RegistryChange.apply] using reflects
    | some item =>
      have entered := reflects.registerAll item overwrite [name]
      rw [registerAll] at entered
      rw [RegistryChange.apply]
      split <;> rename_i ran <;> rwa [ran] at entered

mutual

theorem run_reflects [LawfulRegistry ρ] : ∀ (operation : Operation β) {r : ρ}
    {past : List (Event β)}, Reflects r past →
      Reflects (run operation r).1 (past ++ events operation r)
  | .change c, _, _, reflects => change_reflects reflects c
  | .build kind inside outcome, r, _, reflects => by
    rw [run, events]
    cases fetch r kind with
    | ok item => exact runAll_reflects (inside item) reflects
    | error failure => simpa using reflects
  | .make kind inside outcome, r, _, reflects => by
    rw [run, events]
    cases demand r kind with
    | ok item => exact runAll_reflects (inside item) reflects
    | error failure => simpa using reflects

theorem runAll_reflects [LawfulRegistry ρ] : ∀ (operations : List (Operation β)) {r : ρ}
    {past : List (Event β)}, Reflects r past →
      Reflects (runAll operations r) (past ++ history operations r)
  | [], _, _, reflects => by simpa [runAll, history] using reflects
  | operation :: rest, _, _, reflects => by
    rw [runAll, history, ← List.append_assoc]
    exact runAll_reflects rest (run_reflects operation reflects)

end

end Operation

end Steps

theorem Registry.register_text {β : Type} (r : Registry β) (name : String) (item : β)
    (overwrite : Bool) :
    register r (.text name) item overwrite =
      if r.has (.text name) && !overwrite then .error (.registry (.taken (.text name)))
      else .ok (r.put ⟨.text name, rfl⟩ item) := by
  rfl

namespace Operation

variable {kinds : Kinds} {store : Store} {kind : Data} {source : OptionsSource}
  {keywords : Keywords}

theorem run_kinds_build (among : Kinds)
    (free : Factory.requireFree ["self", "kind", "options"] keywords = .ok ()) :
    run (.build kind (fun _ => []) fun registrant => among.makeWith store registrant source keywords)
        kinds =
      (kinds, failure? (kinds.build among store kind source keywords)) := by
  rw [run, Kinds.build, free, Kinds.fetch]
  cases fetch kinds kind <;> rfl

theorem run_kinds_make (free : Factory.requireFree ["kind", "options"] keywords = .ok ()) :
    run (.make kind (fun _ => []) fun registrant =>
          match registrant with
          | .value (.atom .null) => .error (.misuse (.unknownKind kind (some kinds.keys)))
          | registrant => kinds.makeWith store registrant source keywords)
        kinds =
      (kinds, failure? (kinds.make store kind source keywords)) := by
  rw [run, Kinds.make, Kinds.makeBy, free, Kinds.find?, demand]
  by_cases key : kind.isKey
  · rw [Registry.lookup_of_isKey kinds key, key]
    cases kinds.get? kind with
    | none => rfl
    | some registrant =>
      cases registrant with
      | factory factory => rfl
      | value v =>
        change (kinds, failure? _) = _
        split <;> simp_all <;> rfl
  · rw [Registry.lookup_of_not_isKey kinds key, if_pos (by simpa using key)]
    rfl

theorem runAll_builtin :
    runAll ([(["boolean"], .boolean), (["number"], .number), (["string"], .string),
      (["array"], .array), (["mac"], .mac), (["ipv4", "ip"], .ipv4), (["ipv6"], .ipv6),
      (["objectId", "objectID"], .objectId), (["email"], .email), (["siret"], .siret)].map
        fun (names, kind) =>
          .change (.enterAll (names.map Data.text) (.factory (.builtin kind)) false))
      (empty : Kinds) = Kinds.builtin := by
  simp [runAll, run, RegistryChange.apply, registerAll, Registry.register_text, Registry.has,
    Registry.put, Registry.putEntry, empty, Kinds.builtin, Data.text_beq]

end Operation

end Assay
