import Assay.Schema.Basic

/-!
The steps of a check: what it does at a leaf, at a field with a leaf and at a field with a branch,
as a function of the store it starts from, and which leaves it calls on its way.
-/

set_option autoImplicit false
set_option relaxedAutoImplicit false

namespace Assay

namespace CheckM

theorem get_bind {β : Type} (f : Store → CheckM β) (store : Store) :
    (get >>= f : CheckM β) store = f store store := rfl

theorem modify_bind {β : Type} (change : Store → Store) (f : Unit → CheckM β) (store : Store) :
    (modify change >>= f : CheckM β) store = f () (change store) := rfl

end CheckM

/-- A call of a leaf in a check: the path and the value of the field that it is asked about, and the
store that it starts from. -/
structure Call (α : Type) where
  path : List String
  content : α
  given : Value
  ctx : Context
  store : Store

namespace Tree

/-- Induction over a tree, with the claim for the tree of every field of a branch. -/
theorem ind {α : Type} {P : Tree α → Prop} (leaf : ∀ content, P (.leaf content))
    (branch : ∀ fields, (∀ field ∈ fields, P field.2) → P (.branch fields)) (t : Tree α) : P t :=
  @Tree.rec α P (fun fields => ∀ field ∈ fields, P field.2) (fun field => P field.2)
    leaf branch (by simp) (fun _ _ first rest => List.forall_mem_cons.mpr ⟨first, rest⟩)
    (fun _ _ inside => inside) t

attribute [induction_eliminator] ind

variable {α : Type} (call : α → Value → Context → CheckM Value)

/-- The store after the result of a leaf was put back, or left alone. -/
def stored (ctx : Context) (parent : Option Address) (result : Value) (store : Store) : Store :=
  match parent with
  | none => store
  | some a =>
    if result = .null || !ctx.mode.sanitize then store
    else store.setEntries a ((store.entries a).put ctx.key result)

mutual

def calls : Tree α → List String → Value → Context → Option Address → Store → List (Call α)
  | .leaf content, path, v, ctx, _, store => [⟨path, content, v, ctx, store⟩]
  | .branch fields, path, v, ctx, _, store =>
    match v.fields? with
    | none => []
    | some a =>
      fieldCalls fields path a ctx
        (store.setEntries a ((store.entries a).restrict (fields.map Prod.fst)))

def fieldCalls : List (String × Tree α) → List String → Address → Context → Store →
    List (Call α)
  | [], _, _, _, _ => []
  | (name, tree) :: rest, path, a, ctx, store =>
    calls tree (path ++ [name]) ((store.entries a).get name) (ctx.child name) (some a) store ++
      match (discard (check call tree ((store.entries a).get name) (ctx.child name) (some a)) :
        CheckM Unit) store with
      | .ok _ after => fieldCalls rest path a ctx after
      | .error _ _ => []

end

mutual

def leaves : Tree α → List α
  | .leaf content => [content]
  | .branch fields => fieldLeaves fields

def fieldLeaves : List (String × Tree α) → List α
  | [] => []
  | (_, tree) :: rest => leaves tree ++ fieldLeaves rest

end

mutual

/-- The fields of every branch of a tree have different names, as the keys of a mapping do. -/
def Distinct : Tree α → Prop
  | .leaf _ => True
  | .branch fields => (fields.map Prod.fst).Nodup ∧ FieldsDistinct fields

def FieldsDistinct : List (String × Tree α) → Prop
  | [] => True
  | (_, tree) :: rest => Distinct tree ∧ FieldsDistinct rest

end

theorem fieldsDistinct_iff (fields : List (String × Tree α)) :
    FieldsDistinct fields ↔ ∀ field ∈ fields, field.2.Distinct := by
  induction fields with
  | nil => simp [FieldsDistinct]
  | cons field rest ih =>
    obtain ⟨name, tree⟩ := field
    simp [FieldsDistinct, ih]

theorem fieldLeaves_eq (fields : List (String × Tree α)) :
    fieldLeaves fields = fields.flatMap fun field => field.2.leaves := by
  induction fields with
  | nil => rfl
  | cons field rest ih =>
    obtain ⟨name, tree⟩ := field
    rw [fieldLeaves, ih, List.flatMap_cons]

theorem check_leaf (content : α) (v : Value) (ctx : Context) (parent : Option Address)
    (store : Store) :
    check call (.leaf content) v ctx parent store =
      match call content v ctx store with
      | .ok result after =>
        .ok (if result = .null || !ctx.mode.sanitize then v else result)
          (stored ctx parent result after)
      | .error failure after => .error failure after := by
  simp only [check, bind, EStateM.bind]
  cases call content v ctx store with
  | error failure after => rfl
  | ok result after =>
    by_cases quiet : (result = .null || !ctx.mode.sanitize) = true
    · cases parent <;> simp only [stored, quiet, if_true] <;> rfl
    · cases parent <;> simp only [stored, quiet] <;> rfl

theorem check_branch (fields : List (String × Tree α)) (v : Value) (ctx : Context)
    (parent : Option Address) (store : Store) :
    check call (.branch fields) v ctx parent store =
      match v.fields? with
      | none => .error (.invalid ctx.path) store
      | some a =>
        match checkFields call fields a ctx
            (store.setEntries a ((store.entries a).restrict (fields.map Prod.fst))) with
        | .ok _ after => .ok v after
        | .error failure after => .error failure after := by
  rw [check]
  cases v.fields? with
  | none => rfl
  | some a =>
    simp only [prune, CheckM.modify_bind]
    simp only [bind, EStateM.bind]
    cases checkFields call fields a ctx
      (store.setEntries a ((store.entries a).restrict (fields.map Prod.fst))) <;> rfl

theorem result_branch {fields : List (String × Tree α)} {v : Value} {ctx : Context}
    {parent : Option Address} {before after : Store} {result : Value}
    (checked : check call (.branch fields) v ctx parent before = .ok result after) :
    result = v := by
  rw [check_branch] at checked
  cases mapping : v.fields? with
  | none => simp [mapping] at checked
  | some a =>
    simp only [mapping] at checked
    cases ran : checkFields call fields a ctx
        (before.setEntries a ((before.entries a).restrict (fields.map Prod.fst))) with
    | error failure between => simp [ran] at checked
    | ok _ between =>
      simp only [ran] at checked
      cases checked
      rfl

theorem discard_eq (x : CheckM Value) (store : Store) :
    (discard x : CheckM Unit) store =
      match x store with
      | .ok _ after => .ok () after
      | .error failure after => .error failure after := by
  change EStateM.map (fun _ => ()) x store = _
  rw [EStateM.map]
  cases x store <;> rfl

theorem discard_ok_iff (x : CheckM Value) (store after : Store) :
    (discard x : CheckM Unit) store = .ok () after ↔ ∃ result, x store = .ok result after := by
  rw [discard_eq]
  cases x store <;> simp

theorem discard_error_iff (x : CheckM Value) (store after : Store) (failure : Failure) :
    (discard x : CheckM Unit) store = .error failure after ↔ x store = .error failure after := by
  rw [discard_eq]
  cases x store <;> simp

theorem checkFields_nil (a : Address) (ctx : Context) (store : Store) :
    checkFields call [] a ctx store = .ok () store := rfl

theorem checkFields_cons (name : String) (tree : Tree α) (rest : List (String × Tree α))
    (a : Address) (ctx : Context) (store : Store) :
    checkFields call ((name, tree) :: rest) a ctx store =
      match (discard (check call tree ((store.entries a).get name) (ctx.child name) (some a)) :
        CheckM Unit) store with
      | .ok _ after => checkFields call rest a ctx after
      | .error failure after => .error failure after := by
  rw [checkFields, CheckM.get_bind]
  simp only [bind, EStateM.bind, discard_eq]
  cases check call tree ((store.entries a).get name) (ctx.child name) (some a) store <;> rfl

end Tree

end Assay
