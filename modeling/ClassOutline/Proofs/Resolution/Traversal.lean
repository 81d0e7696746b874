/-
  ClassOutline.Proofs.Resolution.Traversal
  ────────────────────────────────
  **RESOLUTION STEP BY STEP.**

  `Definitions.resolveWith` takes the look-up of bound paths as a function.
  `resolveM` is the same recursion with a look-up that has effects: it may keep
  track of what is being followed, or be nested too deep and give nothing.  Each
  part of a value is reached in its turn, with the effects of those before it.

  What holds of two look-ups holds of the two recursions, if it is kept from
  step to step (`MonadRelation`); the look-ups are compared only on the paths
  that the expression asks for (`Initializer.asked`).  Without effects the
  recursion is `resolveWith` itself (`resolveM_id`).
-/
import ClassOutline.Resolution.Basic

namespace ClassOutline

/-! ## §1. What an expression asks for. -/

namespace Initializer

mutual

/-- The paths of all references in an expression, called or not, at any depth. -/
def paths : Initializer → List (List Text)
  | literal _ => []
  | list items | tuple items => pathsOfAll items
  | dict entries => pathsOfEntries entries
  | name path => [path]
  | call path args => path :: pathsOfAll args

/-- The paths of the references in expressions. -/
def pathsOfAll : List Initializer → List (List Text)
  | [] => []
  | i :: is => i.paths ++ pathsOfAll is

/-- The paths of the references in the keys and values of dict entries. -/
def pathsOfEntries : List (Initializer × Initializer) → List (List Text)
  | [] => []
  | (k, v) :: rest => k.paths ++ v.paths ++ pathsOfEntries rest

end

/-- The paths that a reference may have to be looked up by: its own and the leading parts. -/
def partsOf (path : List Text) : List (List Text) := path :: Definitions.leadingParts path

/-- The paths that may have to be looked up among the bindings to resolve an expression. -/
def asked (i : Initializer) : List (List Text) := i.paths.flatMap partsOf

end Initializer

/-! ## §2. The recursion with effects. -/

namespace Definitions

section

variable {m : Type → Type} [Monad m] (d : Definitions) (follow : List Text → m (Option Text))

/-- The class that the first of the parts to have one names or is bound to. -/
def firstClassM : List (List Text) → m (Option Text)
  | [] => pure none
  | part :: parts =>
    match d.classes.get? (Text.dotted part) with
    | some name => pure (some name)
    | none => do
      match ← follow part with
      | some name => pure (some name)
      | none => firstClassM parts

/-- `resolveBeyond`, step by step. -/
def resolveBeyondM (path : List Text) : m Value := do
  match ← d.firstClassM follow (leadingParts path) with
  | some name => pure (.classReference name)
  | none => pure (.external path)

/-- `resolveName`, step by step. -/
def resolveNameM (path : List Text) : m Value :=
  match d.classes.get? (Text.dotted path) with
  | some name => pure (.classReference name)
  | none => do
    match ← follow path with
    | some name => pure (.classReference name)
    | none => d.resolveBeyondM follow path

mutual

/-- `resolveWith`, step by step. -/
def resolveM : Initializer → m Value
  | .literal v => pure v
  | .list items => do pure (.list (← resolveItemsM items))
  | .dict entries => do pure (.dict (← resolveEntriesM entries))
  | .tuple items => do pure (.tuple (← resolveItemsM items))
  | .name path => d.resolveNameM follow path
  | .call path args =>
    match d.classes.get? (Text.dotted path) with
    | some name => do pure (.construction name (← resolveItemsM args))
    | none => d.resolveBeyondM follow path

/-- `resolveItems`, one item after the other. -/
def resolveItemsM : List Initializer → m (List Value)
  | [] => pure []
  | i :: is => do
    let v ← resolveM i
    let vs ← resolveItemsM is
    pure (v :: vs)

/-- `resolveEntries`, each key before its value. -/
def resolveEntriesM : List (Initializer × Initializer) → m (List (Value × Value))
  | [] => pure []
  | (k, v) :: rest => do
    let key ← resolveM k
    let value ← resolveM v
    let entries ← resolveEntriesM rest
    pure ((key, value) :: entries)

end

end

/-! ## §3. Look-ups without effects. -/

section

variable (d : Definitions) (follow : List Text → Id (Option Text))

theorem firstClassM_id (parts : List (List Text)) :
    d.firstClassM follow parts
      = parts.findSome? fun part => (d.classes.get? (Text.dotted part)).or (follow part) := by
  induction parts with
  | nil => rfl
  | cons part parts ih =>
      rw [firstClassM, List.findSome?_cons]
      cases d.classes.get? (Text.dotted part) with
      | some name => rfl
      | none =>
          rw [Option.none_or]
          show (match follow part with
            | some name => some name
            | none => d.firstClassM follow parts) = _
          cases (follow part : Option Text) with
          | some name => rfl
          | none => exact ih

theorem resolveBeyondM_id (path : List Text) :
    d.resolveBeyondM follow path = d.resolveBeyond follow path := by
  unfold resolveBeyondM resolveBeyond leadingClass?
  rw [firstClassM_id]
  rfl

theorem resolveNameM_id (path : List Text) :
    d.resolveNameM follow path = d.resolveName follow path := by
  unfold resolveNameM resolveName
  rw [resolveBeyondM_id]
  cases d.classes.get? (Text.dotted path) with
  | some name => rfl
  | none => rfl

mutual

/-- **WITHOUT EFFECTS THE STEPS ARE THOSE OF `resolveWith`.** -/
theorem resolveM_id : ∀ i : Initializer, d.resolveM follow i = d.resolveWith follow i
  | .literal _ => rfl
  | .list items => congrArg Value.list (resolveItemsM_id items)
  | .dict entries => congrArg Value.dict (resolveEntriesM_id entries)
  | .tuple items => congrArg Value.tuple (resolveItemsM_id items)
  | .name path => d.resolveNameM_id follow path
  | .call path args => by
      rw [resolveM, resolveWith]
      cases d.classes.get? (Text.dotted path) with
      | some name => exact congrArg (Value.construction name) (resolveItemsM_id args)
      | none => exact d.resolveBeyondM_id follow path

theorem resolveItemsM_id : ∀ is : List Initializer,
    d.resolveItemsM follow is = d.resolveItems follow is
  | [] => rfl
  | i :: is => by
      show (d.resolveM follow i :: d.resolveItemsM follow is : List Value) = _
      rw [resolveM_id i, resolveItemsM_id is]
      rfl

theorem resolveEntriesM_id : ∀ es : List (Initializer × Initializer),
    d.resolveEntriesM follow es = d.resolveEntries follow es
  | [] => rfl
  | (k, v) :: rest => by
      show ((d.resolveM follow k, d.resolveM follow v) :: d.resolveEntriesM follow rest
        : List (Value × Value)) = _
      rw [resolveM_id k, resolveM_id v, resolveEntriesM_id rest]
      rfl

end

end

end Definitions

/-! ## §4. What two recursions have in common. -/

/-- A relation between computations that is kept from step to step. -/
structure MonadRelation (m n : Type → Type) [Monad m] [Monad n] where
  holds : ∀ {α : Type}, m α → n α → Prop
  pure {α : Type} (a : α) : holds (Pure.pure a) (Pure.pure a)
  bind {α β : Type} {x : m α} {y : n α} {f : α → m β} {g : α → n β} (h : holds x y)
    (next : ∀ a, holds (f a) (g a)) : holds (x >>= f) (y >>= g)

namespace Definitions

variable {m n : Type → Type} [Monad m] [Monad n] (R : MonadRelation m n) (d : Definitions)
  {follow : List Text → m (Option Text)} {follow' : List Text → n (Option Text)}

theorem firstClassM_related {parts : List (List Text)}
    (h : ∀ part ∈ parts, R.holds (follow part) (follow' part)) :
    R.holds (d.firstClassM follow parts) (d.firstClassM follow' parts) := by
  induction parts with
  | nil => exact R.pure none
  | cons part parts ih =>
      rw [firstClassM, firstClassM]
      cases d.classes.get? (Text.dotted part) with
      | some name => exact R.pure (some name)
      | none =>
          refine R.bind (h part List.mem_cons_self) fun found => ?_
          cases found with
          | some name => exact R.pure (some name)
          | none => exact ih fun p hp => h p (List.mem_cons_of_mem part hp)

theorem resolveBeyondM_related {path : List Text}
    (h : ∀ part ∈ leadingParts path, R.holds (follow part) (follow' part)) :
    R.holds (d.resolveBeyondM follow path) (d.resolveBeyondM follow' path) := by
  refine R.bind (d.firstClassM_related R h) fun found => ?_
  cases found with
  | some name => exact R.pure _
  | none => exact R.pure _

theorem resolveNameM_related {path : List Text}
    (h : ∀ part ∈ Initializer.partsOf path, R.holds (follow part) (follow' part)) :
    R.holds (d.resolveNameM follow path) (d.resolveNameM follow' path) := by
  unfold resolveNameM
  cases d.classes.get? (Text.dotted path) with
  | some name => exact R.pure _
  | none =>
      refine R.bind (h path List.mem_cons_self) fun found => ?_
      cases found with
      | some name => exact R.pure _
      | none => exact d.resolveBeyondM_related R fun part hpart => h part (List.mem_cons_of_mem _ hpart)

mutual

/-- The recursion with related look-ups of all parts of all paths in an expression. -/
theorem resolveM_related_of_paths : ∀ i : Initializer,
    (∀ path ∈ i.paths, ∀ part ∈ Initializer.partsOf path, R.holds (follow part) (follow' part)) →
    R.holds (d.resolveM follow i) (d.resolveM follow' i)
  | .literal v, _ => by
      rw [resolveM, resolveM]
      exact R.pure v
  | .list items, h => by
      rw [resolveM, resolveM]
      exact R.bind (resolveItemsM_related items h) fun _ => R.pure _
  | .dict entries, h => by
      rw [resolveM, resolveM]
      exact R.bind (resolveEntriesM_related entries h) fun _ => R.pure _
  | .tuple items, h => by
      rw [resolveM, resolveM]
      exact R.bind (resolveItemsM_related items h) fun _ => R.pure _
  | .name path, h => by
      rw [resolveM, resolveM]
      exact d.resolveNameM_related R (h path (List.mem_singleton.2 rfl))
  | .call path args, h => by
      rw [resolveM, resolveM]
      cases d.classes.get? (Text.dotted path) with
      | some name =>
          refine R.bind (resolveItemsM_related args fun p hp => ?_) fun _ => R.pure _
          exact h p (List.mem_cons_of_mem path hp)
      | none =>
          refine d.resolveBeyondM_related R fun part hpart => ?_
          exact h path List.mem_cons_self part (List.mem_cons_of_mem path hpart)

theorem resolveItemsM_related : ∀ is : List Initializer,
    (∀ path ∈ Initializer.pathsOfAll is, ∀ part ∈ Initializer.partsOf path,
      R.holds (follow part) (follow' part)) →
    R.holds (d.resolveItemsM follow is) (d.resolveItemsM follow' is)
  | [], _ => by
      rw [resolveItemsM, resolveItemsM]
      exact R.pure []
  | i :: is, h => by
      have first := resolveM_related_of_paths i fun p hp => h p (List.mem_append_left _ hp)
      have others := resolveItemsM_related is fun p hp => h p (List.mem_append_right _ hp)
      rw [resolveItemsM, resolveItemsM]
      exact R.bind first fun _ => R.bind others fun _ => R.pure _

theorem resolveEntriesM_related : ∀ es : List (Initializer × Initializer),
    (∀ path ∈ Initializer.pathsOfEntries es, ∀ part ∈ Initializer.partsOf path,
      R.holds (follow part) (follow' part)) →
    R.holds (d.resolveEntriesM follow es) (d.resolveEntriesM follow' es)
  | [], _ => by
      rw [resolveEntriesM, resolveEntriesM]
      exact R.pure []
  | (k, v) :: rest, h => by
      have key := resolveM_related_of_paths k fun p hp =>
        h p (List.mem_append_left _ (List.mem_append_left _ hp))
      have value := resolveM_related_of_paths v fun p hp =>
        h p (List.mem_append_left _ (List.mem_append_right _ hp))
      have others := resolveEntriesM_related rest fun p hp => h p (List.mem_append_right _ hp)
      rw [resolveEntriesM, resolveEntriesM]
      exact R.bind key fun _ => R.bind value fun _ => R.bind others fun _ => R.pure _

end

/-- **RELATED LOOK-UPS GIVE RELATED VALUES**, if they are related on what is asked. -/
theorem resolveM_related {i : Initializer}
    (h : ∀ part ∈ i.asked, R.holds (follow part) (follow' part)) :
    R.holds (d.resolveM follow i) (d.resolveM follow' i) :=
  d.resolveM_related_of_paths R i fun path hpath part hpart =>
    h part (List.mem_flatMap.2 ⟨path, hpath, hpart⟩)

end Definitions

end ClassOutline
