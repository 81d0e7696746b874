/-
  ClassOutline.Resolution.Basic
  ────────────────────────────────
  **WHAT A SOURCE DEFINES, AND WHAT ITS NAMES STAND FOR.**

  All classes and bindings of a source are collected before any name is looked
  up, so a value may name what is defined further down.  A binding has a key:
  `name` for a module, `Class.name` for the body of a class, `Class.self.name`
  for an attribute of self in the constructor; a later binding of a key
  replaces the earlier one.

  A name stands for a class if it is the class's, or is bound to a value that
  refers to one.  Of a longer path some leading part may be such a name.
  Anything else is external.

  Bindings may run in circles.  A key that is being followed is not followed
  again, so every look-up ends.
-/
import ClassOutline.Initializer.Basic
import ClassOutline.Resolution.Table

namespace ClassOutline

/-! ## §1. Definitions. -/

/-- Where an expression stands. -/
structure Place where
  /-- The class around it, by its qualified name. -/
  className : Option Text := none
  /-- The name of self, in a constructor. -/
  selfName : Option Text := none
  deriving DecidableEq, Repr

/-- A value that was bound, and where. -/
structure Binding where
  value : Initializer
  place : Place
  deriving Repr

/-- The classes and bindings of a source. -/
structure Definitions where
  /-- Qualified names by the names a class is found under. -/
  classes : Table Text := {}
  bindings : Table Binding := {}
  deriving Repr

namespace Definitions

/-- Add a class.  It is found under its qualified name, and a nested one also under its last
part unless that name is taken. -/
def addClass (d : Definitions) (qualified : Text) : Definitions :=
  let named := d.classes.set qualified qualified
  match qualified.cutAtLast? '.' with
  | none => { d with classes := named }
  | some (_, short) => { d with classes := named.setNew short qualified }

/-- Some class is found under the name. -/
def isClass (d : Definitions) (name : Text) : Bool := d.classes.contains name

/-- The key of an attribute of a class. -/
def classKey (className name : Text) : Text := className ++ '.' :: name

/-- The key of an attribute of self. -/
def selfKey (className name : Text) : Text := className ++ ".self.".toList ++ name

/-- Bind a name of the module. -/
def bindModule (d : Definitions) (name : Text) (value : Initializer) : Definitions :=
  { d with bindings := d.bindings.set name ⟨value, {}⟩ }

/-- Bind a name in the body of a class. -/
def bindClassAttribute (d : Definitions) (className name : Text) (value : Initializer) :
    Definitions :=
  { d with bindings :=
      d.bindings.set (classKey className name) ⟨value, { className := some className }⟩ }

/-- Bind an attribute of self in a constructor. -/
def bindSelf (d : Definitions) (className selfName name : Text) (value : Initializer) :
    Definitions :=
  { d with bindings :=
      d.bindings.set (selfKey className name) ⟨value, ⟨some className, some selfName⟩⟩ }

/-- Drop all bindings in the body of a class, those of its methods and nested classes
included. -/
def forget (d : Definitions) (className : Text) : Definitions :=
  { d with bindings := d.bindings.restrict fun key => !key.startsWith (className ++ ['.']) }

/-! ## §2. Values, given how bindings are followed. -/

/-- The leading parts of a path, the longest first, the path itself left out. -/
def leadingParts (path : List Text) : List (List Text) :=
  (List.range' 1 (path.length - 1)).reverse.map path.take

/-- The class that a leading part of a path names or is bound to. -/
def leadingClass? (d : Definitions) (follow : List Text → Option Text) (path : List Text) :
    Option Text :=
  (leadingParts path).findSome? fun part =>
    (d.classes.get? (Text.dotted part)).or (follow part)

/-- What a path stands for that names no class itself. -/
def resolveBeyond (d : Definitions) (follow : List Text → Option Text) (path : List Text) :
    Value :=
  match d.leadingClass? follow path with
  | some name => .classReference name
  | none => .external path

/-- What a path stands for that is not called. -/
def resolveName (d : Definitions) (follow : List Text → Option Text) (path : List Text) : Value :=
  match (d.classes.get? (Text.dotted path)).or (follow path) with
  | some name => .classReference name
  | none => d.resolveBeyond follow path

mutual

/-- The value of an initializer; `follow` finds the class a path is bound to. -/
def resolveWith (d : Definitions) (follow : List Text → Option Text) : Initializer → Value
  | .literal v => v
  | .list items => .list (resolveItems d follow items)
  | .dict entries => .dict (resolveEntries d follow entries)
  | .tuple items => .tuple (resolveItems d follow items)
  | .name path => d.resolveName follow path
  | .call path args =>
    match d.classes.get? (Text.dotted path) with
    | some name => .construction name (resolveItems d follow args)
    | none => d.resolveBeyond follow path

/-- The values of initializers. -/
def resolveItems (d : Definitions) (follow : List Text → Option Text) :
    List Initializer → List Value
  | [] => []
  | i :: is => resolveWith d follow i :: resolveItems d follow is

/-- The values of dict entries. -/
def resolveEntries (d : Definitions) (follow : List Text → Option Text) :
    List (Initializer × Initializer) → List (Value × Value)
  | [] => []
  | (k, v) :: rest => (resolveWith d follow k, resolveWith d follow v) :: resolveEntries d follow rest

end

/-! ## §3. Following bindings. -/

/-- The keys a path may be bound under where it stands, the most specific first. -/
def candidateKeys (d : Definitions) (place : Place) (path : List Text) : List Text :=
  match place.className, place.selfName, path with
  | some c, some s, [root, name] =>
    if root = s then [selfKey c name, classKey c name] else general
  | _, _, _ => general
where
  general : List Text :=
    (place.className.map fun c => classKey c (Text.dotted path)).toList
      ++ [Text.dotted path] ++ ofClass
  /-- `Other.name` is also an attribute of the class found under `Other`. -/
  ofClass : List Text :=
    match path.getLast? with
    | none => []
    | some name =>
      ((d.classes.get? (Text.dotted path.dropLast)).map fun c => classKey c name).toList

/-- The binding a path refers to where it stands, with its key. -/
def bindingOf? (d : Definitions) (place : Place) (path : List Text) : Option (Text × Binding) :=
  (d.candidateKeys place path).findSome? fun key => (d.bindings.get? key).map (key, ·)

/-- The binding a path refers to is that of one of its candidate keys. -/
theorem mem_candidateKeys_of_bindingOf? {d : Definitions} {place : Place} {path : List Text}
    {key : Text} {binding : Binding} (h : d.bindingOf? place path = some (key, binding)) :
    key ∈ d.candidateKeys place path ∧ d.bindings.get? key = some binding := by
  obtain ⟨candidate, hmem, hcandidate⟩ := List.exists_of_findSome?_eq_some h
  obtain ⟨b, hget, heq⟩ := Option.map_eq_some_iff.1 hcandidate
  obtain ⟨rfl, rfl⟩ := Prod.mk.inj heq
  exact ⟨hmem, hget⟩

/-- How many keys are bound and not being followed. -/
def unvisited (d : Definitions) (visiting : List Text) : Nat :=
  d.bindings.keys.countP fun key => key ∉ visiting

theorem unvisited_cons_lt {d : Definitions} {visiting : List Text} {key : Text}
    (hkey : key ∈ d.bindings.keys) (hnew : key ∉ visiting) :
    d.unvisited (key :: visiting) < d.unvisited visiting := by
  unfold unvisited
  generalize d.bindings.keys = keys at hkey
  have le (ks : List Text) : (ks.countP fun k => k ∉ key :: visiting)
      ≤ ks.countP fun k => k ∉ visiting :=
    List.countP_mono_left fun k _ h => by simp_all
  induction keys with
  | nil => cases hkey
  | cons k ks ih =>
    have tail := le ks
    simp only [List.countP_cons]
    by_cases hk : k = key
    -- `k` itself no longer counts, and no other key is gained.
    · subst hk
      rw [if_neg (by simp), if_pos (by simpa using hnew)]
      omega
    · have := ih (by simpa [Ne.symm hk] using hkey)
      simp only [List.mem_cons, hk, false_or] at this ⊢
      omega

/-- The class that a path is bound to where it stands, directly or through other bindings; the
keys in `visiting` are not followed again. -/
def boundClass? (d : Definitions) (visiting : List Text) (place : Place) (path : List Text) :
    Option Text :=
  match _h : d.bindingOf? place path with
  | none => none
  | some (key, binding) =>
    if _hv : key ∈ visiting then none
    else
      (d.resolveWith (fun part => boundClass? d (key :: visiting) binding.place part)
        binding.value).referredClass?
termination_by d.unvisited visiting
decreasing_by
  obtain ⟨k, -, hk⟩ := List.exists_of_findSome?_eq_some _h
  obtain ⟨b, hb, heq⟩ := Option.map_eq_some_iff.1 hk
  obtain ⟨rfl, rfl⟩ := Prod.mk.inj heq
  exact unvisited_cons_lt (Table.mem_keys_of_get? hb) _hv

theorem boundClass?_of_none {d : Definitions} {place : Place} {path : List Text}
    (h : d.bindingOf? place path = none) (visiting : List Text) :
    d.boundClass? visiting place path = none := by
  rw [boundClass?]
  split
  · rfl
  · next hsome => rw [h] at hsome; cases hsome

/-- A binding is followed in its own place, unless it is being followed. -/
theorem boundClass?_of_some {d : Definitions} {place : Place} {path : List Text} {key : Text}
    {binding : Binding} (h : d.bindingOf? place path = some (key, binding))
    (visiting : List Text) :
    d.boundClass? visiting place path
      = if key ∈ visiting then none
        else (d.resolveWith (d.boundClass? (key :: visiting) binding.place)
          binding.value).referredClass? := by
  rw [boundClass?]
  split
  · next hnone => rw [h] at hnone; cases hnone
  · next key' binding' hsome =>
    obtain ⟨rfl, rfl⟩ := Prod.mk.inj (Option.some.inj (hsome.symm.trans h))
    rfl

/-- The value of an initializer where it stands. -/
def resolve (d : Definitions) (place : Place) (value : Initializer) : Value :=
  d.resolveWith (d.boundClass? [] place) value

end Definitions

end ClassOutline
