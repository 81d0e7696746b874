/-
  ClassOutline.Proofs.Resolution.References
  ────────────────────────────────
  **A LOOK-UP REFERS TO NO CLASS THAT WAS NOT ADDED.**

  The class in a value comes from the table of classes, at the end of whatever
  aliases, bindings and leading parts were tried.  Nothing else can bring one
  in: a classified expression has names in it and no classes yet
  (`Initializer.Plain`, `Text.classify_plain`), so what is bound has none.

  `Definitions.Within known` says both, that every class found under any name
  is known and that no binding holds a class.  Every operation keeps it, and a
  value resolved in it refers to known classes only (`Within.resolve`).
-/
import ClassOutline.Proofs.Initializer.Results
import ClassOutline.Resolution.Basic

namespace ClassOutline

/-! ## §1. The classes in a value. -/

namespace Value

mutual

/-- The names of the classes that a value refers to, at any depth. -/
def references : Value → List Text
  | classReference name => [name]
  | construction name args => name :: referencesOfAll args
  | list items | tuple items => referencesOfAll items
  | dict entries => referencesOfEntries entries
  | _ => []

/-- The classes that values refer to. -/
def referencesOfAll : List Value → List Text
  | [] => []
  | v :: vs => v.references ++ referencesOfAll vs

/-- The classes that the keys and values of dict entries refer to. -/
def referencesOfEntries : List (Value × Value) → List Text
  | [] => []
  | (k, v) :: rest => k.references ++ v.references ++ referencesOfEntries rest

end

/-- The class a value refers to is one of those in it. -/
theorem mem_references_of_referredClass? {v : Value} {name : Text}
    (h : v.referredClass? = some name) : name ∈ v.references := by
  unfold referredClass? at h
  split at h
  · obtain rfl := Option.some.inj h
    rw [references]
    exact List.mem_cons_self
  · obtain rfl := Option.some.inj h
    rw [references]
    exact List.mem_cons_self
  · cases h

theorem references_of_isLiteral {v : Value} (h : v.isLiteral = true) : v.references = [] := by
  cases v with
  | bool | int | float | string | nothing | emptyList | emptyDict | emptyTuple => rfl
  | _ => exact nomatch h

end Value

/-! ## §2. Classified expressions have no classes in them. -/

namespace Initializer

mutual

/-- No literal in the expression refers to a class. -/
def Plain : Initializer → Prop
  | literal v => v.references = []
  | list items | tuple items | call _ items => PlainAll items
  | dict entries => PlainEntries entries
  | name _ => True

/-- All of the expressions are plain. -/
def PlainAll : List Initializer → Prop
  | [] => True
  | i :: is => i.Plain ∧ PlainAll is

/-- All keys and values of the entries are plain. -/
def PlainEntries : List (Initializer × Initializer) → Prop
  | [] => True
  | (k, v) :: rest => k.Plain ∧ v.Plain ∧ PlainEntries rest

end

theorem plainAll_of_forall {is : List Initializer} (h : ∀ i ∈ is, i.Plain) : PlainAll is := by
  induction is with
  | nil => exact trivial
  | cons i is ih =>
      exact ⟨h i List.mem_cons_self, ih fun j hj => h j (List.mem_cons_of_mem i hj)⟩

theorem plainEntries_of_forall {es : List (Initializer × Initializer)}
    (h : ∀ e ∈ es, e.1.Plain ∧ e.2.Plain) : PlainEntries es := by
  induction es with
  | nil => exact trivial
  | cons e es ih =>
      obtain ⟨hkey, hvalue⟩ := h e List.mem_cons_self
      exact ⟨hkey, hvalue, ih fun e' he => h e' (List.mem_cons_of_mem e he)⟩

theorem unrecognized_plain (t : Text) : (Initializer.unrecognized t).Plain := by
  show (Value.unrecognized t).references = []
  rfl

end Initializer

namespace Text

variable {inner : Classifier}

theorem classifyItems_plain (hinner : ∀ t, (inner t).value.Plain) (kind : ItemKind)
    (select : Text → Text) (t : Text) :
    ∀ i ∈ (classifyItems inner kind select t).value, i.Plain := by
  intro i hi
  unfold classifyItems Reported.concat at hi
  obtain ⟨r, hr, hi⟩ := List.mem_flatMap.1 hi
  obtain ⟨piece, -, rfl⟩ := List.mem_map.1 hr
  have hi : i ∈ (piece.adjacentItems.map fun part => inner (select part)).map Reported.value := hi
  obtain ⟨r, hr, rfl⟩ := List.mem_map.1 hi
  obtain ⟨part, -, rfl⟩ := List.mem_map.1 hr
  exact hinner (select part)

theorem classifyEntries_plain (hinner : ∀ t, (inner t).value.Plain) (piece : Text) :
    ∀ e ∈ (classifyEntries inner piece).value, e.1.Plain ∧ e.2.Plain := by
  intro e he
  unfold classifyEntries at he
  split at he
  · exact absurd he List.not_mem_nil
  · dsimp only at he
    split at he
    · exact absurd he List.not_mem_nil
    · obtain ⟨r, hr, rfl⟩ := List.mem_map.1 he
      obtain ⟨entry, -, rfl⟩ := List.mem_map.1 hr
      exact ⟨hinner entry.key, hinner entry.value⟩

theorem unclassified_plain (t : Text) (cause : Cause) : (unclassified t cause).value.Plain :=
  Initializer.unrecognized_plain t

/-- One level makes no class, if what is inside has none. -/
theorem LevelResult.plain (hinner : ∀ t, (inner t).value.Plain) {r : Reported Initializer}
    (h : LevelResult inner r) : r.value.Plain := by
  cases h with
  | literal h => exact Value.references_of_isLiteral h
  | name => exact trivial
  | kept t => exact unclassified_plain t _
  | list | tuple | call => exact Initializer.plainAll_of_forall (classifyItems_plain hinner _ _ _)
  | dict t =>
      refine Initializer.plainEntries_of_forall ?_
      intro e he
      obtain ⟨r, hr, he⟩ := List.mem_flatMap.1 he
      obtain ⟨piece, -, rfl⟩ := List.mem_map.1 hr
      exact classifyEntries_plain hinner piece e he

theorem classifyWithin_plain (levels : Nat) (t : Text) : (classifyWithin levels t).value.Plain := by
  -- on the levels that are left: below the last one everything is kept as written
  induction levels generalizing t with
  | zero => exact unclassified_plain _ _
  | succ levels ih => exact (classifyForm_result _ t.trim).plain ih

/-- **A CLASSIFIED EXPRESSION HAS NO CLASS IN IT**: its names are still names. -/
theorem classify_plain (t : Text) : t.classify.value.Plain :=
  classifyWithin_plain (levelLimit + 1) t

end Text

/-! ## §3. Definitions with known classes only. -/

namespace Definitions

/-- Every class that is found under a name is known, and no binding holds a class. -/
structure Within (d : Definitions) (known : Text → Prop) : Prop where
  classes : ∀ key name, d.classes.get? key = some name → known name
  bindings : ∀ key b, d.bindings.get? key = some b → b.value.Plain

variable {d : Definitions} {known : Text → Prop}

theorem within_empty (known : Text → Prop) : ({} : Definitions).Within known :=
  ⟨nofun, nofun⟩

theorem Within.mono {known' : Text → Prop} (h : d.Within known)
    (hmono : ∀ name, known name → known' name) : d.Within known' :=
  ⟨fun key name hget => hmono name (h.classes key name hget), h.bindings⟩

/-- A class that is added is found under its own name and under its last part: it has to be
known. -/
theorem Within.addClass (h : d.Within known) {qualified : Text} (hknown : known qualified) :
    (d.addClass qualified).Within known := by
  have named (key name : Text) (hget : (d.classes.set qualified qualified).get? key = some name) :
      known name := by
    rw [Table.get?_set] at hget
    split at hget
    · obtain rfl := Option.some.inj hget
      exact hknown
    · exact h.classes key name hget
  unfold Definitions.addClass
  dsimp only
  split
  · exact ⟨named, h.bindings⟩
  · next short _ =>
    refine ⟨?_, h.bindings⟩
    intro key name hget
    have hget : ((d.classes.set qualified qualified).setNew short qualified).get? key = some name :=
      hget
    rw [Table.get?_setNew] at hget
    split at hget
    · -- the alias is the class, unless the name was taken before
      cases htaken : (d.classes.set qualified qualified).get? short with
      | none =>
          rw [htaken] at hget
          obtain rfl := Option.some.inj hget
          exact hknown
      | some taken =>
          rw [htaken] at hget
          obtain rfl := Option.some.inj hget
          exact named short taken htaken
    · exact named key name hget

/-- What is bound has to be without classes. -/
theorem Within.bind (h : d.Within known) {value : Initializer} (hplain : value.Plain)
    (key : Text) (place : Place) :
    ({ d with bindings := d.bindings.set key ⟨value, place⟩ } : Definitions).Within known := by
  refine ⟨h.classes, ?_⟩
  intro other b hget
  have hget : (d.bindings.set key ⟨value, place⟩).get? other = some b := hget
  rw [Table.get?_set] at hget
  split at hget
  · obtain rfl := Option.some.inj hget
    exact hplain
  · exact h.bindings other b hget

theorem Within.forget (h : d.Within known) (className : Text) :
    (d.forget className).Within known := by
  refine ⟨h.classes, ?_⟩
  intro key b hget
  have hget : (d.bindings.restrict fun key => !key.startsWith (className ++ ['.'])).get? key
      = some b := hget
  rw [Table.get?_restrict] at hget
  split at hget
  · exact h.bindings key b hget
  · cases hget

/-! ## §4. Looking up. -/

/-- A class comes from the table or from a binding that was followed. -/
theorem Within.found_known (h : d.Within known) {follow : List Text → Option Text}
    (hfollow : ∀ path name, follow path = some name → known name) {key name : Text}
    {path : List Text} (hfound : (d.classes.get? key).or (follow path) = some name) :
    known name := by
  rcases Option.or_eq_some_iff.1 hfound with hclass | ⟨-, hbound⟩
  · exact h.classes key name hclass
  · exact hfollow path name hbound

theorem Within.leadingClass?_known (h : d.Within known) {follow : List Text → Option Text}
    (hfollow : ∀ path name, follow path = some name → known name) {path : List Text} {name : Text}
    (hleading : d.leadingClass? follow path = some name) : known name := by
  unfold leadingClass? at hleading
  obtain ⟨part, -, hpart⟩ := List.exists_of_findSome?_eq_some hleading
  exact h.found_known hfollow hpart

theorem Within.resolveBeyond_known (h : d.Within known) {follow : List Text → Option Text}
    (hfollow : ∀ path name, follow path = some name → known name) (path : List Text) :
    ∀ name ∈ (d.resolveBeyond follow path).references, known name := by
  intro name hname
  unfold resolveBeyond at hname
  split at hname
  · next found hleading =>
    rw [Value.references] at hname
    rw [List.mem_singleton.1 hname]
    exact h.leadingClass?_known hfollow hleading
  · exact absurd hname List.not_mem_nil

theorem Within.resolveName_known (h : d.Within known) {follow : List Text → Option Text}
    (hfollow : ∀ path name, follow path = some name → known name) (path : List Text) :
    ∀ name ∈ (d.resolveName follow path).references, known name := by
  intro name hname
  unfold resolveName at hname
  split at hname
  · next found hfound =>
    rw [Value.references] at hname
    rw [List.mem_singleton.1 hname]
    exact h.found_known hfollow hfound
  · exact h.resolveBeyond_known hfollow path name hname

mutual

/-- A plain expression is resolved to known classes, if what is followed leads to such. -/
theorem Within.resolveWith_known (h : d.Within known) {follow : List Text → Option Text}
    (hfollow : ∀ path name, follow path = some name → known name) :
    ∀ i : Initializer, i.Plain → ∀ name ∈ (d.resolveWith follow i).references, known name
  | .literal v, hplain, name, hname => by
      have hplain : v.references = [] := hplain
      have hname : name ∈ v.references := hname
      rw [hplain] at hname
      exact absurd hname List.not_mem_nil
  | .list items, hplain, name, hname =>
      h.resolveItems_known hfollow items hplain name hname
  | .tuple items, hplain, name, hname =>
      h.resolveItems_known hfollow items hplain name hname
  | .dict entries, hplain, name, hname =>
      h.resolveEntries_known hfollow entries hplain name hname
  | .name path, _, name, hname => h.resolveName_known hfollow path name hname
  | .call path args, hplain, name, hname => by
      rw [resolveWith] at hname
      split at hname
      -- A call of a class; the call of anything else keeps no arguments.
      · next found hclass =>
        rcases List.mem_cons.1 hname with rfl | hname
        · exact h.classes _ name hclass
        · exact h.resolveItems_known hfollow args hplain name hname
      · exact h.resolveBeyond_known hfollow path name hname

theorem Within.resolveItems_known (h : d.Within known) {follow : List Text → Option Text}
    (hfollow : ∀ path name, follow path = some name → known name) :
    ∀ is : List Initializer, Initializer.PlainAll is →
      ∀ name ∈ Value.referencesOfAll (d.resolveItems follow is), known name
  | [], _, _, hname => absurd hname List.not_mem_nil
  | i :: is, ⟨hfirst, hothers⟩, name, hname => by
      rcases List.mem_append.1 hname with hname | hname
      · exact h.resolveWith_known hfollow i hfirst name hname
      · exact h.resolveItems_known hfollow is hothers name hname

theorem Within.resolveEntries_known (h : d.Within known) {follow : List Text → Option Text}
    (hfollow : ∀ path name, follow path = some name → known name) :
    ∀ es : List (Initializer × Initializer), Initializer.PlainEntries es →
      ∀ name ∈ Value.referencesOfEntries (d.resolveEntries follow es), known name
  | [], _, _, hname => absurd hname List.not_mem_nil
  | (k, v) :: rest, ⟨hkey, hvalue, hothers⟩, name, hname => by
      rcases List.mem_append.1 hname with hname | hname
      · rcases List.mem_append.1 hname with hname | hname
        · exact h.resolveWith_known hfollow k hkey name hname
        · exact h.resolveWith_known hfollow v hvalue name hname
      · exact h.resolveEntries_known hfollow rest hothers name hname

end

/-- Bindings lead to known classes only, however many are followed. -/
theorem Within.boundClass?_known (h : d.Within known) (visiting : List Text) (place : Place)
    (path : List Text) : ∀ name, d.boundClass? visiting place path = some name → known name := by
  fun_induction boundClass? d visiting place path with
  | case1 => nofun
  | case2 => nofun
  | case3 visiting place path key binding hbinding hnew ih =>
      -- `ih` is about the paths in what is bound, with `key` no longer followed
      intro name hname
      -- the key has its binding in the table, and bindings are plain
      have hplain : binding.value.Plain :=
        h.bindings key binding (mem_candidateKeys_of_bindingOf? hbinding).2
      exact h.resolveWith_known ih binding.value hplain name
        (Value.mem_references_of_referredClass? hname)

/-- **A RESOLVED VALUE REFERS TO KNOWN CLASSES ONLY**, at any depth and by whatever way. -/
theorem Within.resolve_known (h : d.Within known) (place : Place) {value : Initializer}
    (hplain : value.Plain) : ∀ name ∈ (d.resolve place value).references, known name :=
  h.resolveWith_known (h.boundClass?_known [] place) value hplain

end Definitions

end ClassOutline
