/-
  ClassOutline.Proofs.Resolution.Cycles
  ────────────────────────────────
  **FOLLOWING BINDINGS ENDS ON EVERY TABLE.**

  `followGuarded` follows bindings with one list of keys that all look-ups
  share: a key is entered when its binding is followed and taken out again
  behind it, and one that is entered is not followed a second time.  Nothing in
  it says that this ends, so it counts how deep look-ups are nested and gives up
  below a depth.

  It never has to: each nested look-up enters one more of the keys that are
  bound, so no run is nested deeper than there are such keys
  (`followGuarded_run`).  What it finds is `boundClass?`, and every list of
  keys is left as it was found.
-/
import ClassOutline.Proofs.Resolution.Traversal
import ClassOutline.Proofs.Text.Dotted

namespace ClassOutline.Definitions

/-! ## §1. Following with a shared list of keys. -/

/-- A computation on the keys that are being followed; one that is nested too deep gives
nothing. -/
abbrev Following := StateT (List Text) Option

variable (d : Definitions)

/-- The class that a path is bound to where it stands, by bindings nested less than `depth`
deep. -/
def followGuarded : Nat → Place → List Text → Following (Option Text)
  | 0, _, _ => failure
  | depth + 1, place, path =>
    match d.bindingOf? place path with
    | none => pure none
    | some (key, binding) => do
      if (← get).contains key then pure none
      else
        modify (key :: ·)
        let value ← d.resolveM (followGuarded depth binding.place) binding.value
        modify (·.erase key)
        pure value.referredClass?

/-- The value of an initializer where it stands, by bindings nested less than `depth` deep. -/
def resolveGuarded (depth : Nat) (place : Place) (value : Initializer) : Following Value :=
  d.resolveM (d.followGuarded depth place) value

/-- A computation that ends with a value and leaves the keys `visiting` as they are. -/
def restoring (visiting : List Text) : MonadRelation Following Id where
  holds x a := x.run visiting = some (a, visiting)
  pure _ := rfl
  bind {_ _ x a f g} h next := by
    show (x.run visiting).bind (fun r => (f r.1).run r.2) = some (g a, visiting)
    rw [h]
    exact next a

/-! ## §2. Enough depth. -/

/-- **A LOOK-UP ENDS BEFORE IT IS NESTED DEEPER THAN THERE ARE KEYS TO FOLLOW**, and leaves the
keys as it found them. -/
theorem followGuarded_run {depth : Nat} {visiting : List Text}
    (h : d.unvisited visiting < depth) (place : Place) (path : List Text) :
    (d.followGuarded depth place path).run visiting
      = some (d.boundClass? visiting place path, visiting) := by
  induction depth generalizing visiting place path with
  | zero => exact absurd h (Nat.not_lt_zero _)
  | succ depth ih =>
      rw [followGuarded]
      cases hbinding : d.bindingOf? place path with
      | none =>
          rw [boundClass?_of_none hbinding]
          rfl
      | some found =>
          obtain ⟨key, binding⟩ := found
          have hkey : key ∈ d.bindings.keys :=
            Table.mem_keys_of_get? (mem_candidateKeys_of_bindingOf? hbinding).2
          rw [boundClass?_of_some hbinding]
          show (if visiting.contains key = true then pure none else _ :
            Following (Option Text)).run visiting = _
          by_cases hvisiting : key ∈ visiting
          · rw [if_pos (List.contains_iff_mem.2 hvisiting), if_pos hvisiting]
            rfl
          · have deeper : d.unvisited (key :: visiting) < depth :=
              Nat.lt_of_lt_of_le (unvisited_cons_lt hkey hvisiting) (Nat.le_of_lt_succ h)
            have inside := d.resolveM_related (restoring (key :: visiting))
              (i := binding.value) fun part _ => ih deeper binding.place part
            rw [if_neg (mt List.contains_iff_mem.1 hvisiting), if_neg hvisiting]
            show ((d.resolveM (d.followGuarded depth binding.place) binding.value).run
                (key :: visiting)).bind (fun r => some (r.1.referredClass?, r.2.erase key)) = _
            rw [inside, resolveM_id]
            show some (_, (key :: visiting).erase key) = _
            rw [List.erase_cons_head]

/-- Without keys that are followed, those that count are all that are bound. -/
theorem unvisited_nil_le : d.unvisited [] ≤ d.bindings.keys.length := List.countP_le_length

/-! ## §3. Bindings in a circle. -/

/-- In the module a name that is bound is looked up as it stands. -/
theorem bindingOf?_of_name {name : Text} {binding : Binding}
    (h : d.bindings.get? name = some binding) : d.bindingOf? {} [name] = some (name, binding) := by
  have candidates : d.candidateKeys {} [name] = name :: candidateKeys.ofClass d [name] := by
    show Text.dotted [name] :: candidateKeys.ofClass d [name] = _
    rw [Text.dotted_singleton]
  unfold bindingOf?
  rw [candidates, List.findSome?_cons, h]
  rfl

/-- Names that stand for nothing but one another, from one binding to the next, lead to no
class. -/
theorem boundClass?_eq_none_of_circle {circle : Text → Prop}
    (h : ∀ name, circle name → d.classes.get? name = none ∧
      ∃ next, circle next ∧ d.bindings.get? name = some ⟨.name [next], {}⟩)
    (visiting : List Text) {name : Text} (hname : circle name) :
    d.boundClass? visiting {} [name] = none := by
  -- on the keys that are not followed yet: once around, the first of them is
  induction hn : d.unvisited visiting using Nat.strongRecOn generalizing visiting name with
  | ind n ih =>
      obtain ⟨-, next, hnext, hget⟩ := h name hname
      have hkey : name ∈ d.bindings.keys := Table.mem_keys_of_get? hget
      rw [boundClass?_of_some (d.bindingOf?_of_name hget)]
      split
      · rfl
      · next hvisiting =>
        have hfollow := ih _ (hn ▸ unvisited_cons_lt hkey hvisiting) (name :: visiting) hnext rfl
        show (d.resolveName (d.boundClass? (name :: visiting) {}) [next]).referredClass? = none
        rw [resolveName, Text.dotted_singleton, (h next hnext).1, hfollow]
        rfl

/-- **RESOLUTION ENDS ON EVERY TABLE, AND A CIRCLE OF BINDINGS LEADS NOWHERE.**  Whatever was
defined, bound and forgotten, the look-ups of a value are nested no deeper than there are keys;
the run gives the value and leaves no key behind.  If each of some names of the module is bound
to the next, the last one to the first, and none is the name of a class, then each is external. -/
theorem resolveGuarded_run (d : Definitions) :
    (∀ place value depth, d.bindings.keys.length < depth →
      (d.resolveGuarded depth place value).run [] = some (d.resolve place value, [])) ∧
    ∀ (n : Nat) (names : Fin (n + 1) → Text),
      (∀ i, d.classes.get? (names i) = none) →
      (∀ i, d.bindings.get? (names i) = some ⟨.name [names (i + 1)], {}⟩) →
      ∀ i, d.resolve {} (.name [names i]) = .external [names i] := by
  refine ⟨fun place value depth hdepth => ?_, fun n names hclasses hbindings i => ?_⟩
  · have enough : d.unvisited [] < depth := Nat.lt_of_le_of_lt d.unvisited_nil_le hdepth
    have run := d.resolveM_related (restoring []) (i := value) fun part _ =>
      d.followGuarded_run enough place part
    rw [resolveM_id] at run
    exact run
  · have circle : ∀ name, (∃ j, names j = name) → d.classes.get? name = none ∧
        ∃ next, (∃ j, names j = next) ∧ d.bindings.get? name = some ⟨.name [next], {}⟩ := by
      rintro _ ⟨j, rfl⟩
      exact ⟨hclasses j, names (j + 1), ⟨j + 1, rfl⟩, hbindings j⟩
    show d.resolveName (d.boundClass? [] {}) [names i] = _
    rw [resolveName, Text.dotted_singleton, hclasses i,
      d.boundClass?_eq_none_of_circle circle [] ⟨i, rfl⟩]
    rfl

/-- Two names of the module that are bound to each other. -/
theorem resolveGuarded_run_of_two :
    let a := "a".toList
    let b := "b".toList
    let d := (({} : Definitions).bindModule a (.name [b])).bindModule b (.name [a])
    (d.resolveGuarded 3 {} (.list [.name [a], .name [b]])).run []
        = some (.list [.external [a], .external [b]], []) ∧
      d.resolve {} (.name [a]) = .external [a] ∧ d.resolve {} (.name [b]) = .external [b] := by
  intro a b d
  obtain ⟨ends, circle⟩ := resolveGuarded_run d
  have external := circle 1 (fun i => if i = 0 then a else b)
    (Fin.forall_fin_two.2 ⟨rfl, rfl⟩) (Fin.forall_fin_two.2 ⟨rfl, rfl⟩)
  have ha : d.resolve {} (.name [a]) = .external [a] := external 0
  have hb : d.resolve {} (.name [b]) = .external [b] := external 1
  refine ⟨?_, ha, hb⟩
  rw [ends {} _ 3 (by decide)]
  show some (Value.list [d.resolve {} (.name [a]), d.resolve {} (.name [b])], _) = _
  rw [ha, hb]

end ClassOutline.Definitions
