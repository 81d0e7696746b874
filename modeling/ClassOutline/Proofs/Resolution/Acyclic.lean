/-
  ClassOutline.Proofs.Resolution.Acyclic
  ────────────────────────────────
  **WHERE BINDINGS RUN IN NO CIRCLE, NOTHING HAS TO BE GUARDED.**

  `followFreely` follows bindings and keeps no track of them; on a circle it
  would never end, so it gives up below a depth.  Bindings are `Acyclic` if
  their keys have ranks that go down from a binding to whatever its value may
  be looked up by.

  All that is being followed then ranks above all that may still be asked for
  (`Above`), so the guard of `boundClass?` is never met and both find the same
  (`followFreely_eq`).  More depth changes nothing (`followFreely_mono`): an
  answer that the free recursion gives at any depth is the guarded one.
-/
import ClassOutline.Proofs.Resolution.Cycles

namespace ClassOutline.Definitions

/-! ## §1. Following without a guard. -/

variable (d : Definitions)

/-- The class that a path is bound to where it stands, by bindings nested less than `depth`
deep. -/
def followFreely : Nat → Place → List Text → Option (Option Text)
  | 0, _, _ => none
  | depth + 1, place, path =>
    match d.bindingOf? place path with
    | none => pure none
    | some (_, binding) => do
      let value ← d.resolveM (followFreely depth binding.place) binding.value
      pure value.referredClass?

/-- The value of an initializer where it stands, by bindings nested less than `depth` deep. -/
def resolveFreely (depth : Nat) (place : Place) (value : Initializer) : Option Value :=
  d.resolveM (d.followFreely depth place) value

/-- A computation that ends with a value. -/
def returning : MonadRelation Option Id where
  holds x a := x = some a
  pure _ := rfl
  bind {_ _ x a f g} h next := by
    show x.bind f = some (g a)
    rw [h]
    exact next a

/-- A computation that ends with what another one ends with, if that one ends. -/
def extending : MonadRelation Option Option where
  holds x y := ∀ a, x = some a → y = some a
  pure _ := fun _ h => h
  bind {_ _ x y f g} h next := by
    intro b hb
    obtain ⟨a, ha, hb⟩ := Option.bind_eq_some_iff.1 hb
    show y.bind g = some b
    rw [h a ha]
    exact next a b hb

/-- What is found is found at any greater depth. -/
theorem followFreely_mono {depth depth' : Nat} (h : depth ≤ depth') (place : Place)
    (path : List Text) :
    extending.holds (d.followFreely depth place path) (d.followFreely depth' place path) := by
  induction depth generalizing depth' place path with
  | zero => exact fun _ hfound => nomatch hfound
  | succ depth ih =>
      cases depth' with
      | zero => exact absurd h (Nat.not_succ_le_zero depth)
      | succ depth' =>
          rw [followFreely, followFreely]
          cases d.bindingOf? place path with
          | none => exact extending.pure none
          | some found =>
              have inside := d.resolveM_related extending (i := found.2.value) fun part _ =>
                ih (Nat.le_of_succ_le_succ h) found.2.place part
              exact extending.bind inside fun _ => extending.pure _

/-! ## §2. Acyclic bindings. -/

/-- Ranks of keys that go down from each binding to whatever is bound among the keys that its
value may be looked up by, where it stands. -/
def RankedBy (rank : Text → Nat) : Prop :=
  ∀ key binding, d.bindings.get? key = some binding →
    ∀ part ∈ binding.value.asked, ∀ candidate ∈ d.candidateKeys binding.place part,
      d.bindings.contains candidate = true → rank candidate < rank key

/-- No binding leads back to itself. -/
def Acyclic : Prop := ∃ rank, d.RankedBy rank

variable {d}

/-- Ranks can be checked entry by entry. -/
theorem rankedBy_of_entries {rank : Text → Nat}
    (h : ∀ entry ∈ d.bindings.entries, ∀ part ∈ entry.2.value.asked,
      ∀ candidate ∈ d.candidateKeys entry.2.place part,
        d.bindings.contains candidate = true → rank candidate < rank entry.1) :
    d.RankedBy rank :=
  fun key binding hget => h (key, binding) (Table.mem_entries_of_get? hget)

/-- Everything that is being followed ranks above whatever a path may be bound by. -/
def Above (d : Definitions) (rank : Text → Nat) (visiting : List Text) (place : Place)
    (path : List Text) : Prop :=
  ∀ candidate ∈ d.candidateKeys place path, d.bindings.contains candidate = true →
    ∀ key ∈ visiting, rank candidate < rank key

/-- **ON ACYCLIC BINDINGS THE GUARD IS NEVER MET**, so following freely finds the same. -/
theorem followFreely_eq {rank : Text → Nat} (hrank : d.RankedBy rank) {depth : Nat}
    {visiting : List Text} (h : d.unvisited visiting < depth) {place : Place} {path : List Text}
    (above : d.Above rank visiting place path) :
    d.followFreely depth place path = some (d.boundClass? visiting place path) := by
  induction depth generalizing visiting place path with
  | zero => exact absurd h (Nat.not_lt_zero _)
  | succ depth ih =>
      rw [followFreely]
      cases hbinding : d.bindingOf? place path with
      | none =>
          rw [boundClass?_of_none hbinding]
          rfl
      | some found =>
          obtain ⟨key, binding⟩ := found
          obtain ⟨hcandidate, hget⟩ := mem_candidateKeys_of_bindingOf? hbinding
          have hbound : d.bindings.contains key = true := by
            rw [Table.contains, hget]
            rfl
          have hfollowed : ∀ k ∈ visiting, rank key < rank k := above key hcandidate hbound
          have hnew : key ∉ visiting := fun hmem => absurd (hfollowed key hmem) (Nat.lt_irrefl _)
          have deeper : d.unvisited (key :: visiting) < depth :=
            Nat.lt_of_lt_of_le (unvisited_cons_lt (Table.mem_keys_of_get? hget) hnew)
              (Nat.le_of_lt_succ h)
          -- what the value asks for ranks below `key`, and so below all that is being followed
          have below : ∀ part ∈ binding.value.asked,
              d.Above rank (key :: visiting) binding.place part := by
            intro part hpart candidate hc hcbound k hk
            have hlt := hrank key binding hget part hpart candidate hc hcbound
            rcases List.mem_cons.1 hk with rfl | hk
            · exact hlt
            · exact Nat.lt_trans hlt (hfollowed k hk)
          have inside := d.resolveM_related returning (i := binding.value) fun part hpart =>
            ih deeper (below part hpart)
          rw [resolveM_id] at inside
          rw [boundClass?_of_some hbinding, if_neg hnew]
          show (d.resolveM (d.followFreely depth binding.place) binding.value).bind
            (fun value => some value.referredClass?) = _
          rw [inside]
          rfl

/-- **THE GUARD IS INVISIBLE ON ACYCLIC BINDINGS.**  Without it the look-ups of a value are nested
no deeper than there are keys, and end with the same value; and at whatever depth they end, it is
with that value. -/
theorem resolveFreely_eq_resolve (h : d.Acyclic) (place : Place) (value : Initializer) :
    (∀ depth, d.bindings.keys.length < depth →
      d.resolveFreely depth place value = some (d.resolve place value)) ∧
    ∀ depth v, d.resolveFreely depth place value = some v → v = d.resolve place value := by
  obtain ⟨rank, hrank⟩ := h
  have enough : ∀ depth, d.bindings.keys.length < depth →
      d.resolveFreely depth place value = some (d.resolve place value) := by
    intro depth hdepth
    have deep : d.unvisited [] < depth := Nat.lt_of_le_of_lt d.unvisited_nil_le hdepth
    -- nothing is being followed yet
    have start (part : List Text) : d.Above rank [] place part :=
      fun _ _ _ _ hkey => absurd hkey List.not_mem_nil
    have found := d.resolveM_related returning (i := value) fun part _ =>
      followFreely_eq hrank deep (start part)
    rw [resolveM_id] at found
    exact found
  refine ⟨enough, fun depth v hv => ?_⟩
  -- at a depth that is enough the same answer is given again
  let more := depth + (d.bindings.keys.length + 1)
  have again : d.resolveFreely more place value = some v :=
    d.resolveM_related extending (i := value)
      (fun part _ => d.followFreely_mono (Nat.le_add_right depth _) place part) v hv
  exact Option.some.inj (again.symm.trans (enough more (by omega)))

/-- A chain of bindings from a class over the module to an object. -/
theorem resolveFreely_eq_resolve_of_chain :
    let engine := "engine".toList
    let d := (((({} : Definitions).addClass "Engine".toList).bindModule engine
      (.call ["Engine".toList] [])).bindModule "alias".toList (.name [engine])).bindClassAttribute
        "Car".toList "spare".toList (.list [.name ["alias".toList, "part".toList]])
    let place : Place := { className := some "Car".toList }
    let value : Initializer := .name ["alias".toList, "part".toList]
    d.Acyclic ∧ d.resolveFreely 4 place value = some (d.resolve place value) ∧
      d.resolve place value = .classReference "Engine".toList := by
  intro engine d place value
  let rank (key : Text) : Nat := if key = engine then 0 else if key = "alias".toList then 1 else 2
  have acyclic : d.Acyclic := ⟨rank, rankedBy_of_entries (by decide)⟩
  have free := resolveFreely_eq_resolve acyclic place value
  have ends : d.resolveFreely 4 place value = some (.classReference "Engine".toList) := rfl
  exact ⟨acyclic, free.1 4 (by decide), (free.2 4 _ ends).symm⟩

end ClassOutline.Definitions
