/-
  ClassOutline.Proofs.Outline.Slots
  ────────────────────────────────
  **WHERE A CLASS HOLDS VALUES.**

  A value in a class is the one of an attribute or the default of a parameter,
  and its slot says which, by position.  `held?` reads a slot, and the lemmas
  about it say which slots are new when a member is added: those of the member,
  behind all others of its list.

  `write?` replaces the value in a slot, and fails if the slot is not there.
  Classes in which only some slots have their values yet (`withOnly`) are closed
  under it (`write?_withOnly`): each write brings one more value to its place.
-/
import ClassOutline.Proofs.Outline.Assembly

namespace ClassOutline

/-! ## §1. Slots. -/

/-- A place for a value in a class. -/
inductive Slot where
  | classAttribute (i : Nat)
  | instanceAttribute (i : Nat)
  /-- The default of a parameter of a method. -/
  | default (method parameter : Nat)
  deriving DecidableEq, Repr

section
variable {α β : Type}

/-- What an attribute holds, under its name. -/
def Attribute.held (a : Attribute α) : Text × α := (a.name, a.value)

/-- The default of a parameter, under the parameter's name. -/
def Parameter.held? (p : Parameter α) : Option (Text × α) := p.default.map (p.name, ·)

/-- What a class holds in a slot, under the name of the attribute or parameter. -/
def Class.held? (c : Class α) : Slot → Option (Text × α)
  | .classAttribute i => c.classAttributes[i]?.map Attribute.held
  | .instanceAttribute i => c.instanceAttributes[i]?.map Attribute.held
  | .default i j => c.methods[i]?.bind fun m => m.parameters[j]?.bind Parameter.held?

namespace Class

theorem map_map {γ : Type} (g : β → γ) (f : α → β) (c : Class α) :
    (c.map f).map g = c.map (g ∘ f) := by
  have attributes (as : List (Attribute α)) :
      (as.map (Attribute.map f)).map (Attribute.map g) = as.map (Attribute.map (g ∘ f)) := by
    rw [List.map_map]
    rfl
  have parameters (ps : List (Parameter α)) :
      (ps.map (Parameter.map f)).map (Parameter.map g) = ps.map (Parameter.map (g ∘ f)) := by
    rw [List.map_map]
    refine List.map_congr_left fun p _ => ?_
    show { p with default := (p.default.map f).map g } = { p with default := p.default.map (g ∘ f) }
    rw [Option.map_map]
  have methods (ms : List (Method α)) :
      (ms.map (Method.map f)).map (Method.map g) = ms.map (Method.map (g ∘ f)) := by
    rw [List.map_map]
    refine List.map_congr_left fun m _ => ?_
    exact congrArg (fun ps => { m with parameters := ps }) (parameters m.parameters)
  unfold map
  dsimp only
  rw [attributes, attributes, methods]

theorem held?_map (f : α → β) (c : Class α) (slot : Slot) :
    (c.map f).held? slot = (c.held? slot).map fun x => (x.1, f x.2) := by
  have same (as : List (Attribute α)) (i : Nat) :
      (as.map (Attribute.map f))[i]?.map Attribute.held
        = (as[i]?.map Attribute.held).map fun x => (x.1, f x.2) := by
    rw [List.getElem?_map]
    cases as[i]? <;> rfl
  cases slot with
  | classAttribute i => exact same c.classAttributes i
  | instanceAttribute i => exact same c.instanceAttributes i
  | default i j =>
      show ((c.methods.map (Method.map f))[i]?.bind fun m =>
        m.parameters[j]?.bind Parameter.held?) = _
      unfold held?
      dsimp only
      rw [List.getElem?_map]
      cases c.methods[i]? with
      | none => rfl
      | some m =>
          show (m.parameters.map (Parameter.map f))[j]?.bind Parameter.held?
            = (m.parameters[j]?.bind Parameter.held?).map _
          rw [List.getElem?_map]
          cases m.parameters[j]? with
          | none => rfl
          | some p =>
              obtain ⟨name, kind, annotation, default⟩ := p
              cases default <;> rfl

/-- An element at the end is at the position that is the length of the list. -/
theorem getElem?_concat_eq_some_iff {γ : Type} {xs : List γ} {x y : γ} {i : Nat} :
    (xs ++ [x])[i]? = some y ↔ xs[i]? = some y ∨ i = xs.length ∧ x = y := by
  by_cases hi : i = xs.length
  · have free : xs[i]? = none := List.getElem?_eq_none (Nat.le_of_eq hi.symm)
    rw [free, hi, List.getElem?_concat_length]
    constructor
    · intro h
      exact .inr ⟨rfl, Option.some.inj h⟩
    · rintro (h | ⟨-, h⟩)
      · cases h
      · exact congrArg some h
  · -- elsewhere the list is as it was, or has no elements
    have same : (xs ++ [x])[i]? = xs[i]? := by
      by_cases hlt : i < xs.length
      · exact List.getElem?_append_left hlt
      · have behind : (xs ++ [x]).length ≤ i := by
          rw [List.length_append, List.length_singleton]
          omega
        rw [List.getElem?_eq_none behind, List.getElem?_eq_none (Nat.le_of_not_lt hlt)]
    rw [same]
    exact ⟨.inl, fun h => h.resolve_right fun h => hi h.1⟩

/-- A further attribute in a list of them. -/
theorem getElem?_concat_map_eq_some_iff {γ δ : Type} {f : γ → δ} {xs : List γ} {x : γ} {y : δ}
    {i : Nat} :
    (xs ++ [x])[i]?.map f = some y ↔ xs[i]?.map f = some y ∨ i = xs.length ∧ f x = y := by
  rw [← List.getElem?_map, List.map_append, List.map_singleton, getElem?_concat_eq_some_iff,
    List.getElem?_map, List.length_map]

/-- A further class attribute has the first slot that is free. -/
theorem held?_addClassAttribute (c : Class α) (a : Attribute α) {slot : Slot} {x : Text × α} :
    { c with classAttributes := c.classAttributes ++ [a] }.held? slot = some x
      ↔ c.held? slot = some x
        ∨ slot = .classAttribute c.classAttributes.length ∧ a.held = x := by
  cases slot with
  | classAttribute i =>
      rw [Slot.classAttribute.injEq]
      exact getElem?_concat_map_eq_some_iff
  | instanceAttribute i | default i j =>
      exact ⟨.inl, fun h => h.resolve_right fun h => Slot.noConfusion h.1⟩

theorem held?_addInstanceAttribute (c : Class α) (a : Attribute α) {slot : Slot} {x : Text × α} :
    { c with instanceAttributes := c.instanceAttributes ++ [a] }.held? slot = some x
      ↔ c.held? slot = some x
        ∨ slot = .instanceAttribute c.instanceAttributes.length ∧ a.held = x := by
  cases slot with
  | instanceAttribute i =>
      rw [Slot.instanceAttribute.injEq]
      exact getElem?_concat_map_eq_some_iff
  | classAttribute i | default i j =>
      exact ⟨.inl, fun h => h.resolve_right fun h => Slot.noConfusion h.1⟩

/-- A further method has the slots of its parameters. -/
theorem held?_addMethod (c : Class α) (m : Method α) {slot : Slot} {x : Text × α} :
    { c with methods := c.methods ++ [m] }.held? slot = some x
      ↔ c.held? slot = some x
        ∨ ∃ j p, slot = .default c.methods.length j ∧ m.parameters[j]? = some p
          ∧ Parameter.held? p = some x := by
  cases slot with
  | classAttribute i | instanceAttribute i =>
      refine ⟨.inl, ?_⟩
      rintro (h | ⟨j, p, heq, -⟩)
      · exact h
      · cases heq
  | default i j =>
      show ((c.methods ++ [m])[i]?.bind fun m => m.parameters[j]?.bind Parameter.held?) = some x
        ↔ (c.methods[i]?.bind fun m => m.parameters[j]?.bind Parameter.held?) = some x ∨ _
      rw [Option.bind_eq_some_iff, Option.bind_eq_some_iff]
      constructor
      · rintro ⟨n, hn, hx⟩
        rcases getElem?_concat_eq_some_iff.1 hn with hn | ⟨hi, rfl⟩
        · exact .inl ⟨n, hn, hx⟩
        · obtain ⟨p, hp, hheld⟩ := Option.bind_eq_some_iff.1 hx
          exact .inr ⟨j, p, by rw [hi], hp, hheld⟩
      · rintro (⟨n, hn, hx⟩ | ⟨k, p, hslot, hp, hheld⟩)
        · exact ⟨n, getElem?_concat_eq_some_iff.2 (.inl hn), hx⟩
        · obtain ⟨rfl, rfl⟩ := Slot.default.inj hslot
          exact ⟨m, getElem?_concat_eq_some_iff.2 (.inr ⟨rfl, rfl⟩),
            Option.bind_eq_some_iff.2 ⟨p, hp, hheld⟩⟩

/-- Changing the last method without its parameters changes no slot. -/
theorem held?_modifyLast {f : Method α → Method α} (hf : ∀ m, (f m).parameters = m.parameters)
    (c : Class α) (slot : Slot) :
    { c with methods := modifyLast f c.methods }.held? slot = c.held? slot := by
  cases slot with
  | default i j =>
      have mapped : (modifyLast f c.methods).map Method.parameters
          = modifyLast (fun ps => ps) (c.methods.map Method.parameters) :=
        map_modifyLast hf c.methods
      have same : (modifyLast f c.methods).map Method.parameters
          = c.methods.map Method.parameters := by
        rw [mapped, modifyLast_id]
      have parameters (ms : List (Method α)) :
          (ms[i]?.bind fun m => m.parameters[j]?.bind Parameter.held?)
            = (ms.map Method.parameters)[i]?.bind fun ps => ps[j]?.bind Parameter.held? := by
        rw [List.getElem?_map]
        cases ms[i]? <;> rfl
      show ((modifyLast f c.methods)[i]?.bind fun m => m.parameters[j]?.bind Parameter.held?)
        = c.methods[i]?.bind fun m => m.parameters[j]?.bind Parameter.held?
      rw [parameters, same, ← parameters]
  | classAttribute | instanceAttribute => rfl

end Class

/-! ## §2. Writing by position. -/

/-- Change the element at a position, if there is one and it can be changed. -/
def update? (i : Nat) (f : α → Option α) (xs : List α) : Option (List α) := do
  let x ← xs[i]?
  let y ← f x
  some (xs.set i y)

/-- Elements that know their positions, of which one changes. -/
theorem update?_mapIdx {f g : Nat → α → β} {u : β → Option β} {i : Nat} {x : α} {xs : List α}
    (hx : xs[i]? = some x) (hu : u (f i x) = some (g i x)) (hg : ∀ j y, j ≠ i → g j y = f j y) :
    update? i u (xs.mapIdx f) = some (xs.mapIdx g) := by
  have hfx : (xs.mapIdx f)[i]? = some (f i x) := by
    rw [List.getElem?_mapIdx, hx]
    rfl
  have changed : (xs.mapIdx f).set i (g i x) = xs.mapIdx g := by
    apply List.ext_getElem?
    intro j
    rw [List.getElem?_set, List.getElem?_mapIdx, List.getElem?_mapIdx]
    by_cases h : i = j
    · subst h
      have hlt : i < (xs.mapIdx f).length := (List.getElem?_eq_some_iff.1 hfx).1
      rw [if_pos rfl, if_pos hlt, hx]
      rfl
    · rw [if_neg h]
      cases xs[j]? with
      | none => rfl
      | some y => exact congrArg some (hg j y (Ne.symm h)).symm
  unfold update?
  rw [hfx]
  show (u (f i x)).bind _ = _
  rw [hu]
  exact congrArg some changed

/-- Elements that do not depend on their positions after all. -/
theorem mapIdx_eq_map {f : Nat → α → β} {g : α → β} {xs : List α}
    (h : ∀ i x, xs[i]? = some x → f i x = g x) : xs.mapIdx f = xs.map g := by
  apply List.ext_getElem?
  intro i
  rw [List.getElem?_mapIdx, List.getElem?_map]
  cases hx : xs[i]? with
  | none => rfl
  | some x => exact congrArg some (h i x hx)

/-- Write the default of a parameter, if there is a parameter at the position. -/
def Method.write? (m : Method α) (v : α) (j : Nat) : Option (Method α) :=
  (update? j (fun p => some { p with default := some v }) m.parameters).map fun ps =>
    { m with parameters := ps }

/-- Write a value into a slot, if the slot is there. -/
def Class.write? (c : Class α) (v : α) : Slot → Option (Class α)
  | .classAttribute i =>
    (update? i (fun a => some { a with value := v }) c.classAttributes).map fun as =>
      { c with classAttributes := as }
  | .instanceAttribute i =>
    (update? i (fun a => some { a with value := v }) c.instanceAttributes).map fun as =>
      { c with instanceAttributes := as }
  | .default i j =>
    (update? i (fun m => m.write? v j) c.methods).map fun ms => { c with methods := ms }

/-! ## §3. Values that are in their places already. -/

/-- The attribute with its value, if it has it yet. -/
def Attribute.withIf (kept : Bool) (blank : α) (a : Attribute α) : Attribute α :=
  if kept then a else a.map fun _ => blank

/-- The parameter with its default, if it has it yet. -/
def Parameter.withIf (kept : Bool) (blank : α) (p : Parameter α) : Parameter α :=
  if kept then p else p.map fun _ => blank

/-- The method with the defaults of some parameters only, and `blank` for the others. -/
def Method.withOnly (kept : Nat → Bool) (blank : α) (m : Method α) : Method α :=
  { m with parameters := m.parameters.mapIdx fun j => Parameter.withIf (kept j) blank }

/-- The class with the values of some slots only, and `blank` for the others. -/
def Class.withOnly (kept : Slot → Bool) (blank : α) (c : Class α) : Class α :=
  { c with
    classAttributes := c.classAttributes.mapIdx fun i =>
      Attribute.withIf (kept (.classAttribute i)) blank
    instanceAttributes := c.instanceAttributes.mapIdx fun i =>
      Attribute.withIf (kept (.instanceAttribute i)) blank
    methods := c.methods.mapIdx fun i => Method.withOnly (fun j => kept (.default i j)) blank }

theorem Method.withOnly_none (blank : α) (m : Method α) :
    m.withOnly (fun _ => false) blank = m.map fun _ => blank := by
  unfold withOnly map
  congr 1
  exact mapIdx_eq_map fun _ _ _ => rfl

/-- At first no slot has its value. -/
theorem Class.withOnly_none (blank : α) (c : Class α) :
    c.withOnly (fun _ => false) blank = c.map fun _ => blank := by
  unfold withOnly map
  congr 1
  · exact mapIdx_eq_map fun _ _ _ => rfl
  · exact mapIdx_eq_map fun _ _ _ => rfl
  · exact mapIdx_eq_map fun _ m _ => m.withOnly_none blank

/-- A parameter without a default is there without anything being written. -/
theorem Method.withOnly_all {kept : Nat → Bool} (blank : α) {m : Method α}
    (h : ∀ j x, m.parameters[j]?.bind Parameter.held? = some x → kept j = true) :
    m.withOnly kept blank = m := by
  have parameters : (m.parameters.mapIdx fun j => Parameter.withIf (kept j) blank)
      = m.parameters.map id := by
    refine mapIdx_eq_map fun j p hp => ?_
    unfold Parameter.withIf
    split
    · rfl
    · next hkept =>
      obtain ⟨name, kind, annotation, default⟩ := p
      cases default with
      | none => rfl
      | some v =>
          refine absurd (h j (name, v) ?_) hkept
          rw [hp]
          rfl
  unfold withOnly
  rw [parameters, List.map_id]

/-- In the end all have. -/
theorem Class.withOnly_all {kept : Slot → Bool} (blank : α) {c : Class α}
    (h : ∀ slot x, c.held? slot = some x → kept slot = true) : c.withOnly kept blank = c := by
  have attributes {as : List (Attribute α)} {slotOf : Nat → Slot}
      (has : ∀ i a, as[i]? = some a → kept (slotOf i) = true) :
      (as.mapIdx fun i => Attribute.withIf (kept (slotOf i)) blank) = as.map id := by
    refine mapIdx_eq_map fun i a ha => ?_
    rw [has i a ha]
    rfl
  have methods : (c.methods.mapIdx fun i => Method.withOnly (fun j => kept (.default i j)) blank)
      = c.methods.map id := by
    refine mapIdx_eq_map fun i m hm => Method.withOnly_all blank fun j x hx => ?_
    refine h (.default i j) x ?_
    show (c.methods[i]?.bind fun m => m.parameters[j]?.bind Parameter.held?) = some x
    rw [hm]
    exact hx
  unfold withOnly
  rw [methods, attributes fun i a ha => h (.classAttribute i) a.held (congrArg (Option.map _) ha),
    attributes fun i a ha => h (.instanceAttribute i) a.held (congrArg (Option.map _) ha),
    List.map_id, List.map_id, List.map_id]

/-- The slot that is written and those that were before. -/
theorem kept_or_self (kept : Slot → Bool) (slot : Slot) : (slot == slot || kept slot) = true := by
  rw [beq_self_eq_true, Bool.true_or]

theorem kept_or_of_ne (kept : Slot → Bool) {slot other : Slot} (h : other ≠ slot) :
    (other == slot || kept other) = kept other := by
  rw [beq_false_of_ne h, Bool.false_or]

/-- Among attributes, each with a slot of its own, the one that is written becomes whole. -/
theorem Attribute.update?_withIf (kept : Slot → Bool) (blank : α) (slotOf : Nat → Slot)
    (hslot : ∀ k l, slotOf k = slotOf l → k = l) {as : List (Attribute α)} {i : Nat}
    {a : Attribute α} (ha : as[i]? = some a) :
    update? i (fun b => some { b with value := a.value })
        (as.mapIdx fun k => Attribute.withIf (kept (slotOf k)) blank)
      = some (as.mapIdx fun k =>
          Attribute.withIf (slotOf k == slotOf i || kept (slotOf k)) blank) := by
  apply update?_mapIdx ha
  · rw [kept_or_self]
    cases kept (slotOf i) <;> rfl
  · intro k b hk
    rw [kept_or_of_ne kept fun heq => hk (hslot k i heq)]

theorem Method.write?_withOnly {kept kept' : Nat → Bool} {blank : α} {m : Method α} {j : Nat}
    {name : Text} {v : α} (h : m.parameters[j]?.bind Parameter.held? = some (name, v))
    (hj : kept' j = true) (hother : ∀ k, k ≠ j → kept' k = kept k) :
    (m.withOnly kept blank).write? v j = some (m.withOnly kept' blank) := by
  obtain ⟨p, hp, hheld⟩ := Option.bind_eq_some_iff.1 h
  have hdefault : p.default = some v := by
    obtain ⟨w, hw, hpair⟩ := Option.map_eq_some_iff.1 hheld
    exact hw.trans (congrArg some (Prod.mk.inj hpair).2)
  have whole : { p.withIf (kept j) blank with default := some v } = p.withIf (kept' j) blank := by
    obtain ⟨name, kind, annotation, default⟩ := p
    obtain rfl : default = some v := hdefault
    rw [hj]
    cases kept j <;> rfl
  have written := update?_mapIdx (f := fun k => Parameter.withIf (kept k) blank)
    (g := fun k => Parameter.withIf (kept' k) blank)
    (u := fun p => some { p with default := some v }) hp (congrArg some whole)
    fun k p hk => by rw [hother k hk]
  unfold write? withOnly
  dsimp only
  rw [written]
  rfl

/-- **A WRITE BRINGS ONE MORE VALUE TO ITS PLACE.** -/
theorem Class.write?_withOnly (kept : Slot → Bool) (blank : α) {c : Class α} {slot : Slot}
    {name : Text} {v : α} (h : c.held? slot = some (name, v)) :
    (c.withOnly kept blank).write? v slot
      = some (c.withOnly (fun other => other == slot || kept other) blank) := by
  cases slot with
  | classAttribute i =>
      obtain ⟨a, ha, hheld⟩ := Option.map_eq_some_iff.1 h
      obtain ⟨rfl, rfl⟩ := Prod.mk.inj hheld
      have written := Attribute.update?_withIf kept blank .classAttribute
        (fun _ _ heq => Slot.classAttribute.inj heq) ha
      unfold write? withOnly
      dsimp only
      rw [written]
      rfl
  | instanceAttribute i =>
      obtain ⟨a, ha, hheld⟩ := Option.map_eq_some_iff.1 h
      obtain ⟨rfl, rfl⟩ := Prod.mk.inj hheld
      have written := Attribute.update?_withIf kept blank .instanceAttribute
        (fun _ _ heq => Slot.instanceAttribute.inj heq) ha
      unfold write? withOnly
      dsimp only
      rw [written]
      rfl
  | default i j =>
      obtain ⟨m, hm, hheld⟩ := Option.bind_eq_some_iff.1 h
      have written := update?_mapIdx
        (f := fun k => Method.withOnly (fun l => kept (.default k l)) blank)
        (g := fun k => Method.withOnly
          (fun l => Slot.default k l == .default i j || kept (.default k l)) blank)
        (u := fun m => m.write? v j) hm
        (Method.write?_withOnly hheld (kept_or_self kept _) fun l hl =>
          kept_or_of_ne kept fun heq => hl (Slot.default.inj heq).2)
        fun k m hk => by
          refine congrArg (Method.withOnly · blank m) (funext fun l => ?_)
          exact kept_or_of_ne kept fun heq => hk (Slot.default.inj heq).1
      unfold write? withOnly
      dsimp only
      rw [written]
      rfl

end

end ClassOutline
