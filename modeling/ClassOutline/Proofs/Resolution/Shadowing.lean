/-
  ClassOutline.Proofs.Resolution.Shadowing
  ────────────────────────────────
  **A CLASS ATTRIBUTE HIDES THE BINDING OF THE MODULE.**

  In a class a bare name is looked up behind the name of the class first, and
  under its own spelling only if nothing is bound there
  (`boundClass?_of_unbound`).  What is bound there is all that is followed, even
  if it leads back to the same key and ends there.

  So a class attribute that is bound to the bare name of another binding of the
  module leads where that binding leads.  One that is bound to its own name, as
  in `class C: n = n`, leads nowhere: the look-up of `n` meets the attribute that
  is being followed, and the binding of the module behind it is never tried
  (`resolve_name_of_bareAttribute`).
-/
import ClassOutline.Proofs.Resolution.Cycles

namespace ClassOutline.Definitions

variable (d : Definitions) {c name outer : Text}

/-! ## §1. Bare names in a class. -/

/-- The keys of a bare name in a class are its key there and those it has in the module. -/
theorem candidateKeys_bare (c name : Text) (self : Option Text) :
    d.candidateKeys ⟨some c, self⟩ [name] = classKey c name :: d.candidateKeys {} [name] := by
  have general : candidateKeys.general d ⟨some c, self⟩ [name]
      = classKey c name :: d.candidateKeys {} [name] := by
    show classKey c (Text.dotted [name]) :: d.candidateKeys {} [name] = _
    rw [Text.dotted_singleton]
  cases self with
  | none => exact general
  | some s => exact general

/-- An attribute of the class is found before everything else. -/
theorem bindingOf?_of_attribute {binding : Binding}
    (h : d.bindings.get? (classKey c name) = some binding) (self : Option Text) :
    d.bindingOf? ⟨some c, self⟩ [name] = some (classKey c name, binding) := by
  unfold bindingOf?
  rw [candidateKeys_bare, List.findSome?_cons, h]
  rfl

/-- **WHAT THE CLASS DOES NOT BIND IS WHAT IT IS IN THE MODULE.** -/
theorem boundClass?_of_unbound (h : d.bindings.get? (classKey c name) = none)
    (visiting : List Text) (self : Option Text) :
    d.boundClass? visiting ⟨some c, self⟩ [name] = d.boundClass? visiting {} [name] := by
  have same : d.bindingOf? ⟨some c, self⟩ [name] = d.bindingOf? {} [name] := by
    unfold bindingOf?
    rw [candidateKeys_bare, List.findSome?_cons, h]
    rfl
  cases hfound : d.bindingOf? {} [name] with
  | none => rw [boundClass?_of_none (same.trans hfound), boundClass?_of_none hfound]
  | some found => rw [boundClass?_of_some (same.trans hfound), boundClass?_of_some hfound]

/-- A bare name that names no class stands for the class it is bound to, or is external. -/
theorem resolveName_bare (h : d.classes.get? name = none) (follow : List Text → Option Text) :
    d.resolveName follow [name]
      = ((follow [name]).map Value.classReference).getD (.external [name]) := by
  unfold resolveName
  rw [Text.dotted_singleton, h, Option.none_or]
  cases follow [name] with
  | some found => rfl
  | none => rfl

/-- So it refers to the class it is bound to. -/
theorem referredClass?_bare (h : d.classes.get? name = none) (follow : List Text → Option Text) :
    (d.resolveWith follow (.name [name])).referredClass? = follow [name] := by
  rw [resolveWith, resolveName_bare d h]
  cases follow [name] with
  | some found => rfl
  | none => rfl

/-! ## §2. Attributes that are bound to a bare name. -/

section Attribute

variable (hattribute : d.bindings.get? (classKey c name)
  = some ⟨.name [outer], { className := some c }⟩) (houter : d.classes.get? outer = none)
  (self : Option Text)
include hattribute houter

/-- An attribute that is bound to a bare name leads where that name leads in the class, while the
attribute itself is being followed. -/
theorem boundClass?_of_bareAttribute :
    d.boundClass? [] ⟨some c, self⟩ [name]
      = d.boundClass? [classKey c name] { className := some c } [outer] := by
  rw [boundClass?_of_some (d.bindingOf?_of_attribute hattribute self), if_neg List.not_mem_nil]
  exact d.referredClass?_bare houter _

/-- Another binding of the module is reached through it. -/
theorem boundClass?_of_otherName (hfree : d.bindings.get? (classKey c outer) = none) :
    d.boundClass? [] ⟨some c, self⟩ [name] = d.boundClass? [classKey c name] {} [outer] := by
  rw [d.boundClass?_of_bareAttribute hattribute houter]
  exact d.boundClass?_of_unbound hfree _ none

end Attribute

/-- An attribute that is bound to its own name leads nowhere. -/
theorem boundClass?_of_ownName (hname : d.classes.get? name = none)
    (hattribute : d.bindings.get? (classKey c name)
      = some ⟨.name [name], { className := some c }⟩) (self : Option Text) :
    d.boundClass? [] ⟨some c, self⟩ [name] = none := by
  rw [d.boundClass?_of_bareAttribute hattribute hname]
  -- its key is found again, and the look-up ends there
  rw [boundClass?_of_some (d.bindingOf?_of_attribute hattribute none), if_pos List.mem_cons_self]

/-- **A CLASS ATTRIBUTE FOLLOWS THE BINDING OF THE MODULE, UNLESS THE TWO HAVE ONE NAME.**  If it is
bound to its own bare name, that is external in the class, whatever the module binds.  If it is
bound to the bare name of another binding of the module, it stands for the class that the value
of that binding refers to, by bindings other than these two. -/
theorem resolve_name_of_bareAttribute (hname : d.classes.get? name = none)
    (hattribute : d.bindings.get? (classKey c name)
      = some ⟨.name [outer], { className := some c }⟩) (self : Option Text) :
    (outer = name → d.resolve ⟨some c, self⟩ (.name [name]) = .external [name]) ∧
      (outer ≠ name → d.classes.get? outer = none → d.bindings.get? (classKey c outer) = none →
        ∀ value found, d.bindings.get? outer = some ⟨value, {}⟩ →
          (d.resolveWith (d.boundClass? [outer, classKey c name] {}) value).referredClass?
            = some found →
          d.resolve ⟨some c, self⟩ (.name [name]) = .classReference found) := by
  have stands : d.resolve ⟨some c, self⟩ (.name [name])
      = ((d.boundClass? [] ⟨some c, self⟩ [name]).map Value.classReference).getD
        (.external [name]) :=
    d.resolveName_bare hname _
  constructor
  · rintro rfl
    rw [stands, d.boundClass?_of_ownName hname hattribute]
    rfl
  · intro hne houter hfree value found hmodule hvalue
    -- what is bound in the module is not the attribute
    have hnew : outer ∉ [classKey c name] := by
      intro hmem
      rw [List.mem_singleton.1 hmem, hattribute] at hmodule
      cases hmodule
    have leads : d.boundClass? [classKey c name] {} [outer] = some found := by
      rw [boundClass?_of_some (d.bindingOf?_of_name hmodule), if_neg hnew]
      exact hvalue
    rw [stands, d.boundClass?_of_otherName hattribute houter self hfree, leads]
    rfl

/-- In `class Car: spare = engine` the attribute is the engine of the module, over an alias. -/
theorem resolve_name_of_bareAttribute_to_alias :
    let engine := "engine".toList
    let spare := "spare".toList
    let d := (((({} : Definitions).addClass "Engine".toList).bindModule "shared".toList
      (.call ["Engine".toList] [])).bindModule engine (.name ["shared".toList])).bindClassAttribute
        "Car".toList spare (.name [engine])
    d.resolve ⟨some "Car".toList, none⟩ (.name [spare]) = .classReference "Engine".toList := by
  intro engine spare d
  have refers : (d.resolveWith (d.boundClass? [engine, classKey "Car".toList spare] {})
      (.name ["shared".toList])).referredClass? = some "Engine".toList := by
    rw [referredClass?_bare d rfl, boundClass?_of_some (d.bindingOf?_of_name rfl),
      if_neg (by decide)]
    rfl
  exact (resolve_name_of_bareAttribute d rfl rfl none).2 (by decide) rfl rfl _ _ rfl refers

/-- **`class C: n = n` loses the binding of the module.**  The name stands for an object of the
class `K` in the module, and for nothing in `C`. -/
theorem own_name_hides_module_binding :
    let n := "n".toList
    let d := (((({} : Definitions).addClass "C".toList).addClass "K".toList).bindModule n
      (.call ["K".toList] [])).bindClassAttribute "C".toList n (.name [n])
    d.classes.get? n = none
      ∧ d.resolve {} (.call ["K".toList] []) = .construction "K".toList []
      ∧ d.resolve {} (.name [n]) = .classReference "K".toList
      ∧ d.resolve ⟨some "C".toList, none⟩ (.name [n]) = .external [n] := by
  intro n d
  have free : d.classes.get? n = none := rfl
  have inModule : d.boundClass? [] {} [n] = some "K".toList := by
    rw [boundClass?_of_some (d.bindingOf?_of_name rfl)]
    rfl
  refine ⟨free, rfl, ?_, ?_⟩
  · show d.resolveName (d.boundClass? [] {}) [n] = _
    rw [resolveName_bare d free, inModule]
    rfl
  · show d.resolveName (d.boundClass? [] ⟨some "C".toList, none⟩) [n] = _
    rw [resolveName_bare d free, d.boundClass?_of_ownName free rfl]
    rfl

end ClassOutline.Definitions
