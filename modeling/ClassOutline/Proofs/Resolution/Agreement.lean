/-
  ClassOutline.Proofs.Resolution.Agreement
  ────────────────────────────────
  **A VALUE DEPENDS ON WHAT IS FOUND, NOT ON HOW IT GOT THERE.**

  The tables of two runs may hold their entries in different orders.  What
  counts is what they answer: definitions `Agree` if every name and every key
  is found in both as the same, and then every value resolves the same
  (`Agree.resolve`).  `AgreeOn` leaves out some names and keys, those that two
  runs have not in common yet.
-/
import ClassOutline.Resolution.Basic

namespace ClassOutline.Definitions

/-! ## §1. Agreement. -/

/-- Classes of some names and bindings of some keys are the same in both. -/
structure AgreeOn (names keys : Text → Prop) (d d' : Definitions) : Prop where
  classes : ∀ name, names name → d.classes.get? name = d'.classes.get? name
  bindings : ∀ key, keys key → d.bindings.get? key = d'.bindings.get? key

/-- All classes and bindings are the same in both. -/
abbrev Agree (d d' : Definitions) : Prop := AgreeOn (fun _ => True) (fun _ => True) d d'

variable {names keys : Text → Prop} {d d' d'' : Definitions}

theorem AgreeOn.refl (names keys : Text → Prop) (d : Definitions) : AgreeOn names keys d d :=
  ⟨fun _ _ => rfl, fun _ _ => rfl⟩

theorem AgreeOn.symm (h : AgreeOn names keys d d') : AgreeOn names keys d' d :=
  ⟨fun name hname => (h.classes name hname).symm, fun key hkey => (h.bindings key hkey).symm⟩

theorem AgreeOn.trans (h : AgreeOn names keys d d') (h' : AgreeOn names keys d' d'') :
    AgreeOn names keys d d'' :=
  ⟨fun name hname => (h.classes name hname).trans (h'.classes name hname),
   fun key hkey => (h.bindings key hkey).trans (h'.bindings key hkey)⟩

/-! ## §2. Looking up. -/

namespace Agree

theorem classes_eq (h : Agree d d') : d.classes.get? = d'.classes.get? :=
  funext fun name => h.classes name trivial

theorem bindings_eq (h : Agree d d') : d.bindings.get? = d'.bindings.get? :=
  funext fun key => h.bindings key trivial

theorem resolveBeyond (h : Agree d d') (follow : List Text → Option Text) (path : List Text) :
    d.resolveBeyond follow path = d'.resolveBeyond follow path := by
  unfold Definitions.resolveBeyond leadingClass?
  rw [h.classes_eq]

theorem resolveName (h : Agree d d') (follow : List Text → Option Text) (path : List Text) :
    d.resolveName follow path = d'.resolveName follow path := by
  unfold Definitions.resolveName
  rw [h.classes_eq, h.resolveBeyond]

mutual

/-- An expression has the same value, if bindings are followed alike. -/
theorem resolveWith (h : Agree d d') (follow : List Text → Option Text) :
    ∀ i : Initializer, d.resolveWith follow i = d'.resolveWith follow i
  | .literal v => rfl
  | .list items => congrArg Value.list (h.resolveItems follow items)
  | .tuple items => congrArg Value.tuple (h.resolveItems follow items)
  | .dict entries => congrArg Value.dict (h.resolveEntries follow entries)
  | .name path => h.resolveName follow path
  | .call path args => by
      rw [Definitions.resolveWith, Definitions.resolveWith, h.classes_eq, h.resolveBeyond,
        h.resolveItems follow args]

theorem resolveItems (h : Agree d d') (follow : List Text → Option Text) :
    ∀ is : List Initializer, d.resolveItems follow is = d'.resolveItems follow is
  | [] => rfl
  | i :: is => by
      rw [Definitions.resolveItems, Definitions.resolveItems, h.resolveWith follow i,
        h.resolveItems follow is]

theorem resolveEntries (h : Agree d d') (follow : List Text → Option Text) :
    ∀ es : List (Initializer × Initializer),
      d.resolveEntries follow es = d'.resolveEntries follow es
  | [] => rfl
  | (k, v) :: rest => by
      rw [Definitions.resolveEntries, Definitions.resolveEntries, h.resolveWith follow k,
        h.resolveWith follow v, h.resolveEntries follow rest]

end

/-! ## §3. Following bindings. -/

theorem bindingOf? (h : Agree d d') (place : Place) (path : List Text) :
    d.bindingOf? place path = d'.bindingOf? place path := by
  unfold Definitions.bindingOf? candidateKeys candidateKeys.general candidateKeys.ofClass
  rw [h.classes_eq, h.bindings_eq]

/-- The same bindings are followed, in the same order, to the same class. -/
theorem boundClass? (h : Agree d d') (visiting : List Text) (place : Place) (path : List Text) :
    d.boundClass? visiting place path = d'.boundClass? visiting place path := by
  fun_induction Definitions.boundClass? d visiting place path with
  | case1 visiting place path hnone =>
      rw [h.bindingOf?] at hnone
      rw [boundClass?_of_none hnone]
  | case2 visiting place path key binding hbinding hvisited =>
      rw [h.bindingOf?] at hbinding
      rw [boundClass?_of_some hbinding, if_pos hvisited]
  | case3 visiting place path key binding hbinding hnew ih =>
      rw [h.bindingOf?] at hbinding
      -- what is bound has the same value in both, by the paths in it
      rw [boundClass?_of_some hbinding, if_neg hnew, h.resolveWith, funext ih]

/-- **DEFINITIONS THAT AGREE GIVE EVERY EXPRESSION THE SAME VALUE**, wherever it stands. -/
theorem resolve (h : Agree d d') (place : Place) (value : Initializer) :
    d.resolve place value = d'.resolve place value := by
  unfold Definitions.resolve
  rw [h.resolveWith, funext (h.boundClass? [] place)]

end Agree

end ClassOutline.Definitions
