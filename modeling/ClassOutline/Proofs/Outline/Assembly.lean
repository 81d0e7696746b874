/-
  ClassOutline.Proofs.Outline.Assembly
  ────────────────────────────────
  **WHAT CHANGING ONE CLASS OR ONE MEMBER LEAVES AS IT IS.**

  An event changes the innermost open class, or the last method of it, and
  nothing else of the assembly.  When the classes are finished, some of them
  are left out, but no name is.
-/
import ClassOutline.Outline.OfEvents

namespace ClassOutline

/-! ## §1. Modifying lists. -/

theorem map_modify {α β : Type} {f : α → α} {g : α → β} {f' : β → β}
    (h : ∀ a, g (f a) = f' (g a)) (position : Nat) (xs : List α) :
    (xs.modify position f).map g = (xs.map g).modify position f' := by
  apply List.ext_getElem?
  intro i
  rw [List.getElem?_map, List.getElem?_modify, List.getElem?_modify, List.getElem?_map]
  cases xs[i]? with
  | none => rfl
  | some a =>
      show some _ = some _
      split
      · rw [h]
      · rfl

theorem map_modifyLast {α β : Type} {f : α → α} {g : α → β} {f' : β → β}
    (h : ∀ a, g (f a) = f' (g a)) (xs : List α) :
    (modifyLast f xs).map g = modifyLast f' (xs.map g) := by
  induction xs with
  | nil => rfl
  | cons x xs ih =>
      cases xs with
      | nil =>
          show [g (f x)] = [f' (g x)]
          rw [h]
      | cons y ys => exact congrArg (g x :: ·) ih

theorem modifyLast_append_singleton {α : Type} (f : α → α) (xs : List α) (x : α) :
    modifyLast f (xs ++ [x]) = xs ++ [f x] := by
  induction xs with
  | nil => rfl
  | cons y ys ih =>
      cases ys with
      | nil => rfl
      | cons z zs => exact congrArg (y :: ·) ih

theorem modifyLast_modifyLast {α : Type} (f g : α → α) (xs : List α) :
    modifyLast f (modifyLast g xs) = modifyLast (fun a => f (g a)) xs := by
  induction xs with
  | nil => rfl
  | cons y ys ih =>
      cases ys with
      | nil => rfl
      | cons z zs =>
          cases zs with
          | nil => rfl
          | cons w ws => exact congrArg (y :: ·) ih

theorem modify_append_left {α : Type} (f : α → α) {position : Nat} {xs : List α}
    (h : position < xs.length) (ys : List α) :
    (xs ++ ys).modify position f = xs.modify position f ++ ys := by
  induction xs generalizing position with
  | nil => exact absurd h (Nat.not_lt_zero _)
  | cons x xs ih =>
      cases position with
      | zero => rfl
      | succ position => exact congrArg (x :: ·) (ih (Nat.lt_of_succ_lt_succ h))

theorem modify_append_length {α : Type} (f : α → α) (xs : List α) (x : α) :
    (xs ++ [x]).modify xs.length f = xs ++ [f x] := by
  induction xs with
  | nil => rfl
  | cons y ys ih => exact congrArg (y :: ·) ih

theorem modifyLast_id {α : Type} (xs : List α) : modifyLast (fun a => a) xs = xs := by
  induction xs with
  | nil => rfl
  | cons x xs ih =>
      cases xs with
      | nil => rfl
      | cons y ys => exact congrArg (x :: ·) ih

/-! ## §2. The innermost class. -/

namespace Assembly

theorem opened_modifyInnermost (f : Class Deferred → Class Deferred) (s : Assembly) :
    (s.modifyInnermost f).opened = s.opened := by
  unfold modifyInnermost
  split <;> rfl

theorem method_modifyInnermost (f : Class Deferred → Class Deferred) (s : Assembly) :
    (s.modifyInnermost f).method = s.method := by
  unfold modifyInnermost
  split <;> rfl

theorem length_drafts_modifyInnermost (f : Class Deferred → Class Deferred) (s : Assembly) :
    (s.modifyInnermost f).drafts.length = s.drafts.length := by
  unfold modifyInnermost
  split
  · rfl
  · exact List.length_modify _ _ _

theorem definitions_modifyInnermost (f : Class Deferred → Class Deferred) (s : Assembly) :
    (s.modifyInnermost f).definitions = s.definitions := by
  unfold modifyInnermost
  split
  · rfl
  · rfl

/-- What a change of the innermost class does not show. -/
theorem map_drafts_modifyInnermost {β : Type} {f : Class Deferred → Class Deferred}
    {g : Class Deferred → β} (h : ∀ c, g (f c) = g c) (s : Assembly) :
    (s.modifyInnermost f).drafts.map g = s.drafts.map g := by
  unfold modifyInnermost
  split
  · rfl
  · next position _ _ =>
    have hmap : (s.drafts.modify position f).map g
        = (s.drafts.map g).modify position fun b => b :=
      map_modify h position s.drafts
    exact hmap.trans (List.modify_id position _)

/-- A class that keeps its name is found by it as before. -/
theorem names_modifyInnermost {f : Class Deferred → Class Deferred}
    (hname : ∀ c, (f c).name = c.name) (s : Assembly) :
    (s.modifyInnermost f).drafts.map Class.name = s.drafts.map Class.name :=
  map_drafts_modifyInnermost hname s

/-- A draft is one that was there before, or a changed one. -/
theorem mem_drafts_modifyInnermost {f : Class Deferred → Class Deferred} {s : Assembly}
    {c : Class Deferred} (hc : c ∈ (s.modifyInnermost f).drafts) :
    c ∈ s.drafts ∨ ∃ c' ∈ s.drafts, f c' = c := by
  unfold modifyInnermost at hc
  split at hc
  · exact .inl hc
  · next position _ _ =>
    obtain ⟨i, hi⟩ := List.mem_iff_getElem?.1 hc
    have hi : (s.drafts.modify position f)[i]? = some c := hi
    rw [List.getElem?_modify] at hi
    obtain ⟨c', hget, heq⟩ := Option.map_eq_some_iff.1 hi
    have hmem : c' ∈ s.drafts := List.mem_of_getElem? hget
    split at heq
    · exact .inr ⟨c', hmem, heq⟩
    · exact .inl (heq ▸ hmem)

/-- The innermost open class is the draft at the first of the open positions. -/
theorem exists_of_innermost? {s : Assembly} {c : Class Deferred} (h : s.innermost? = some c) :
    ∃ position outer, s.opened = position :: outer ∧ s.drafts[position]? = some c := by
  obtain ⟨position, hhead, hget⟩ := Option.bind_eq_some_iff.1 h
  obtain ⟨outer, hopened⟩ := List.head?_eq_some_iff.1 hhead
  exact ⟨position, outer, hopened, hget⟩

/-- The innermost open class is there. -/
theorem innermost?_eq_some {s : Assembly} {position : Nat} {outer : List Nat}
    (hs : s.opened = position :: outer) (valid : ∀ i ∈ s.opened, i < s.drafts.length) :
    ∃ c, s.innermost? = some c := by
  have hlt : position < s.drafts.length := valid position (hs ▸ List.mem_cons_self)
  refine ⟨s.drafts[position], ?_⟩
  unfold innermost?
  rw [hs]
  exact List.getElem?_eq_getElem hlt

/-! ## §3. Classes that are not replaced. -/

/-- A name is found by the last draft of it, if by any. -/
theorem isSome_findLast?_iff {ds : List (Class Deferred)} {name : Text} :
    (findLast? (fun d => d.name = name) ds).isSome = true ↔ name ∈ ds.map Class.name := by
  unfold findLast?
  rw [List.find?_isSome, List.mem_map]
  constructor
  · rintro ⟨d, hd, hname⟩
    exact ⟨d, List.mem_reverse.1 hd, of_decide_eq_true hname⟩
  · rintro ⟨d, hd, hname⟩
    exact ⟨d, List.mem_reverse.2 hd, decide_eq_true hname⟩

/-- What is not replaced stays in its order. -/
theorem withoutReplaced_sublist {α : Type} (cs : List (Class α)) :
    (withoutReplaced cs).Sublist cs := by
  induction cs with
  | nil => exact .slnil
  | cons c cs ih =>
      rw [withoutReplaced]
      split
      · exact ih.cons c
      · exact ih.cons_cons c

theorem mem_of_mem_withoutReplaced {α : Type} {c : Class α} {cs : List (Class α)}
    (h : c ∈ withoutReplaced cs) : c ∈ cs :=
  (withoutReplaced_sublist cs).subset h

/-- Every name of a class is still the name of one. -/
theorem exists_mem_withoutReplaced {α : Type} {c : Class α} {cs : List (Class α)} (h : c ∈ cs) :
    ∃ c' ∈ withoutReplaced cs, c'.name = c.name := by
  induction cs generalizing c with
  | nil => exact absurd h List.not_mem_nil
  | cons first cs ih =>
      rw [withoutReplaced]
      split
      · next hagain =>
        rcases List.mem_cons.1 h with rfl | h
        · -- a later class of the name stands for it
          obtain ⟨later, hlater, hname⟩ := List.any_eq_true.1 hagain
          obtain ⟨c', hc', heq⟩ := ih hlater
          exact ⟨c', hc', heq.trans (of_decide_eq_true hname)⟩
        · exact ih h
      · rcases List.mem_cons.1 h with rfl | h
        · exact ⟨c, List.mem_cons_self, rfl⟩
        · obtain ⟨c', hc', heq⟩ := ih h
          exact ⟨c', List.mem_cons_of_mem first hc', heq⟩

/-- Of the classes in front, those are kept that no later one replaces. -/
theorem withoutReplaced_append {α : Type} (cs later : List (Class α)) :
    withoutReplaced (cs ++ later)
      = (withoutReplaced cs).filter (fun c => !(later.map Class.name).contains c.name)
        ++ withoutReplaced later := by
  have again (c : Class α) : (later.map Class.name).contains c.name
      = later.any fun d => d.name = c.name := by
    rw [Bool.eq_iff_iff, List.contains_iff_mem, List.any_eq_true, List.mem_map]
    simp only [decide_eq_true_eq]
  induction cs with
  | nil => rfl
  | cons c cs ih =>
      rw [List.cons_append, withoutReplaced, withoutReplaced, List.any_append, ih]
      by_cases hcs : (cs.any fun d => d.name = c.name) = true
      · rw [if_pos hcs, hcs, if_pos (Bool.true_or _)]
      · rw [if_neg hcs, Bool.eq_false_iff.2 hcs, Bool.false_or]
        by_cases hlater : (later.any fun d => d.name = c.name) = true
        · rw [if_pos hlater, List.filter_cons_of_neg (by rw [again, hlater]; exact Bool.false_ne_true)]
        · rw [if_neg hlater, List.filter_cons_of_pos (by rw [again, Bool.eq_false_iff.2 hlater]; rfl),
            List.cons_append]

/-- A class that is kept has no later one of its name, and of the later ones those are kept
that stand behind it. -/
theorem exists_of_getElem?_withoutReplaced {α : Type} {cs : List (Class α)} {c : Class α} {i : Nat}
    (h : (withoutReplaced cs)[i]? = some c) :
    ∃ before after, cs = before ++ c :: after ∧ (∀ x ∈ after, x.name ≠ c.name)
      ∧ (withoutReplaced cs).drop (i + 1) = withoutReplaced after := by
  induction cs generalizing i with
  | nil => exact absurd h (by simp [withoutReplaced])
  | cons first cs ih =>
      rw [withoutReplaced] at h ⊢
      split at h
      · next hagain =>
        obtain ⟨before, after, rfl, hnone, hdrop⟩ := ih h
        rw [if_pos hagain]
        exact ⟨first :: before, after, rfl, hnone, hdrop⟩
      · next hlast =>
        rw [if_neg hlast]
        cases i with
        | zero =>
            obtain rfl := Option.some.inj h
            refine ⟨[], cs, rfl, fun x hx hname => hlast ?_, rfl⟩
            exact List.any_eq_true.2 ⟨x, hx, decide_eq_true hname⟩
        | succ i =>
            obtain ⟨before, after, rfl, hnone, hdrop⟩ := ih h
            exact ⟨first :: before, after, rfl, hnone, hdrop⟩

/-- The last class of a name is kept. -/
theorem mem_withoutReplaced_of_last {α : Type} {c : Class α} {before after : List (Class α)}
    (h : ∀ x ∈ after, x.name ≠ c.name) : c ∈ withoutReplaced (before ++ c :: after) := by
  have hnone : ¬(after.any fun later => later.name = c.name) = true := by
    intro hany
    obtain ⟨x, hx, hname⟩ := List.any_eq_true.1 hany
    exact h x hx (of_decide_eq_true hname)
  rw [withoutReplaced_append, withoutReplaced, if_neg hnone]
  exact List.mem_append_right _ List.mem_cons_self

theorem withoutReplaced_map {α β : Type} {f : Class α → Class β} (h : ∀ c, (f c).name = c.name)
    (cs : List (Class α)) :
    (withoutReplaced cs).map f = withoutReplaced (cs.map f) := by
  induction cs with
  | nil => rfl
  | cons c cs ih =>
      have same : ((cs.map f).any fun later => later.name = (f c).name)
          = cs.any fun later => later.name = c.name := by
        rw [List.any_map]
        simp only [Function.comp_def, h]
      rw [List.map_cons, withoutReplaced, withoutReplaced, same]
      split
      · exact ih
      · rw [List.map_cons, ih]

end Assembly

end ClassOutline
