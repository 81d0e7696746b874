/-
  ClassOutline.Proofs.Outline.Hollow
  ────────────────────────────────
  **CONTAINERS OF NOTHING IN AN OUTLINE.**

  To look names up makes no container and takes no element out of one.  So a
  value in an outline has a list, dict or tuple of nothing in it only if a hollow
  expression was written, in an assignment or as a default, for all that a class
  holds was written in some event (`Class.exists_written_of_mem_contents`).
-/
import ClassOutline.Outline.OfSource
import ClassOutline.Proofs.Initializer.Hollow
import ClassOutline.Proofs.Outline.Pending
import ClassOutline.Proofs.Outline.References

namespace ClassOutline

/-! ## §1. Looking up. -/

namespace Definitions

variable (d : Definitions) (follow : List Text → Option Text)

theorem containsHollow_resolveBeyond (path : List Text) :
    (d.resolveBeyond follow path).containsHollow = false := by
  unfold resolveBeyond
  split
  · rfl
  · rfl

theorem containsHollow_resolveName (path : List Text) :
    (d.resolveName follow path).containsHollow = false := by
  unfold resolveName
  split
  · rfl
  · exact containsHollow_resolveBeyond d follow path

theorem isEmpty_resolveItems (is : List Initializer) :
    (d.resolveItems follow is).isEmpty = is.isEmpty := by
  cases is <;> rfl

theorem isEmpty_resolveEntries (es : List (Initializer × Initializer)) :
    (d.resolveEntries follow es).isEmpty = es.isEmpty := by
  cases es <;> rfl

mutual

/-- What is hollow when names are looked up was so before. -/
theorem containsHollow_of_resolveWith :
    ∀ i : Initializer, (d.resolveWith follow i).containsHollow = true → i.containsHollow = true
  | .literal v => id
  | .list items | .tuple items => by
      intro h
      have others := anyHollow_of_resolveItems items
      change ((d.resolveItems follow items).isEmpty || _) = true at h
      show (items.isEmpty || _) = true
      rw [isEmpty_resolveItems, Bool.or_eq_true] at h
      rw [Bool.or_eq_true]
      exact h.imp_right others
  | .dict entries => by
      intro h
      have others := anyEntryHollow_of_resolveEntries entries
      change ((d.resolveEntries follow entries).isEmpty || _) = true at h
      show (entries.isEmpty || _) = true
      rw [isEmpty_resolveEntries, Bool.or_eq_true] at h
      rw [Bool.or_eq_true]
      exact h.imp_right others
  | .name path => by
      intro h
      rw [resolveWith, containsHollow_resolveName] at h
      exact nomatch h
  | .call path args => by
      intro h
      rw [resolveWith] at h
      split at h
      · exact anyHollow_of_resolveItems args h
      · -- the call of what is no class keeps no arguments
        rw [containsHollow_resolveBeyond] at h
        exact nomatch h

theorem anyHollow_of_resolveItems :
    ∀ is : List Initializer, Value.anyHollow (d.resolveItems follow is) = true →
      Initializer.anyHollow is = true
  | [] => id
  | i :: is => by
      intro h
      have first := containsHollow_of_resolveWith i
      have others := anyHollow_of_resolveItems is
      change ((d.resolveWith follow i).containsHollow || _) = true at h
      show (i.containsHollow || _) = true
      rw [Bool.or_eq_true] at h ⊢
      exact h.imp first others

theorem anyEntryHollow_of_resolveEntries :
    ∀ es : List (Initializer × Initializer),
      Value.anyEntryHollow (d.resolveEntries follow es) = true →
        Initializer.anyEntryHollow es = true
  | [] => id
  | (k, v) :: rest => by
      intro h
      have key := containsHollow_of_resolveWith k
      have value := containsHollow_of_resolveWith v
      have others := anyEntryHollow_of_resolveEntries rest
      change ((d.resolveWith follow k).containsHollow || (d.resolveWith follow v).containsHollow
        || _) = true at h
      show (k.containsHollow || v.containsHollow || _) = true
      rw [Bool.or_eq_true, Bool.or_eq_true] at h ⊢
      exact h.imp (Or.imp key value) others

end

end Definitions

/-! ## §2. What is written in events. -/

/-- The values that an event has for attributes and parameters, as they are written. -/
def Event.writtenValues : Event → List Text
  | .classAssignment a | .selfAssignment a => [a.value]
  | .methodStart m => m.parameters.filterMap WrittenParameter.default
  | _ => []

/-- What is pending of an event is written in it. -/
theorem Assembly.text_mem_writtenValues {cfg : Config} {s : Assembly} {e : Event} {p : Pending}
    (h : p ∈ s.pendingOf cfg e) : p.text ∈ e.writtenValues := by
  unfold pendingOf at h
  split at h
  · cases e with
    | classAssignment a =>
        obtain rfl := List.mem_singleton.1 h
        exact List.mem_singleton.2 rfl
    | selfAssignment a =>
        revert h
        cases s.method with
        | none => exact fun h => absurd h List.not_mem_nil
        | some m =>
            intro h
            obtain rfl := List.mem_singleton.1 h
            exact List.mem_singleton.2 rfl
    | methodStart m =>
        -- the default of one of the parameters that are kept
        obtain ⟨⟨w, j⟩, hw, hp⟩ := List.mem_filterMap.1 h
        obtain ⟨text, htext, rfl⟩ := Option.map_eq_some_iff.1 hp
        have hmem : w ∈ m.parameters :=
          List.mem_of_mem_drop (List.mem_of_getElem? (List.mem_zipIdx_iff_getElem?.1 hw))
        exact List.mem_filterMap.2 ⟨w, hmem, htext⟩
    | _ => exact absurd h List.not_mem_nil
  · exact absurd h List.not_mem_nil

/-- What a class holds is in one of its slots. -/
theorem Class.exists_held?_of_mem_contents {α : Type} {c : Class α} {v : α} (h : v ∈ c.contents) :
    ∃ slot name, c.held? slot = some (name, v) := by
  unfold contents at h
  rw [List.mem_append, List.mem_append] at h
  rcases h with (h | h) | h
  · obtain ⟨a, ha, rfl⟩ := List.mem_map.1 h
    obtain ⟨i, hi⟩ := List.mem_iff_getElem?.1 ha
    exact ⟨.classAttribute i, a.name, congrArg (Option.map _) hi⟩
  · obtain ⟨a, ha, rfl⟩ := List.mem_map.1 h
    obtain ⟨i, hi⟩ := List.mem_iff_getElem?.1 ha
    exact ⟨.instanceAttribute i, a.name, congrArg (Option.map _) hi⟩
  · -- a default: its method, then its parameter
    obtain ⟨m, hm, h⟩ := List.mem_flatMap.1 h
    obtain ⟨p, hp, hdefault⟩ := List.mem_filterMap.1 h
    obtain ⟨i, hi⟩ := List.mem_iff_getElem?.1 hm
    obtain ⟨j, hj⟩ := List.mem_iff_getElem?.1 hp
    refine ⟨.default i j, p.name, ?_⟩
    unfold held?
    dsimp only
    rw [hi, Option.bind_some, hj, Option.bind_some]
    unfold Parameter.held?
    rw [hdefault]
    rfl

/-- **ALL THAT A CLASS HOLDS WAS WRITTEN IN SOME EVENT**, and is what was written there, looked
up. -/
theorem Class.exists_written_of_mem_contents {cfg : Config} {events : List Event} {c : Class Value}
    (hc : c ∈ (Class.ofEvents cfg events).1) {v : Value} (hv : v ∈ c.contents) :
    ∃ e ∈ events, ∃ t ∈ e.writtenValues, ∃ d : Definitions, ∃ place : Place,
      v = d.resolve place t.classify.value := by
  -- what the finished class holds, its draft held before names were looked up
  obtain ⟨draft, hdraft, rfl⟩ := List.mem_map.1 (Assembly.mem_of_mem_withoutReplaced hc)
  unfold Assembly.finishClass at hv
  rw [Class.contents_map] at hv
  obtain ⟨deferred, hdeferred, rfl⟩ := List.mem_map.1 hv
  obtain ⟨position, hposition⟩ := List.mem_iff_getElem?.1 hdraft
  obtain ⟨slot, name, hheld⟩ := Class.exists_held?_of_mem_contents hdeferred
  -- the slot is one of the drafts, so what it has was pending
  have held : (Assembly.takeAll cfg {} events).1.held? ⟨position, slot⟩
      = some (name, deferred) := by
    unfold Assembly.held?
    rw [hposition]
    exact hheld
  rcases (Assembly.held?_takeAll cfg {} events _ _).1 held with hempty | ⟨p, hp, -, heq⟩
  · cases hempty
  · obtain ⟨before, e, after, rfl, hpending⟩ := Assembly.mem_pendingOfAll_iff.1 hp
    obtain ⟨-, rfl⟩ := Prod.mk.inj heq
    exact ⟨e, List.mem_append_right _ List.mem_cons_self, p.text,
      Assembly.text_mem_writtenValues hpending, _, _, rfl⟩

/-! ## §3. Outlines. -/

/-- **EMPTY CONTAINERS HAVE VALUES OF THEIR OWN, UNLESS A HOLLOW EXPRESSION IS WRITTEN.**  However
deep in a classified text, there is a list, dict or tuple of nothing exactly if some expression in
the text is hollow.  So in the outline of a source there is one only if a value or default that is
written in it has a hollow expression. -/
theorem UnitOutline.containsHollow_only_of_hasHollow (cfg : Config) (unit source : Text) :
    (∀ t : Text, t.classify.value.containsHollow = true ↔ t.HasHollow)
    ∧ ∀ c ∈ (UnitOutline.ofSource cfg unit source).classes, ∀ v ∈ c.contents,
        v.containsHollow = true →
          ∃ e ∈ (Event.ofLines cfg (LogicalLine.scan cfg source).lines).events,
            ∃ t ∈ e.writtenValues, t.HasHollow := by
  refine ⟨Text.containsHollow_classify_iff, fun c hc v hv hhollow => ?_⟩
  obtain ⟨e, he, t, ht, d, place, rfl⟩ := Class.exists_written_of_mem_contents hc hv
  refine ⟨e, he, t, ht, (Text.containsHollow_classify_iff t).1 ?_⟩
  exact d.containsHollow_of_resolveWith _ _ hhollow

/-- A list of nothing in an outline, and the hollow expression that is behind it. -/
theorem UnitOutline.hasHollow_of_lone_comma :
    let source := "class A:\n x = {1: [ , ]}".toList
    (∃ c ∈ (UnitOutline.ofSource {} [] source).classes, ∃ v ∈ c.contents,
        v.containsHollow = true)
      ∧ ∃ e ∈ (Event.ofLines {} (LogicalLine.scan {} source).lines).events,
          ∃ t ∈ e.writtenValues, t.HasHollow := by
  intro source
  have found : ((UnitOutline.ofSource {} [] source).classes.any fun c =>
      c.contents.any Value.containsHollow) = true := by decide +kernel
  obtain ⟨c, hc, hany⟩ := List.any_eq_true.1 found
  obtain ⟨v, hv, hhollow⟩ := List.any_eq_true.1 hany
  exact ⟨⟨c, hc, v, hv, hhollow⟩,
    (UnitOutline.containsHollow_only_of_hasHollow {} [] source).2 c hc v hv hhollow⟩

/-- Lists, tuples and dicts of nothing, in texts and in the outline of a source. -/
theorem UnitOutline.containsHollow_of_separators :
    (["[,]", ",", "(,)", "{**x: 1}", "f([1, {lambda: 0}])"].all fun s =>
      (Text.classify s.toList).value.containsHollow) = true
    ∧ ((UnitOutline.ofSource {} []
        "class A:\n x = [,]\n def __init__(self, y={**z: 1}):\n  self.w = (,)".toList).classes.map
          fun c => c.contents.map Value.containsHollow) = [[true, true, true]] := by
  decide +kernel

end ClassOutline
