/-
  ClassOutline.Proofs.Initializer.Causes
  ────────────────────────────────
  **WHAT A CLASSIFICATION REPORTS.**

  A classification reports expressions of no known form, and commas or colons
  that are missing; nothing else (`classify_ofValue`).  In particular it is
  silent about classes, so whoever counts what is said about these need not
  look at the values of attributes and defaults.
-/
import ClassOutline.Proofs.Initializer.Results

namespace ClassOutline

/-! ## §1. Results with causes of one sort. -/

/-- A cause that concerns a value: a form that is not known, or a separator that is missing. -/
def Cause.OfValue (c : Cause) : Prop :=
  c.kind = .unclassifiableLiteral ∨ c.kind = .missingSeparator

namespace Reported

/-- All that is reported concerns values. -/
def OfValue {α : Type} (r : Reported α) : Prop := ∀ c ∈ r.causes, c.OfValue

section
variable {α β : Type}

theorem ofValue_of_causes_eq_nil {r : Reported α} (h : r.causes = []) : r.OfValue := by
  intro c hc
  rw [h] at hc
  exact absurd hc List.not_mem_nil

theorem OfValue.since {r : Reported α} (h : r.OfValue) {earlier : List Cause}
    (hearlier : ∀ c ∈ earlier, c.OfValue) : (r.since earlier).OfValue := by
  intro c hc
  rcases List.mem_append.1 hc with hc | hc
  · exact hearlier c hc
  · exact h c hc

theorem OfValue.map {r : Reported α} (h : r.OfValue) (f : α → β) : (r.map f).OfValue := h

theorem ofValue_all {rs : List (Reported α)} (h : ∀ r ∈ rs, r.OfValue) :
    (Reported.all rs).OfValue := by
  intro c hc
  obtain ⟨r, hr, hc⟩ := List.mem_flatMap.1 hc
  exact h r hr c hc

theorem ofValue_concat {rs : List (Reported (List α))} (h : ∀ r ∈ rs, r.OfValue) :
    (Reported.concat rs).OfValue := by
  intro c hc
  obtain ⟨r, hr, hc⟩ := List.mem_flatMap.1 hc
  exact h r hr c hc

end

end Reported

/-! ## §2. One level. -/

namespace Text

open Reported (ofValue_all ofValue_concat ofValue_of_causes_eq_nil)

variable {inner : Classifier}

theorem ofValue_singleton {cause : Cause} (h : cause.OfValue) : ∀ c ∈ [cause], c.OfValue := by
  intro c hc
  obtain rfl := List.mem_singleton.1 hc
  exact h

theorem unclassified_ofValue (t : Text) {cause : Cause} (h : cause.kind = .unclassifiableLiteral) :
    (unclassified t cause).OfValue := ofValue_singleton (.inl h)

theorem classifyItems_ofValue (hinner : ∀ t, (inner t).OfValue) (kind : ItemKind)
    (select : Text → Text) (t : Text) : (classifyItems inner kind select t).OfValue := by
  apply ofValue_concat
  intro r hr
  obtain ⟨piece, -, rfl⟩ := List.mem_map.1 hr
  apply Reported.OfValue.since
  · apply ofValue_all
    intro r hr
    obtain ⟨part, -, rfl⟩ := List.mem_map.1 hr
    exact hinner (select part)
  · -- more than one part lacks a comma
    split
    · exact ofValue_singleton (.inr rfl)
    · intro c hc
      exact absurd hc List.not_mem_nil

theorem classifyEntries_ofValue (hinner : ∀ t, (inner t).OfValue) (piece : Text) :
    (classifyEntries inner piece).OfValue := by
  unfold classifyEntries
  split
  · exact ofValue_singleton (.inl rfl)
  · dsimp only
    split
    · exact ofValue_singleton (.inr rfl)
    · apply Reported.OfValue.since
      · apply ofValue_all
        intro r hr
        obtain ⟨entry, -, rfl⟩ := List.mem_map.1 hr
        intro c hc
        rcases List.mem_append.1 hc with hc | hc
        · exact hinner entry.key c hc
        · exact hinner entry.value c hc
      · split
        · exact ofValue_singleton (.inr rfl)
        · intro c hc
          exact absurd hc List.not_mem_nil

/-- One level reports causes of values, if the one inside does. -/
theorem LevelResult.ofValue (hinner : ∀ t, (inner t).OfValue) {r : Reported Initializer}
    (h : LevelResult inner r) : r.OfValue := by
  cases h with
  | literal | name => exact ofValue_of_causes_eq_nil rfl
  | kept t h => exact unclassified_ofValue t h
  | list | tuple | call => exact (classifyItems_ofValue hinner _ _ _).map _
  | dict t =>
      apply Reported.OfValue.map
      apply ofValue_concat
      intro r hr
      obtain ⟨piece, -, rfl⟩ := List.mem_map.1 hr
      exact classifyEntries_ofValue hinner piece

/-! ## §3. All levels. -/

theorem classifyWithin_ofValue (levels : Nat) (t : Text) : (classifyWithin levels t).OfValue := by
  -- on the levels that are left; below the last one their number is reported
  induction levels generalizing t with
  | zero => exact unclassified_ofValue _ rfl
  | succ levels ih => exact (classifyForm_result _ t.trim).ofValue ih

/-- **WHAT A CLASSIFICATION REPORTS CONCERNS VALUES.** -/
theorem classify_ofValue (t : Text) : t.classify.OfValue :=
  classifyWithin_ofValue (levelLimit + 1) t

end Text

end ClassOutline
