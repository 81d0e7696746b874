/-
  ClassOutline.Proofs.Initializer.Unrecognized
  ────────────────────────────────
  **WHAT A CLASSIFICATION DOES NOT RECOGNIZE, IT REPORTS.**

  A text that is kept as written comes with a cause of its own, and what is put
  together from parts has the causes of all its parts.  So a result has at most
  as many unrecognized parts, at any depth, as it has causes of that kind
  (`Reported.Accounted`).  It may have fewer: a dict that is unpacked into
  another is reported and leaves nothing behind.

  The levels of a classification are independent of one another: each is
  accounted for if the one below it is (`LevelResult.accounted`).
-/
import Mathlib.Algebra.GroupWithZero.Nat
import ClassOutline.Proofs.Initializer.Results

namespace ClassOutline

/-! ## §1. Unrecognized parts. -/

namespace Value

mutual

/-- How many unrecognized values there are in a value, itself included. -/
def unrecognizedCount : Value → Nat
  | unrecognized _ => 1
  | list items | tuple items | construction _ items => unrecognizedCountAll items
  | dict entries => unrecognizedCountEntries entries
  | _ => 0

/-- How many there are in values. -/
def unrecognizedCountAll : List Value → Nat
  | [] => 0
  | v :: vs => v.unrecognizedCount + unrecognizedCountAll vs

/-- How many there are in the keys and values of dict entries. -/
def unrecognizedCountEntries : List (Value × Value) → Nat
  | [] => 0
  | (k, v) :: rest => k.unrecognizedCount + v.unrecognizedCount + unrecognizedCountEntries rest

end

mutual

/-- A value contains an unrecognized one if there are any. -/
theorem containsUnrecognized_iff :
    ∀ v : Value, v.containsUnrecognized = true ↔ 0 < v.unrecognizedCount
  | unrecognized _ => iff_of_true rfl Nat.one_pos
  | list items | tuple items | construction _ items => anyUnrecognized_iff items
  | dict entries => anyEntryUnrecognized_iff entries
  | bool _ | int _ | float _ | string _ | nothing | emptyList | emptyDict | emptyTuple
  | classReference _ | external _ => iff_of_false Bool.false_ne_true (Nat.lt_irrefl 0)

theorem anyUnrecognized_iff :
    ∀ vs : List Value, anyUnrecognized vs = true ↔ 0 < unrecognizedCountAll vs
  | [] => iff_of_false Bool.false_ne_true (Nat.lt_irrefl 0)
  | v :: vs => by
      have first := containsUnrecognized_iff v
      have others := anyUnrecognized_iff vs
      show (v.containsUnrecognized || anyUnrecognized vs) = true
        ↔ 0 < v.unrecognizedCount + unrecognizedCountAll vs
      rw [Bool.or_eq_true, first, others]
      omega

theorem anyEntryUnrecognized_iff :
    ∀ es : List (Value × Value), anyEntryUnrecognized es = true ↔ 0 < unrecognizedCountEntries es
  | [] => iff_of_false Bool.false_ne_true (Nat.lt_irrefl 0)
  | (k, v) :: rest => by
      have key := containsUnrecognized_iff k
      have value := containsUnrecognized_iff v
      have others := anyEntryUnrecognized_iff rest
      show (k.containsUnrecognized || v.containsUnrecognized || anyEntryUnrecognized rest) = true
        ↔ 0 < k.unrecognizedCount + v.unrecognizedCount + unrecognizedCountEntries rest
      rw [Bool.or_eq_true, Bool.or_eq_true, key, value, others]
      omega

end

theorem unrecognizedCount_of_isLiteral {v : Value} (h : v.isLiteral = true) :
    v.unrecognizedCount = 0 := by
  cases v with
  | bool | int | float | string | nothing | emptyList | emptyDict | emptyTuple => rfl
  | _ => exact nomatch h

end Value

namespace Initializer

mutual

/-- How many unrecognized values there are in an expression, itself included. -/
def unrecognizedCount : Initializer → Nat
  | literal v => v.unrecognizedCount
  | list items | tuple items | call _ items => unrecognizedCountAll items
  | dict entries => unrecognizedCountEntries entries
  | name _ => 0

/-- How many there are in expressions. -/
def unrecognizedCountAll : List Initializer → Nat
  | [] => 0
  | i :: is => i.unrecognizedCount + unrecognizedCountAll is

/-- How many there are in the keys and values of dict entries. -/
def unrecognizedCountEntries : List (Initializer × Initializer) → Nat
  | [] => 0
  | (k, v) :: rest => k.unrecognizedCount + v.unrecognizedCount + unrecognizedCountEntries rest

end

/-- How many there are in a dict entry. -/
def unrecognizedCountEntry (e : Initializer × Initializer) : Nat :=
  e.1.unrecognizedCount + e.2.unrecognizedCount

theorem unrecognizedCountAll_eq_sum (is : List Initializer) :
    unrecognizedCountAll is = (is.map unrecognizedCount).sum := by
  induction is with
  | nil => rfl
  | cons i is ih =>
      show i.unrecognizedCount + unrecognizedCountAll is = _
      rw [ih, List.map_cons, List.sum_cons]

theorem unrecognizedCountEntries_eq_sum (es : List (Initializer × Initializer)) :
    unrecognizedCountEntries es = (es.map unrecognizedCountEntry).sum := by
  induction es with
  | nil => rfl
  | cons e es ih =>
      show unrecognizedCountEntry e + unrecognizedCountEntries es = _
      rw [ih, List.map_cons, List.sum_cons]

end Initializer

/-! ## §2. Results whose unrecognized parts are reported. -/

/-- How many of the causes say that an expression has no known form. -/
def Cause.unclassifiedCount (causes : List Cause) : Nat :=
  causes.countP fun c => c.kind = .unclassifiableLiteral

theorem Cause.unclassifiedCount_append (causes later : List Cause) :
    unclassifiedCount (causes ++ later) = unclassifiedCount causes + unclassifiedCount later :=
  List.countP_append

namespace Reported

/-- The result weighs at most as much as there are causes for. -/
def Accounted {α : Type} (weight : α → Nat) (r : Reported α) : Prop :=
  weight r.value ≤ Cause.unclassifiedCount r.causes

section
variable {α β : Type} {weight : α → Nat}

theorem accounted_of_eq_zero {r : Reported α} (h : weight r.value = 0) : r.Accounted weight := by
  unfold Accounted
  omega

/-- Further causes do no harm. -/
theorem Accounted.since {r : Reported α} (h : r.Accounted weight) (earlier : List Cause) :
    (r.since earlier).Accounted weight := by
  unfold Accounted at h
  show weight r.value ≤ Cause.unclassifiedCount (earlier ++ r.causes)
  rw [Cause.unclassifiedCount_append]
  omega

/-- A result may be put into another form of the same weight. -/
theorem Accounted.map {weight' : β → Nat} {r : Reported α} (h : r.Accounted weight) {f : α → β}
    (hf : ∀ a, weight' (f a) = weight a) : (r.map f).Accounted weight' := by
  show weight' (f r.value) ≤ Cause.unclassifiedCount r.causes
  rw [hf]
  exact h

theorem accounted_all {rs : List (Reported α)} (h : ∀ r ∈ rs, r.Accounted weight) :
    (Reported.all rs).Accounted fun as => (as.map weight).sum := by
  unfold Accounted Reported.all
  dsimp only
  induction rs with
  | nil => exact Nat.le_refl 0
  | cons r rs ih =>
      have first : weight r.value ≤ Cause.unclassifiedCount r.causes := h r List.mem_cons_self
      have others := ih fun r' hr => h r' (List.mem_cons_of_mem r hr)
      rw [List.flatMap_cons, Cause.unclassifiedCount_append]
      simp only [List.map_cons, List.sum_cons]
      omega

theorem accounted_concat {rs : List (Reported (List α))}
    (h : ∀ r ∈ rs, r.Accounted fun as => (as.map weight).sum) :
    (Reported.concat rs).Accounted fun as => (as.map weight).sum := by
  unfold Accounted Reported.concat
  dsimp only
  induction rs with
  | nil => exact Nat.le_refl 0
  | cons r rs ih =>
      have first : (r.value.map weight).sum ≤ Cause.unclassifiedCount r.causes :=
        h r List.mem_cons_self
      have others := ih fun r' hr => h r' (List.mem_cons_of_mem r hr)
      rw [List.flatMap_cons, List.flatMap_cons, Cause.unclassifiedCount_append, List.map_append,
        List.sum_append]
      omega

end

end Reported

/-! ## §3. One level. -/

namespace Text

open Initializer (unrecognizedCount unrecognizedCountEntry)
open Reported (Accounted accounted_all accounted_concat accounted_of_eq_zero)

variable {inner : Classifier}

theorem unclassified_accounted (t : Text) {cause : Cause}
    (h : cause.kind = .unclassifiableLiteral) :
    (unclassified t cause).Accounted unrecognizedCount := by
  have one : Cause.unclassifiedCount [cause] = 1 := by
    unfold Cause.unclassifiedCount
    rw [List.countP_singleton, if_pos (decide_eq_true h)]
  exact Nat.le_of_eq one.symm

theorem classifyItems_accounted (hinner : ∀ t, (inner t).Accounted unrecognizedCount)
    (kind : ItemKind) (select : Text → Text) (t : Text) :
    (classifyItems inner kind select t).Accounted fun is => (is.map unrecognizedCount).sum := by
  apply accounted_concat
  intro r hr
  obtain ⟨piece, -, rfl⟩ := List.mem_map.1 hr
  -- a missing comma is reported too, as another kind of cause
  apply Accounted.since
  apply accounted_all
  intro r hr
  obtain ⟨part, -, rfl⟩ := List.mem_map.1 hr
  exact hinner (select part)

theorem classifyEntries_accounted (hinner : ∀ t, (inner t).Accounted unrecognizedCount)
    (piece : Text) :
    (classifyEntries inner piece).Accounted fun es => (es.map unrecognizedCountEntry).sum := by
  unfold classifyEntries
  split
  · exact accounted_of_eq_zero rfl
  · dsimp only
    split
    · exact accounted_of_eq_zero rfl
    · apply Accounted.since
      apply accounted_all
      intro r hr
      obtain ⟨entry, -, rfl⟩ := List.mem_map.1 hr
      have key := hinner entry.key
      have value := hinner entry.value
      unfold Accounted at key value
      show (inner entry.key).value.unrecognizedCount + (inner entry.value).value.unrecognizedCount
        ≤ Cause.unclassifiedCount ((inner entry.key).causes ++ (inner entry.value).causes)
      rw [Cause.unclassifiedCount_append]
      omega

/-- Items make a list, a tuple or the arguments of a call. -/
theorem items_accounted (hinner : ∀ t, (inner t).Accounted unrecognizedCount) (kind : ItemKind)
    (select : Text → Text) (t : Text) {f : List Initializer → Initializer}
    (hf : ∀ is, (f is).unrecognizedCount = Initializer.unrecognizedCountAll is) :
    ((classifyItems inner kind select t).map f).Accounted unrecognizedCount := by
  apply (classifyItems_accounted hinner kind select t).map
  intro is
  rw [hf, Initializer.unrecognizedCountAll_eq_sum]

/-- One level reports what it does not recognize, if the one inside does. -/
theorem LevelResult.accounted (hinner : ∀ t, (inner t).Accounted unrecognizedCount)
    {r : Reported Initializer} (h : LevelResult inner r) : r.Accounted unrecognizedCount := by
  cases h with
  | literal h => exact accounted_of_eq_zero (Value.unrecognizedCount_of_isLiteral h)
  | name => exact accounted_of_eq_zero rfl
  | kept t h => exact unclassified_accounted t h
  | list | tuple | call => exact items_accounted hinner _ _ _ fun _ => rfl
  | dict t =>
      have entries : (Reported.concat (t.commaItems.map (classifyEntries inner))).Accounted
          fun es => (es.map unrecognizedCountEntry).sum := by
        apply accounted_concat
        intro r hr
        obtain ⟨piece, -, rfl⟩ := List.mem_map.1 hr
        exact classifyEntries_accounted hinner piece
      apply entries.map
      exact Initializer.unrecognizedCountEntries_eq_sum

/-! ## §4. All levels. -/

theorem classifyWithin_accounted (levels : Nat) (t : Text) :
    (classifyWithin levels t).Accounted unrecognizedCount := by
  -- on the levels that are left: below the last one everything is kept as written
  induction levels generalizing t with
  | zero => exact unclassified_accounted _ rfl
  | succ levels ih => exact (classifyForm_result _ t.trim).accounted ih

/-- **A CLASSIFIED EXPRESSION HAS A CAUSE FOR EACH UNRECOGNIZED PART OF IT.** -/
theorem classify_accounted (t : Text) : t.classify.Accounted unrecognizedCount :=
  classifyWithin_accounted (levelLimit + 1) t

/-- An entry, an argument and a comprehension; what is unpacked is reported as well. -/
example :
    let r := classify "{a?: f(b?), **c, 1: [x for x in y]}".toList
    r.value.unrecognizedCount = 3 ∧ Cause.unclassifiedCount r.causes = 4 := by
  decide +kernel

end Text

end ClassOutline
