/-
  ClassOutline.Resolution.Table
  ────────────────────────────────
  **TABLES FROM TEXTS TO ENTRIES.**

  A table holds at most one entry per key.  Its laws are stated through
  `get?`: setting a key changes what it holds and nothing else.
-/
import ClassOutline.Text.Basic

namespace ClassOutline

/-- Entries by their keys. -/
structure Table (α : Type) where
  entries : List (Text × α) := []
  deriving Repr

namespace Table

variable {α : Type}

/-- The entry of a key. -/
def get? (t : Table α) (key : Text) : Option α := t.entries.lookup key

/-- The key has an entry. -/
def contains (t : Table α) (key : Text) : Bool := (t.get? key).isSome

/-- The entries whose keys satisfy `p`. -/
def restrict (t : Table α) (p : Text → Bool) : Table α :=
  ⟨t.entries.filter fun entry => p entry.1⟩

/-- Give a key an entry, in place of the one it had. -/
def set (t : Table α) (key : Text) (entry : α) : Table α :=
  ⟨(key, entry) :: (t.restrict (· ≠ key)).entries⟩

/-- Give a key an entry, if it has none. -/
def setNew (t : Table α) (key : Text) (entry : α) : Table α :=
  if t.contains key then t else t.set key entry

/-- The keys in the table. -/
def keys (t : Table α) : List Text := t.entries.map Prod.fst

@[simp] theorem get?_empty (key : Text) : ({} : Table α).get? key = none := rfl

theorem get?_restrict (t : Table α) (p : Text → Bool) (key : Text) :
    (t.restrict p).get? key = if p key then t.get? key else none := by
  obtain ⟨entries⟩ := t
  simp only [get?, restrict]
  induction entries with
  | nil => simp
  | cons entry entries ih =>
    obtain ⟨k, a⟩ := entry
    by_cases hk : key = k
    · subst hk
      by_cases hp : p key
      · simp [hp]
      · simpa [hp] using ih
    · have hk' : (key == k) = false := by simpa using hk
      by_cases hp : p k <;> simp [hp, List.lookup_cons, hk', ih]

theorem get?_set (t : Table α) (key other : Text) (entry : α) :
    (t.set key entry).get? other = if other = key then some entry else t.get? other := by
  have h := get?_restrict t (· ≠ key) other
  by_cases ho : other = key
  · simp [set, get?, ho]
  · have ho' : (other == key) = false := by simpa using ho
    simp only [set, get?, List.lookup_cons, ho', ho, if_false]
    simpa [get?, ho] using h

theorem get?_setNew (t : Table α) (key other : Text) (entry : α) :
    (t.setNew key entry).get? other
      = if other = key then some ((t.get? key).getD entry) else t.get? other := by
  unfold setNew contains
  by_cases ho : other = key
  · subst ho
    cases h : t.get? other <;> simp [h, get?_set]
  · cases h : t.get? key <;> simp [ho, get?_set]

/-- What a key holds is an entry. -/
theorem mem_entries_of_get? {t : Table α} {key : Text} {entry : α}
    (h : t.get? key = some entry) : (key, entry) ∈ t.entries := by
  obtain ⟨entries⟩ := t
  simp only [get?] at h ⊢
  induction entries with
  | nil => simp at h
  | cons e entries ih =>
    obtain ⟨k, a⟩ := e
    by_cases hk : key = k
    · subst hk
      simp_all
    · have hk' : (key == k) = false := by simpa using hk
      simp only [List.lookup_cons, hk'] at h
      simp [ih h]

theorem mem_keys_of_get? {t : Table α} {key : Text} {entry : α}
    (h : t.get? key = some entry) : key ∈ t.keys :=
  List.mem_map_of_mem (mem_entries_of_get? h)

end Table

end ClassOutline
