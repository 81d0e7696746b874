/-
  ClassOutline.Proofs.Resolution.ClassNames
  ────────────────────────────────
  **WHAT A CLASS IS FOUND UNDER DOES NOT DEPEND ON WHEN OTHERS WERE ADDED.**

  One table holds the qualified names of classes, which overwrite what they find,
  and the last parts of nested ones, which give way to it.  Read as a whole it
  depends little on the order of what was added: a name that was added finds its
  own class, and any other name without dots finds the first class that it is the
  last part of (`classes_addAll`).  The order decides between nested classes alone,
  and never hides a class under its own name.
-/
import Mathlib.Data.List.Induction
import ClassOutline.Proofs.Resolution.Notes
import ClassOutline.Proofs.Text.Plain

namespace ClassOutline

/-! ## §1. Last parts. -/

namespace Text

/-- The last part of a name; a name of one part is its own. -/
def lastPart? (name : Text) : Option Text := (fields '.' name).getLast?

theorem lastPart?_of_dotless {name : Text} (h : '.' ∉ name) : lastPart? name = some name := by
  unfold lastPart?
  rw [fields_of_not_mem h]
  rfl

/-- The last part of a name with dots is the short name of a class. -/
theorem lastPart?_of_dotted {name : Text} (h : '.' ∈ name) : lastPart? name = shortName? name := by
  obtain ⟨outer, last, rfl, hlast⟩ := exists_last_part h
  unfold lastPart?
  rw [shortName?_append_cons hlast, fields_append_cons, fields_of_not_mem hlast,
    List.getLast?_concat]

/-- Under a name that has dots no class is found by its last part. -/
theorem dot_not_mem_of_shortName? {name short : Text} (h : shortName? name = some short) :
    '.' ∉ short := by
  by_cases hdot : '.' ∈ name
  · obtain ⟨outer, last, rfl, hlast⟩ := exists_last_part hdot
    rw [shortName?_append_cons hlast] at h
    exact Option.some.inj h ▸ hlast
  · rw [shortName?_of_dotless hdot] at h
    exact nomatch h

/-- One name is the short name of another one exactly if it is its last part. -/
theorem shortName?_eq_some_iff {name key : Text} (hne : key ≠ name) :
    shortName? name = some key ↔ lastPart? name = some key := by
  by_cases hdot : '.' ∈ name
  · rw [lastPart?_of_dotted hdot]
  · rw [shortName?_of_dotless hdot, lastPart?_of_dotless hdot]
    exact iff_of_false nofun fun heq => hne (Option.some.inj heq).symm

end Text

/-! ## §2. Classes by their names. -/

namespace Definitions

open Text (lastPart? shortName?)

/-- The definitions of a source that adds these classes, in this order. -/
def addAll (names : List Text) : Definitions := names.foldl addClass {}

/-- **EVERY NAME THAT WAS ADDED FINDS ITSELF**, and any other one without dots the first class that
it is the last part of. -/
theorem classes_addAll (names : List Text) (key : Text) :
    (addAll names).classes.get? key
      = if key ∈ names then some key
        else if '.' ∈ key then none
        else names.find? fun name => lastPart? name == some key := by
  induction names using List.reverseRecOn with
  | nil =>
      show none = if '.' ∈ key then none else none
      rw [ite_self]
  | append_singleton names name ih =>
      unfold addAll at ih ⊢
      rw [List.foldl_concat, classes_addClass, ih, List.find?_append, List.find?_singleton]
      by_cases hname : key = name
      · rw [if_pos hname, if_pos (hname ▸ List.mem_concat_self), hname]
      have added : key ∈ names ++ [name] ↔ key ∈ names := by
        rw [List.mem_append, List.mem_singleton, or_iff_left hname]
      rw [if_neg hname]
      simp only [added, Text.shortName?_eq_some_iff hname, beq_iff_eq]
      by_cases hlast : lastPart? name = some key
      · -- the name is taken only if it finds itself or another nested class
        have noDot := Text.dot_not_mem_of_shortName? ((Text.shortName?_eq_some_iff hname).2 hlast)
        rw [if_pos hlast, if_pos hlast, if_neg noDot, if_neg noDot]
        split
        · rfl
        · cases names.find? fun name => lastPart? name == some key <;> rfl
      · rw [if_neg hlast, if_neg hlast, Option.or_none]

/-- Some class is found under each name that was added and under each of their last parts. -/
theorem isClass_addAll (names : List Text) (key : Text) :
    (addAll names).isClass key = true
      ↔ key ∈ names ∨ ('.' ∉ key ∧ ∃ name ∈ names, lastPart? name = some key) := by
  unfold isClass Table.contains
  rw [classes_addAll]
  by_cases hmem : key ∈ names
  · rw [if_pos hmem]
    exact iff_of_true rfl (.inl hmem)
  by_cases hdot : '.' ∈ key
  · rw [if_neg hmem, if_pos hdot]
    exact iff_of_false nofun fun h => h.elim hmem fun h => h.1 hdot
  · rw [if_neg hmem, if_neg hdot, List.find?_isSome, or_iff_right hmem, and_iff_right hdot]
    simp only [beq_iff_eq]

/-- A path that names a class stands for it, called or not, whatever the path is bound to. -/
theorem resolve_of_class {d : Definitions} {path : List Text} {found : Text}
    (h : d.classes.get? (Text.dotted path) = some found) (place : Place) :
    d.resolve place (.name path) = .classReference found
      ∧ ∀ args, d.resolve place (.call path args)
        = .construction found (d.resolveItems (d.boundClass? [] place) args) := by
  unfold resolve
  refine ⟨?_, fun args => ?_⟩
  · rw [resolveWith, resolveName, h]
    rfl
  · rw [resolveWith, h]

/-- **CLASSES ARE FOUND ALIKE IN WHATEVER ORDER THEY ARE ADDED.**  Each name that was added finds
itself; a name of one part that was not finds the first class whose last part it is; under any other
name there is no class.  So what is written where the name of a class was added stands for that
class, and a nested class of the same last part, added before or after it, never takes its place. -/
theorem found_addAll (names : List Text) :
    (∀ key, (addAll names).classes.get? key
        = if key ∈ names then some key
          else if '.' ∈ key then none
          else names.find? fun name => lastPart? name == some key)
      ∧ (∀ key, (addAll names).isClass key = true
        ↔ key ∈ names ∨ ('.' ∉ key ∧ ∃ name ∈ names, lastPart? name = some key))
      ∧ ∀ path place, Text.dotted path ∈ names →
        (addAll names).resolve place (.name path) = .classReference (Text.dotted path)
          ∧ ∀ args, (addAll names).resolve place (.call path args)
            = .construction (Text.dotted path)
                ((addAll names).resolveItems ((addAll names).boundClass? [] place) args) :=
  ⟨classes_addAll names, isClass_addAll names, fun path place hmem =>
    resolve_of_class ((classes_addAll names (Text.dotted path)).trans (if_pos hmem)) place⟩

/-- Two nested classes of one last part, the class of that name between them, and another pair. -/
theorem found_addAll_between_aliases :
    let names := ["A.Item".toList, "Item".toList, "B.Item".toList, "A.Part".toList, "B.Part".toList]
    (addAll names).classes.get? "Item".toList = some "Item".toList
      ∧ (addAll names).classes.get? "Part".toList = some "A.Part".toList
      ∧ (addAll names).isClass "A".toList = false
      ∧ (addAll names).resolve {} (.name ["Item".toList]) = .classReference "Item".toList := by
  intro names
  obtain ⟨found, isClass, reference⟩ := found_addAll names
  have noClass : ¬ (addAll names).isClass "A".toList = true := by
    rw [isClass]
    decide +kernel
  exact ⟨(found _).trans (by decide +kernel), (found _).trans (by decide +kernel),
    Bool.eq_false_iff.2 noClass, (reference ["Item".toList] {} (by decide +kernel)).1⟩

end Definitions

end ClassOutline
