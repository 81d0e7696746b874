/-
  ClassOutline.Proofs.Initializer.MissingCommas
  ────────────────────────────────
  **WHERE A COMMA IS MISSING, NOTHING BUT A REPORT IS ADDED.**

  Elements of a list or entries of a dict are given in runs: a comma stands
  between one run and the next, only a space inside a run.  So the division into
  runs says which commas are missing, and runs of one member each have them all.

  Closed atoms are undivided if they have no comma of their own.  So what is
  classified run by run has the value that it has with all commas, and each run of
  several members is reported once in front of what its members report
  (`classify_list_of_runs`, `classify_dict_of_runs`).
-/
import ClassOutline.Proofs.Initializer.Runs
import ClassOutline.Proofs.Nesting.Closed

namespace ClassOutline

namespace Text

/-- Brackets are no blanks. -/
theorem trim_of_brackets {opener closer : Char} (hpair : BracketPair opener closer)
    (inner : Text) : trim (opener :: (inner ++ [closer])) = opener :: (inner ++ [closer]) := by
  have ends : isBlank opener = false ∧ isBlank closer = false := by
    rcases hpair with ⟨rfl, rfl⟩ | ⟨rfl, rfl⟩ | ⟨rfl, rfl⟩ <;> decide
  refine trim_eq_self (fun c hc => Option.some.inj hc ▸ ends.1) fun c hc => ?_
  rw [← List.cons_append, List.getLast?_concat] at hc
  exact Option.some.inj hc ▸ ends.2

/-- So what they enclose is classified with them as it is written. -/
theorem classify_of_brackets {opener closer : Char} (hpair : BracketPair opener closer)
    (inner : Text) :
    classify (opener :: (inner ++ [closer]))
      = classifyForm (classifyWithin levelLimit) (opener :: (inner ++ [closer])) := by
  unfold classify
  rw [classifyWithin, trim_of_brackets hpair]

/-! ## §1. Elements of a list. -/

/-- An expression that can be told from its neighbours: one closed atom, without a comma of its
own, that makes no comprehension of what it stands in. -/
structure IsElement (t : Text) : Prop extends IsClosedAtom t where
  comma : t.hasTopLevel ',' = false
  notFor : t ≠ "for".toList

instance (t : Text) : Decidable t.IsElement :=
  decidable_of_iff (t.IsClosedAtom ∧ t.hasTopLevel ',' = false ∧ t ≠ "for".toList)
    ⟨fun h => ⟨h.1, h.2.1, h.2.2⟩, fun h => ⟨h.toIsClosedAtom, h.comma, h.notFor⟩⟩

theorem IsElement.undivided {t : Text} (h : IsElement t) : Undivided t :=
  h.toIsClosedAtom.undivided h.comma

/-- **MISSING COMMAS IN A LIST ARE RECOVERED.**  The elements and what they report are those of
the list with all commas; each run of several elements is reported in addition, in front of what
they report. -/
theorem classify_list_of_runs {runs : List (List Text)} (hne : runs ≠ [])
    (hruns : ∀ run ∈ runs, run ≠ []) (h : ∀ run ∈ runs, ∀ t ∈ run, IsElement t)
    (hparted : ∀ run ∈ runs, run.IsChain fun t u => continues t u = false) :
    classify ('[' :: (joinRuns runs ++ [']']))
        = ⟨.list (runs.flatten.map fun t => (classifyWithin levelLimit t).value),
          runs.flatMap fun run => (if 1 < run.length then [.missingComma .listElements run] else [])
            ++ run.flatMap fun t => (classifyWithin levelLimit t).causes⟩
      ∧ classify ('[' :: (join ", " runs.flatten ++ [']']))
        = ⟨.list (runs.flatten.map fun t => (classifyWithin levelLimit t).value),
          runs.flatten.flatMap fun t => (classifyWithin levelLimit t).causes⟩ := by
  have pair : BracketPair '[' ']' := .inr (.inl ⟨rfl, rfl⟩)
  have undivided := fun run hrun t ht => (h run hrun t ht).undivided
  have noFor : ∀ run ∈ runs, "for".toList ∉ run := fun run hrun hmem =>
    (h run hrun _ hmem).notFor rfl
  rw [classify_of_brackets pair, classify_of_brackets pair]
  refine ⟨classifyForm_runs hruns undivided hparted .list hne noFor, ?_⟩
  refine classifyForm_join (flatten_ne_nil hne hruns) (fun t ht => ?_) (fun hmem => ?_) .list
  · obtain ⟨run, hrun, ht⟩ := List.mem_flatten.1 ht
    exact undivided run hrun t ht
  · obtain ⟨run, hrun, hmem⟩ := List.mem_flatten.1 hmem
    exact noFor run hrun hmem

/-! ## §2. Entries of a dict. -/

/-- A key or a value that can be told from its neighbours: no colon divides it, and it claims
none. -/
structure IsEntrySide (t : Text) : Prop extends IsElement t where
  colon : t.hasTopLevel ':' = false
  notLambda : t ≠ "lambda".toList

instance (t : Text) : Decidable t.IsEntrySide :=
  decidable_of_iff (t.IsElement ∧ t.hasTopLevel ':' = false ∧ t ≠ "lambda".toList)
    ⟨fun h => ⟨h.1, h.2.1, h.2.2⟩, fun h => ⟨h.toIsElement, h.colon, h.notLambda⟩⟩

theorem IsEntrySide.isSide {t : Text} (h : IsEntrySide t) : IsSide t :=
  { h.undivided with
    colon := h.closed.keeps_of_hasTopLevel h.colon
    notLambda := h.notLambda }

end Text

namespace DictEntry

open Text

/-- An entry that can be told from its neighbours: its key and its value can, and nothing is
unpacked. -/
structure IsDistinct (e : DictEntry) : Prop where
  key : e.key.IsEntrySide
  value : e.value.IsEntrySide
  notUnpacking : e.key.startsWith ['*', '*'] = false

instance (e : DictEntry) : Decidable e.IsDistinct :=
  decidable_of_iff
    (e.key.IsEntrySide ∧ e.value.IsEntrySide ∧ e.key.startsWith ['*', '*'] = false)
    ⟨fun h => ⟨h.1, h.2.1, h.2.2⟩, fun h => ⟨h.key, h.value, h.notUnpacking⟩⟩

theorem IsDistinct.isApart {e : DictEntry} (h : IsDistinct e) : IsApart e :=
  { key := h.key.isSide
    value := h.value.isSide
    notUnpacking := h.notUnpacking
    notFor := h.value.notFor }

/-- **MISSING COMMAS IN A DICT ARE RECOVERED.**  The entries and what they report are those of
the dict with all commas; each run of several entries is reported in addition, in front of what
they report. -/
theorem classify_dict_of_runs {runs : List (List DictEntry)} (hne : runs ≠ [])
    (hruns : ∀ run ∈ runs, run ≠ []) (h : ∀ run ∈ runs, ∀ e ∈ run, IsDistinct e) :
    classify ('{' :: (joinRuns (runs.map fun run => run.map written) ++ ['}']))
        = ⟨.dict (runs.flatten.map fun e =>
            ((classifyWithin levelLimit e.key).value, (classifyWithin levelLimit e.value).value)),
          runs.flatMap fun run =>
            (if 1 < run.length then [.missingEntryComma (run.map key)] else [])
              ++ run.flatMap fun e => (classifyWithin levelLimit e.key).causes
                ++ (classifyWithin levelLimit e.value).causes⟩
      ∧ classify ('{' :: (join ", " (runs.flatten.map written) ++ ['}']))
        = ⟨.dict (runs.flatten.map fun e =>
            ((classifyWithin levelLimit e.key).value, (classifyWithin levelLimit e.value).value)),
          runs.flatten.flatMap fun e => (classifyWithin levelLimit e.key).causes
            ++ (classifyWithin levelLimit e.value).causes⟩ := by
  have pair : BracketPair '{' '}' := .inr (.inr ⟨rfl, rfl⟩)
  rw [classify_of_brackets pair, classify_of_brackets pair]
  refine ⟨classifyForm_dict_runs hne hruns fun run hrun e he => (h run hrun e he).isApart, ?_⟩
  refine classifyForm_dict_join (flatten_ne_nil hne hruns) fun e he => ?_
  obtain ⟨run, hrun, he⟩ := List.mem_flatten.1 he
  exact (h run hrun e he).isApart

end DictEntry

end ClassOutline
