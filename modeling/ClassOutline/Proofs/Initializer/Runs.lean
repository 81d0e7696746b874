/-
  ClassOutline.Proofs.Initializer.Runs
  ────────────────────────────────
  **WHAT BRACKETS ENCLOSE IS CLASSIFIED RUN BY RUN.**

  Elements or entries stand in runs: commas between the runs, spaces inside
  (`joinRuns`).  The pieces between the commas are the runs.  Elements that do not
  join one another are taken apart again, and so are entries whose keys and values
  are told apart.  A run of several members lacks a comma and is reported for it,
  in front of what its members report (`classifyForm_runs` for a list or a tuple,
  `classifyForm_dict_runs`).

  With all commas each member is a run of its own, and no run is reported.
-/
import ClassOutline.Proofs.Initializer.Forms
import ClassOutline.Proofs.Nesting.Entries

namespace ClassOutline

/-! ## §1. Elements of a list or a tuple. -/

/-- A container of elements: its brackets, what its elements are called where a comma is missing,
and what they make. -/
inductive IsSequence : Char → Char → ItemKind → (List Initializer → Initializer) → Prop where
  | list : IsSequence '[' ']' .listElements .list
  | tuple : IsSequence '(' ')' .tupleElements .tuple

namespace Text

/-- What the brackets of a list or a tuple enclose is classified by its items, if it is not blank
and no comprehension. -/
theorem classifyForm_of_sequence {inner : Classifier} {opener closer : Char} {kind : ItemKind}
    {make : List Initializer → Initializer} (hseq : IsSequence opener closer kind make)
    {enclosed : Text} (h : Keeps (fun _ => false) enclosed)
    (hfor : isComprehension enclosed = false) (hfilled : enclosed.trim.isEmpty = false) :
    classifyForm inner (opener :: (enclosed ++ [closer]))
      = (classifyItems inner kind id enclosed).map make := by
  cases hseq with
  | list =>
      rw [classifyForm_of_square h, classifyList, classifyEnclosed, hfor, hfilled]
      rfl
  | tuple =>
      rw [classifyForm_of_parentheses h, classifyTuple, classifyEnclosed, hfor, hfilled]
      rfl

section Runs

variable {inner : Classifier} {runs : List (List Text)} (hruns : ∀ run ∈ runs, run ≠ [])
  (h : ∀ run ∈ runs, ∀ t ∈ run, Undivided t)
include hruns h

/-- Runs without the keyword are no comprehension. -/
theorem isComprehension_joinRuns (hfor : ∀ run ∈ runs, "for".toList ∉ run) :
    isComprehension (joinRuns runs) = false := by
  refine Bool.eq_false_iff.2 fun hcomprehension => ?_
  exact not_mem_atoms_joinRuns hruns h (by decide) hfor (List.contains_iff_mem.1 hcomprehension)

variable (hparted : ∀ run ∈ runs, run.IsChain fun t u => continues t u = false)
include hparted

/-- Runs of texts that do not join are classified text by text. -/
theorem classifyItems_joinRuns (kind : ItemKind) :
    classifyItems inner kind id (joinRuns runs)
      = ⟨runs.flatten.map fun t => (inner t).value,
        runs.flatMap fun run => (if 1 < run.length then [.missingComma kind run] else [])
          ++ run.flatMap fun t => (inner t).causes⟩ := by
  have each : ∀ run ∈ runs, (join " " run).adjacentItems = run := fun run hrun =>
    adjacentItems_join (fun t ht => (h run hrun t ht).toAtomic) (hparted run hrun)
  unfold classifyItems
  rw [commaItems_joinRuns hruns h, List.map_map]
  rw [List.map_congr_left fun run hrun => by
    rw [Function.comp_apply, each run hrun]]
  simp [Reported.concat, Reported.all, Reported.since, List.map_flatten, Function.comp_def,
    List.flatMap_def]

/-- **A LIST OR A TUPLE IS CLASSIFIED RUN BY RUN.** -/
theorem classifyForm_runs {opener closer : Char} {kind : ItemKind}
    {make : List Initializer → Initializer} (hseq : IsSequence opener closer kind make)
    (hne : runs ≠ []) (hfor : ∀ run ∈ runs, "for".toList ∉ run) :
    classifyForm inner (opener :: (joinRuns runs ++ [closer]))
      = ⟨make (runs.flatten.map fun t => (inner t).value),
        runs.flatMap fun run => (if 1 < run.length then [.missingComma kind run] else [])
          ++ run.flatMap fun t => (inner t).causes⟩ := by
  rw [classifyForm_of_sequence hseq (keeps_joinRuns_of_undivided h)
    (isComprehension_joinRuns hruns h hfor) (isEmpty_trim_joinRuns hruns h hne),
    classifyItems_joinRuns hruns h hparted]
  rfl

end Runs

section Singletons

variable {inner : Classifier} {ts : List Text} (hne : ts ≠ []) (h : ∀ t ∈ ts, Undivided t)
  (hfor : "for".toList ∉ ts)

/-- The keyword is in no run of one text if it is none of the texts. -/
theorem not_mem_singletons {word : Text} (hword : word ∉ ts) :
    ∀ run ∈ ts.map fun t => [t], word ∉ run := by
  refine List.forall_mem_map.2 fun t ht hmem => hword ?_
  exact List.mem_singleton.1 hmem ▸ ht

include hne h hfor

/-- With all commas a list or a tuple is classified element by element. -/
theorem classifyForm_join {opener closer : Char} {kind : ItemKind}
    {make : List Initializer → Initializer} (hseq : IsSequence opener closer kind make) :
    classifyForm inner (opener :: (join ", " ts ++ [closer]))
      = ⟨make (ts.map fun t => (inner t).value), ts.flatMap fun t => (inner t).causes⟩ := by
  rw [← joinRuns_singletons, classifyForm_runs _ _ _ hseq, flatten_singletons]
  · simp [List.flatMap_map]
  · simpa using hne
  · exact not_mem_singletons hfor
  · simp
  · simpa using h
  · simp

end Singletons

end Text

/-! ## §2. Entries of a dict. -/

namespace DictEntry

open Text

/-- An entry that is told from its neighbours: its key and its value are, it unpacks nothing, and
its value makes no comprehension of what it stands in. -/
structure IsApart (e : DictEntry) : Prop extends HasSides e where
  notUnpacking : e.key.startsWith ['*', '*'] = false
  notFor : e.value ≠ "for".toList

/-- Keys with their colons and values are undivided. -/
theorem HasSides.undivided {e : DictEntry} (h : HasSides e) : ∀ t ∈ e.words, Undivided t := by
  have hkey := h.key.toUndivided.append_sign isPlain_colon rfl rfl
  exact List.forall_mem_cons.2 ⟨hkey, List.forall_mem_singleton.2 h.value.toUndivided⟩

theorem IsApart.for_not_mem_words {e : DictEntry} (h : IsApart e) : "for".toList ∉ e.words := by
  refine List.not_mem_cons_of_ne_of_not_mem (ne_append_sign (by decide) e.key) ?_
  exact fun hmem => h.notFor (List.mem_singleton.1 hmem).symm

variable {inner : Classifier}

/-- A run of entries is classified key by key and value by value. -/
theorem classifyEntries_run {run : List DictEntry} (hne : run ≠ []) (h : ∀ e ∈ run, IsApart e) :
    classifyEntries inner (join " " (run.map written))
      = ⟨run.map fun e => ((inner e.key).value, (inner e.value).value),
        (if 1 < run.length then [.missingEntryComma (run.map key)] else [])
          ++ run.flatMap fun e => (inner e.key).causes ++ (inner e.value).causes⟩ := by
  have noStars : Text.startsWith (join " " (run.map written)) ['*', '*'] = false := by
    obtain ⟨e, run, rfl⟩ := List.exists_cons_of_ne_nil hne
    obtain ⟨rest, hrest⟩ := join_cons_eq_append " " e.written (run.map written)
    rw [List.map_cons, hrest, written, List.append_assoc, List.cons_append,
      startsWith_append_cons (by decide)]
    exact (h e List.mem_cons_self).notUnpacking
  have found := dictEntries_run hne fun e he => (h e he).toHasSides
  have filled : run.isEmpty = false := by simpa using hne
  unfold classifyEntries
  rw [noStars, found]
  dsimp only
  rw [filled]
  simp [Reported.all, Reported.since, Function.comp_def, List.flatMap_map]

section Runs

variable {runs : List (List DictEntry)}

/-- Written entries in runs are keys and values in runs. -/
theorem joinRuns_written (runs : List (List DictEntry)) :
    joinRuns (runs.map fun run => run.map written)
      = joinRuns (runs.map fun run => run.flatMap words) := by
  unfold joinRuns
  rw [List.map_map, List.map_map]
  exact congrArg (join ", ") (List.map_congr_left fun run _ => join_written run)

variable (hne : runs ≠ []) (hruns : ∀ run ∈ runs, run ≠ [])
  (h : ∀ run ∈ runs, ∀ e ∈ run, IsApart e)
include hne hruns h

/-- The colon of the first entry is at top level. -/
theorem hasTopLevel_joinRuns :
    Text.hasTopLevel ':' (joinRuns (runs.map fun run => run.map written)) = true := by
  obtain ⟨run, others, rfl⟩ := List.exists_cons_of_ne_nil hne
  obtain ⟨e, run, rfl⟩ := List.exists_cons_of_ne_nil (hruns run List.mem_cons_self)
  have hkey := (h _ List.mem_cons_self e List.mem_cons_self).key
  obtain ⟨behind, hbehind⟩ := join_cons_eq_append " " e.written (run.map written)
  obtain ⟨later, hlater⟩ := join_cons_eq_append ", " (join " " ((e :: run).map written))
    ((others.map fun run => run.map written).map (join " "))
  unfold joinRuns
  rw [List.map_cons, List.map_cons, hlater, List.map_cons, hbehind, written, List.append_assoc,
    List.append_assoc]
  exact hkey.colon.hasTopLevel_append isPlain_colon _

/-- **A DICT IS CLASSIFIED RUN BY RUN.** -/
theorem classifyForm_dict_runs :
    classifyForm inner ('{' :: (joinRuns (runs.map fun run => run.map written) ++ ['}']))
      = ⟨.dict (runs.flatten.map fun e => ((inner e.key).value, (inner e.value).value)),
        runs.flatMap fun run =>
          (if 1 < run.length then [.missingEntryComma (run.map key)] else [])
            ++ run.flatMap fun e => (inner e.key).causes ++ (inner e.value).causes⟩ := by
  have colon := hasTopLevel_joinRuns hne hruns h
  -- the entries as runs of keys and values
  have filled : ∀ ws ∈ runs.map fun run => run.flatMap words, ws ≠ [] := by
    refine List.forall_mem_map.2 fun run hrun => ?_
    obtain ⟨e, run, rfl⟩ := List.exists_cons_of_ne_nil (hruns run hrun)
    exact List.cons_ne_nil _ _
  have undivided : ∀ ws ∈ runs.map fun run => run.flatMap words, ∀ t ∈ ws, Undivided t := by
    refine List.forall_mem_map.2 fun run hrun t ht => ?_
    obtain ⟨e, he, ht⟩ := List.mem_flatMap.1 ht
    exact (h run hrun e he).undivided t ht
  have noFor : ∀ ws ∈ runs.map fun run => run.flatMap words, "for".toList ∉ ws := by
    refine List.forall_mem_map.2 fun run hrun hmem => ?_
    obtain ⟨e, he, hmem⟩ := List.mem_flatMap.1 hmem
    exact (h run hrun e he).for_not_mem_words hmem
  have noComprehension := isComprehension_joinRuns filled undivided noFor
  have nonblank := isEmpty_trim_joinRuns filled undivided (by simpa using hne)
  have keeps := keeps_joinRuns_of_undivided undivided
  have pieces := commaItems_joinRuns filled undivided
  rw [← joinRuns_written] at noComprehension keeps nonblank pieces
  -- and back, for the pieces are runs of entries
  have entries : (runs.map fun run => run.flatMap words).map (join " ")
      = runs.map fun run => join " " (run.map written) := by
    rw [List.map_map]
    exact List.map_congr_left fun run _ => (join_written run).symm
  rw [classifyForm_of_braces keeps]
  unfold classifyDict classifyEnclosed
  rw [noComprehension, nonblank, colon, pieces, entries]
  simp only [List.map_map, Function.comp_def]
  rw [List.map_congr_left fun run hrun => classifyEntries_run (hruns run hrun) (h run hrun)]
  simp [Reported.concat, Reported.map, List.map_flatten, Function.comp_def, List.flatMap_def]

end Runs

/-- With all commas a dict is classified entry by entry. -/
theorem classifyForm_dict_join {es : List DictEntry} (hne : es ≠ []) (h : ∀ e ∈ es, IsApart e) :
    classifyForm inner ('{' :: (join ", " (es.map written) ++ ['}']))
      = ⟨.dict (es.map fun e => ((inner e.key).value, (inner e.value).value)),
        es.flatMap fun e => (inner e.key).causes ++ (inner e.value).causes⟩ := by
  have single : joinRuns ((es.map fun e => [e]).map fun run => run.map written)
      = join ", " (es.map written) := by
    rw [← joinRuns_singletons]
    simp [Function.comp_def]
  rw [← single, classifyForm_dict_runs, flatten_singletons]
  · simp [List.flatMap_map]
  · simpa using hne
  · simp
  · simpa using h

end DictEntry

end ClassOutline
