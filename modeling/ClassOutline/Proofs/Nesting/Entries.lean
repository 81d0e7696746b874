/-
  ClassOutline.Proofs.Nesting.Entries
  ────────────────────────────────
  **ENTRIES OF A DICT ARE TOLD APART WITHOUT COMMAS.**

  A run of entries is a row of keys and values with a colon behind each key.  If
  no colon and no blank divides these, the colons that are found are those: behind
  each but the last stand one value and one key, two atoms, and the second one is
  the next key whether it continues the first or not (`valueAndKey?_join`).  So a
  run is read as the entries it was written from (`dictEntries_run`).
-/
import ClassOutline.Proofs.Nesting.Rows

namespace ClassOutline

namespace DictEntry

/-- The entry as it is written. -/
def written (e : DictEntry) : Text := e.key ++ ':' :: ' ' :: e.value

/-- The entry in a row: the key with its colon, and the value. -/
def words (e : DictEntry) : List Text := [e.key ++ [':'], e.value]

end DictEntry

namespace Text

/-- A key or a value that no blank, comma or colon divides, and that claims no colon. -/
structure IsSide (t : Text) : Prop extends Undivided t where
  colon : Keeps (· == ':') t
  notLambda : t ≠ "lambda".toList

end Text

namespace DictEntry

open Text

/-- A key and a value that are told apart. -/
structure HasSides (e : DictEntry) : Prop where
  key : e.key.IsSide
  value : e.value.IsSide

theorem join_words (e : DictEntry) : join " " e.words = e.written := by
  unfold words written
  rw [join_space_cons_cons, join_singleton, List.append_assoc]
  rfl

/-- Written entries are a row of keys and values. -/
theorem join_written (run : List DictEntry) :
    join " " (run.map written) = join " " (run.flatMap words) := by
  induction run with
  | nil => rfl
  | cons e run ih =>
      cases run with
      | nil => rw [List.map_singleton, join_singleton, List.flatMap_singleton, join_words]
      | cons e' run =>
          rw [List.map_cons, List.map_cons, join_space_cons_cons, ← List.map_cons, ih, ← join_words]
          simp only [List.flatMap_cons, words, List.cons_append, List.nil_append,
            join_space_cons_cons, join_singleton, List.append_assoc]

/-! ## §1. Between the colons. -/

/-- What stands behind the colon of `e` and those of the entries after it. -/
def partsBehind (e : DictEntry) : List DictEntry → List Text
  | [] => [' ' :: e.value]
  | next :: run => (' ' :: join " " [e.value, next.key]) :: partsBehind next run

theorem exists_partsBehind (e : DictEntry) (run : List DictEntry) :
    ∃ part parts, partsBehind e run = part :: parts := by
  cases run with
  | nil => exact ⟨_, _, rfl⟩
  | cons next run => exact ⟨_, _, rfl⟩

/-- A space behind a text that avoids the separator divides nothing. -/
theorem cutUnits_append_space {sep : Char} (hsep : (' ' == sep) = false) {front : Text}
    (h : Keeps (· == sep) front) (rest : Text) :
    cutUnits sep (lexemes (front ++ ' ' :: rest))
      = (front ++ ' ' :: (cutUnits sep rest.lexemes).1, (cutUnits sep rest.lexemes).2) := by
  have noMatch : Lexeme.matchesTop (· == sep) ⟨' ', [], .closed⟩ = false := hsep
  rw [h.lexemes_append_cons isPlain_space.1, lexemes_cons_of_isPlain isPlain_space,
    Text.cutUnits_append fun l hl => h.matchesTop_eq_false (fun _ hc => hc) hl, concat_lexemes,
    cutUnits, noMatch]
  rfl

theorem cutUnits_written {e : DictEntry} {run : List DictEntry}
    (h : ∀ d ∈ e :: run, HasSides d) :
    cutUnits ':' (lexemes (join " " ((e :: run).map written))) = (e.key, partsBehind e run) := by
  -- entry by entry, each one cut at its own colon
  induction run generalizing e with
  | nil =>
      obtain ⟨hkey, hvalue⟩ := h e List.mem_cons_self
      have behind : Keeps (· == ':') (' ' :: e.value) := .cons isPlain_space rfl hvalue.colon
      rw [List.map_singleton, join_singleton, written,
        hkey.colon.cutUnits_append rfl isPlain_colon, behind.cutUnits_eq rfl]
      rfl
  | cons next run ih =>
      obtain ⟨hkey, hvalue⟩ := h e List.mem_cons_self
      have later := ih fun d hd => h d (List.mem_cons_of_mem e hd)
      have behind : Keeps (· == ':') (' ' :: e.value) := .cons isPlain_space rfl hvalue.colon
      have text : join " " ((e :: next :: run).map written)
          = e.key ++ ':' :: ((' ' :: e.value) ++ ' ' :: join " " ((next :: run).map written)) := by
        rw [List.map_cons, List.map_cons, join_space_cons_cons, written, List.append_assoc]
        rfl
      rw [text, hkey.colon.cutUnits_append rfl isPlain_colon, cutUnits_append_space rfl behind,
        later, partsBehind, join_space_cons_cons, join_singleton]
      rfl

/-- No colon is claimed where no part has the keyword. -/
theorem rejoinLambdas_of_not_mem {parts : List Text}
    (h : ∀ part ∈ parts, "lambda".toList ∉ part.atoms) : rejoinLambdas 0 parts = parts := by
  induction parts with
  | nil => rfl
  | cons part parts ih =>
      cases parts with
      | nil => rfl
      | cons next parts =>
          have none : part.atoms.filter (· == "lambda".toList) = [] := by
            refine List.filter_eq_nil_iff.2 fun atom hatom => ?_
            intro heq
            exact h part List.mem_cons_self (eq_of_beq heq ▸ hatom)
          have later := ih fun p hp => h p (List.mem_cons_of_mem part hp)
          unfold rejoinLambdas
          rw [none]
          show (part :: rejoinLambdas 0 (next :: parts)) = _
          rw [later]

theorem lambda_not_mem_partsBehind {e : DictEntry} {run : List DictEntry}
    (h : ∀ d ∈ e :: run, HasSides d) :
    ∀ part ∈ partsBehind e run, "lambda".toList ∉ part.atoms := by
  induction run generalizing e with
  | nil =>
      have hvalue := (h e List.mem_cons_self).value
      refine List.forall_mem_singleton.2 ?_
      rw [atoms_space_cons, hvalue.atoms_eq]
      exact fun hmem => hvalue.notLambda (List.mem_singleton.1 hmem).symm
  | cons next run ih =>
      have hvalue := (h e List.mem_cons_self).value
      have hnext := (h next (List.mem_cons_of_mem e List.mem_cons_self)).key
      refine List.forall_mem_cons.2 ⟨?_, ih fun d hd => h d (List.mem_cons_of_mem e hd)⟩
      rw [atoms_space_cons, atoms_join (by simp [hvalue.toAtomic, hnext.toAtomic])]
      refine List.not_mem_cons_of_ne_of_not_mem hvalue.notLambda.symm ?_
      exact fun hmem => hnext.notLambda (List.mem_singleton.1 hmem).symm

theorem colonParts_written {e : DictEntry} {run : List DictEntry}
    (h : ∀ d ∈ e :: run, HasSides d) :
    colonParts (join " " ((e :: run).map written)) = e.key :: partsBehind e run := by
  have hkey := (h e List.mem_cons_self).key
  unfold colonParts
  rw [cutUnits_written h]
  refine rejoinLambdas_of_not_mem (List.forall_mem_cons.2 ⟨?_, lambda_not_mem_partsBehind h⟩)
  rw [hkey.atoms_eq, List.mem_singleton]
  exact hkey.notLambda.symm

/-! ## §2. A value and the next key. -/

/-- **OF TWO ATOMS THE SECOND IS THE NEXT KEY**, also where it continues the first. -/
theorem valueAndKey?_join {value key : Text} (hvalue : Atomic value) (hkey : Atomic key) :
    valueAndKey? (' ' :: join " " [value, key]) = some (value, key) := by
  have atoms : atomized (' ' :: join " " [value, key]) = ⟨[⟨[' '], value⟩, ⟨[' '], key⟩], []⟩ :=
    atomized_space_join (List.cons_ne_nil _ _) (by simp [hvalue, hkey])
  -- two items, or two atoms where there is only one item
  have chosen : (if 2 ≤ (joinAtoms [⟨[' '], value⟩, ⟨[' '], key⟩]).length
        then joinAtoms [⟨[' '], value⟩, ⟨[' '], key⟩] else [⟨[' '], value⟩, ⟨[' '], key⟩])
      = [⟨[' '], value⟩, ⟨[' '], key⟩] := by
    cases hjoin : continues value key with
    | true => simp [joinAtoms, hjoin]
    | false => simp [joinAtoms, hjoin]
  have valueCut : trim (' ' :: value ++ [' ']) = value := by
    rw [trim_append_of_isBlank rfl, trim_space_cons, hvalue.trimmed]
  unfold valueAndKey?
  simp only [atoms]
  rw [chosen]
  show some (trim (' ' :: (value ++ []) ++ [' ']), trim (key ++ [])) = _
  rw [List.append_nil, List.append_nil, valueCut, hkey.trimmed]

/-- The entries behind the first key, one for each part. -/
theorem chain?_partsBehind {e : DictEntry} {run : List DictEntry}
    (h : ∀ d ∈ e :: run, HasSides d) : chain? e.key (partsBehind e run) = some (e :: run) := by
  induction run generalizing e with
  | nil =>
      have hvalue := (h e List.mem_cons_self).value
      show some [DictEntry.mk e.key (trim (' ' :: e.value))] = _
      rw [trim_space_cons, hvalue.trimmed]
  | cons next run ih =>
      have hvalue := (h e List.mem_cons_self).value
      have hnext := (h next (List.mem_cons_of_mem e List.mem_cons_self)).key
      have later := ih fun d hd => h d (List.mem_cons_of_mem e hd)
      obtain ⟨part, parts, hparts⟩ := exists_partsBehind next run
      rw [hparts] at later
      rw [partsBehind, hparts, chain?, valueAndKey?_join hvalue.toAtomic hnext.toAtomic]
      · show (chain? next.key (part :: parts)).map _ = _
        rw [later]
        rfl
      · exact List.cons_ne_nil part parts

/-- **A RUN IS READ AS THE ENTRIES IT WAS WRITTEN FROM**, and as recovered if it has several. -/
theorem dictEntries_run {run : List DictEntry} (hne : run ≠ []) (h : ∀ e ∈ run, HasSides e) :
    (join " " (run.map written)).dictEntries = ⟨run, decide (1 < run.length)⟩ := by
  obtain ⟨e, run, rfl⟩ := List.exists_cons_of_ne_nil hne
  have hkey := (h e List.mem_cons_self).key
  have chain := chain?_partsBehind h
  unfold dictEntries
  rw [colonParts_written h]
  cases run with
  | nil =>
      have hvalue := (h e List.mem_cons_self).value
      show DictEntries.mk [⟨trim e.key, trim (' ' :: e.value)⟩] false = _
      rw [trim_space_cons, hkey.trimmed, hvalue.trimmed]
      rfl
  | cons next run =>
      obtain ⟨part, parts, hparts⟩ := exists_partsBehind next run
      rw [partsBehind, hparts] at chain ⊢
      dsimp only
      rw [hkey.trimmed, chain]
      simp

end DictEntry

end ClassOutline
