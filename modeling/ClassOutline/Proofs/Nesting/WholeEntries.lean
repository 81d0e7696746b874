/-
  ClassOutline.Proofs.Nesting.WholeEntries
  ────────────────────────────────
  **THE ENTRIES OF A PIECE HAVE ALL OF ITS TEXT.**

  A piece of a dict is cut at the colons that divide, and what stands between two
  of them is cut once more, in front of the next key.  The parts and the colons
  between them are the piece (`intercalate_colonParts`), and a value and the next
  key are what stands between two colons, neither of them blank
  (`valueAndKey?_whole`).  So a chain of entries has what its parts have
  (`chain?_isChainOf`).

  Cutting trims, so texts are compared without their blanks (`withoutBlanks`).
-/
import ClassOutline.Proofs.Nesting.Items
import ClassOutline.Proofs.Nesting.Regrouping

namespace ClassOutline

/-! ## §1. Texts without their blanks. -/

namespace Text

/-- The characters of a text that are no blanks. -/
def withoutBlanks (t : Text) : Text := t.filter fun c => !isBlank c

@[simp]
theorem withoutBlanks_append (t u : Text) :
    withoutBlanks (t ++ u) = t.withoutBlanks ++ u.withoutBlanks := List.filter_append t u

theorem withoutBlanks_eq_nil {blanks : Text} (h : ∀ c ∈ blanks, isBlank c = true) :
    withoutBlanks blanks = [] := by
  refine List.filter_eq_nil_iff.2 fun c hc => ?_
  rw [h c hc]
  exact Bool.false_ne_true

/-- Trimming takes nothing but blanks. -/
@[simp]
theorem withoutBlanks_trim (t : Text) : withoutBlanks t.trim = t.withoutBlanks := by
  obtain ⟨front, hfront, start⟩ := t.exists_eq_append_trimStart
  obtain ⟨back, hback, rest⟩ := t.trimStart.exists_eq_trimEnd_append
  calc withoutBlanks t.trim
      = withoutBlanks (t.trim ++ back) := by
        rw [withoutBlanks_append, withoutBlanks_eq_nil hback, List.append_nil]
    _ = withoutBlanks t.trimStart := congrArg withoutBlanks rest.symm
    _ = withoutBlanks (front ++ t.trimStart) := by
        rw [withoutBlanks_append, withoutBlanks_eq_nil hfront, List.nil_append]
    _ = t.withoutBlanks := congrArg withoutBlanks start.symm

/-- Some character is no blank. -/
def IsFilled (t : Text) : Prop := ∃ c ∈ t, isBlank c = false

theorem IsFilled.append {t : Text} (h : IsFilled t) (u : Text) : IsFilled (t ++ u) := by
  obtain ⟨c, hc, hblank⟩ := h
  exact ⟨c, List.mem_append_left u hc, hblank⟩

theorem IsFilled.trim_ne_nil {t : Text} (h : IsFilled t) : t.trim ≠ [] := by
  obtain ⟨c, hc, hblank⟩ := h
  exact List.ne_nil_of_mem (mem_trim hc hblank)

/-- An atom begins with a character that is no blank. -/
theorem IsUnspaced.isFilled {t : Text} (h : t.IsUnspaced) : IsFilled t := by
  obtain ⟨c, rest, rfl⟩ := List.exists_cons_of_ne_nil h.1
  refine ⟨c, List.mem_cons_self, ?_⟩
  have first := h.2
  unfold lexemes at first
  rw [Nesting.lexemes_cons] at first
  exact first _ List.mem_cons_self

/-! ## §2. Items have the text of their atoms. -/

/-- The text of atoms, each with the gap before it. -/
def gappedText (as : List Atom) : Text := as.flatMap fun a => a.gap ++ a.text

theorem gappedText_cons (a : Atom) (as : List Atom) :
    gappedText (a :: as) = a.gap ++ a.text ++ gappedText as := List.flatMap_cons

theorem gappedText_append (as bs : List Atom) :
    gappedText (as ++ bs) = gappedText as ++ gappedText bs := List.flatMap_append

/-- **ITEMS HAVE ALL OF THE TEXT OF THEIR ATOMS**, and no item is blank if no atom is. -/
theorem gappedText_joinAtoms {as : List Atom} (h : ∀ a ∈ as, IsFilled a.text) :
    gappedText (joinAtoms as) = gappedText as ∧ ∀ item ∈ joinAtoms as, IsFilled item.text := by
  fun_induction joinAtoms as with
  | case1 => exact ⟨rfl, h⟩
  | case2 a rest next item items hitems _ hjoin ih =>
      -- the atom is put in front of the next item
      obtain ⟨text, filled⟩ := ih fun b hb => h b (List.mem_cons_of_mem a hb)
      rw [hitems] at text filled
      refine ⟨?_, List.forall_mem_cons.2 ⟨?_, (List.forall_mem_cons.1 filled).2⟩⟩
      · rw [gappedText_cons, gappedText_cons, ← text, gappedText_cons]
        simp only [List.append_assoc]
      · rw [List.append_assoc]
        exact (h a List.mem_cons_self).append _
  | case3 a rest next item items hitems _ hjoin ih =>
      obtain ⟨text, filled⟩ := ih fun b hb => h b (List.mem_cons_of_mem a hb)
      rw [hitems] at text filled
      refine ⟨?_, List.forall_mem_cons.2 ⟨h a List.mem_cons_self, filled⟩⟩
      rw [gappedText_cons, text, ← gappedText_cons]
  | case4 a rest _ ih =>
      obtain ⟨text, filled⟩ := ih fun b hb => h b (List.mem_cons_of_mem a hb)
      refine ⟨?_, List.forall_mem_cons.2 ⟨h a List.mem_cons_self, filled⟩⟩
      rw [gappedText_cons, text, ← gappedText_cons]

end Text

/-! ## §3. The parts between the colons. -/

namespace DictEntry

open Text

theorem rejoinLambdas_ne_nil {lambdas : Nat} {parts : List Text} (h : parts ≠ []) :
    rejoinLambdas lambdas parts ≠ [] := by
  fun_cases rejoinLambdas lambdas parts with
  | case1 => exact h
  | case2 => exact List.cons_ne_nil _ _
  | case3 => exact List.cons_ne_nil _ _
  | case4 => exact List.cons_ne_nil _ _
  | case5 => exact List.cons_ne_nil _ _

/-- What stands in front of the first text of a row stands in front of the row. -/
theorem intercalate_append_cons (sep : Char) (t u : Text) (us : List Text) :
    [sep].intercalate ((t ++ u) :: us) = t ++ [sep].intercalate (u :: us) := by
  cases us with
  | nil => rw [List.intercalate_singleton, List.intercalate_singleton]
  | cons v us =>
      rw [List.intercalate_cons_cons, List.intercalate_cons_cons, List.append_assoc,
        List.append_assoc, List.append_assoc]

/-- Joining parts again at a colon leaves the row as it is. -/
theorem intercalate_rejoinLambdas (lambdas : Nat) (parts : List Text) :
    [':'].intercalate (rejoinLambdas lambdas parts) = [':'].intercalate parts := by
  fun_induction rejoinLambdas lambdas parts with
  | case1 => rfl
  | case2 => rfl
  | case3 lambdas part parts hparts opened _ ih =>
      rw [intercalate_cons_of_ne_nil (rejoinLambdas_ne_nil hparts), ih,
        intercalate_cons_of_ne_nil hparts]
  | case4 lambdas part parts hparts opened _ next joined hjoined _ ih =>
      rw [hjoined] at ih
      have behind := intercalate_append_cons ':' (part ++ [':']) next joined
      rw [List.append_assoc, List.append_assoc, ih] at behind
      rw [intercalate_cons_of_ne_nil hparts]
      exact behind
  | case5 lambdas part parts hparts opened _ hjoined =>
      exact absurd hjoined (rejoinLambdas_ne_nil hparts)

/-- **THE PARTS OF A PIECE AND THE COLONS BETWEEN THEM ARE THE PIECE.** -/
theorem intercalate_colonParts (piece : Text) : [':'].intercalate (colonParts piece) = piece := by
  unfold colonParts
  rw [intercalate_rejoinLambdas]
  exact intercalate_cutUnits isDivider_colon piece

/-! ## §4. A value and the next key. -/

/-- Where a value is told from the next key, the text is cut in front of the last of several items
or atoms, and none of these is blank. -/
theorem exists_of_valueAndKey? {between value key : Text}
    (h : valueAndKey? between = some (value, key)) :
    ∃ previous last, previous ≠ []
      ∧ (previous ++ [last] = joinAtoms between.atomized.atoms
        ∨ previous ++ [last] = between.atomized.atoms)
      ∧ (∀ a ∈ previous ++ [last], IsFilled a.text)
      ∧ between = gappedText previous ++ last.gap ++ (last.text ++ between.atomized.trailing)
      ∧ value = trim (gappedText previous ++ last.gap)
      ∧ key = trim (last.text ++ between.atomized.trailing) := by
  have text : between = gappedText between.atomized.atoms ++ between.atomized.trailing :=
    between.eq_atoms_append_trailing
  have atoms : ∀ a ∈ between.atomized.atoms, IsFilled a.text := fun a ha =>
    (between.spaced_atomized.1.unspaced a ha).isFilled
  obtain ⟨joined, items⟩ := gappedText_joinAtoms atoms
  unfold valueAndKey? at h
  dsimp only at h
  generalize hchosen : (if 2 ≤ (joinAtoms between.atomized.atoms).length
    then joinAtoms between.atomized.atoms else between.atomized.atoms) = chosen at h
  -- items or atoms: both have all of the text
  have whole : gappedText chosen = gappedText between.atomized.atoms
      ∧ ∀ a ∈ chosen, IsFilled a.text := by
    rw [← hchosen]
    split
    · exact ⟨joined, items⟩
    · exact ⟨rfl, atoms⟩
  split at h
  · next last previous hreverse =>
    obtain rfl : chosen = previous.reverse ++ [last] := by
      rw [← List.reverse_cons, ← hreverse, List.reverse_reverse]
    split at h
    · cases h
    · next hprevious =>
      obtain ⟨rfl, rfl⟩ := Prod.mk.inj (Option.some.inj h)
      refine ⟨previous.reverse, last, ?_, ?_, whole.2, ?_, rfl, rfl⟩
      · exact fun hnil => hprevious (List.isEmpty_iff.2 (List.reverse_eq_nil_iff.1 hnil))
      · rw [← hchosen]
        split
        · exact .inl rfl
        · exact .inr rfl
      · conv => lhs; rw [text, ← whole.1, gappedText_append, gappedText_cons]
        simp only [List.append_assoc]
        rfl
  · cases h

/-- **A VALUE AND THE NEXT KEY ARE WHAT STANDS BETWEEN TWO COLONS**, and neither is empty. -/
theorem valueAndKey?_whole {between value key : Text}
    (h : valueAndKey? between = some (value, key)) :
    between.withoutBlanks = value.withoutBlanks ++ key.withoutBlanks ∧ value ≠ [] ∧ key ≠ [] := by
  obtain ⟨previous, last, hne, -, filled, text, rfl, rfl⟩ := exists_of_valueAndKey? h
  refine ⟨?_, ?_, ?_⟩
  · rw [withoutBlanks_trim, withoutBlanks_trim, ← withoutBlanks_append, ← text]
  · obtain ⟨a, others, rfl⟩ := List.exists_cons_of_ne_nil hne
    obtain ⟨c, hc, hblank⟩ := filled a List.mem_cons_self
    refine IsFilled.trim_ne_nil ⟨c, ?_, hblank⟩
    rw [gappedText_cons]
    simp [hc]
  · exact ((filled last List.mem_concat_self).append _).trim_ne_nil

/-! ## §5. Chains of entries. -/

/-- The keys and values of entries, with a colon in each. -/
def pairText (entries : List DictEntry) : Text := entries.flatMap fun e => e.key ++ ':' :: e.value

theorem withoutBlanks_pair (key value : Text) :
    withoutBlanks (key ++ ':' :: value) = key.withoutBlanks ++ ':' :: value.withoutBlanks :=
  withoutBlanks_append key (':' :: value)

theorem pairText_cons (e : DictEntry) (entries : List DictEntry) :
    pairText (e :: entries) = (e.key ++ ':' :: e.value) ++ pairText entries := List.flatMap_cons

/-- Entries that have all of the text of a key and the parts behind it, one entry for each part.  No
key is empty but perhaps the first, and no value but perhaps the last. -/
structure IsChainOf (key : Text) (parts : List Text) (entries : List DictEntry) : Prop where
  whole : (pairText entries).withoutBlanks = (key ++ ':' :: [':'].intercalate parts).withoutBlanks
  length : entries.length = parts.length
  first : ∀ e ∈ entries.head?, e.key = key
  keys : ∀ e ∈ entries.tail, e.key ≠ []
  values : ∀ e ∈ entries.dropLast, e.value ≠ []

/-- One part behind a key is its value. -/
theorem isChainOf_singleton (key value : Text) : IsChainOf key [value] [⟨key, value.trim⟩] := by
  refine ⟨?_, rfl, fun e he => ?_, nofun, nofun⟩
  · rw [pairText_cons, withoutBlanks_append, withoutBlanks_pair, List.intercalate_singleton,
      withoutBlanks_pair, withoutBlanks_trim]
    exact List.append_nil _
  · rw [← Option.some.inj he]

/-- One more entry in front of a chain: its value and the chain's first key are what stands behind
its colon. -/
theorem IsChainOf.cons {part value next : Text} {parts : List Text} {later : List DictEntry}
    (hcut : valueAndKey? part = some (value, next)) (hparts : parts ≠ [])
    (h : IsChainOf next parts later) (key : Text) :
    IsChainOf key (part :: parts) (⟨key, value⟩ :: later) := by
  obtain ⟨text, hvalue, hnext⟩ := valueAndKey?_whole hcut
  have filled : later ≠ [] := by
    rintro rfl
    exact hparts (List.eq_nil_of_length_eq_zero h.length.symm)
  obtain ⟨e, others, rfl⟩ := List.exists_cons_of_ne_nil filled
  refine ⟨?_, congrArg Nat.succ h.length, fun e he => ?_, ?_, ?_⟩
  · rw [pairText_cons, withoutBlanks_append, h.whole, withoutBlanks_pair, withoutBlanks_pair,
      withoutBlanks_pair, intercalate_cons_of_ne_nil hparts, withoutBlanks_pair, text]
    simp only [List.append_assoc, List.cons_append]
  · rw [← Option.some.inj he]
  · exact List.forall_mem_cons.2 ⟨by rw [h.first e rfl]; exact hnext, h.keys⟩
  · rw [List.dropLast_cons_of_ne_nil (List.cons_ne_nil e others)]
    exact List.forall_mem_cons.2 ⟨hvalue, h.values⟩

/-- **A CHAIN OF ENTRIES HAS ALL OF THE TEXT OF ITS PARTS.** -/
theorem chain?_isChainOf {key : Text} {parts : List Text} {entries : List DictEntry}
    (hne : parts ≠ []) (h : chain? key parts = some entries) : IsChainOf key parts entries := by
  fun_induction chain? key parts generalizing entries with
  | case1 => exact absurd rfl hne
  | case2 key last =>
      obtain rfl := Option.some.inj h
      exact isChainOf_singleton key last
  | case3 => cases h
  | case4 key part parts hparts value next hcut ih =>
      obtain ⟨later, hlater, rfl⟩ := Option.map_eq_some_iff.1 h
      exact (ih hparts hlater).cons hcut hparts key

end DictEntry

namespace Text

open DictEntry

/-- **THE ENTRIES OF A PIECE ARE A CHAIN** behind its first key, unless there are none: of one part,
or of several where commas had to be made up for. -/
theorem dictEntries_cases (piece : Text) :
    piece.dictEntries = ⟨[], false⟩
      ∨ ∃ key parts entries, piece = key ++ ':' :: [':'].intercalate parts
          ∧ IsChainOf key.trim parts entries
          ∧ (piece.dictEntries = ⟨entries, false⟩ ∧ parts.length = 1
            ∨ piece.dictEntries = ⟨entries, true⟩ ∧ 2 ≤ parts.length) := by
  have text := intercalate_colonParts piece
  unfold dictEntries
  split
  · exact .inl rfl
  · exact .inl rfl
  · next key value hparts =>
    rw [hparts] at text
    exact .inr ⟨key, [value], _, text.symm, isChainOf_singleton _ _, .inl ⟨rfl, rfl⟩⟩
  · next key parts hempty hsingle hparts =>
    rw [hparts, intercalate_cons_of_ne_nil hempty] at text
    split
    · next entries hchain =>
      refine .inr ⟨key, parts, entries, text.symm, chain?_isChainOf hempty hchain, .inr ⟨rfl, ?_⟩⟩
      obtain ⟨part, others, rfl⟩ := List.exists_cons_of_ne_nil hempty
      have several : others ≠ [] := fun hnil => hsingle part (congrArg (part :: ·) hnil)
      exact Nat.succ_le_succ (List.length_pos_iff.2 several)
    · -- the piece stays whole behind its first colon, as one part
      refine .inr ⟨key, [[':'].intercalate parts], _, ?_, isChainOf_singleton _ _, .inl ⟨rfl, rfl⟩⟩
      rw [List.intercalate_singleton, text]

/-- **NO TEXT IS LOST WHERE A PIECE IS READ AS ENTRIES.**  A piece has entries exactly if a colon
divides it, and then their keys and values with the colons are the piece, blanks apart.  Where
commas had to be made up for there are at least two entries, and no key but the first and no value
but the last is empty; otherwise there is one entry. -/
theorem dictEntries_whole (piece : Text) :
    (piece.dictEntries.entries ≠ [] ↔ IsDivided piece)
      ∧ (piece.dictEntries.entries ≠ [] →
        withoutBlanks (piece.dictEntries.entries.flatMap fun e => e.key ++ ':' :: e.value)
          = piece.withoutBlanks)
      ∧ (piece.dictEntries.recovered = true →
        2 ≤ piece.dictEntries.entries.length
          ∧ (∀ e ∈ piece.dictEntries.entries.tail, e.key ≠ [])
          ∧ ∀ e ∈ piece.dictEntries.entries.dropLast, e.value ≠ [])
      ∧ (piece.dictEntries.recovered = false → piece.dictEntries.entries ≠ [] →
        piece.dictEntries.entries.length = 1) := by
  refine ⟨(not_congr dictEntries_eq_nil_iff).trans Classical.not_not, ?_⟩
  rcases piece.dictEntries_cases with hnone | ⟨key, parts, entries, text, chain, found⟩
  · rw [hnone]
    exact ⟨fun hne => absurd rfl hne, nofun, fun _ hne => absurd rfl hne⟩
  · have whole : (pairText entries).withoutBlanks = piece.withoutBlanks := by
      rw [chain.whole, text, withoutBlanks_pair, withoutBlanks_pair, withoutBlanks_trim]
    rcases found with ⟨hfound, hparts⟩ | ⟨hfound, hparts⟩
    · rw [hfound]
      exact ⟨fun _ => whole, nofun, fun _ _ => chain.length.trans hparts⟩
    · rw [hfound]
      exact ⟨fun _ => whole, fun _ => ⟨chain.length.symm ▸ hparts, chain.keys, chain.values⟩, nofun⟩

/-- Neither a first key nor a last value, a group with blanks in it, and a colon of the keyword. -/
theorem dictEntries_whole_of_three_colons :
    let piece : Text := " : f( k ) k : lambda a: 1 (k) :".toList
    let entries : List DictEntry :=
      [⟨[], "f( k )".toList⟩, ⟨"k".toList, "lambda a: 1".toList⟩, ⟨"(k)".toList, []⟩]
    piece.dictEntries = ⟨entries, true⟩ ∧ entries ≠ []
      ∧ withoutBlanks (entries.flatMap fun e => e.key ++ ':' :: e.value) = piece.withoutBlanks
      ∧ (∀ e ∈ entries.tail, e.key ≠ []) ∧ ∀ e ∈ entries.dropLast, e.value ≠ [] := by
  intro piece entries
  have read : piece.dictEntries = ⟨entries, true⟩ := by decide +kernel
  obtain ⟨-, whole, recovered, -⟩ := dictEntries_whole piece
  rw [read] at whole recovered
  have filled : entries ≠ [] := List.cons_ne_nil _ _
  exact ⟨read, filled, whole filled, (recovered rfl).2⟩

end Text

end ClassOutline
