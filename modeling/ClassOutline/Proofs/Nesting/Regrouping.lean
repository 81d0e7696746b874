/-
  ClassOutline.Proofs.Nesting.Regrouping
  ────────────────────────────────
  **ATOMS ARE FOUND AGAIN IN THE ITEMS THEY ARE PUT INTO.**

  The atoms of a text are *spaced* (`Spaced`): no blank is at top level in any of
  them, all but the last close what they open, and blanks stand between them.
  This is all that counts: spaced atoms, written one after the other, are read as
  the same atoms (`Spaced.atomized_concat`).

  An item is written by a run of atoms with the gaps between them, and a run of
  spaced atoms is spaced.  So the item has the atoms of its run, and since they all
  join, it is one item again (`adjacentItems_regroup`).
-/
import Mathlib.Data.List.SplitBy
import ClassOutline.Proofs.Nesting.Pieces
import ClassOutline.Proofs.Nesting.Rows
import ClassOutline.Proofs.Text.Bytes

namespace ClassOutline

namespace Atomized

/-! ## §1. Blanks in front. -/

/-- Put blanks in front: they belong to the gap before the first atom. -/
def behind (blanks : Text) (z : Atomized) : Atomized :=
  match z.atoms with
  | [] => { z with trailing := blanks ++ z.trailing }
  | a :: others => { z with atoms := { a with gap := blanks ++ a.gap } :: others }

variable {blanks : Text} {z : Atomized}

theorem isBlank_trailing_behind (hblanks : ∀ c ∈ blanks, Text.isBlank c = true)
    (h : ∀ c ∈ z.trailing, Text.isBlank c = true) :
    ∀ c ∈ (z.behind blanks).trailing, Text.isBlank c = true := by
  obtain ⟨atoms, trailing⟩ := z
  cases atoms with
  | nil => exact List.forall_mem_append.2 ⟨hblanks, h⟩
  | cons a others => exact h

theorem gap_ne_nil_behind (hne : blanks ≠ []) {a : Atom}
    (ha : a ∈ (z.behind blanks).atoms.head?) : a.gap ≠ [] := by
  obtain ⟨atoms, trailing⟩ := z
  cases atoms with
  | nil => exact nomatch ha
  | cons b others =>
      obtain rfl := Option.some.inj ha
      exact List.append_ne_nil_of_left_ne_nil hne b.gap

end Atomized

namespace Text

theorem atomized_append_blanks {blanks : Text} (h : ∀ c ∈ blanks, isBlank c = true) (t : Text) :
    atomized (blanks ++ t) = t.atomized.behind blanks := by
  induction blanks with
  | nil =>
      show t.atomized = t.atomized.behind []
      obtain ⟨atoms, trailing⟩ := t.atomized
      cases atoms with
      | nil => rfl
      | cons a others => rfl
  | cons w blanks ih =>
      have blank : Lexeme.matchesTop isBlank ⟨w, [], .closed⟩ = true := h w List.mem_cons_self
      rw [List.cons_append, atomized_blank_cons (h w List.mem_cons_self),
        ih fun c hc => h c (List.mem_cons_of_mem w hc)]
      obtain ⟨atoms, trailing⟩ := t.atomized
      rw [Atomized.cons, blank]
      cases atoms with
      | nil => rfl
      | cons a others => rfl

end Text

/-! ## §2. Spaced atoms. -/

/-- Atoms as a text has them: they are unspaced, with blanks in front, and all but the last close
what they open and are followed by a blank. -/
structure Spaced (as : List Atom) : Prop where
  unspaced : ∀ a ∈ as, a.text.IsUnspaced
  gaps : ∀ a ∈ as, ∀ c ∈ a.gap, Text.isBlank c = true
  apart : as.IsChain fun a b => Nesting.closed.afterText a.text = .closed ∧ b.gap ≠ []

namespace Spaced

variable {as run : List Atom}

theorem nil : Spaced [] :=
  { unspaced := fun _ ha => absurd ha List.not_mem_nil
    gaps := fun _ ha => absurd ha List.not_mem_nil
    apart := .nil }

/-- Atoms that follow each other among spaced ones. -/
theorem of_run (h : Spaced as) (hrun : run <:+: as) : Spaced run := by
  refine ⟨fun a ha => h.unspaced a (hrun.subset ha), fun a ha => h.gaps a (hrun.subset ha), ?_⟩
  obtain ⟨front, back, rfl⟩ := hrun
  exact h.apart.left_of_append.right_of_append

/-- One more atom in front of a gap. -/
theorem cons {a : Atom} (ha : a.text.IsUnspaced) (hgap : ∀ c ∈ a.gap, Text.isBlank c = true)
    (hnext : ∀ b ∈ as.head?, Nesting.closed.afterText a.text = .closed ∧ b.gap ≠ [])
    (h : Spaced as) : Spaced (a :: as) :=
  { unspaced := List.forall_mem_cons.2 ⟨ha, h.unspaced⟩
    gaps := List.forall_mem_cons.2 ⟨hgap, h.gaps⟩
    apart := h.apart.cons hnext }

/-- What stands before the first atom plays no part. -/
theorem with_gap {a : Atom} (h : Spaced (a :: as)) {gap : Text}
    (hgap : ∀ c ∈ gap, Text.isBlank c = true) : Spaced (⟨gap, a.text⟩ :: as) := by
  obtain ⟨hnext, -⟩ := List.isChain_cons.1 h.apart
  exact .cons (h.unspaced a List.mem_cons_self) hgap hnext
    (h.of_run (List.suffix_cons a as).isInfix)

theorem behind {blanks : Text} (hblanks : ∀ c ∈ blanks, Text.isBlank c = true) {z : Atomized}
    (h : Spaced z.atoms) : Spaced (z.behind blanks).atoms := by
  obtain ⟨atoms, trailing⟩ := z
  cases atoms with
  | nil => exact h
  | cons a others =>
      -- only the first gap has grown
      refine h.with_gap fun c hc => ?_
      rcases List.mem_append.1 hc with hc | hc
      · exact hblanks c hc
      · exact h.gaps a List.mem_cons_self c hc

end Spaced

namespace Text

/-- **THE ATOMS OF A TEXT ARE SPACED**, and blanks trail behind the last one. -/
theorem spaced_atomized (t : Text) :
    Spaced t.atomized.atoms ∧ ∀ c ∈ t.atomized.trailing, isBlank c = true := by
  -- by the length of the text: a shorter one begins behind its first blank at top level
  induction hn : t.length using Nat.strongRecOn generalizing t with
  | ind n ih =>
      by_cases h : ∃ l ∈ t.lexemes, l.matchesTop isBlank = true
      · obtain ⟨front, w, rest, hw, rfl, hcloses, hnone⟩ :=
          exists_append_of_mem_lexemes (fun c hc => Nesting.not_isMark_of_isBlank hc) h
        have hblank : ∀ c ∈ [w], isBlank c = true := fun c hc => List.mem_singleton.1 hc ▸ hw
        have behind : atomized (w :: rest) = (atomized rest).behind [w] :=
          atomized_append_blanks hblank rest
        obtain ⟨spaced, trailing⟩ := ih rest.length
          (by simp only [List.length_append, List.length_cons] at hn; omega) rest rfl
        have spaced := spaced.behind hblank
        have trailing := Atomized.isBlank_trailing_behind hblank trailing
        rw [← behind] at spaced trailing
        cases front with
        | nil => exact ⟨spaced, trailing⟩
        | cons c front =>
            have unspaced : IsUnspaced (c :: front) := ⟨List.cons_ne_nil c front, hnone⟩
            rw [unspaced.atomized_append_blank hcloses hw]
            refine ⟨.cons unspaced nofun (fun b hb => ⟨hcloses, ?_⟩) spaced, trailing⟩
            rw [behind] at hb
            exact Atomized.gap_ne_nil_behind (List.cons_ne_nil w []) hb
      · have hnone : ∀ l ∈ t.lexemes, l.matchesTop isBlank = false :=
          fun l hl => Bool.eq_false_iff.2 fun hmatch => h ⟨l, hl, hmatch⟩
        cases t with
        | nil =>
            rw [atomized_nil]
            exact ⟨.nil, nofun⟩
        | cons c t =>
            have unspaced : IsUnspaced (c :: t) := ⟨List.cons_ne_nil c t, hnone⟩
            rw [unspaced.atomized_eq]
            exact ⟨.cons unspaced nofun nofun .nil, nofun⟩

end Text

/-- **SPACED ATOMS ARE READ AS THEY WERE WRITTEN.** -/
theorem Spaced.atomized_concat {as : List Atom} (h : Spaced as) :
    Text.atomized (as.flatMap fun a => a.gap ++ a.text) = ⟨as, []⟩ := by
  induction as with
  | nil => exact Text.atomized_nil
  | cons a as ih =>
      have first : Text.atomized (a.text ++ as.flatMap fun b => b.gap ++ b.text)
          = ⟨⟨[], a.text⟩ :: as, []⟩ := by
        have later := ih (h.of_run (List.suffix_cons a as).isInfix)
        have unspaced := h.unspaced a List.mem_cons_self
        cases as with
        | nil => rw [List.flatMap_nil, List.append_nil, unspaced.atomized_eq]
        | cons b as =>
            -- the atom ends in front of the first blank of the next gap
            obtain ⟨⟨hcloses, hgap⟩, -⟩ := List.isChain_cons_cons.1 h.apart
            have hblank := h.gaps b (List.mem_cons_of_mem a List.mem_cons_self)
            obtain ⟨w, gap, hgap⟩ := List.exists_cons_of_ne_nil hgap
            rw [hgap] at hblank
            rw [List.flatMap_cons, hgap] at later ⊢
            rw [List.cons_append, List.cons_append] at later ⊢
            rw [unspaced.atomized_append_blank hcloses (hblank w List.mem_cons_self), later]
      rw [List.flatMap_cons, List.append_assoc,
        Text.atomized_append_blanks (h.gaps a List.mem_cons_self), first]
      show Atomized.mk (⟨a.gap ++ [], a.text⟩ :: as) [] = _
      rw [List.append_nil]

/-! ## §3. Runs of atoms that join. -/

/-- The text of an item: a run of atoms with the gaps between them. -/
def runText : List Atom → Text
  | [] => []
  | a :: as => a.text ++ as.flatMap fun b => b.gap ++ b.text

namespace Text

/-- **ITEMS ARE THE RUNS OF ATOMS**, where these are parted by nothing that joins them. -/
theorem map_text_joinAtoms_flatten {runs : List (List Atom)} (hne : [] ∉ runs)
    (hruns : ∀ run ∈ runs, run.IsChain fun a b => continues a.text b.text = true)
    (hends : runs.IsChain fun run next =>
      ∃ ha hb, continues (run.getLast ha).text (next.head hb).text = false) :
    (joinAtoms runs.flatten).map Atom.text = runs.map runText := by
  induction runs with
  | nil => rfl
  | cons run runs ih =>
      obtain ⟨hnext, hlater⟩ := List.isChain_cons.1 hends
      obtain ⟨hrun, hruns⟩ := List.forall_mem_cons.1 hruns
      have later := ih (List.not_mem_of_not_mem_cons hne) hruns hlater
      obtain ⟨a, as, rfl⟩ := List.exists_cons_of_ne_nil (List.ne_of_not_mem_cons hne).symm
      -- the atom behind a run is the first one of the next run
      have ends : ∀ b ∈ (a :: as).getLast?, ∀ c ∈ runs.flatten.head?,
          continues b.text c.text = false := by
        intro b hb c hc
        cases runs with
        | nil => exact nomatch hc
        | cons next runs =>
            obtain ⟨ha, hfirst, apart⟩ := hnext next rfl
            rw [List.flatten_cons, List.head?_append_of_ne_nil _ hfirst,
              List.head?_eq_some_head hfirst] at hc
            rw [List.getLast?_eq_some_getLast ha] at hb
            obtain rfl := Option.some.inj hb
            obtain rfl := Option.some.inj hc
            exact apart
      rw [List.flatten_cons, joinAtoms_append hrun ends, List.map_cons, List.map_cons, later]
      rfl

end Text

namespace Spaced

variable {a : Atom} {as run : List Atom}

/-- What is read in an item are the atoms of its run; the gap before the first one is gone. -/
theorem atomized_runText (h : Spaced (a :: as)) :
    Text.atomized (runText (a :: as)) = ⟨⟨[], a.text⟩ :: as, []⟩ := by
  have first : Spaced (⟨[], a.text⟩ :: as) := h.with_gap fun _ hc => absurd hc List.not_mem_nil
  exact first.atomized_concat

theorem atoms_runText (h : Spaced run) : Text.atoms (runText run) = run.map Atom.text := by
  unfold Text.atoms
  cases run with
  | nil =>
      show (Text.atomized []).atoms.map Atom.text = []
      rw [Text.atomized_nil]
      rfl
  | cons a as =>
      rw [h.atomized_runText]
      rfl

/-- An item is not divided again. -/
theorem adjacentItems_runText (h : Spaced run) (hne : run ≠ [])
    (hrun : run.IsChain fun a b => Text.continues a.text b.text = true) :
    Text.adjacentItems (runText run) = [runText run] := by
  obtain ⟨a, as, rfl⟩ := List.exists_cons_of_ne_nil hne
  have joined : ((a :: as).map Atom.text).IsChain fun t u => Text.continues t u = true :=
    (List.isChain_map Atom.text).2 hrun
  have item := Text.joinAtoms_of_continues (a := ⟨[], a.text⟩) joined
  unfold Text.adjacentItems
  rw [h.atomized_runText, item]
  rfl

end Spaced

/-! ## §4. What stands in no atom. -/

namespace Text

/-- The characters of a text with the byte offset of each, the first one at `start`. -/
def indexed (start : Nat) : Text → List (Nat × Char)
  | [] => []
  | c :: rest => (start, c) :: indexed (start + c.utf8Size) rest

/-- What is left of a text without the characters in some spans of bytes. -/
def without (t : Text) (spans : List (Nat × Nat)) : Text :=
  ((indexed 0 t).filter fun (offset, _) =>
    spans.all fun (first, last) => !(first ≤ offset && offset < last)).map Prod.snd

theorem indexed_append (start : Nat) (t u : Text) :
    indexed start (t ++ u) = indexed start t ++ indexed (start + t.byteLength) u := by
  induction t generalizing start with
  | nil => rfl
  | cons c t ih =>
      rw [List.cons_append, indexed, ih, indexed, byteLength_cons, Nat.add_assoc]
      rfl

/-- A character stands between the beginning and the end. -/
theorem offset_of_mem_indexed {start : Nat} {t : Text} {p : Nat × Char} (hp : p ∈ indexed start t) :
    start ≤ p.1 ∧ p.1 < start + t.byteLength := by
  induction t generalizing start with
  | nil => exact absurd hp List.not_mem_nil
  | cons c t ih =>
      have hpos := c.utf8Size_pos
      rw [byteLength_cons]
      rcases List.mem_cons.1 hp with rfl | hp
      · exact ⟨Nat.le_refl start, by omega⟩
      · obtain ⟨hfirst, hlast⟩ := ih hp
        exact ⟨by omega, by omega⟩

theorem mem_of_mem_indexed {start : Nat} {t : Text} {p : Nat × Char} (hp : p ∈ indexed start t) :
    p.2 ∈ t := by
  induction t generalizing start with
  | nil => exact absurd hp List.not_mem_nil
  | cons c t ih =>
      rcases List.mem_cons.1 hp with rfl | hp
      · exact List.mem_cons_self
      · exact List.mem_cons_of_mem c (ih hp)

/-- Atoms and gaps as a text, with what trails behind the last. -/
theorem eq_atoms_append_trailing (t : Text) :
    t = t.atomized.atoms.flatMap (fun a => a.gap ++ a.text) ++ t.atomized.trailing := by
  have whole := concat_ofUnits t.lexemes
  rw [concat_lexemes] at whole
  exact whole.symm

/-- A span has the bytes of its atom. -/
theorem map_bytesBetween_spans (front : Text) (as : List Atom) (trailing : Text) :
    (Atomized.spans front.byteLength as).map (fun span =>
        bytesBetween (front ++ (as.flatMap (fun a => a.gap ++ a.text) ++ trailing)) span.1 span.2)
      = as.map fun a => a.text.bytes := by
  induction as generalizing front with
  | nil => rfl
  | cons a as ih =>
      have later := ih (front ++ a.gap ++ a.text)
      rw [byteLength_append, byteLength_append] at later
      rw [Atomized.spans, List.map_cons, List.map_cons, List.flatMap_cons]
      refine congrArg₂ List.cons ?_ ?_
      · have slice := bytesBetween_append (front ++ a.gap) a.text
          (as.flatMap (fun b => b.gap ++ b.text) ++ trailing)
        rw [byteLength_append] at slice
        simpa only [List.append_assoc] using slice
      · simpa only [List.append_assoc] using later

/-- **BETWEEN THE ATOMS THERE ARE ONLY BLANKS.** -/
theorem isBlank_of_not_mem_spans {as : List Atom} {trailing : Text}
    (hgaps : ∀ a ∈ as, ∀ c ∈ a.gap, isBlank c = true)
    (htrailing : ∀ c ∈ trailing, isBlank c = true) {start : Nat} {p : Nat × Char}
    (hp : p ∈ indexed start (as.flatMap (fun a => a.gap ++ a.text) ++ trailing))
    (hout : ∀ span ∈ Atomized.spans start as, ¬ (span.1 ≤ p.1 ∧ p.1 < span.2)) :
    isBlank p.2 = true := by
  induction as generalizing start with
  | nil => exact htrailing p.2 (mem_of_mem_indexed hp)
  | cons a as ih =>
      obtain ⟨hgap, hgaps⟩ := List.forall_mem_cons.1 hgaps
      rw [Atomized.spans] at hout
      obtain ⟨hfirst, hout⟩ := List.forall_mem_cons.1 hout
      rw [List.flatMap_cons, List.append_assoc, List.append_assoc, indexed_append, indexed_append]
        at hp
      -- in the gap, in the atom, where its span is, or behind it
      rcases List.mem_append.1 hp with hp | hp
      · exact hgap p.2 (mem_of_mem_indexed hp)
      · rcases List.mem_append.1 hp with hp | hp
        · exact absurd (offset_of_mem_indexed hp) hfirst
        · exact ih hgaps hp hout

/-- The spans of a text have the bytes of its atoms. -/
theorem map_bytesBetween_atomSpans (t : Text) :
    t.atomSpans.map (fun span => t.bytesBetween span.1 span.2) = t.atoms.map bytes := by
  have slices := map_bytesBetween_spans [] t.atomized.atoms t.atomized.trailing
  rw [List.nil_append, ← t.eq_atoms_append_trailing] at slices
  unfold atoms
  rw [List.map_map]
  exact slices

/-- **WITHOUT ITS ATOMS A TEXT IS BLANK.** -/
theorem isBlank_of_mem_without_atomSpans {t : Text} {c : Char} (hc : c ∈ t.without t.atomSpans) :
    isBlank c = true := by
  obtain ⟨spaced, trailing⟩ := t.spaced_atomized
  obtain ⟨p, hp, rfl⟩ := List.mem_map.1 hc
  obtain ⟨hp, hout⟩ := List.mem_filter.1 hp
  rw [t.eq_atoms_append_trailing] at hp
  refine isBlank_of_not_mem_spans spaced.gaps trailing hp fun span hspan hin => ?_
  have outside := List.all_eq_true.1 hout span hspan
  simp [hin] at outside

/-! ## §5. Regrouping. -/

/-- The items of a text are runs of its atoms: each atom of a run continues the one before, and no
run continues the one before it. -/
theorem exists_runs_adjacentItems (t : Text) :
    ∃ runs : List (List Atom), t.atomized.atoms = runs.flatten ∧ t.adjacentItems = runs.map runText
      ∧ (∀ run ∈ runs, Spaced run ∧ run ≠ []
          ∧ run.IsChain fun a b => continues a.text b.text = true)
      ∧ runs.IsChain fun run next =>
          ∃ ha hb, continues (run.getLast ha).text (next.head hb).text = false := by
  have spaced := t.spaced_atomized.1
  generalize hruns : (t.atomized.atoms.splitBy fun a b => continues a.text b.text) = runs
  obtain ⟨flat, filled, joined, parted⟩ := List.splitBy_eq_iff.1 hruns
  rw [flat] at spaced
  refine ⟨runs, flat, ?_, fun run hrun => ⟨?_, ?_, joined run hrun⟩, parted⟩
  · unfold adjacentItems
    rw [flat]
    exact map_text_joinAtoms_flatten filled joined parted
  · exact spaced.of_run (List.infix_of_mem_flatten hrun)
  · rintro rfl
    exact filled hrun

/-- **ITEMS LOSE NOTHING OF THE ATOMS, AND ARE ITEMS AGAIN.**  All atoms of a text are in its items,
in their order, and only blanks stand between them.  No item is divided again, and nothing joins an
item to the next one. -/
theorem adjacentItems_regroup (t : Text) :
    t.adjacentItems.flatMap atoms = t.atoms
      ∧ (t.atomSpans.map (fun span => t.bytesBetween span.1 span.2) = t.atoms.map bytes
          ∧ (∀ a ∈ t.atoms, a.IsUnspaced) ∧ ∀ c ∈ t.without t.atomSpans, isBlank c = true)
      ∧ (∀ item ∈ t.adjacentItems, item.adjacentItems = [item])
      ∧ t.adjacentItems.IsChain fun item next =>
          ∃ a b, item.atoms.getLast? = some a ∧ next.atoms.head? = some b
            ∧ continues a b = false := by
  obtain ⟨runs, flat, items, hruns, parted⟩ := t.exists_runs_adjacentItems
  have read {run : List Atom} (hrun : run ∈ runs) : atoms (runText run) = run.map Atom.text :=
    (hruns run hrun).1.atoms_runText
  rw [items]
  refine ⟨?_, ⟨t.map_bytesBetween_atomSpans, ?_, fun c => isBlank_of_mem_without_atomSpans⟩, ?_, ?_⟩
  · calc (runs.map runText).flatMap atoms
        = runs.flatMap (List.map Atom.text) := by
          rw [List.flatMap_map]
          exact List.flatMap_congr fun run hrun => read hrun
      _ = t.atoms := by
          unfold atoms
          rw [flat, List.map_flatten, List.flatMap_def]
  · intro a ha
    obtain ⟨atom, hatom, rfl⟩ := List.mem_map.1 ha
    exact t.spaced_atomized.1.unspaced atom hatom
  · intro item hitem
    obtain ⟨run, hrun, rfl⟩ := List.mem_map.1 hitem
    obtain ⟨spaced, hne, joined⟩ := hruns run hrun
    exact spaced.adjacentItems_runText hne joined
  · -- the last atom of an item is that of its run, and the first one too
    refine (List.isChain_map runText).2 (parted.imp_of_mem_imp fun run next hrun hnext ends => ?_)
    obtain ⟨ha, hb, apart⟩ := ends
    refine ⟨_, _, ?_, ?_, apart⟩
    · rw [read hrun, List.getLast?_map, List.getLast?_eq_some_getLast ha]
      rfl
    · rw [read hnext, List.head?_map, List.head?_eq_some_head hb]
      rfl

end Text

end ClassOutline
