/-
  ClassOutline.Proofs.Checked.Cuts
  ────────────────────────────────
  **WHAT A RUN CUTS OUT OF A TEXT IT CAN CUT AGAIN.**

  A walk, a division at separators, a division into items and the search for an
  enclosure are runs over the same units.  Each of them answers for every text
  with fewer characters than a word counts.  Where a run over a text has
  answered, no run over its parts is stopped: pieces are pieces, items are items,
  and a walk that is begun anew where nothing is open tells the same.
-/
import ClassOutline.Proofs.Checked.Fits
import ClassOutline.Proofs.Nesting.Enclosures

namespace ClassOutline

/-! ## §1. Walks. -/

/-- The visits of a walk over a text. -/
def Checked.walk (t : Text) : Option (List Visit) := guarded t.fits t.walk

namespace Text

/-- **A WALK TILES ITS TEXT AND BEGINS ANEW AT TOP LEVEL.**  It answers for every text with fewer
characters than a word counts, and what it answers covers the text.  At every boundary where nothing
is open, it is the walk over the front followed by that over the rest, and stopped if one of these
is. -/
theorem visits_tile_and_begin_anew (t : Text) :
    (t.length < Nesting.countLimit → ∃ visits, Checked.walk t = some visits)
      ∧ (∀ visits, Checked.walk t = some visits → t.IsTiledBy visits)
      ∧ ∀ front rest n, Nesting.Boundary .closed t front rest n → n.isTopLevel = true →
          t = front ++ rest
            ∧ Checked.walk t = (Checked.walk front).bind fun visits =>
                (Checked.walk rest).map fun later =>
                  visits ++ later.map (Visit.shift front.byteLength) := by
  obtain ⟨tiled, anew⟩ := t.walk_tiles_and_begins_anew
  refine ⟨fun hshort => ⟨_, guarded_of_fits (fits_of_length hshort)⟩, fun visits h => ?_,
    fun front rest n h htop => ?_⟩
  · obtain ⟨-, rfl⟩ := guarded_eq_some_iff.1 h
    exact tiled
  · obtain ⟨divided, visits⟩ := anew front rest n h htop
    refine ⟨divided, ?_⟩
    unfold Checked.walk guarded
    rw [visits, fits_of_boundary h htop]
    cases front.fits with
    | false => rfl
    | true => cases rest.fits <;> rfl

/-- Four quotes in a row, the first of which closes a string and the others open one; in it a
quote is escaped. -/
theorem visits_begin_anew_between_strings :
    let front := "'é'".toList
    let rest := "'''\\'b'''".toList
    Nesting.Boundary .closed (front ++ rest) front rest .closed
      ∧ Checked.walk (front ++ rest)
        = some ([⟨0, 1, '\'', true⟩, ⟨1, 2, 'é', false⟩, ⟨3, 1, '\'', false⟩]
            ++ [⟨0, 3, '\'', true⟩, ⟨3, 2, '\\', false⟩, ⟨5, 1, 'b', false⟩,
              ⟨6, 3, '\'', false⟩].map (Visit.shift 4)) := by
  intro front rest
  have boundary : Nesting.Boundary .closed (front ++ rest) front rest .closed :=
    .unit (.unit (.unit (.start _ _)))
  have visits : Checked.walk front
        = some [⟨0, 1, '\'', true⟩, ⟨1, 2, 'é', false⟩, ⟨3, 1, '\'', false⟩]
      ∧ Checked.walk rest = some [⟨0, 3, '\'', true⟩, ⟨3, 2, '\\', false⟩, ⟨5, 1, 'b', false⟩,
          ⟨6, 3, '\'', false⟩] := by
    decide +kernel
  have anew := ((visits_tile_and_begin_anew (front ++ rest)).2.2 front rest .closed boundary rfl).2
  rw [visits.1, visits.2] at anew
  exact ⟨boundary, anew⟩

/-! ## §2. Pieces. -/

/-- Of a text that can be walked over, all pieces can be. -/
theorem fits_of_mem_splitTopLevel {sep : Char} (hsep : IsDivider sep) {t : Text}
    (h : t.fits = true) : ∀ piece ∈ t.splitTopLevel sep, piece.fits = true := by
  obtain ⟨ts, hts, rfl⟩ := exists_division hsep.1 t
  rw [hts.fits_intercalate hsep] at h
  rw [hts.splitTopLevel_intercalate hsep]
  exact List.forall_mem_map.2 fun u hu => fits_trim (List.all_eq_true.1 h u hu)

theorem fits_of_mem_commaItems {t : Text} (h : t.fits = true) :
    ∀ piece ∈ t.commaItems, piece.fits = true := fun piece hpiece =>
  fits_of_mem_splitTopLevel isDivider_comma h piece (List.mem_of_mem_filter hpiece)

/-- **PIECES ARE DIVIDED INTO THEMSELVES.**  A division answers for every text with fewer characters
than a word counts.  Where it answers, the pieces are trimmed, have no separator at top level, and
are answered when they are divided again; there is one more of them than there are separators at top
level; and joined by the separator they are divided into the same pieces.  This holds for every
separator but a quote or an opening bracket. -/
theorem pieces_split_again {sep : Char} (hsep : sep ∉ ['(', '[', '{', '\'', '"']) (t : Text) :
    (t.length < Nesting.countLimit → ∃ pieces, Checked.splitTopLevel sep t = some pieces)
      ∧ ∀ pieces, Checked.splitTopLevel sep t = some pieces →
        (∀ piece ∈ pieces, piece.trim = piece ∧ piece.hasTopLevel sep = false
            ∧ Checked.splitTopLevel sep piece = some [piece])
          ∧ pieces.length = (t.topLevelOffsets (· == sep)).length + 1
          ∧ Checked.splitTopLevel sep ([sep].intercalate pieces) = some pieces := by
  refine ⟨fun hshort => ⟨_, guarded_of_fits (fits_of_length hshort)⟩, fun pieces h => ?_⟩
  obtain ⟨hfits, rfl⟩ := guarded_eq_some_iff.1 h
  obtain ⟨stable, count, again⟩ := splitTopLevel_stable hsep t
  have divides := isDivider_of_not_mem hsep
  have piecesFit := fits_of_mem_splitTopLevel divides hfits
  refine ⟨fun piece hpiece => ?_, count, ?_⟩
  · obtain ⟨trimmed, none, alone⟩ := stable piece hpiece
    refine ⟨trimmed, none, ?_⟩
    unfold Checked.splitTopLevel
    rw [alone, guarded_of_fits (piecesFit piece hpiece)]
  · -- joined, the pieces are a row of texts that can be walked over
    obtain ⟨ts, hts, rfl⟩ := exists_division divides.1 t
    unfold Checked.splitTopLevel
    rw [again]
    refine guarded_of_fits ?_
    rw [hts.splitTopLevel_intercalate divides] at piecesFit ⊢
    rw [hts.map_trim.fits_intercalate divides]
    exact List.all_eq_true.2 piecesFit

/-- A closing bracket as separator, behind a group and in front of a string that never ends. -/
theorem pieces_split_again_at_closing_bracket :
    let t := "f(a) ) 'b) ".toList
    let pieces := ["f(a)".toList, "'b)".toList]
    Checked.splitTopLevel ')' t = some pieces ∧ (topLevelOffsets (· == ')') t).length = 1
      ∧ Checked.splitTopLevel ')' "'b)".toList = some ["'b)".toList]
      ∧ Checked.splitTopLevel ')' "f(a))'b)".toList = some pieces := by
  intro t pieces
  have divided : Checked.splitTopLevel ')' t = some pieces := by decide +kernel
  obtain ⟨-, stable⟩ := @pieces_split_again ')' (by decide) t
  obtain ⟨alone, count, again⟩ := stable pieces divided
  refine ⟨divided, Nat.succ.inj count.symm, ?_, again⟩
  exact (alone _ (List.mem_cons_of_mem _ List.mem_cons_self)).2.2

/-! ## §3. Items. -/

/-- Of a text that can be walked over, all atoms can be. -/
theorem fits_of_mem_atomized {t : Text} (h : t.fits = true) :
    ∀ a ∈ t.atomized.atoms, a.text.fits = true := by
  obtain ⟨spaced, trailing⟩ := t.spaced_atomized
  rw [t.eq_atoms_append_trailing] at h
  have concat := fits_of_append_blanks trailing h
  rw [spaced.fits_concat] at concat
  exact List.all_eq_true.1 concat

/-- A run of atoms that can be walked over one by one can be walked over. -/
theorem fits_runText {run : List Atom} (h : Spaced run) (hfits : ∀ a ∈ run, a.text.fits = true) :
    fits (runText run) = true := by
  cases run with
  | nil => exact fits_nil
  | cons a as =>
      have first : Spaced (⟨[], a.text⟩ :: as) := h.with_gap fun _ hc => absurd hc List.not_mem_nil
      show fits ((⟨[], a.text⟩ :: as).flatMap fun b => b.gap ++ b.text) = true
      rw [first.fits_concat]
      exact List.all_eq_true.2 (List.forall_mem_cons.2 (List.forall_mem_cons.1 hfits))

/-- So can all items of such a text. -/
theorem fits_of_mem_adjacentItems {t : Text} (h : t.fits = true) :
    ∀ item ∈ t.adjacentItems, item.fits = true := by
  obtain ⟨runs, flat, items, hruns, -⟩ := t.exists_runs_adjacentItems
  rw [items]
  refine List.forall_mem_map.2 fun run hrun => ?_
  refine fits_runText (hruns run hrun).1 fun a ha => fits_of_mem_atomized h a ?_
  rw [flat]
  exact List.mem_flatten.2 ⟨run, hrun, ha⟩

/-- **ITEMS ARE DIVIDED INTO THEMSELVES.**  A text with fewer characters than a word counts has an
answer.  Where there is one, the atoms of the items are answered too, and are those of the text;
without them the text is blank; each item is its only item again; and nothing joins an item to the
next one. -/
theorem items_regroup_again (t : Text) :
    (t.length < Nesting.countLimit → ∃ items, Checked.adjacentItems t = some items)
      ∧ ∀ items, Checked.adjacentItems t = some items →
        ((items.mapM Checked.atoms).map List.flatten = some t.atoms
            ∧ Checked.atoms t = some t.atoms)
          ∧ (t.atomSpans.map (fun span => t.bytesBetween span.1 span.2) = t.atoms.map bytes
            ∧ (∀ a ∈ t.atoms, a.IsUnspaced) ∧ ∀ c ∈ t.without t.atomSpans, isBlank c = true)
          ∧ (∀ item ∈ items, Checked.adjacentItems item = some [item])
          ∧ items.IsChain fun item next =>
              ∃ a b, item.atoms.getLast? = some a ∧ next.atoms.head? = some b
                ∧ continues a b = false := by
  refine ⟨fun hshort => ⟨_, guarded_of_fits (fits_of_length hshort)⟩, fun items h => ?_⟩
  obtain ⟨hfits, rfl⟩ := guarded_eq_some_iff.1 h
  obtain ⟨all, spans, alone, parted⟩ := t.adjacentItems_regroup
  have itemFits := fits_of_mem_adjacentItems hfits
  refine ⟨⟨?_, guarded_of_fits hfits⟩, spans, fun item hitem => ?_, parted⟩
  · have answered : t.adjacentItems.mapM Checked.atoms = some (t.adjacentItems.map atoms) :=
      mapM_of_forall_eq_some fun item hitem => guarded_of_fits (itemFits item hitem)
    rw [answered, Option.map_some, ← List.flatMap_def, all]
  · unfold Checked.adjacentItems
    rw [alone item hitem, guarded_of_fits (itemFits item hitem)]

/-- A group with a blank in it, a stray bracket, and a string that never ends. -/
theorem items_regroup_again_behind_stray :
    let t := "f(a b) + c  d) 'x y ".toList
    let item := "f(a b) + c".toList
    Checked.adjacentItems t = some [item, "d)".toList, "'x y ".toList]
      ∧ Checked.adjacentItems item = some [item]
      ∧ Checked.atoms t = some ["f(a b)".toList, ['+'], ['c'], "d)".toList, "'x y ".toList]
      ∧ ' ' ∈ without t (atomSpans t) ∧ isBlank ' ' = true := by
  intro t item
  have items : Checked.adjacentItems t = some [item, "d)".toList, "'x y ".toList] := by
    decide +kernel
  have outside : ' ' ∈ without t (atomSpans t) := by decide +kernel
  have atoms : atoms t = ["f(a b)".toList, ['+'], ['c'], "d)".toList, "'x y ".toList] := by
    decide +kernel
  obtain ⟨⟨-, all⟩, ⟨-, -, blank⟩, again, -⟩ := (items_regroup_again t).2 _ items
  rw [atoms] at all
  exact ⟨items, again item List.mem_cons_self, all, outside, blank ' ' outside⟩

/-! ## §4. Enclosures. -/

/-- The search for a group ends in the text, so it is not stopped in a short one. -/
theorem groupFits_of_length {t : Text} (h : t.length < Nesting.countLimit) :
    t.groupFits = true := by
  have part : t.readForGroup.length ≤ t.length := by
    unfold readForGroup
    cases hgroup : leadingGroup? t with
    | none => exact Nat.le_refl _
    | some found =>
        have whole := congrArg List.length (eq_of_leadingGroup? hgroup)
        rw [List.length_append] at whole
        show found.1.length ≤ _
        omega
  refine Nesting.readFits_of_length (fun m hm => ?_) (n := .closed) ?_
  · rw [Nesting.depthFits_of_lt hm]
    rfl
  · show 0 + _ < _
    omega

theorem enclosureFits_of_length (opener closer : Char) {t : Text}
    (h : t.length < Nesting.countLimit) : t.enclosureFits opener closer = true := by
  unfold enclosureFits
  rw [groupFits_of_length h, Bool.or_true]

/-- Nothing is added up in a single character that is taken for both delimiters. -/
theorem enclosure_of_single {c : Char} (hwide : 1 < c.utf8Size) :
    Checked.enclosure c c [c] = some .overlapping := by
  have wrapped : IsWrapped c c [c] ∧ _ := isWrapped_and_slice?_eq_none_iff.2 ⟨rfl, rfl, hwide⟩
  unfold Checked.enclosure
  have short : [c].length < Nesting.countLimit := by
    rw [List.length_singleton]
    decide
  rw [guarded_of_fits (enclosureFits_of_length c c short), enclosure_eq_slice, if_pos wrapped.1,
    wrapped.2]

/-- **DELIMITERS ENCLOSE EXACTLY WHAT STANDS BETWEEN THEM.**  A text with fewer characters than a
word counts has an answer, and any answer says whether the text is one group between the delimiters
and what is cut out between them.  The cut is out of range exactly for a character of several bytes
that is taken for both.  A closed text is enclosed by its brackets; two groups of the same brackets,
with whatever between them and in the second, enclose nothing. -/
theorem enclosure_between_delimiters (opener closer : Char) :
    (∀ t : Text, t.length < Nesting.countLimit → ∃ e, Checked.enclosure opener closer t = some e)
      ∧ (∀ t e, Checked.enclosure opener closer t = some e →
          e = if IsWrapped opener closer t then
              match slice? t opener.utf8Size (t.byteLength - closer.utf8Size) with
              | some inner => .around inner
              | none => .overlapping
            else .outside)
      ∧ (∀ t, Checked.enclosure opener closer t = some .overlapping
          ↔ t = [opener] ∧ closer = opener ∧ 1 < opener.utf8Size)
      ∧ (∀ t inner, Checked.enclosure opener closer t = some (.around inner) →
          t = opener :: (inner ++ [closer]))
      ∧ (BracketPair opener closer → ∀ inner : Text, inner.IsClosed →
          (∀ t, t = opener :: (inner ++ [closer]) →
              Checked.Answers t (Checked.enclosure opener closer t) (.around inner))
            ∧ ∀ t rest inner',
              t = opener :: (inner ++ closer :: (rest ++ opener :: (inner' ++ [closer]))) →
                Checked.Answers t (Checked.enclosure opener closer t) .outside) := by
  refine ⟨fun t hshort => ⟨_, guarded_of_fits (enclosureFits_of_length opener closer hshort)⟩,
    fun t e h => ?_, fun t => ⟨fun h => ?_, ?_⟩, fun t inner h => ?_, fun hpair inner hinner => ?_⟩
  · obtain ⟨-, rfl⟩ := guarded_eq_some_iff.1 h
    exact enclosure_eq_slice opener closer t
  · -- only a cut out of range leaves nothing between the delimiters
    obtain ⟨-, overlapping⟩ := guarded_eq_some_iff.1 h
    rw [enclosure_eq_slice] at overlapping
    refine isWrapped_and_slice?_eq_none_iff.1 ?_
    split at overlapping
    · next wrapped =>
      split at overlapping
      · cases overlapping
      · next outOfRange => exact ⟨wrapped, outOfRange⟩
    · cases overlapping
  · rintro ⟨rfl, rfl, hwide⟩
    exact enclosure_of_single hwide
  · obtain ⟨-, around⟩ := guarded_eq_some_iff.1 h
    refine (eq_of_enclosed? ?_).1
    unfold enclosed?
    rw [around]
  · have found := enclosed?_of_brackets hpair hinner.keeps_inside
    refine ⟨?_, ?_⟩
    · rintro t rfl
      have around : enclosure opener closer (opener :: (inner ++ [closer])) = .around inner := by
        unfold enclosed? at found
        split at found
        · next heq => rw [heq, Option.some.inj found]
        · cases found
      rw [← around]
      exact Checked.answers_guarded (enclosureFits_of_length opener closer) _
    · rintro t rest inner' rfl
      rw [← enclosure_of_closed_append hpair hinner
        (List.append_ne_nil_of_right_ne_nil rest (List.cons_ne_nil opener (inner' ++ [closer])))]
      exact Checked.answers_guarded (enclosureFits_of_length opener closer) _

/-- Brackets of all kinds and a closing one in a string, and the same text with a second group
behind it. -/
theorem enclosure_between_delimiters_of_nested :
    let inner := "(1, ']é'), \x7b[]\x7d".toList
    let t := '[' :: (inner ++ [']'])
    Checked.enclosure '[' ']' t = some (.around inner)
      ∧ Checked.enclosure '[' ']' ("[(1, ']é'), \x7b[]\x7d] + 'a' [(]".toList) = some .outside := by
  intro inner t
  obtain ⟨-, -, -, -, brackets⟩ := enclosure_between_delimiters '[' ']'
  obtain ⟨found, apart⟩ := brackets (.inr (.inl ⟨rfl, rfl⟩)) inner (by decide +kernel)
  exact ⟨(found t rfl).2 (by decide), (apart _ " + 'a' ".toList ['('] rfl).2 (by decide)⟩

/-- A character of two bytes is long enough for two delimiters, but is only one. -/
theorem overlapping_of_two_bytes_wide :
    Checked.enclosure 'é' 'é' ['é'] = some .overlapping := enclosure_of_single (by decide)

end Text

end ClassOutline
