/-
  ClassOutline.Proofs.Nesting.Pieces
  ────────────────────────────────
  **A TEXT IS THE ROW OF ITS PIECES, AND A ROW IS DIVIDED INTO THEM AGAIN.**

  Pieces make up a *division* (`IsDivision`) if the separator is nowhere at top
  level in any of them and all but the last close what they open; the last one
  may end inside a string or a group.  Then the separators that are put between
  them are the only ones at top level, so the row is cut where it was joined
  (`IsDivision.cutUnits_intercalate`).

  Every text is such a row (`exists_division`), and trimming its pieces leaves a
  division (`IsDivision.map_trim`).  That a text may be divided and joined again
  without an end follows from these two (`splitTopLevel_stable`), and so does that
  the blanks at its edges are in none of its pieces (`splitTopLevel_trim`).
-/
import ClassOutline.Proofs.Nesting.Tails

namespace ClassOutline

/-! ## §1. Separators. -/

/-- A character that can stand between pieces: it is no quote, and no bracket that opens. -/
def IsDivider (sep : Char) : Prop := ¬ Quote.IsMark sep ∧ Nesting.closed.afterBracket sep = .closed

/-- Any character divides that is neither a quote nor an opening bracket, a closing bracket too. -/
theorem isDivider_of_not_mem {sep : Char} (h : sep ∉ ['(', '[', '{', '\'', '"']) :
    IsDivider sep := by
  simp only [List.mem_cons, List.not_mem_nil, or_false, not_or] at h
  obtain ⟨hparen, hbracket, hbrace, hsingle, hdouble⟩ := h
  refine ⟨fun hmark => hmark.elim hsingle hdouble, ?_⟩
  -- a closing bracket finds no open one, and closes nothing
  unfold Nesting.afterBracket
  rw [if_neg hparen, if_neg hbracket, if_neg hbrace]
  split
  · rfl
  · split
    · rfl
    · split <;> rfl

theorem isDivider_comma : IsDivider ',' := isDivider_of_not_mem (by decide)

theorem isDivider_colon : IsDivider ':' := isDivider_of_not_mem (by decide)

namespace Text

variable {sep : Char}

/-- Behind a text that closes what it opens a separator is a unit at top level, and what follows it
is read as a text of its own. -/
theorem lexemes_append_divider (hsep : IsDivider sep) {t : Text}
    (hcloses : Nesting.closed.afterText t = .closed) (rest : Text) :
    lexemes (t ++ sep :: rest) = t.lexemes ++ ⟨sep, [], .closed⟩ :: rest.lexemes := by
  have units := (Nesting.lexemes_append_cons hsep.1 (n := .closed) (a := t)
    (by rw [hcloses]; rfl) rest).1
  rw [hcloses, Nesting.lexemes_cons_of_not_isMark rfl hsep.1, hsep.2] at units
  exact units

/-- The separator is cut at. -/
theorem matchesTop_divider (sep : Char) :
    Lexeme.matchesTop (· == sep) ⟨sep, [], .closed⟩ = true := beq_self_eq_true sep

/-! ## §2. The first separator of a text. -/

/-- In front of the first separator there is none, and nothing is left open.  Separators may be all
characters of a kind, such as blanks. -/
theorem exists_append_of_mem_lexemes {p : Char → Bool} (hp : ∀ c, p c = true → ¬ Quote.IsMark c)
    {n : Nesting} {t : Text} (h : ∃ l ∈ n.lexemes t, l.matchesTop p = true) :
    ∃ front w rest, p w = true ∧ t = front ++ w :: rest ∧ n.afterText front = .closed
      ∧ ∀ l ∈ n.lexemes front, l.matchesTop p = false := by
  -- along the units of `t`, up to the first separator
  fun_induction Nesting.lexemes n t with
  | case1 n =>
      obtain ⟨l, hl, -⟩ := h
      exact absurd hl List.not_mem_nil
  | case2 n c rest ih =>
      by_cases hfirst : Lexeme.matchesTop p ⟨c, rest.take (n.advance c rest).2, n⟩ = true
      · obtain ⟨htop, hhead⟩ := Bool.and_eq_true_iff.1 hfirst
        refine ⟨[], c, rest, hhead, rfl, ?_, fun l hl => ?_⟩
        · rw [Nesting.afterText_nil]
          exact Nesting.eq_closed htop
        · rw [Nesting.lexemes_nil] at hl
          exact absurd hl List.not_mem_nil
      · obtain ⟨l, hl, hmatch⟩ := h
        have hlater : l ∈ (n.advance c rest).1.lexemes (rest.drop (n.advance c rest).2) := by
          refine (List.mem_cons.1 hl).resolve_left ?_
          rintro rfl
          exact hfirst hmatch
        obtain ⟨front, w, after, hw, hsplit, hcloses, hnone⟩ := ih ⟨l, hlater, hmatch⟩
        generalize hk : (n.advance c rest).2 = k at *
        -- the unit is whole in front of the separator, and is read alike there
        have hlength : (rest.take k).length = k := by
          have hpos := congrArg List.length hsplit
          simp only [List.length_drop, List.length_append, List.length_cons] at hpos
          exact List.length_take_of_le (by omega)
        have whole : rest = (rest.take k ++ front) ++ w :: after := by
          rw [List.append_assoc, ← hsplit, List.take_append_drop]
        have same : n.advance c (rest.take k ++ front) = n.advance c rest := by
          conv => rhs; rw [whole]
          exact (Nesting.advance_append_cons (hp w hw) n c _ after).symm
        refine ⟨c :: (rest.take k ++ front), w, after, hw, congrArg (c :: ·) whole, ?_, ?_⟩
        · rw [Nesting.afterText_cons, same, hk, List.drop_left' hlength]
          exact hcloses
        · rw [Nesting.lexemes_cons, same, hk, List.drop_left' hlength]
          refine List.forall_mem_cons.2 ⟨?_, hnone⟩
          exact Bool.eq_false_iff.2 hfirst

/-! ## §3. Divisions. -/

/-- Pieces as a separator leaves them: it is nowhere at top level in them, and all but the last
close what they open. -/
inductive IsDivision (sep : Char) : List Text → Prop where
  | last {t : Text} (none : t.hasTopLevel sep = false) : IsDivision sep [t]
  | cons {t : Text} {ts : List Text} (none : t.hasTopLevel sep = false)
      (closes : Nesting.closed.afterText t = .closed) (later : IsDivision sep ts) :
      IsDivision sep (t :: ts)

theorem intercalate_cons_of_ne_nil {ts : List Text} (hne : ts ≠ []) (t : Text) :
    [sep].intercalate (t :: ts) = t ++ sep :: [sep].intercalate ts := by
  obtain ⟨u, us, rfl⟩ := List.exists_cons_of_ne_nil hne
  rw [List.intercalate_cons_cons, List.append_assoc]
  rfl

/-- **EVERY TEXT IS A ROW OF PIECES.** -/
theorem exists_division (hmark : ¬ Quote.IsMark sep) (t : Text) :
    ∃ ts, IsDivision sep ts ∧ t = [sep].intercalate ts := by
  -- by the length of the text: a shorter one begins behind its first separator
  induction hn : t.length using Nat.strongRecOn generalizing t with
  | ind n ih =>
      by_cases h : t.hasTopLevel sep = true
      · have marks : ∀ c, (c == sep) = true → ¬ Quote.IsMark c := fun c hc => eq_of_beq hc ▸ hmark
        obtain ⟨front, w, rest, hw, rfl, hcloses, hnone⟩ :=
          exists_append_of_mem_lexemes marks (List.any_eq_true.1 h)
        obtain rfl : sep = w := (eq_of_beq hw).symm
        obtain ⟨ts, hts, rfl⟩ := ih rest.length
          (by simp only [List.length_append, List.length_cons] at hn; omega) rest rfl
        have none : front.hasTopLevel sep = false :=
          List.any_eq_false.2 fun l hl => by rw [hnone l hl]; exact Bool.false_ne_true
        refine ⟨front :: ts, .cons none hcloses hts, ?_⟩
        rw [intercalate_cons_of_ne_nil]
        rintro rfl
        cases hts
      · refine ⟨[t], .last (Bool.eq_false_iff.2 h), ?_⟩
        rw [List.intercalate_singleton]

namespace IsDivision

variable {ts : List Text}

theorem ne_nil (h : IsDivision sep ts) : ts ≠ [] := by
  rintro rfl
  cases h

theorem hasTopLevel_of_mem (h : IsDivision sep ts) {t : Text} (ht : t ∈ ts) :
    t.hasTopLevel sep = false := by
  induction h with
  | last none => rwa [List.mem_singleton.1 ht]
  | cons none _ _ ih =>
      rcases List.mem_cons.1 ht with rfl | ht
      · exact none
      · exact ih ht

/-- Trimmed pieces are pieces. -/
theorem map_trim (h : IsDivision sep ts) : IsDivision sep (ts.map trim) := by
  induction h with
  | last none => exact .last (hasTopLevel_trim none)
  | cons none closes _ ih =>
      refine .cons (hasTopLevel_trim none) ?_ ih
      rw [Nesting.afterText_trim, closes]

/-- Blanks in front of a row stand in front of its first piece. -/
theorem exists_trimStart (hblank : isBlank sep = false) (h : IsDivision sep ts) :
    ∃ us, IsDivision sep us ∧ [sep].intercalate us = trimStart ([sep].intercalate ts)
      ∧ us.map trim = ts.map trim := by
  have absent {t : Text} (none : t.hasTopLevel sep = false) : t.trimStart.hasTopLevel sep = false :=
    hasTopLevel_eq_false_of_suffix (lexemes_trimStart_suffix t) none
  cases h with
  | @last t none =>
      refine ⟨[t.trimStart], .last (absent none), ?_, ?_⟩
      · rw [List.intercalate_singleton, List.intercalate_singleton]
      · rw [List.map_singleton, List.map_singleton, trim_trimStart]
  | @cons t ts none closes later =>
      refine ⟨t.trimStart :: ts, .cons (absent none) ?_ later, ?_, ?_⟩
      · rw [Nesting.afterText_trimStart, closes]
      · rw [intercalate_cons_of_ne_nil later.ne_nil, intercalate_cons_of_ne_nil later.ne_nil,
          trimStart_append_cons hblank]
      · rw [List.map_cons, List.map_cons, trim_trimStart]

/-- Blanks behind a row stand behind its last piece. -/
theorem exists_trimEnd (hblank : isBlank sep = false) (h : IsDivision sep ts) :
    ∃ us, IsDivision sep us ∧ [sep].intercalate us = trimEnd ([sep].intercalate ts)
      ∧ us.map trim = ts.map trim := by
  induction h with
  | @last t none =>
      refine ⟨[t.trimEnd], .last (hasTopLevel_trimEnd none), ?_, ?_⟩
      · rw [List.intercalate_singleton, List.intercalate_singleton]
      · rw [List.map_singleton, List.map_singleton, trim_trimEnd]
  | @cons t ts none closes later ih =>
      obtain ⟨us, hus, text, same⟩ := ih
      refine ⟨t :: us, .cons none closes hus, ?_, ?_⟩
      · rw [intercalate_cons_of_ne_nil hus.ne_nil, intercalate_cons_of_ne_nil later.ne_nil,
          trimEnd_append_cons hblank, text]
      · rw [List.map_cons, List.map_cons, same]

/-- **A ROW IS CUT WHERE IT WAS JOINED.** -/
theorem cutUnits_intercalate (hsep : IsDivider sep) (h : IsDivision sep ts) :
    (cutUnits sep (lexemes ([sep].intercalate ts))).1
      :: (cutUnits sep (lexemes ([sep].intercalate ts))).2 = ts := by
  induction h with
  | last none =>
      rw [List.intercalate_singleton,
        cutUnits_of_forall fun l hl => matchesTop_of_hasTopLevel_eq_false none hl, concat_lexemes]
  | cons none closes later ih =>
      rw [intercalate_cons_of_ne_nil later.ne_nil, lexemes_append_divider hsep closes,
        cutUnits_append fun l hl => matchesTop_of_hasTopLevel_eq_false none hl, concat_lexemes,
        cutUnits, if_pos (matchesTop_divider sep), List.append_nil]
      exact congrArg _ ih

theorem splitTopLevel_intercalate (hsep : IsDivider sep) (h : IsDivision sep ts) :
    splitTopLevel sep ([sep].intercalate ts) = ts.map trim := by
  unfold splitTopLevel
  rw [h.cutUnits_intercalate hsep]

/-- A row has one separator at top level in front of each piece but the first. -/
theorem countP_intercalate (hsep : IsDivider sep) (h : IsDivision sep ts) :
    (lexemes ([sep].intercalate ts)).countP (Lexeme.matchesTop (· == sep)) + 1 = ts.length := by
  have absent {t : Text} (none : t.hasTopLevel sep = false) :
      t.lexemes.countP (Lexeme.matchesTop (· == sep)) = 0 :=
    List.countP_eq_zero.2 (List.any_eq_false.1 none)
  induction h with
  | last none => rw [List.intercalate_singleton, absent none, List.length_singleton]
  | cons none closes later ih =>
      rw [intercalate_cons_of_ne_nil later.ne_nil, lexemes_append_divider hsep closes,
        List.countP_append, absent none, List.countP_cons_of_pos (matchesTop_divider sep),
        List.length_cons]
      omega

end IsDivision

/-- The separator is nowhere at top level in a piece. -/
theorem hasTopLevel_of_mem_splitTopLevel (hsep : IsDivider sep) {t piece : Text}
    (h : piece ∈ t.splitTopLevel sep) : piece.hasTopLevel sep = false := by
  obtain ⟨ts, hts, rfl⟩ := exists_division hsep.1 t
  rw [hts.splitTopLevel_intercalate hsep] at h
  exact hts.map_trim.hasTopLevel_of_mem h

/-- **THE PIECES AND THE SEPARATORS BETWEEN THEM ARE THE TEXT.** -/
theorem intercalate_cutUnits (hsep : IsDivider sep) (t : Text) :
    [sep].intercalate ((cutUnits sep t.lexemes).1 :: (cutUnits sep t.lexemes).2) = t := by
  obtain ⟨ts, hts, rfl⟩ := exists_division hsep.1 t
  rw [hts.cutUnits_intercalate hsep]

/-! ## §4. Blanks at the edges. -/

/-- **TRIMMING A TEXT CHANGES NONE OF ITS PIECES**, unless blanks are what divides it. -/
theorem splitTopLevel_trim (hsep : IsDivider sep) (hblank : isBlank sep = false) (t : Text) :
    splitTopLevel sep t.trim = splitTopLevel sep t := by
  obtain ⟨ts, hts, rfl⟩ := exists_division hsep.1 t
  obtain ⟨us, hus, front, same⟩ := hts.exists_trimStart hblank
  obtain ⟨vs, hvs, back, same'⟩ := hus.exists_trimEnd hblank
  rw [trim, ← front, ← back, hvs.splitTopLevel_intercalate hsep, same', same,
    hts.splitTopLevel_intercalate hsep]

theorem length_splitTopLevel (hsep : IsDivider sep) (t : Text) :
    (splitTopLevel sep t).length = t.lexemes.countP (Lexeme.matchesTop (· == sep)) + 1 := by
  obtain ⟨ts, hts, rfl⟩ := exists_division hsep.1 t
  rw [hts.splitTopLevel_intercalate hsep, hts.countP_intercalate hsep, List.length_map]

/-- Trimming takes no separator from top level. -/
theorem hasTopLevel_of_trim (hsep : IsDivider sep) (hblank : isBlank sep = false) {t : Text}
    (h : t.hasTopLevel sep = true) : t.trim.hasTopLevel sep = true := by
  refine Bool.of_not_eq_false fun none => ?_
  -- a text without separators is one piece, so `t` would be one piece too
  have one := length_splitTopLevel hsep t
  rw [← splitTopLevel_trim hsep hblank, splitTopLevel_of_hasTopLevel_eq_false none,
    List.length_singleton] at one
  have absent := List.countP_eq_zero.1 (Nat.succ.inj one).symm
  obtain ⟨l, hl, hmatch⟩ := List.any_eq_true.1 h
  exact absent l hl hmatch

/-! ## §5. Dividing and joining. -/

/-- The units at their byte offsets are the units. -/
theorem map_snd_located (start : Nat) (ls : List Lexeme) :
    (Lexeme.located start ls).map Prod.snd = ls := by
  induction ls generalizing start with
  | nil => rfl
  | cons l ls ih => exact congrArg (l :: ·) (ih _)

/-- There is one byte offset for each unit that is found. -/
theorem length_topLevelOffsets (p : Char → Bool) (t : Text) :
    (t.topLevelOffsets p).length = t.lexemes.countP (Lexeme.matchesTop p) := by
  calc (t.topLevelOffsets p).length
      = (Lexeme.located 0 t.lexemes).countP (Lexeme.matchesTop p ∘ Prod.snd) := by
        unfold topLevelOffsets
        rw [List.length_map, List.countP_eq_length_filter]
        rfl
    _ = t.lexemes.countP (Lexeme.matchesTop p) := by
        rw [← List.countP_map, map_snd_located]

/-- **DIVIDING AT TOP LEVEL IS STABLE AND CAN BE UNDONE.**  The pieces of a text are trimmed and not
divided again.  There is one more of them than there are separators at top level.  Joined by the
separator they are divided into the same pieces.  This holds for every separator but a quote or
an opening bracket, also for a blank, a backslash or a closing bracket. -/
theorem splitTopLevel_stable (hsep : sep ∉ ['(', '[', '{', '\'', '"']) (t : Text) :
    (∀ piece ∈ t.splitTopLevel sep, piece.trim = piece ∧ piece.hasTopLevel sep = false
        ∧ piece.splitTopLevel sep = [piece])
      ∧ (t.splitTopLevel sep).length = (t.topLevelOffsets (· == sep)).length + 1
      ∧ splitTopLevel sep ([sep].intercalate (t.splitTopLevel sep)) = t.splitTopLevel sep := by
  have divides := isDivider_of_not_mem hsep
  obtain ⟨ts, hts, rfl⟩ := exists_division divides.1 t
  have trimmed := hts.map_trim
  rw [length_topLevelOffsets, hts.countP_intercalate divides,
    hts.splitTopLevel_intercalate divides, trimmed.splitTopLevel_intercalate divides]
  refine ⟨fun piece hpiece => ?_, List.length_map _, ?_⟩
  · have none := trimmed.hasTopLevel_of_mem hpiece
    obtain ⟨u, -, rfl⟩ := List.mem_map.1 hpiece
    refine ⟨trim_trim u, none, ?_⟩
    rw [splitTopLevel_of_hasTopLevel_eq_false none, trim_trim]
  · rw [List.map_map]
    exact List.map_congr_left fun u _ => trim_trim u

end Text

end ClassOutline
