/-
  ClassOutline.Proofs.Nesting.Tails
  ────────────────────────────────
  **WHAT IS LEFT OF A TEXT BEHIND A CUT IS READ AS IT WAS BEFORE.**

  Where nothing is open a text can be cut, and what stands behind the cut, read
  as a text of its own, has the units that it had in the whole: they are the
  last ones, `lexemes s <:+ lexemes t`.  All that a header is read with cuts
  there: the word in front is passed over (`lexemes_dropWhile_suffix`), a group
  (`lexemes_suffix_of_leadingGroup?`), or everything up to a top-level character
  (`lexemes_suffix_of_breakTopLevel?`).

  So a character that is nowhere at top level in a text is nowhere at top level
  in what is left of it (`hasTopLevel_eq_false_of_suffix`).
-/
import ClassOutline.Proofs.Nesting.Cuts
import ClassOutline.Proofs.Text.Plain

namespace ClassOutline

/-! ## §1. Units behind a cut. -/

/-- Where nothing is open a text is read as one of its own. -/
theorem Nesting.lexemes_of_isTopLevel {n : Nesting} (h : n.isTopLevel = true) (t : Text) :
    n.lexemes t = t.lexemes := by
  rw [eq_closed h]
  rfl

namespace Text

/-- Plain characters in front are passed over. -/
theorem lexemes_suffix_append {front : Text} (h : ∀ c ∈ front, Nesting.IsPlain c) (t : Text) :
    t.lexemes <:+ lexemes (front ++ t) := by
  induction front with
  | nil => exact List.suffix_rfl
  | cons c front ih =>
      rw [List.cons_append, lexemes_cons_of_isPlain (h c List.mem_cons_self)]
      exact (ih fun d hd => h d (List.mem_cons_of_mem c hd)).trans (List.suffix_cons _ _)

theorem lexemes_dropWhile_suffix {p : Char → Bool} (hp : ∀ c, p c = true → Nesting.IsPlain c)
    (t : Text) : lexemes (t.dropWhile p) <:+ t.lexemes := by
  have front : ∀ c ∈ t.takeWhile p, Nesting.IsPlain c := fun c hc =>
    hp c (List.all_eq_true.1 List.all_takeWhile c hc)
  have passed := lexemes_suffix_append front (t.dropWhile p)
  rwa [List.takeWhile_append_dropWhile] at passed

theorem lexemes_trimStart_suffix (t : Text) : t.trimStart.lexemes <:+ t.lexemes :=
  lexemes_dropWhile_suffix (fun _ => isPlain_of_isBlank) t

/-- What a top-level character is found in front of, with it. -/
theorem lexemes_suffix_of_breakUnits? {p : Char → Bool} {n : Nesting} {t : Text} {b : Break}
    (h : breakUnits? p (n.lexemes t) = some b) : lexemes (b.char :: b.after) <:+ n.lexemes t := by
  -- along the units of `t`, up to the one that is found
  fun_induction Nesting.lexemes n t generalizing b with
  | case1 n => cases h
  | case2 n c rest ih =>
      rw [breakUnits?] at h
      split at h
      · next found =>
        obtain rfl := Option.some.inj h
        have htop : n.isTopLevel = true := (Bool.and_eq_true_iff.1 found).1
        -- nothing is passed over, and the text is read as one of its own
        refine ⟨[], ?_⟩
        show lexemes (c :: (rest.take _ ++ Lexeme.concat _)) = _
        rw [Nesting.concat_lexemes, List.take_append_drop, ← Nesting.lexemes_of_isTopLevel htop,
          Nesting.lexemes_cons]
      · obtain ⟨b', hb, rfl⟩ := Option.map_eq_some_iff.1 h
        exact (ih hb).trans (List.suffix_cons _ _)

theorem lexemes_suffix_of_breakTopLevel? {p : Char → Bool} {t : Text} {b : Break}
    (h : breakTopLevel? p t = some b) : lexemes (b.char :: b.after) <:+ t.lexemes :=
  lexemes_suffix_of_breakUnits? h

/-- What follows a group. -/
theorem lexemes_suffix_of_groupFrom? {n : Nesting} {t group after : Text}
    (h : groupFrom? n t = some (group, after)) : after.lexemes <:+ n.lexemes t := by
  -- along the units of `t`, up to the one behind which nothing is open
  fun_induction groupFrom? n t generalizing group with
  | case1 n => cases h
  | case2 n c rest htop =>
      obtain ⟨-, rfl⟩ := Prod.mk.inj (Option.some.inj h)
      rw [Nesting.lexemes_cons, Nesting.lexemes_of_isTopLevel htop]
      exact List.suffix_cons _ _
  | case3 n c rest _ ih =>
      obtain ⟨⟨group', after'⟩, hgroup, heq⟩ := Option.map_eq_some_iff.1 h
      obtain ⟨-, rfl⟩ := Prod.mk.inj heq
      rw [Nesting.lexemes_cons]
      exact (ih hgroup).trans (List.suffix_cons _ _)

theorem lexemes_suffix_of_leadingGroup? {t group after : Text}
    (h : leadingGroup? t = some (group, after)) : after.lexemes <:+ t.lexemes :=
  lexemes_suffix_of_groupFrom? h

/-! ## §2. What is nowhere at top level. -/

section TopLevel

variable {s t : Text} {c : Char}

theorem matchesTop_of_hasTopLevel_eq_false (h : t.hasTopLevel c = false) {l : Lexeme}
    (hl : l ∈ t.lexemes) : l.matchesTop (· == c) = false :=
  Bool.eq_false_iff.2 (List.any_eq_false.1 h l hl)

/-- **What is nowhere at top level in a text is nowhere at top level behind a cut.** -/
theorem hasTopLevel_eq_false_of_suffix (hsuffix : s.lexemes <:+ t.lexemes)
    (h : t.hasTopLevel c = false) : s.hasTopLevel c = false :=
  List.any_eq_false.2 fun l hl => List.any_eq_false.1 h l (hsuffix.subset hl)

/-- Each unit of a text begins as before where more is written behind it.  Only the last one may
become longer: it takes the next character if it is a lone backslash. -/
theorem exists_mem_lexemes_append {w : Char} (hw : ¬ Quote.IsMark w) {n : Nesting} {a : Text}
    (rest : Text) : ∀ l ∈ n.lexemes a,
      ∃ l' ∈ n.lexemes (a ++ w :: rest), l'.head = l.head ∧ l'.before = l.before := by
  -- along the units of `a`
  fun_induction Nesting.lexemes n a with
  | case1 n => exact fun l hl => absurd hl List.not_mem_nil
  | case2 n d a ih =>
      intro l hl
      rw [List.cons_append, Nesting.lexemes_cons, Nesting.advance_append_cons hw]
      rcases List.mem_cons.1 hl with rfl | hl
      · exact ⟨_, List.mem_cons_self, rfl, rfl⟩
      · rcases Nesting.advance_within n d a with hle | ⟨rfl, -⟩
        · rw [List.drop_append_of_le_length hle]
          obtain ⟨l', hl', like⟩ := ih l hl
          exact ⟨l', List.mem_cons_of_mem _ hl', like⟩
        · -- behind a backslash at the end there is no unit
          rw [List.drop_nil, Nesting.lexemes_nil] at hl
          exact absurd hl List.not_mem_nil

theorem hasTopLevel_trimEnd (h : t.hasTopLevel c = false) : t.trimEnd.hasTopLevel c = false := by
  obtain ⟨blanks, hblank, hsplit⟩ := t.exists_eq_trimEnd_append
  cases blanks with
  | nil =>
      rw [List.append_nil] at hsplit
      rwa [← hsplit]
  | cons w blanks =>
      have hw := Nesting.not_isMark_of_isBlank (hblank w List.mem_cons_self)
      refine List.any_eq_false.2 fun l hl => ?_
      obtain ⟨l', hl', hhead, hbefore⟩ := exists_mem_lexemes_append hw blanks l hl
      have hl' : l' ∈ t.lexemes := by
        rw [hsplit]
        exact hl'
      have notFound := List.any_eq_false.1 h l' hl'
      unfold Lexeme.matchesTop Lexeme.isTopLevel at notFound ⊢
      rwa [hhead, hbefore] at notFound

/-- Trimming brings nothing to top level. -/
theorem hasTopLevel_trim (h : t.hasTopLevel c = false) : t.trim.hasTopLevel c = false :=
  hasTopLevel_trimEnd (hasTopLevel_eq_false_of_suffix (lexemes_trimStart_suffix t) h)

/-- A text is one piece if the separator is nowhere at top level. -/
theorem splitTopLevel_of_hasTopLevel_eq_false (h : t.hasTopLevel c = false) :
    t.splitTopLevel c = [t.trim] := by
  unfold splitTopLevel
  rw [cutUnits_of_forall fun l hl => matchesTop_of_hasTopLevel_eq_false h hl, concat_lexemes]
  rfl

end TopLevel

end Text

end ClassOutline
