/-
  ClassOutline.Proofs.Checked.Parts
  ────────────────────────────────
  **THE FIRST WALK OVER AN EXPRESSION DECIDES WHETHER IT IS STOPPED.**

  What is cut out of a text is read as part of it, with the same brackets around it
  or fewer.  So if the text can be walked over, then so can what follows a cut at top
  level (`fits_of_suffix`), what stands in front of one (`walkFits_of_append_cons`),
  and what brackets enclose (`fits_of_enclosed?`).

  All walks that classifying an expression makes are over such parts, level by
  level, and so are those that reading parameters makes.  One walk over the whole
  decides for all of them (`classifyFits_eq`, `parametersFit_eq`).
-/
import ClassOutline.Checked.Expressions
import ClassOutline.Proofs.Checked.Cuts
import ClassOutline.Proofs.Nesting.SignBytes
import ClassOutline.Proofs.Nesting.WholeEntries

namespace ClassOutline

/-! ## §1. Parts of a text. -/

namespace Nesting

/-- What is open behind a text is what its last unit leaves open. -/
theorem afterText_of_getLast? {n : Nesting} {t : Text} {l : Lexeme}
    (h : (n.lexemes t).getLast? = some l) : n.afterText t = (l.before.advance l.head l.tail).1 := by
  -- along the units of `t`
  fun_induction lexemes n t with
  | case1 n => cases h
  | case2 n c rest ih =>
      rw [afterText_cons]
      cases hdrop : rest.drop (n.advance c rest).2 with
      | nil =>
          have whole : rest.take (n.advance c rest).2 = rest :=
            List.take_of_length_le (List.drop_eq_nil_iff.1 hdrop)
          rw [hdrop, lexemes_nil, whole] at h
          obtain rfl : ⟨c, rest, n⟩ = l := Option.some.inj h
          rw [afterText_nil]
      | cons d behind =>
          rw [hdrop] at h ih
          refine ih ?_
          rw [lexemes_cons] at h ⊢
          rwa [List.getLast?_cons_cons] at h

end Nesting

namespace Text

variable {n : Nesting} {s t rest : Text}

/-- **WHAT FOLLOWS A CUT AT TOP LEVEL CAN BE WALKED OVER.** -/
theorem fits_of_suffix (hsuffix : s.lexemes <:+ t.lexemes) (h : t.fits = true) :
    s.fits = true := by
  obtain ⟨units, after⟩ := Bool.and_eq_true_iff.1 h
  cases hlast : s.lexemes.getLast? with
  | none =>
      have nothing : s = [] := by
        rw [← concat_lexemes s, List.getLast?_eq_none_iff.1 hlast]
        rfl
      rw [nothing]
      exact fits_nil
  | some l =>
      refine Bool.and_eq_true_iff.2 ⟨List.all_eq_true.2 fun u hu => ?_, ?_⟩
      · exact List.all_eq_true.1 units u (hsuffix.subset hu)
      · -- the last units are the same
        have last : t.lexemes.getLast? = some l := by
          obtain ⟨front, hfront⟩ := hsuffix
          rw [← hfront, List.getLast?_append, hlast]
          rfl
        rw [Nesting.afterText_of_getLast? last] at after
        rwa [Nesting.afterText_of_getLast? hlast]

/-- **So can what stands in front of a character that no delimiter has**, at top level or not. -/
theorem walkFits_of_append_cons {w : Char} (hw : ¬ Quote.IsMark w)
    (h : n.walkFits (t ++ w :: rest) = true) : n.walkFits t = true := by
  unfold Nesting.walkFits at h ⊢
  -- along the units of `t`
  fun_induction Nesting.afterText n t with
  | case1 n =>
      rw [Nesting.readFits_nil]
      exact Nesting.last_of_readFits Nesting.countsFit_of_depthFits h
  | case2 n c t ih =>
      rw [List.cons_append, Nesting.readFits_cons, Nesting.advance_append_cons hw] at h
      obtain ⟨first, later⟩ := Bool.and_eq_true_iff.1 h
      rw [Nesting.readFits_cons, first, Bool.true_and]
      rcases Nesting.advance_within n c t with hle | ⟨rfl, hescape⟩
      · -- the unit ends inside `t`
        rw [List.drop_append_of_le_length hle] at later
        exact ih later
      · -- a backslash at the end of `t` takes the character with it
        rw [List.drop_nil, Nesting.readFits_nil]
        exact Nesting.last_of_readFits Nesting.countsFit_of_depthFits later

theorem fits_of_append_cons {w : Char} (hw : ¬ Quote.IsMark w)
    (h : fits (t ++ w :: rest) = true) : t.fits = true := walkFits_of_append_cons hw h

/-! ## §2. Enclosures. -/

/-- A unit that ends in no opening bracket opens none. -/
theorem depth_advance_of_getLast? {c closer : Char} (hcloser : closer ∉ ['(', '[', '{'])
    (hends : (c :: rest).getLast? = some closer) (hunit : rest.drop (n.advance c rest).2 = []) :
    (n.advance c rest).1.depth ≤ n.depth := by
  unfold Nesting.advance at hunit ⊢
  split at hunit
  · split
    · exact Nat.le_refl _
    · split <;> exact Nat.le_refl _
  · split at hunit
    · exact Nat.le_refl _
    · -- a unit of one character
      obtain rfl : rest = [] := hunit
      obtain rfl : c = closer := Option.some.inj hends
      simp only [List.mem_cons, List.not_mem_nil, or_false, not_or] at hcloser
      obtain ⟨hparen, hbracket, hbrace⟩ := hcloser
      unfold Nesting.afterBracket Nesting.depth
      rw [if_neg hparen, if_neg hbracket, if_neg hbrace]
      split_ifs <;> dsimp only <;> omega

/-- Behind a text that ends in no opening bracket the counts can be added up. -/
theorem depthFits_afterText_of_getLast? {closer : Char} (hcloser : closer ∉ ['(', '[', '{'])
    (hends : t.getLast? = some closer) (h : n.walkFits t = true) :
    (n.afterText t).depthFits = true := by
  unfold Nesting.walkFits at h
  -- along the units of `t`, up to the last one
  fun_induction Nesting.afterText n t with
  | case1 n => cases hends
  | case2 n c rest ih =>
      rw [Nesting.readFits_cons] at h
      obtain ⟨first, later⟩ := Bool.and_eq_true_iff.1 h
      cases hdrop : rest.drop (n.advance c rest).2 with
      | nil =>
          have less := depth_advance_of_getLast? hcloser hends hdrop
          rw [Nesting.afterText_nil]
          exact Nesting.depthFits_of_lt (Nat.lt_of_le_of_lt less (of_decide_eq_true first))
      | cons d behind =>
          rw [hdrop] at ih later
          refine ih ?_ later
          rwa [← List.take_append_drop (n.advance c rest).2 rest, hdrop, ← List.cons_append,
            List.getLast?_append_of_ne_nil _ (List.cons_ne_nil d behind)] at hends

/-- A group ends at a boundary at top level. -/
theorem boundary_of_groupFrom? {group after : Text} (h : groupFrom? n t = some (group, after)) :
    Nesting.Boundary n t group after .closed := by
  fun_induction groupFrom? n t generalizing group with
  | case1 n => cases h
  | case2 n c rest htop =>
      obtain ⟨rfl, rfl⟩ := Prod.mk.inj (Option.some.inj h)
      have first := Nesting.Boundary.unit
        (.start (n.advance c rest).1 (rest.drop (n.advance c rest).2))
      rwa [List.append_nil, Nesting.eq_closed htop] at first
  | case3 n c rest _ ih =>
      obtain ⟨⟨group', after'⟩, hgroup, heq⟩ := Option.map_eq_some_iff.1 h
      obtain ⟨rfl, rfl⟩ := Prod.mk.inj heq
      exact .unit (ih hgroup)

/-- The end of a group can be looked for in a text that can be walked over, if there is one or the
text ends in no opening bracket. -/
theorem groupFits_of_fits (h : t.fits = true)
    (hends : leadingGroup? t = none → ∃ c ∉ ['(', '[', '{'], t.getLast? = some c) :
    t.groupFits = true := by
  unfold groupFits readForGroup
  cases hgroup : leadingGroup? t with
  | none =>
      obtain ⟨c, hc, hlast⟩ := hends hgroup
      exact Bool.and_eq_true_iff.2
        ⟨(Bool.and_eq_true_iff.1 h).1, depthFits_afterText_of_getLast? hc hlast h⟩
  | some found =>
      have boundary := boundary_of_groupFrom? hgroup
      rw [fits_of_boundary boundary rfl, Bool.and_eq_true] at h
      refine Bool.and_eq_true_iff.2 ⟨(Bool.and_eq_true_iff.1 h.1).1, ?_⟩
      show (Nesting.closed.afterText found.1).depthFits = true
      rw [boundary.units.1]
      rfl

section

variable {opener closer : Char} (hpair : BracketPair opener closer)
include hpair

/-- **IN A TEXT THAT CAN BE WALKED OVER IT CAN BE DECIDED WHETHER BRACKETS ENCLOSE IT.** -/
theorem enclosureFits_of_fits (h : t.fits = true) : t.enclosureFits opener closer = true := by
  have hcloser : closer ∉ ['(', '[', '{'] := by
    rcases hpair with ⟨-, rfl⟩ | ⟨-, rfl⟩ | ⟨-, rfl⟩ <;> decide
  unfold enclosureFits
  by_cases hends : t.head? = some opener ∧ t.getLast? = some closer ∧ 2 ≤ t.byteLength
  · rw [groupFits_of_fits h fun _ => ⟨closer, hcloser, hends.2.1⟩, Bool.or_true]
  · rw [decide_eq_false hends]
    rfl

/-- **WHAT BRACKETS ENCLOSE CAN BE WALKED OVER**, inside them and on its own. -/
theorem fits_of_fits_brackets {inner : Text} (h : fits (opener :: (inner ++ [closer])) = true) :
    inner.fits = true := by
  obtain ⟨hopener, hcloser⟩ := hpair.not_isMark
  have first : fits (opener :: (inner ++ [closer]))
      = (Nesting.closed.depthFits
        && (Nesting.closed.afterBracket opener).walkFits (inner ++ [closer])) :=
    Nesting.readFits_cons_of_not_isMark rfl hopener _
  rw [first] at h
  have inside := walkFits_of_append_cons hcloser (Bool.and_eq_true_iff.1 h).2
  exact Nesting.walkFits_of_atMost (.closed (hpair.quote_opened .closed)) inside

theorem fits_of_enclosed? {inner : Text} (hinner : enclosed? opener closer t = some inner)
    (h : t.fits = true) : inner.fits = true := by
  rw [(eq_of_enclosed? hinner).1] at h
  exact fits_of_fits_brackets hpair h

end

end Text

/-! ## §3. Assignments. -/

/-- What follows the sign that assigns is read as a text of its own. -/
theorem Assignment.lexemes_suffix_of_inUnits? {n : Nesting} {t seen : Text} {a : Assignment}
    (h : inUnits? seen (n.lexemes t) = some a) : a.value.lexemes <:+ n.lexemes t := by
  -- along the units of `t`, up to the sign
  fun_induction Nesting.lexemes n t generalizing seen with
  | case1 n => cases h
  | case2 n c rest ih =>
      rw [inUnits?] at h
      split at h
      · next operator hoperator =>
        rw [Option.ite_none_right_eq_some] at hoperator
        obtain ⟨htop, hsign⟩ := Bool.and_eq_true_iff.1 (Bool.and_eq_true_iff.1 hoperator.1).1
        obtain rfl : n = .closed := Nesting.eq_closed htop
        obtain rfl : c = '=' := eq_of_beq hsign
        obtain rfl := Option.some.inj h
        refine ⟨[⟨'=', [], .closed⟩], ?_⟩
        show _ :: Text.lexemes (rest.take _ ++ Lexeme.concat _) = _
        rw [Nesting.concat_lexemes, List.take_append_drop]
        rfl
      · exact (ih h).trans (List.suffix_cons _ _)

namespace Text

variable {t : Text} {a : Assignment}

theorem fits_value_of_assignment? (ha : t.assignment? = some a) (h : t.fits = true) :
    a.value.fits = true := fits_of_suffix (Assignment.lexemes_suffix_of_inUnits? ha) h

theorem fits_target_of_assignment? (ha : t.assignment? = some a) (h : t.fits = true) :
    a.target.fits = true := by
  obtain ⟨before, hoperator, -⟩ := Assignment.exists_seen_of_inUnits? ha
  have unmarked :
      (Assignment.operators.all fun o => o.all fun c => decide ¬ Quote.IsMark c) = true := by decide
  have unmarked := List.all_eq_true.1
    (List.all_eq_true.1 unmarked a.operator (Assignment.mem_operators hoperator))
  have whole := eq_of_assignment? ha
  cases hcase : a.operator with
  | nil =>
      rw [hcase, List.nil_append] at whole
      exact fits_of_append_cons (by decide) (whole ▸ h)
  | cons w rest =>
      rw [hcase, List.cons_append] at whole
      refine fits_of_append_cons (of_decide_eq_true (unmarked w ?_)) (whole ▸ h)
      rw [hcase]
      exact List.mem_cons_self

/-- The value of an argument is the argument or a part of it. -/
theorem fits_argumentValue {part : Text} (h : part.fits = true) :
    part.argumentValue.fits = true := by
  unfold argumentValue
  split
  · next a ha =>
    split
    · exact fits_value_of_assignment? ha h
    · exact h
  · exact h

end Text

/-! ## §4. Entries. -/

namespace Spaced

variable {as : List Atom} {item : Atom}

theorem gap_of_mem_tail (h : Spaced as) (hitem : item ∈ as.tail) : item.gap ≠ [] := by
  have apart := h.apart
  induction as with
  | nil => exact absurd hitem List.not_mem_nil
  | cons a as ih =>
      cases as with
      | nil => exact absurd hitem List.not_mem_nil
      | cons b as =>
          obtain ⟨⟨-, hgap⟩, later⟩ := List.isChain_cons_cons.1 apart
          rcases List.mem_cons.1 hitem with rfl | hitem
          · exact hgap
          · exact ih (h.of_run (List.suffix_cons a _).isInfix) hitem later

/-- An item has the gap of the first of its atoms. -/
theorem exists_gap_of_mem_joinAtoms (h : item ∈ Text.joinAtoms as) :
    ∃ a ∈ as, item.gap = a.gap := by
  fun_induction Text.joinAtoms as with
  | case1 => exact absurd h List.not_mem_nil
  | case2 a rest next first items hitems _ hjoin ih =>
      rcases List.mem_cons.1 h with rfl | h
      · exact ⟨a, List.mem_cons_self, rfl⟩
      · rw [hitems] at ih
        obtain ⟨b, hb, hgap⟩ := ih (List.mem_cons_of_mem first h)
        exact ⟨b, List.mem_cons_of_mem a hb, hgap⟩
  | case3 a rest next first items hitems _ hjoin ih =>
      rcases List.mem_cons.1 h with rfl | h
      · exact ⟨item, List.mem_cons_self, rfl⟩
      · rw [hitems] at ih
        obtain ⟨b, hb, hgap⟩ := ih h
        exact ⟨b, List.mem_cons_of_mem a hb, hgap⟩
  | case4 a rest _ ih =>
      rcases List.mem_cons.1 h with rfl | h
      · exact ⟨item, List.mem_cons_self, rfl⟩
      · obtain ⟨b, hb, hgap⟩ := ih h
        exact ⟨b, List.mem_cons_of_mem a hb, hgap⟩

/-- Behind the first item there is a gap in front of each. -/
theorem gap_of_mem_tail_joinAtoms (h : Spaced as) (hitem : item ∈ (Text.joinAtoms as).tail) :
    item.gap ≠ [] ∧ ∀ c ∈ item.gap, Text.isBlank c = true := by
  cases as with
  | nil => exact absurd hitem List.not_mem_nil
  | cons a as =>
      have later : item ∈ Text.joinAtoms as := by
        unfold Text.joinAtoms at hitem
        split at hitem
        · next next first items hnext hitems =>
          rw [hitems]
          split at hitem
          · exact List.mem_cons_of_mem first hitem
          · exact hitem
        · exact hitem
      obtain ⟨b, hb, hgap⟩ := exists_gap_of_mem_joinAtoms later
      rw [hgap]
      exact ⟨h.gap_of_mem_tail hb, h.gaps b (List.mem_cons_of_mem a hb)⟩

end Spaced

namespace DictEntry

open Text

/-- All pieces but the last close what they open. -/
theorem closes_of_isDivision {sep : Char} {t : Text} {ts : List Text}
    (h : IsDivision sep (t :: ts)) (hne : ts ≠ []) :
    Nesting.closed.afterText t = .closed ∧ IsDivision sep ts := by
  cases h with
  | last _ => exact absurd rfl hne
  | cons _ closes later => exact ⟨closes, later⟩

/-- The parts between the colons that divide can be walked over if those between all colons can. -/
theorem fits_of_mem_rejoinLambdas {lambdas : Nat} {parts : List Text} (h : IsDivision ':' parts)
    (hfits : ∀ part ∈ parts, part.fits = true) :
    ∀ part ∈ rejoinLambdas lambdas parts, part.fits = true := by
  fun_induction rejoinLambdas lambdas parts with
  | case1 => exact hfits
  | case2 => exact hfits
  | case3 lambdas part parts hparts opened _ ih =>
      obtain ⟨-, later⟩ := closes_of_isDivision h hparts
      obtain ⟨first, others⟩ := List.forall_mem_cons.1 hfits
      exact List.forall_mem_cons.2 ⟨first, ih later others⟩
  | case4 lambdas part parts hparts opened _ next joined hjoined _ ih =>
      obtain ⟨closes, later⟩ := closes_of_isDivision h hparts
      obtain ⟨first, others⟩ := List.forall_mem_cons.1 hfits
      have rejoined := ih later others
      rw [hjoined] at rejoined
      obtain ⟨behind, rest⟩ := List.forall_mem_cons.1 rejoined
      refine List.forall_mem_cons.2 ⟨?_, rest⟩
      rw [fits_append_divider isDivider_colon closes, first, behind]
      rfl
  | case5 lambdas part parts hparts opened _ hjoined =>
      exact absurd hjoined (rejoinLambdas_ne_nil hparts)

/-- The first of several parts closes what it opens. -/
theorem closes_of_rejoinLambdas {lambdas : Nat} {parts : List Text} (h : IsDivision ':' parts)
    {key : Text} {rest : List Text} (hjoin : rejoinLambdas lambdas parts = key :: rest)
    (hne : rest ≠ []) : Nesting.closed.afterText key = .closed := by
  fun_induction rejoinLambdas lambdas parts generalizing key rest with
  | case1 => cases hjoin
  | case2 => exact absurd (List.cons.inj hjoin).2.symm hne
  | case3 lambdas part parts hparts opened _ ih =>
      obtain ⟨rfl, -⟩ := List.cons.inj hjoin
      exact (closes_of_isDivision h hparts).1
  | case4 lambdas part parts hparts opened _ next joined hjoined _ ih =>
      obtain ⟨rfl, rfl⟩ := List.cons.inj hjoin
      obtain ⟨closes, later⟩ := closes_of_isDivision h hparts
      have behind := ih later hjoined hne
      have cut := (Nesting.lexemes_append_cons isDivider_colon.1 (n := .closed) (a := part)
        (by rw [closes]; rfl) next).2
      rw [cut, closes, Nesting.afterText_cons_of_not_isMark rfl isDivider_colon.1]
      exact behind
  | case5 lambdas part parts hparts opened _ hjoined =>
      exact absurd hjoined (rejoinLambdas_ne_nil hparts)

/-- **A VALUE AND THE NEXT KEY CAN BE WALKED OVER** if what stands between the colons can. -/
theorem fits_of_valueAndKey? {between value key : Text}
    (hcut : valueAndKey? between = some (value, key)) (h : between.fits = true) :
    value.fits = true ∧ key.fits = true := by
  obtain ⟨previous, last, hne, chosen, -, text, rfl, rfl⟩ := exists_of_valueAndKey? hcut
  obtain ⟨spaced, trailing⟩ := between.spaced_atomized
  have behind : last ∈ (previous ++ [last]).tail := by
    rw [List.tail_append_of_ne_nil hne]
    exact List.mem_concat_self
  have member : last ∈ previous ++ [last] := List.mem_concat_self
  -- the last item, or the last atom, with the blanks in front of it
  have cut : (last.gap ≠ [] ∧ ∀ c ∈ last.gap, isBlank c = true) ∧ last.text.fits = true := by
    rcases chosen with items | atoms
    · rw [items] at behind member
      exact ⟨spaced.gap_of_mem_tail_joinAtoms behind,
        fits_of_mem_adjacentItems h _ (List.mem_map_of_mem member)⟩
    · rw [atoms] at behind member
      exact ⟨⟨spaced.gap_of_mem_tail behind, spaced.gaps last member⟩,
        fits_of_mem_atomized h last member⟩
  obtain ⟨⟨hgap, hblanks⟩, item⟩ := cut
  constructor
  · obtain ⟨w, gap, hcons⟩ := List.exists_cons_of_ne_nil hgap
    have hw : isBlank w = true := hblanks w (by rw [hcons]; exact List.mem_cons_self)
    rw [trim_append_of_blanks hblanks]
    rw [text, hcons, List.append_assoc, List.cons_append] at h
    exact fits_trim (fits_of_append_cons (Nesting.not_isMark_of_isBlank hw) h)
  · rw [trim_append_of_blanks trailing]
    exact fits_trim item

/-- So can all keys and values of a chain of entries. -/
theorem fits_of_chain? {key : Text} {parts : List Text} {entries : List DictEntry}
    (hchain : chain? key parts = some entries) (hkey : key.fits = true)
    (hparts : ∀ part ∈ parts, part.fits = true) :
    ∀ e ∈ entries, e.key.fits = true ∧ e.value.fits = true := by
  fun_induction chain? key parts generalizing entries with
  | case1 =>
      obtain rfl := Option.some.inj hchain
      exact fun e he => absurd he List.not_mem_nil
  | case2 key last =>
      obtain rfl := Option.some.inj hchain
      exact List.forall_mem_singleton.2 ⟨hkey, fits_trim (hparts last List.mem_cons_self)⟩
  | case3 => cases hchain
  | case4 key part parts _ value next hcut ih =>
      obtain ⟨later, hlater, rfl⟩ := Option.map_eq_some_iff.1 hchain
      obtain ⟨first, others⟩ := List.forall_mem_cons.1 hparts
      obtain ⟨hvalue, hnext⟩ := fits_of_valueAndKey? hcut first
      exact List.forall_mem_cons.2 ⟨⟨hkey, hvalue⟩, ih hlater hnext others⟩

/-- The first of several parts of a piece closes what it opens. -/
theorem closes_of_colonParts {piece key : Text} {others : List Text}
    (hparts : colonParts piece = key :: others) (hne : others ≠ []) :
    Nesting.closed.afterText key = .closed := by
  obtain ⟨ts, hts, rfl⟩ := exists_division isDivider_colon.1 piece
  unfold colonParts at hparts
  dsimp only at hparts
  rw [hts.cutUnits_intercalate isDivider_colon] at hparts
  exact closes_of_rejoinLambdas hts hparts hne

/-- The parts of a piece can be walked over, between all colons and between those that divide. -/
theorem fits_of_mem_colonParts {piece : Text} (h : piece.fits = true) :
    (∀ part ∈ (cutUnits ':' piece.lexemes).1 :: (cutUnits ':' piece.lexemes).2, part.fits = true)
      ∧ ∀ part ∈ colonParts piece, part.fits = true := by
  obtain ⟨ts, hts, rfl⟩ := exists_division isDivider_colon.1 piece
  rw [hts.fits_intercalate isDivider_colon] at h
  have parts := List.all_eq_true.1 h
  unfold colonParts
  dsimp only
  rw [hts.cutUnits_intercalate isDivider_colon]
  exact ⟨parts, fits_of_mem_rejoinLambdas hts parts⟩

end DictEntry

/-- **THE KEYS AND VALUES OF A PIECE CAN BE WALKED OVER** if the piece can. -/
theorem Text.fits_of_mem_dictEntries {piece : Text} (h : piece.fits = true) :
    ∀ e ∈ piece.dictEntries.entries, e.key.fits = true ∧ e.value.fits = true := by
  have parts := (DictEntry.fits_of_mem_colonParts h).2
  have text := DictEntry.intercalate_colonParts piece
  unfold dictEntries
  split
  · exact fun e he => absurd he List.not_mem_nil
  · exact fun e he => absurd he List.not_mem_nil
  · next key value hparts =>
    rw [hparts] at parts
    obtain ⟨hkey, hvalue⟩ := List.forall_mem_cons.1 parts
    refine List.forall_mem_singleton.2 ⟨fits_trim hkey, fits_trim ?_⟩
    exact hvalue value List.mem_cons_self
  · next key others hempty hsingle hparts =>
    rw [hparts] at parts text
    obtain ⟨hkey, hothers⟩ := List.forall_mem_cons.1 parts
    split
    · next entries hchain => exact DictEntry.fits_of_chain? hchain (fits_trim hkey) hothers
    · -- everything behind the first colon
      have closes := DictEntry.closes_of_colonParts hparts hempty
      rw [← text, intercalate_cons_of_ne_nil hempty,
        fits_append_divider isDivider_colon closes, Bool.and_eq_true] at h
      exact List.forall_mem_singleton.2 ⟨fits_trim hkey, fits_trim h.2⟩

/-! ## §5. Expressions. -/

namespace Text

/-- The items between the commas can be read if each text that can be walked over can. -/
theorem itemsFit_of_fits {each : Text → Bool} (heach : ∀ s : Text, s.fits = true → each s = true)
    {t : Text} (h : t.fits = true) : t.itemsFit each = true := by
  refine Bool.and_eq_true_iff.2 ⟨h, List.all_eq_true.2 fun piece hpiece => ?_⟩
  have hpiece := fits_of_mem_commaItems h piece hpiece
  exact Bool.and_eq_true_iff.2 ⟨hpiece, List.all_eq_true.2 fun item hitem =>
    heach item (fits_of_mem_adjacentItems hpiece item hitem)⟩

section

variable {inner : Text → Bool} (hinner : ∀ s : Text, s.fits = true → inner s = true) {t : Text}
include hinner

theorem argumentFits_of_fits (h : t.fits = true) : t.argumentFits inner = true :=
  Bool.and_eq_true_iff.2 ⟨h, hinner _ (fits_argumentValue h)⟩

theorem entriesFit_of_fits (h : t.fits = true) : t.entriesFit inner = true := by
  obtain ⟨colons, divided⟩ := DictEntry.fits_of_mem_colonParts h
  have inFront := List.all_eq_true.2 fun s hs => colons s (List.dropLast_subset _ hs)
  have between : (DictEntry.colonParts t).tail.dropLast.all fits = true :=
    List.all_eq_true.2 fun s hs => divided s (List.mem_of_mem_tail (List.dropLast_subset _ hs))
  have entries : (t.dictEntries.entries.all fun e => inner e.key && inner e.value) = true :=
    List.all_eq_true.2 fun e he => by
      obtain ⟨key, value⟩ := fits_of_mem_dictEntries h e he
      rw [hinner _ key, hinner _ value, Bool.and_self]
  unfold entriesFit
  dsimp only
  rw [h, inFront, between, entries, Bool.and_self, Bool.and_self, Bool.and_self, Bool.or_true]

theorem dictFits_of_fits (h : t.fits = true) : t.dictFits inner = true := by
  refine Bool.and_eq_true_iff.2 ⟨h, Bool.or_eq_true_iff.2 (.inr ?_)⟩
  exact List.all_eq_true.2 fun piece hpiece =>
    entriesFit_of_fits hinner (fits_of_mem_commaItems h piece hpiece)

/-- What brackets enclose can be read if it is read by a way that a walk decides. -/
theorem enclosedFits_of_fits {opener closer : Char} (hpair : BracketPair opener closer)
    {otherwise : Bool} (hother : otherwise = true) (h : t.fits = true) :
    t.enclosedFits opener closer inner otherwise = true := by
  refine Bool.and_eq_true_iff.2 ⟨enclosureFits_of_fits hpair h, ?_⟩
  split
  · next enclosed henclosed =>
    have inside := fits_of_enclosed? hpair henclosed h
    rw [inside, hinner _ inside, Bool.or_true]
    rfl
  · exact hother

theorem nameFits_of_fits (h : t.fits = true) : t.nameFits inner = true := by
  have pair : BracketPair '(' ')' := .inl ⟨rfl, rfl⟩
  refine Bool.and_eq_true_iff.2 ⟨h, ?_⟩
  split
  · rfl
  · next b hb =>
    have behind : fits (b.char :: b.after) = true :=
      fits_of_suffix (lexemes_suffix_of_breakTopLevel? hb) h
    refine Bool.and_eq_true_iff.2 ⟨enclosureFits_of_fits pair behind, ?_⟩
    split
    · rfl
    · next arguments harguments =>
      have inside := fits_of_enclosed? pair harguments behind
      rw [itemsFit_of_fits (fun s hs => argumentFits_of_fits hinner hs) inside, Bool.or_true]

/-- **One level can be read if what is inside it can.** -/
theorem formFits_of_fits (h : t.fits = true) : t.formFits inner = true := by
  have items (s : Text) (hs : s.fits = true) : s.itemsFit inner = true :=
    itemsFit_of_fits hinner hs
  have parentheses := enclosedFits_of_fits items (.inl ⟨rfl, rfl⟩) (nameFits_of_fits hinner h) h
  have braces := enclosedFits_of_fits (fun s hs => dictFits_of_fits hinner hs)
    (.inr (.inr ⟨rfl, rfl⟩)) parentheses h
  have brackets := enclosedFits_of_fits items (.inr (.inl ⟨rfl, rfl⟩)) braces h
  unfold formFits
  rw [h, items t h, brackets, Bool.or_true, Bool.true_and, ite_self, Bool.or_true]

end

/-- **AN EXPRESSION CAN BE CLASSIFIED EXACTLY IF IT CAN BE WALKED OVER**, without the blanks around
it. -/
theorem classifyFits_eq (t : Text) : t.classifyFits = t.trim.fits := by
  have within (levels : Nat) : ∀ s : Text, s.fits = true → classifyFitsWithin levels s = true := by
    induction levels with
    | zero => exact fun _ _ => rfl
    | succ levels ih => exact fun s hs => formFits_of_fits ih (fits_trim hs)
  cases hfits : t.trim.fits with
  | true => exact formFits_of_fits (within levelLimit) hfits
  | false =>
      -- the first walk is the one over the whole
      have written : t.trim.isEmpty = false := by
        cases hempty : t.trim with
        | nil =>
            rw [hempty, fits_nil] at hfits
            exact hfits
        | cons c rest => rfl
      show t.trim.formFits _ = false
      unfold formFits
      rw [written, hfits]
      rfl

theorem classifyFits_of_length {t : Text} (h : t.length < Nesting.countLimit) :
    t.classifyFits = true := by
  rw [classifyFits_eq]
  exact fits_trim (fits_of_length h)

/-! ## §6. Parameters. -/

/-- Stars in front of a parameter add nothing. -/
theorem fits_starred (t : Text) : (starred t).2.fits = t.fits := by
  have passed (rest : Text) : fits ('*' :: rest) = rest.fits :=
    Nesting.readFits_cons_of_not_isMark rfl (by decide) rest
  unfold starred
  split
  · rw [passed, passed]
  · rw [passed]
  · rfl

/-- A parameter can be read exactly if it can be walked over. -/
theorem parameterFits_eq (t : Text) : t.parameterFits = t.fits := by
  unfold parameterFits
  dsimp only
  rw [fits_starred]
  cases hfits : t.fits with
  | false => rfl
  | true =>
      rw [Bool.true_and]
      split
      · next a ha =>
        rw [fits_target_of_assignment? ha (by rw [fits_starred, hfits]), Bool.or_true]
      · rfl

/-- **SO CAN A LIST OF PARAMETERS.** -/
theorem parametersFit_eq (t : Text) : t.parametersFit = t.fits := by
  cases hfits : t.fits with
  | false =>
      unfold parametersFit itemsFit
      rw [hfits]
      rfl
  | true => exact itemsFit_of_fits (fun s hs => by rw [parameterFits_eq, hs, Bool.or_true]) hfits

end Text

namespace Checked

theorem classify_eq (t : Text) : Checked.classify t = guarded t.trim.fits t.classify := by
  rw [Checked.classify, Text.classifyFits_eq]

theorem parameter_eq (t : Text) : Checked.parameter t = guarded t.fits (Text.parameter? t) := by
  rw [Checked.parameter, Text.parameterFits_eq]

theorem parameters_eq (t : Text) : Checked.parameters t = guarded t.fits t.parameters := by
  rw [Checked.parameters, Text.parametersFit_eq]

end Checked

end ClassOutline
