/-
  ClassOutline.Proofs.LogicalLine.TabStops
  ────────────────────────────────
  **INDENTATION IS EXACT WHERE IT FITS IN A WORD, AND A RUN IS STOPPED WHERE IT DOES NOT.**

  Columns are words of 64 bits, and any word may be the distance of tab stops.
  `exactIndent` says what the width of a line's indentation is: a space counts one
  column, a tab goes on to the next stop, a form feed goes back to the margin.

  What decides is every column on the way and not the last one alone, for a
  form feed may hide that a column before it did not fit.  While all of them fit
  the run goes on, and at the first one that does not it is stopped
  (`indentFits_iff`).  No character moves on by more than the distance of two stops
  (`exactFrom_le`), so lines and settings of any usual size are measured.
-/
import ClassOutline.Proofs.Checked.Fits
import ClassOutline.Checked.Lines
import Mathlib.Algebra.Order.BigOperators.Group.List
import Mathlib.Data.List.Infix
import Mathlib.Order.Bounds.Basic

namespace ClassOutline

/-! ## §1. Columns without a limit. -/

/-- The next tab stop: `column` and what is left of the distance between two stops. -/
def nextStop (stop column : Nat) : Nat := column + (stop - column % stop)

/-- The column reached from `column` through the blanks that start a line. -/
def exactFrom (stop column : Nat) : Text → Nat
  | [] => column
  | c :: rest =>
    if c = ' ' then exactFrom stop (column + 1) rest
    else if c = '\t' then exactFrom stop (nextStop stop column) rest
    else if c = '\x0c' then exactFrom stop 0 rest
    else column

/-- The exact width of a line's indentation. -/
def exactIndent (tabWidth : Nat) (line : Text) : Nat := exactFrom (max tabWidth 1) 0 line

theorem nextStop_eq {stop : Nat} (hstop : 0 < stop) (column : Nat) :
    nextStop stop column = (column / stop + 1) * stop := by
  have hdiv := Nat.div_add_mod' column stop
  have hmod := Nat.mod_lt column hstop
  unfold nextStop
  rw [Nat.add_mul, Nat.one_mul]
  omega

/-- The next tab stop is the first multiple of the distance behind the column. -/
theorem nextStop_isLeast {stop : Nat} (hstop : 0 < stop) (column : Nat) :
    IsLeast { m | stop ∣ m ∧ column < m } (nextStop stop column) := by
  rw [nextStop_eq hstop, Nat.mul_comm]
  refine ⟨⟨Nat.dvd_mul_right stop _, Nat.lt_mul_div_succ column hstop⟩, ?_⟩
  rintro m ⟨⟨k, rfl⟩, hbehind⟩
  have hk : column / stop < k := Nat.div_lt_of_lt_mul hbehind
  exact Nat.mul_le_mul_left stop hk

/-- A character moves on by the distance of two stops at most. -/
theorem exactFrom_le {stop : Nat} (hstop : 0 < stop) (line : Text) :
    ∀ column, exactFrom stop column line ≤ column + line.length * stop := by
  induction line with
  | nil => intro column; exact Nat.le_add_right column _
  | cons c rest ih =>
      intro column
      have hlength : (c :: rest).length * stop = rest.length * stop + stop := by
        rw [List.length_cons, Nat.add_mul, Nat.one_mul]
      have hnext : nextStop stop column ≤ column + stop := by
        unfold nextStop
        omega
      rw [exactFrom, hlength]
      split
      · have := ih (column + 1)
        omega
      · split
        · have := ih (nextStop stop column)
          omega
        · split
          · have := ih 0
            omega
          · omega

/-- The measure taken of a line is its width. -/
theorem indentFrom_eq {stop : Nat} (hstop : 0 < stop) (line : Text) :
    ∀ column, indentFrom stop column line = exactFrom stop column line := by
  induction line with
  | nil => exact fun _ => rfl
  | cons c rest ih =>
      intro column
      rw [indentFrom, exactFrom, nextStop_eq hstop, ih, ih, ih]

/-- Tab stops are at least one column apart. -/
theorem tabStop_eq (tabWidth : Nat) :
    (if tabWidth = 0 then 1 else tabWidth) = max tabWidth 1 := by
  split <;> omega

theorem indentWidth_eq (tabWidth : Nat) (line : Text) :
    indentWidth tabWidth line = exactIndent tabWidth line := by
  unfold indentWidth exactIndent
  rw [tabStop_eq, indentFrom_eq (by omega)]

/-! ## §2. Columns in words. -/

/-- Every column that is reached while the line is read from `column` on is a word. -/
def FitsFrom (stop column : Nat) (line : Text) : Prop :=
  ∀ front, front <+: line → exactFrom stop column front < columnLimit

/-- The first character decides about the first column, and the others about those behind it. -/
theorem fitsFrom_cons_iff {stop column next : Nat} {c : Char} {rest : Text}
    (hcolumn : column < columnLimit)
    (hstep : ∀ front, exactFrom stop column (c :: front) = exactFrom stop next front) :
    FitsFrom stop column (c :: rest) ↔ next < columnLimit ∧ FitsFrom stop next rest := by
  constructor
  · intro fits
    have behind : FitsFrom stop next rest := fun front hfront =>
      hstep front ▸ fits (c :: front) (List.cons_prefix_cons.2 ⟨rfl, hfront⟩)
    exact ⟨behind [] List.nil_prefix, behind⟩
  · rintro ⟨-, behind⟩ front hfront
    cases front with
    | nil => exact hcolumn
    | cons d front =>
        obtain ⟨rfl, hlater⟩ := List.cons_prefix_cons.1 hfront
        rw [hstep]
        exact behind front hlater

/-- **THE RUN GOES ON WHILE ALL COLUMNS ARE WORDS.** -/
theorem indentFitsFrom_iff {stop : Nat} (hstop : 0 < stop) (line : Text) :
    ∀ column, column < columnLimit →
      (indentFitsFrom stop column line = true ↔ FitsFrom stop column line) := by
  induction line with
  | nil =>
      refine fun column hcolumn => iff_of_true rfl fun front hfront => ?_
      rw [List.prefix_nil.1 hfront]
      exact hcolumn
  | cons c rest ih =>
      intro column hcolumn
      -- a blank that leads to `next`: there the run is stopped, or it goes on from there
      have step (next : Nat)
          (hstep : ∀ front, exactFrom stop column (c :: front) = exactFrom stop next front) :
          (decide (next < columnLimit) && indentFitsFrom stop next rest) = true
            ↔ FitsFrom stop column (c :: rest) := by
        rw [fitsFrom_cons_iff hcolumn hstep, Bool.and_eq_true, decide_eq_true_eq]
        exact and_congr_right fun hnext => ih next hnext
      rw [indentFitsFrom]
      split
      · next hspace =>
        subst hspace
        exact step (column + 1) fun _ => rfl
      · next hspace =>
        split
        · next htab =>
          subst htab
          rw [← nextStop_eq hstop]
          exact step (nextStop stop column) fun _ => rfl
        · next htab =>
          split
          · next hfeed =>
            subst hfeed
            exact step 0 fun _ => rfl
          · -- the indentation ends here
            next hfeed =>
            refine iff_of_true rfl fun front _ => ?_
            cases front with
            | nil => exact hcolumn
            | cons d front =>
                obtain ⟨rfl, -⟩ := List.cons_prefix_cons.1 ‹_›
                rw [exactFrom, if_neg hspace, if_neg htab, if_neg hfeed]
                exact hcolumn

theorem indentFits_iff (tabWidth : Nat) (line : Text) :
    indentFits tabWidth line = true
      ↔ ∀ front, front <+: line → exactIndent tabWidth front < columnLimit := by
  unfold indentFits exactIndent
  rw [tabStop_eq]
  exact indentFitsFrom_iff (by omega) line 0 (by decide)

/-- All columns are words where as many tab stops as the line has characters are. -/
theorem indentFits_of_length {tabWidth : Nat} {line : Text}
    (h : line.length * max tabWidth 1 < columnLimit) : indentFits tabWidth line = true := by
  refine (indentFits_iff tabWidth line).2 fun front hfront => ?_
  have hle := exactFrom_le (by omega : 0 < max tabWidth 1) front 0
  have hshort := Nat.mul_le_mul_right (max tabWidth 1) hfront.length_le
  unfold exactIndent
  omega

/-- **INDENTATION IS MEASURED EXACTLY IF AND ONLY IF EVERY COLUMN ON THE WAY IS A WORD**, and no
other measure is ever taken.  A tab goes to the first multiple of the tab width behind the column.
All columns are words where as many tab stops as the line has characters are. -/
theorem indentWidth_answers_iff (tabWidth : Nat) (line : Text) :
    (∀ column, IsLeast { m | max tabWidth 1 ∣ m ∧ column < m }
        (nextStop (max tabWidth 1) column))
      ∧ (∀ width, Checked.indentWidth tabWidth line = some width
          ↔ width = exactIndent tabWidth line
            ∧ ∀ front, front <+: line → exactIndent tabWidth front < 2 ^ 64)
      ∧ (line.length * max tabWidth 1 < 2 ^ 64 →
          Checked.indentWidth tabWidth line = some (exactIndent tabWidth line)) := by
  have hstop : 0 < max tabWidth 1 := by omega
  refine ⟨nextStop_isLeast hstop, fun width => ?_, fun hlength => ?_⟩
  · unfold Checked.indentWidth
    rw [guarded_eq_some_iff, indentFits_iff, indentWidth_eq, and_comm]
    exact and_congr_left fun _ => eq_comm
  · unfold Checked.indentWidth
    rw [guarded_of_fits (indentFits_of_length hlength), indentWidth_eq]

/-- With the widest tab that a settings file can ask for two tab stops fit, and a space between
them. -/
theorem indentWidth_answers_widest_tabs :
    Checked.indentWidth 9223372036854775807 "\t \tx".toList = some (2 * 9223372036854775807) := by
  have fits : ∀ front ∈ "\t \tx".toList.inits,
      exactIndent 9223372036854775807 front < 2 ^ 64 := by decide +kernel
  obtain ⟨-, answers, -⟩ := indentWidth_answers_iff 9223372036854775807 "\t \tx".toList
  exact (answers _).2 ⟨by decide +kernel, fun front hfront =>
    fits front ((List.mem_inits _ _).2 hfront)⟩

/-- **A third tab stop does not fit**, and the run is stopped. -/
theorem indentWidth_stopped_at_third_tab :
    Checked.indentWidth 9223372036854775807 "\t\t\t".toList = none
      ∧ exactIndent 9223372036854775807 "\t\t\t".toList = 27670116110564327421 := by
  decide +kernel

end ClassOutline
