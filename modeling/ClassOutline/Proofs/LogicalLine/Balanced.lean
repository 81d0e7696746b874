/-
  ClassOutline.Proofs.LogicalLine.Balanced
  ────────────────────────────────
  **WHAT THE SCANNER CALLS BALANCED IS BALANCED WHEN IT IS READ AGAIN.**

  The scanner follows the nesting over raw physical lines; everything behind it
  walks over the text of a logical line, in which the lines are trimmed, cut
  and joined by line feeds.  Both see the same nesting, except behind a string
  that had to be closed at a line end: the scanner forgets it, a walk does not.

  `ScanState.InStep` says so of the state between two lines.  One line keeps it
  (`step_inStep`), hence all lines do (`run_walksOut`).  The two count the same
  brackets, so where the scanner was not stopped the walk is not stopped either.
-/
import ClassOutline.Checked.Lines
import ClassOutline.Proofs.Checked.Fits

namespace ClassOutline

/-! ## §1. One physical line. -/

theorem Text.dropLast_append_of_lastIs {c : Char} {t : Text}
    (h : Text.lastIs (· == c) t = true) : t.dropLast ++ [c] = t := by
  obtain ⟨d, hlast, hd⟩ := (Option.any_eq_true _ t.getLast?).1 h
  obtain ⟨before, rfl⟩ := List.getLast?_eq_some_iff.1 hlast
  rw [eq_of_beq hd, List.dropLast_concat]

/-- The string that has to be closed at the end of a line: it may not run over line ends, and
no backslash stands there. -/
theorem CodeLine.unterminated_read (n : Nesting) (raw : Text) :
    (CodeLine.read n raw).unterminated = (n.code raw).2.quote.filter fun q =>
      !q.isTriple && !Text.lastIs (· == '\\') (n.code raw).1.trim := by
  unfold CodeLine.read
  dsimp only
  exact (apply_ite CodeLine.unterminated _ _ _).trans (ite_self _)

/-- The code that is kept of a line leaves open what the line does, a string apart that had to
be closed. -/
theorem CodeLine.afterText_code_read {n : Nesting} {raw : Text}
    (h : (CodeLine.read n raw).unterminated = none) :
    n.afterText (CodeLine.read n raw).code = (CodeLine.read n raw).nesting := by
  have hcode : n.afterText (n.code raw).1.trim = (n.code raw).2 :=
    (Nesting.afterText_trim n _).trans (Nesting.afterText_code n raw)
  rw [unterminated_read] at h
  unfold CodeLine.read
  dsimp only
  rw [h]
  simp only [Option.isSome_none, Bool.false_eq_true, if_false]
  split
  · next hslash =>
    -- outside strings the backslash is a unit of its own
    have hlast : Text.lastIs (· == '\\') (n.code raw).1.trim = true :=
      (Bool.and_eq_true_iff.1 hslash).2
    show n.afterText (Text.trimEnd (n.code raw).1.trim.dropLast) = (n.code raw).2
    rw [Nesting.afterText_trimEnd, ← Nesting.afterText_append_backslash,
      Text.dropLast_append_of_lastIs hlast]
    exact hcode
  · exact hcode

/-- Where the code of a line can be read, what is kept of it can be. -/
theorem CodeLine.stepsFit_code_read {n : Nesting} {raw : Text}
    (h : n.stepsFit (n.code raw).1 = true) : n.stepsFit (CodeLine.read n raw).code = true := by
  have trimmed : n.stepsFit (n.code raw).1.trim = true := Nesting.readFits_trim h
  unfold CodeLine.read
  dsimp only
  generalize (ite (Option.isSome _ = true) _ _ : Nesting) = after
  split
  · next hslash =>
    have hlast : Text.lastIs (· == '\\') (n.code raw).1.trim = true :=
      (Bool.and_eq_true_iff.1 hslash).2
    rw [← Text.dropLast_append_of_lastIs hlast] at trimmed
    obtain ⟨blanks, hblanks, hsplit⟩ := Text.exists_eq_trimEnd_append (n.code raw).1.trim.dropLast
    refine Nesting.readFits_of_append_blanks hblanks ?_
    rw [← hsplit]
    exact Nesting.readFits_of_append_cons (by decide) (Nesting.afterText_append_backslash n _) trimmed
  · exact trimmed

/-- A line that is not continued leaves nothing open. -/
theorem CodeLine.isTopLevel_of_not_isContinued {c : CodeLine} (h : (!c.isContinued) = true) :
    c.nesting.isTopLevel = true := by
  unfold isContinued at h
  cases htop : c.nesting.isTopLevel with
  | true => rfl
  | false =>
      rw [htop, Bool.not_false, Bool.or_true] at h
      exact absurd h (by decide)

/-! ## §2. The scanner and the walk in step. -/

/-- None of the lines from `first` to `last` has a string that was reported as unterminated. -/
def StringsEnd (ds : List Diagnostic) (first last : Nat) : Prop :=
  ∀ number quote, first ≤ number → number ≤ last → ⟨number, .unterminatedString quote⟩ ∉ ds

/-- A walk over a balanced line is not stopped and ends outside everything, if all strings of the
line ended. -/
def LogicalLine.WalksOut (ds : List Diagnostic) (l : LogicalLine) : Prop :=
  l.balanced = true → StringsEnd ds l.line l.endLine →
    ∃ n, Checked.afterText l.text = some n ∧ n.isTopLevel = true

/-- The open statement began before, and a walk over what there is of it is not stopped and leaves
the nesting `n`, if all its strings ended. -/
def OpenLine.WalksTo (ds : List Diagnostic) (number : Nat) (n : Nesting) (o : OpenLine) : Prop :=
  o.line ≤ number
    ∧ (StringsEnd ds o.line number →
        Nesting.closed.afterText o.text = n ∧ Nesting.closed.stepsFit o.text = true)

/-- After line `number` nothing is open between statements, and inside one what a walk over
its text leaves open. -/
def ScanState.InStep (ds : List Diagnostic) (number : Nat) (s : ScanState) : Prop :=
  match s.pending with
  | none => s.nesting = .closed
  | some o => o.WalksTo ds number s.nesting

theorem StringsEnd.of_le {ds : List Diagnostic} {first last last' : Nat}
    (h : StringsEnd ds first last') (hle : last ≤ last') : StringsEnd ds first last := by
  intro number quote hfirst hlast
  exact h number quote hfirst (Nat.le_trans hlast hle)

/-- On a line without a report no string had to be closed. -/
theorem StringsEnd.unterminated_eq_none {ds : List Diagnostic} {first number : Nat} {c : CodeLine}
    (h : StringsEnd ds first number) (hle : first ≤ number)
    (reported : ∀ q, c.unterminated = some q → ⟨number, .unterminatedString q⟩ ∈ ds) :
    c.unterminated = none := by
  cases hq : c.unterminated with
  | none => rfl
  | some q => exact absurd (reported q hq) (h number q hle (Nat.le_refl number))

namespace ScanState

variable {ds : List Diagnostic} {cfg : Config} {number : Nat} {raw : Text} {s : ScanState}

/-- The statement that a line opens or continues is walked to what the line leaves open. -/
theorem openWith_walksTo (h : s.InStep ds number)
    (fits : s.nesting.stepsFit (s.nesting.code raw).1 = true)
    (reported : ∀ q, (CodeLine.read s.nesting raw).unterminated = some q →
      ⟨number + 1, .unterminatedString q⟩ ∈ ds) :
    (s.openWith cfg (number + 1) raw (CodeLine.read s.nesting raw)).WalksTo ds (number + 1)
      (CodeLine.read s.nesting raw).nesting := by
  have fits := CodeLine.stepsFit_code_read fits
  unfold InStep at h
  unfold openWith
  cases hpending : s.pending with
  | none =>
      rw [hpending] at h
      -- the first line of a statement: a fresh walk begins with it
      have h : s.nesting = .closed := h
      refine ⟨Nat.le_refl _, ?_⟩
      intro ends
      show Nesting.closed.afterText (CodeLine.read s.nesting raw).code = _
        ∧ Nesting.closed.stepsFit (CodeLine.read s.nesting raw).code = true
      rw [← h]
      exact ⟨CodeLine.afterText_code_read (ends.unterminated_eq_none (Nat.le_refl _) reported), fits⟩
  | some o =>
      rw [hpending] at h
      -- a further line: the walk is cut at the line feed before it
      obtain ⟨hline, hwalk⟩ := h
      have hline : o.line ≤ number + 1 := Nat.le_succ_of_le hline
      refine ⟨hline, ?_⟩
      intro ends
      have ends : StringsEnd ds o.line (number + 1) := ends
      obtain ⟨before, fitsBefore⟩ := hwalk (ends.of_le (Nat.le_succ number))
      show Nesting.closed.afterText (o.text ++ '\n' :: (CodeLine.read s.nesting raw).code) = _
        ∧ Nesting.closed.stepsFit (o.text ++ '\n' :: (CodeLine.read s.nesting raw).code) = true
      refine ⟨?_, Nesting.readFits_append_blank (fun _ h => h) (by decide) fitsBefore ?_⟩
      · rw [Nesting.afterText_append_blank (by decide), before]
        exact CodeLine.afterText_code_read (ends.unterminated_eq_none hline reported)
      · rw [before]
        exact fits

/-- Reading a line for its code keeps the two in step, and what it completes walks out. -/
theorem stepCode_inStep (h : s.InStep ds number) (fits : s.stepCodeFits cfg raw = true)
    (sub : ∀ d ∈ (s.stepCode cfg (number + 1) raw).2.diagnostics, d ∈ ds) :
    (s.stepCode cfg (number + 1) raw).1.InStep ds (number + 1) ∧
      ∀ l ∈ (s.stepCode cfg (number + 1) raw).2.lines, l.WalksOut ds := by
  have fits : s.nesting.stepsFit (s.nesting.code raw).1 = true :=
    (Bool.and_eq_true_iff.1 (Bool.and_eq_true_iff.1 fits).1).1
  unfold stepCode at sub ⊢
  dsimp only at sub ⊢
  generalize hreports : (CodeLine.read s.nesting raw).unterminated.toList.map
    (fun q => (⟨number + 1, .unterminatedString q⟩ : Diagnostic)) = reports at sub ⊢
  have reported (hsub : ∀ d ∈ reports, d ∈ ds) :
      ∀ q, (CodeLine.read s.nesting raw).unterminated = some q →
        ⟨number + 1, .unterminatedString q⟩ ∈ ds := by
    intro q hq
    refine hsub _ ?_
    rw [← hreports, hq]
    exact List.mem_singleton.2 rfl
  split at sub
  · next hvoid =>
    -- a line without code: nothing was open and nothing is
    rw [if_pos hvoid]
    obtain ⟨hnone, hvoid⟩ := Bool.and_eq_true_iff.1 hvoid
    have hpending : s.pending = none := Option.isNone_iff_eq_none.1 hnone
    refine ⟨?_, fun l hl => absurd hl List.not_mem_nil⟩
    unfold InStep
    simp only [hpending]
    show (CodeLine.read s.nesting raw).nesting = .closed
    exact Nesting.eq_closed (CodeLine.isTopLevel_of_not_isContinued (Bool.and_eq_true_iff.1 hvoid).2)
  · next hvoid =>
    rw [if_neg hvoid]
    split at sub
    · next hend =>
      -- the statement is complete
      rw [if_pos hend]
      obtain ⟨hline, hwalk⟩ := openWith_walksTo h fits (reported sub)
      have htop := CodeLine.isTopLevel_of_not_isContinued hend
      refine ⟨Nesting.eq_closed htop, ?_⟩
      intro l hl
      rw [List.mem_singleton.1 hl]
      intro _ ends
      obtain ⟨after, walked⟩ := hwalk ends
      refine ⟨_, guarded_of_fits walked, ?_⟩
      show (Nesting.closed.afterText (openWith ..).text).isTopLevel = true
      rw [after]
      exact htop
    · next hcontinued =>
      rw [if_neg hcontinued]
      split at sub
      · next hlimit =>
        -- it is cut off, and called unbalanced
        rw [if_pos hlimit]
        refine ⟨rfl, ?_⟩
        intro l hl hbalanced
        rw [List.mem_singleton.1 hl] at hbalanced
        exact absurd hbalanced Bool.false_ne_true
      · next hlimit =>
        -- more lines are expected
        rw [if_neg hlimit]
        exact ⟨openWith_walksTo h fits (reported sub), fun l hl => absurd hl List.not_mem_nil⟩

/-- A line that declares the encoding leaves everything else as it is. -/
theorem InStep.succ (h : s.InStep ds number) (name : Text) :
    ({ s with encoding := some name } : ScanState).InStep ds (number + 1) := by
  unfold InStep at h ⊢
  cases hpending : s.pending with
  | none =>
      rw [hpending] at h
      exact h
  | some o =>
      rw [hpending] at h
      obtain ⟨hline, hwalk⟩ := h
      exact ⟨Nat.le_succ_of_le hline, fun ends => hwalk (ends.of_le (Nat.le_succ number))⟩

/-- **ONE LINE KEEPS THE SCANNER AND THE WALK IN STEP.** -/
theorem step_inStep (h : s.InStep ds number) (fits : s.stepFits cfg (number + 1) raw = true)
    (sub : ∀ d ∈ (s.step cfg (number + 1) raw).2.diagnostics, d ∈ ds) :
    (s.step cfg (number + 1) raw).1.InStep ds (number + 1) ∧
      ∀ l ∈ (s.step cfg (number + 1) raw).2.lines, l.WalksOut ds := by
  unfold step at sub ⊢
  unfold stepFits at fits
  split
  · next hfirst =>
    rw [if_pos hfirst] at sub
    split
    · next name _ => exact ⟨h.succ name, fun l hl => absurd hl List.not_mem_nil⟩
    · next hnone =>
      rw [hnone] at sub
      rw [hnone, Option.isSome_none, Bool.and_false, Bool.false_or] at fits
      exact stepCode_inStep h fits sub
  · next hlater =>
    rw [if_neg hlater] at sub
    refine stepCode_inStep h ((Bool.or_eq_true_iff.1 fits).resolve_left fun declares => ?_) sub
    simp only [Bool.and_eq_true, decide_eq_true_eq] at declares
    exact hlater ⟨declares.1.1.1, declares.1.1.2, declares.1.2⟩

/-- All lines keep them in step. -/
theorem run_walksOut {physical : List Text} (h : s.InStep ds number)
    (fits : s.runFits cfg (number + 1) physical = true)
    (sub : ∀ d ∈ (s.run cfg (number + 1) physical).2.diagnostics, d ∈ ds) :
    ∀ l ∈ (s.run cfg (number + 1) physical).2.lines, l.WalksOut ds := by
  induction physical generalizing number s with
  | nil => exact fun l hl => absurd hl List.not_mem_nil
  | cons raw rest ih =>
      obtain ⟨fitsNow, fitsLater⟩ := Bool.and_eq_true_iff.1 fits
      have now (d : Diagnostic) (hd : d ∈ (s.step cfg (number + 1) raw).2.diagnostics) : d ∈ ds :=
        sub d (List.mem_append_left _ hd)
      obtain ⟨hnext, hlines⟩ := step_inStep h fitsNow now
      -- a line of the output is completed by this step or by a later one
      intro l hl
      rcases List.mem_append.1 hl with hl | hl
      · exact hlines l hl
      · exact ih hnext fitsLater (fun d hd => sub d (List.mem_append_right _ hd)) l hl

/-- What is left at the end of a source is never balanced. -/
theorem finish_walksOut (last : Nat) : ∀ l ∈ (s.finish last).lines, l.WalksOut ds := by
  intro l hl hbalanced
  unfold finish at hl
  cases hpending : s.pending with
  | none =>
      rw [hpending] at hl
      exact absurd hl List.not_mem_nil
  | some o =>
      rw [hpending] at hl
      rw [List.mem_singleton.1 hl] at hbalanced
      exact absurd hbalanced Bool.false_ne_true

end ScanState

/-- **A BALANCED LOGICAL LINE IS BALANCED WHEN IT IS WALKED AFRESH**, if none of its physical
lines has a string that was reported as unterminated.  Where the scan was not stopped, the walk is
not stopped. -/
theorem LogicalLine.afterText_answers_of_balanced (cfg : Config) (source : Text) (r : ScanResult)
    (hr : Checked.scan cfg source = some r) (l : LogicalLine) (hl : l ∈ r.lines)
    (hbalanced : l.balanced = true) (ends : StringsEnd r.diagnostics l.line l.endLine) :
    ∃ n, Checked.afterText l.text = some n ∧ n.isTopLevel = true := by
  obtain ⟨fits, rfl⟩ := guarded_eq_some_iff.1 hr
  refine (?_ : l.WalksOut (LogicalLine.scan cfg source).diagnostics) hbalanced ends
  have start : ({} : ScanState).InStep (LogicalLine.scan cfg source).diagnostics 0 := rfl
  rcases List.mem_append.1 hl with hl | hl
  · exact ScanState.run_walksOut start fits (fun d hd => List.mem_append_left _ hd) l hl
  · exact ScanState.finish_walksOut _ l hl

/-- The broken string of the first line does not matter to the statement behind it, whose own
string runs over an escaped line end. -/
theorem LogicalLine.afterText_answers_behind_unterminated :
    let source := "bad = 'abc\nx = ('a', # one\n  'b\\\n c')\n".toList
    let l : LogicalLine := ⟨2, 4, 0, "x = ('a',\n'b\\\nc')".toList, true, []⟩
    l ∈ (LogicalLine.scan {} source).lines
      ∧ ∃ n, Checked.afterText l.text = some n ∧ n.isTopLevel = true := by
  intro source l
  have hl : l ∈ (LogicalLine.scan {} source).lines := by decide +kernel
  have hr : Checked.scan {} source = some (LogicalLine.scan {} source) :=
    guarded_of_fits (by decide +kernel)
  have hreports : (LogicalLine.scan {} source).diagnostics = [⟨1, .unterminatedString .single⟩] := by
    decide +kernel
  refine ⟨hl, LogicalLine.afterText_answers_of_balanced {} source _ hr l hl rfl ?_⟩
  intro number quote hfirst _ hmem
  rw [hreports] at hmem
  have hline : number = 1 := congrArg Diagnostic.line (List.mem_singleton.1 hmem)
  have hfirst : 2 ≤ number := hfirst
  omega

end ClassOutline
