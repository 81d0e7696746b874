/-
  ClassOutline.Proofs.Checked.Sources
  ────────────────────────────────
  **NO EXTRACTION FROM A SHORT SOURCE IS STOPPED.**

  Each line of a source pays for what it adds to the statement that is open: the
  columns in front of it and its code.  What was paid is spent on the statements
  that are completed (`Reads.weight_le`), so all statements of a source weigh no more
  than its lines (`LogicalLine.sum_weight_scan_le`).

  That is used twice.  If a column weighs nothing, it bounds the characters of each
  statement, so a word can count their brackets.  If a column weighs one and a
  character as much as it takes bytes, it bounds the room of all statements together.
  So the statements of a source are short, and none of the runs over them is stopped
  (`Checked.outline_of_length`).
-/
import ClassOutline.Proofs.Checked.ShortLines
import ClassOutline.Proofs.LogicalLine.ShortSources
import Mathlib.Algebra.GroupWithZero.Nat
import Mathlib.Algebra.Order.BigOperators.Group.List

namespace ClassOutline

variable (a b : Nat)

/-! ## §1. Weights. -/

/-- The weight of a statement, if a column in front of it weighs `a` and a character, or the end
of the line, `b`. -/
def statementWeight (indent : Nat) (text : Text) : Nat := a * indent + b * (text.length + 1)

/-- So much weighs a logical line. -/
def LogicalLine.weight (l : LogicalLine) : Nat := statementWeight a b l.indent l.text

/-- So much weighs the statement that is open. -/
def ScanState.weight (s : ScanState) : Nat :=
  s.pending.elim 0 fun o => statementWeight a b o.indent o.text

/-- What a character of a physical line, or its end, pays: it moves on by one tab stop at most. -/
def characterPrice (cfg : Config) : Nat := a * max cfg.tabWidth.toNat 1 + b

theorem length_lt_statementWeight (indent : Nat) (text : Text) :
    text.length < statementWeight 0 1 indent text := by
  unfold statementWeight
  omega

theorem rowRoom_le_statementWeight (indent : Nat) (text : Text) :
    rowRoom indent text ≤ statementWeight 1 4 indent text := by
  unfold rowRoom statementWeight
  omega

theorem indentWidth_le (tabWidth : Nat) (raw : Text) :
    indentWidth tabWidth raw ≤ raw.length * max tabWidth 1 := by
  have stops := exactFrom_le (by omega : 0 < max tabWidth 1) raw 0
  rw [indentWidth_eq]
  exact stops.trans (Nat.le_of_eq (Nat.zero_add _))

theorem CodeLine.length_code_read_le (n : Nesting) (raw : Text) :
    (CodeLine.read n raw).code.length ≤ raw.length := by
  have code := n.length_code_le raw
  have trimmed := Text.length_trim_le (n.code raw).1
  rcases CodeLine.code_read n raw with h | ⟨-, h⟩
  · rw [h]
    omega
  · have ends := Text.length_trimEnd_le (n.code raw).1.trim.dropLast
    rw [List.length_dropLast] at ends
    rw [h]
    omega

/-! ## §2. A line pays for its statement. -/

namespace ScanState

variable (cfg : Config) (number : Nat) (raw : Text) (s : ScanState)

/-- A line of code adds at most what it pays to the statement that is open. -/
theorem weight_openWith_le {o : OpenLine}
    (ho : s.openWith cfg number raw (CodeLine.read s.nesting raw) = o) :
    statementWeight a b o.indent o.text
      ≤ s.weight a b + (raw.length + 1) * characterPrice a b cfg := by
  have code := CodeLine.length_code_read_le s.nesting raw
  have characters := Nat.mul_le_mul_left b (Nat.add_le_add_right code 1)
  have price : (raw.length + 1) * characterPrice a b cfg
      = a * ((raw.length + 1) * max cfg.tabWidth.toNat 1) + b * (raw.length + 1) := by
    unfold characterPrice
    rw [Nat.mul_add, Nat.mul_left_comm, Nat.mul_comm _ b]
  subst ho
  rw [price]
  unfold openWith weight
  cases s.pending with
  | some o =>
      -- the line is joined to the statement by a line feed
      have joined : (o.text ++ '\n' :: (CodeLine.read s.nesting raw).code).length + 1
          = (o.text.length + 1) + ((CodeLine.read s.nesting raw).code.length + 1) := by
        rw [List.length_append, List.length_cons]
        omega
      dsimp only [Option.elim_some]
      unfold statementWeight
      rw [joined, Nat.mul_add]
      omega
  | none =>
      have columns : a * indentWidth cfg.tabWidth.toNat raw
          ≤ a * ((raw.length + 1) * max cfg.tabWidth.toNat 1) :=
        Nat.mul_le_mul_left a ((indentWidth_le _ raw).trans
          (Nat.mul_le_mul_right _ (Nat.le_add_right _ 1)))
      dsimp only [Option.elim_none]
      unfold statementWeight
      omega

variable {cfg number raw s}

/-- **WHAT A LINE PAYS IS SPENT OR KEPT**: on the statement that it completes, or in the one that
it leaves open. -/
theorem Reads.weight_le {next : ScanState} {output : ScanOutput}
    (outcome : Reads cfg number raw s next output) :
    (output.lines.map (LogicalLine.weight a b)).sum + next.weight a b
      ≤ s.weight a b + (raw.length + 1) * characterPrice a b cfg := by
  have opened := weight_openWith_le a b cfg number raw s rfl
  cases outcome with
  | declares _ _ _ _ =>
      rw [List.map_nil, List.sum_nil, Nat.zero_add]
      exact Nat.le_add_right _ _
  | passes _ _ =>
      rw [List.map_nil, List.sum_nil, Nat.zero_add]
      exact Nat.le_add_right _ _
  | ends _ =>
      rw [List.map_singleton, List.sum_singleton]
      exact opened
  | cutsOff _ _ =>
      rw [List.map_singleton, List.sum_singleton]
      exact opened
  | continues _ _ =>
      rw [List.map_nil, List.sum_nil, Nat.zero_add]
      exact opened

theorem sum_weight_run_le (cfg : Config) (physical : List Text) (number : Nat) (s : ScanState) :
    ((s.run cfg number physical).2.lines.map (LogicalLine.weight a b)).sum
        + (s.run cfg number physical).1.weight a b
      ≤ s.weight a b
        + (physical.map fun raw => raw.length + 1).sum * characterPrice a b cfg := by
  induction physical generalizing number s with
  | nil =>
      rw [run]
      show 0 + s.weight a b ≤ _
      rw [Nat.zero_add]
      exact Nat.le_add_right _ _
  | cons raw rest ih =>
      have first := (step_reads cfg number raw s).weight_le a b
      have later := ih (number + 1) (s.step cfg number raw).1
      have lines (x y : ScanOutput) : ((x ++ y).lines.map (LogicalLine.weight a b)).sum
          = (x.lines.map (LogicalLine.weight a b)).sum
            + (y.lines.map (LogicalLine.weight a b)).sum := by
        show (List.map _ (x.lines ++ y.lines)).sum = _
        rw [List.map_append, List.sum_append]
      rw [run_cons, List.map_cons, List.sum_cons, Nat.add_mul]
      dsimp only
      rw [lines]
      omega

end ScanState

/-- **THE STATEMENTS OF A SOURCE WEIGH NO MORE THAN ITS LINES.** -/
theorem LogicalLine.sum_weight_scan_le (cfg : Config) (source : Text) :
    ((LogicalLine.scan cfg source).lines.map (LogicalLine.weight a b)).sum
      ≤ (source.length + 1) * characterPrice a b cfg := by
  have total := Nat.mul_le_mul_right (characterPrice a b cfg) source.sum_length_lines_le
  have spent := ScanState.sum_weight_run_le a b cfg source.lines 1 {}
  -- a statement that is open at the end is completed there
  have left (s : ScanState) (last : Nat) :
      ((s.finish last).lines.map (LogicalLine.weight a b)).sum = s.weight a b := by
    unfold ScanState.finish ScanState.weight
    cases s.pending with
    | some o => exact List.sum_singleton
    | none => rfl
  have start : ScanState.weight a b {} = 0 := rfl
  unfold LogicalLine.scan
  dsimp only
  show (List.map _ (_ ++ _)).sum ≤ _
  rw [List.map_append, List.sum_append, left]
  omega

/-! ## §3. Short sources. -/

section

variable {cfg : Config} {source : Text}

/-- **THE STATEMENTS OF A SHORT SOURCE ARE SHORT.** -/
theorem LogicalLine.areShort_scan (hlength : source.length < Nesting.countLimit)
    (hroom : (source.length + 1) * characterPrice 1 4 cfg < textLimit) :
    LogicalLine.AreShort (LogicalLine.scan cfg source).lines where
  brackets l hl := by
    have one : LogicalLine.weight 0 1 l ≤ _ :=
      List.single_le_sum (fun _ _ => Nat.zero_le _) _ (List.mem_map_of_mem hl)
    have all := LogicalLine.sum_weight_scan_le 0 1 cfg source
    have characters : l.text.length < l.weight 0 1 := length_lt_statementWeight l.indent l.text
    have price : characterPrice 0 1 cfg = 1 := by
      unfold characterPrice
      rw [Nat.zero_mul]
    rw [price] at all
    omega
  room := by
    refine Nat.lt_of_le_of_lt ?_ hroom
    exact (List.sum_le_sum fun l _ => rowRoom_le_statementWeight l.indent l.text).trans
      (LogicalLine.sum_weight_scan_le 1 4 cfg source)

theorem UnitOutline.sourceFits_of_length (hlength : source.length < Nesting.countLimit)
    (hroom : (source.length + 1) * characterPrice 1 4 cfg < textLimit) :
    UnitOutline.sourceFits cfg source = true := by
  have short := LogicalLine.areShort_scan hlength hroom
  have htabs : source.length * max cfg.tabWidth.toNat 1 < columnLimit := by
    have limits : textLimit ≤ columnLimit := by decide
    have price : max cfg.tabWidth.toNat 1 ≤ characterPrice 1 4 cfg := by
      unfold characterPrice
      omega
    have stops := Nat.mul_le_mul (Nat.le_add_right source.length 1) price
    omega
  have scanned := (guarded_eq_some_iff.1 (LogicalLine.scan_answers_of_length hlength htabs)).1
  have read := (guarded_eq_some_iff.1 (Checked.events_of_short cfg short)).1
  have taken := (guarded_eq_some_iff.1 (Checked.classes_of_short cfg short)).1
  unfold UnitOutline.sourceFits
  dsimp only
  rw [scanned, read, taken]
  rfl

/-- An extraction that is cancelled is stopped nowhere if it is not without. -/
theorem UnitOutline.sourceFitsUnless_of_sourceFits (isCancelled : Nat → Bool)
    (h : UnitOutline.sourceFits cfg source = true) :
    UnitOutline.sourceFitsUnless isCancelled cfg source = true := by
  obtain ⟨hread, -⟩ := Bool.and_eq_true_iff.1 h
  obtain ⟨scanned, hlines⟩ := Bool.and_eq_true_iff.1 hread
  obtain ⟨read, -⟩ := Bool.and_eq_true_iff.1 hlines
  unfold UnitOutline.sourceFitsUnless
  dsimp only
  rw [scanned, Bool.true_and, Bool.or_eq_true]
  right
  split
  · next k _ =>
    -- the lines in front of the question that cancels it
    rw [← List.take_append_drop k (LogicalLine.scan cfg source).lines,
      Context.linesFit_append, Bool.and_eq_true] at read
    exact read.1
  · exact h

/-- **NO EXTRACTION FROM A SHORT SOURCE IS STOPPED**, be it cancelled or not.  Short is a source
with fewer characters than a word counts, if a text has room for its characters and for as many
tab stops. -/
theorem Checked.outline_of_length (hlength : source.length < Nesting.countLimit)
    (hroom : (source.length + 1) * characterPrice 1 4 cfg < textLimit) (unit : Text) :
    Checked.outline cfg unit source = some (UnitOutline.ofSource cfg unit source)
      ∧ ∀ isCancelled, Checked.outlineUnless isCancelled cfg unit source
          = some (UnitOutline.ofSourceUnless isCancelled cfg unit source) := by
  have fits := UnitOutline.sourceFits_of_length hlength hroom
  exact ⟨guarded_of_fits fits, fun isCancelled =>
    guarded_of_fits (UnitOutline.sourceFitsUnless_of_sourceFits isCancelled fits)⟩

/-- **NEITHER IS ONE FROM SEVERAL SOURCES**, each with fewer characters than a word counts, if tab
stops are no further apart than 2³⁰ columns. -/
theorem Checked.outlines_of_length (htabs : cfg.tabWidth.toNat ≤ 2 ^ 30) {units : List SourceUnit}
    (hlength : ∀ u ∈ units, u.source.length < Nesting.countLimit) :
    Checked.outlines cfg units = some (UnitOutline.ofSources cfg units)
      ∧ ∀ isCancelled, Checked.outlinesUnless isCancelled cfg units
          = some (UnitOutline.ofSourcesUnless isCancelled cfg units) := by
  have answers (u : SourceUnit) (hu : u ∈ units) := by
    have room : (u.source.length + 1) * characterPrice 1 4 cfg
        ≤ Nesting.countLimit * (2 ^ 30 + 4) := by
      have price : characterPrice 1 4 cfg ≤ 2 ^ 30 + 4 := by
        unfold characterPrice
        omega
      exact Nat.mul_le_mul (hlength u hu) price
    exact Checked.outline_of_length (hlength u hu) (Nat.lt_of_le_of_lt room (by decide)) u.name
  exact ⟨mapM_of_forall_eq_some fun u hu => (answers u hu).1,
    fun isCancelled => mapM_of_forall_eq_some fun u hu => (answers u hu).2 isCancelled⟩

end

end ClassOutline
