/-
  ClassOutline.Proofs.LogicalLine.ShortSources
  ────────────────────────────────
  **NO SCAN OF A SHORT SOURCE IS STOPPED.**

  Behind a line at most as many brackets are open as before it and as it has
  characters (`depth_read_le`).  So no count ever exceeds the number of characters
  of the source, and a source with fewer characters than a word counts is scanned to
  its end, if as many tab stops as it has characters are columns
  (`scan_answers_of_length`).
-/
import ClassOutline.Proofs.LogicalLine.Reads
import ClassOutline.Proofs.LogicalLine.TabStops
import ClassOutline.Proofs.Text.Lines
import Mathlib.Algebra.GroupWithZero.Nat
import Mathlib.Algebra.Order.Group.Nat

namespace ClassOutline

/-! ## §1. Lengths of lines. -/

namespace Text

/-- The fields of a text, each with the separator behind it, have one character more than it. -/
theorem sum_length_fields (sep : Char) (t : Text) :
    ((fields sep t).map fun f => f.length + 1).sum = t.length + 1 := by
  induction t with
  | nil => rfl
  | cons c rest ih =>
      rw [List.length_cons]
      by_cases hc : c = sep
      · subst hc
        rw [fields_cons_self, List.map_cons, List.sum_cons, List.length_nil]
        omega
      · obtain ⟨f, fs, hrest, hcons⟩ := fields_cons_of_ne hc rest
        rw [hrest, List.map_cons, List.sum_cons] at ih
        rw [hcons, List.map_cons, List.sum_cons, List.length_cons]
        omega

theorem length_dropReturn_le (l : Text) : (lines.dropReturn l).length ≤ l.length := by
  unfold lines.dropReturn
  split
  · rw [List.length_dropLast]
    omega
  · exact Nat.le_refl _

theorem sum_length_close_le (fs : List Text) :
    ((lines.close fs).map fun f => f.length + 1).sum ≤ (fs.map fun f => f.length + 1).sum := by
  fun_induction lines.close fs with
  | case1 => exact Nat.le_refl _
  | case2 last _ => exact Nat.zero_le _
  | case3 last _ => exact Nat.le_refl _
  | case4 f fs _ ih =>
      have first := length_dropReturn_le f
      rw [List.map_cons, List.map_cons, List.sum_cons, List.sum_cons]
      omega

/-- So have its lines, at most. -/
theorem sum_length_lines_le (t : Text) :
    (t.lines.map fun raw => raw.length + 1).sum ≤ t.length + 1 :=
  (sum_length_close_le _).trans (Nat.le_of_eq (sum_length_fields '\n' t))

theorem length_le_of_mem_lines {t raw : Text} (h : raw ∈ t.lines) : raw.length ≤ t.length :=
  Nat.le_of_succ_le_succ <|
    (List.single_le_sum (fun _ _ => Nat.zero_le _) _
      (List.mem_map_of_mem (f := fun raw : Text => raw.length + 1) h)).trans t.sum_length_lines_le

end Text

/-! ## §2. Brackets behind a line. -/

namespace Nesting

theorem depth_afterText_le (n : Nesting) (t : Text) :
    (n.afterText t).depth ≤ n.depth + t.length := by
  fun_induction afterText n t with
  | case1 n => exact Nat.le_add_right _ _
  | case2 n c rest ih =>
      have first := n.depth_advance_le c rest
      rw [List.length_drop] at ih
      rw [List.length_cons]
      omega

theorem length_code_le (n : Nesting) (raw : Text) : (n.code raw).1.length ≤ raw.length := by
  rcases code_prefix n raw with h | ⟨comment, h⟩
  · exact Nat.le_of_eq (congrArg List.length h).symm
  · have whole := congrArg List.length h
    rw [List.length_append] at whole
    omega

end Nesting

theorem CodeLine.depth_read_le (n : Nesting) (raw : Text) :
    (CodeLine.read n raw).nesting.depth ≤ n.depth + raw.length := by
  -- that a string has to be closed changes no count
  have same : (CodeLine.read n raw).nesting.depth = (n.code raw).2.depth := by
    unfold CodeLine.read
    dsimp only
    split <;> split <;> rfl
  have after := n.depth_afterText_le (n.code raw).1
  have code := n.length_code_le raw
  rw [Nesting.afterText_code] at after
  omega

/-! ## §3. Short sources. -/

namespace ScanState

variable {cfg : Config} {number : Nat} {raw : Text} {s : ScanState}

/-- Behind a line at most as many brackets are open as before it and as it has characters. -/
theorem Reads.depth_le {next : ScanState} {output : ScanOutput}
    (outcome : Reads cfg number raw s next output) :
    next.nesting.depth ≤ s.nesting.depth + raw.length := by
  have read := CodeLine.depth_read_le s.nesting raw
  cases outcome with
  | declares _ _ _ _ => exact Nat.le_add_right _ _
  | passes _ _ => exact read
  | ends _ => exact read
  | cutsOff _ _ => exact Nat.zero_le _
  | continues _ _ => exact read

theorem stepFits_of_length (hdepth : s.nesting.depth + raw.length < Nesting.countLimit)
    (htabs : raw.length * max cfg.tabWidth.toNat 1 < columnLimit) :
    s.stepFits cfg number raw = true := by
  have code := s.nesting.length_code_le raw
  have after := CodeLine.depth_read_le s.nesting raw
  have steps : s.nesting.stepsFit (s.nesting.code raw).1 = true := by
    refine Nesting.readFits_of_length (fun m hm => ?_) (by omega)
    rw [Nesting.countsFit_of_depthFits m (Nesting.depthFits_of_lt hm)]
    rfl
  unfold stepFits stepCodeFits
  dsimp only
  rw [steps, indentFits_of_length htabs, Nesting.depthFits_of_lt (by omega), Bool.or_true,
    Bool.or_true, Bool.and_true, Bool.and_true, Bool.or_true]

theorem runFits_of_length {physical : List Text}
    (hdepth : s.nesting.depth + (physical.map fun raw => raw.length + 1).sum ≤ Nesting.countLimit)
    (htabs : ∀ raw ∈ physical, raw.length * max cfg.tabWidth.toNat 1 < columnLimit) :
    s.runFits cfg number physical = true := by
  induction physical generalizing number s with
  | nil => rfl
  | cons raw rest ih =>
      obtain ⟨first, later⟩ := List.forall_mem_cons.1 htabs
      rw [List.map_cons, List.sum_cons] at hdepth
      have next := (step_reads cfg number raw s).depth_le
      rw [runFits, stepFits_of_length (by omega) first, ih (by omega) later]
      rfl

end ScanState

/-- **A SOURCE IS SCANNED TO ITS END IF IT HAS FEWER CHARACTERS THAN A WORD COUNTS** and as many tab
stops as it has characters are columns. -/
theorem LogicalLine.scan_answers_of_length {cfg : Config} {source : Text}
    (hlength : source.length < Nesting.countLimit)
    (htabs : source.length * max cfg.tabWidth.toNat 1 < columnLimit) :
    Checked.scan cfg source = some (LogicalLine.scan cfg source) := by
  have total := source.sum_length_lines_le
  refine guarded_of_fits (ScanState.runFits_of_length ?_ fun raw hraw => ?_)
  · show 0 + _ ≤ _
    omega
  · have short := Text.length_le_of_mem_lines hraw
    have stops := Nat.mul_le_mul_right (max cfg.tabWidth.toNat 1) short
    omega

end ClassOutline
