/-
  ClassOutline.Proofs.LogicalLine.Reached
  ────────────────────────────────
  **THE STATES OF A SCAN, LINE BY LINE.**

  `ScanState.reached` is what is known behind the first physical lines of a
  source, and `completed` are the statements that have come out by then.  One
  more line is one more step (`reached_succ`, `completed_succ`); what is still to
  come is `remaining`.

  Where reading resumes divides the statements: one that is complete ends in
  front of it (`endLine_lt_resumesAt`), one that is still to come does not begin
  there (`resumesAt_le_line`).
-/
import ClassOutline.Proofs.LogicalLine.Append

namespace ClassOutline

namespace ScanState

/-- What is known behind the first `i` physical lines of a source. -/
def reached (cfg : Config) (source : Text) (i : Nat) : ScanState :=
  (run cfg 1 {} (source.lines.take i)).1

/-- The logical lines that are complete there. -/
def completed (cfg : Config) (source : Text) (i : Nat) : List LogicalLine :=
  (run cfg 1 {} (source.lines.take i)).2.lines

variable {cfg : Config} {source : Text} {i : Nat} {raw : Text}

theorem settled_reached (cfg : Config) (source : Text) (i : Nat) : (reached cfg source i).Settled :=
  Settled.run rfl

/-! ## §1. One more line. -/

theorem run_take_succ (cfg : Config) (hraw : source.lines[i]? = some raw) :
    run cfg 1 {} (source.lines.take (i + 1))
      = (((reached cfg source i).step cfg (i + 1) raw).1,
          (run cfg 1 {} (source.lines.take i)).2
            ++ (((reached cfg source i).step cfg (i + 1) raw).2 ++ {})) := by
  have hi : i < source.lines.length := (List.getElem?_eq_some_iff.1 hraw).1
  have hlength : (source.lines.take i).length = i := by
    rw [List.length_take]
    omega
  have htake : source.lines.take (i + 1) = source.lines.take i ++ [raw] := by
    rw [List.take_add_one, hraw]
    rfl
  rw [htake, run_append, hlength, Nat.add_comm 1 i]
  rfl

theorem reached_succ (hraw : source.lines[i]? = some raw) :
    reached cfg source (i + 1) = ((reached cfg source i).step cfg (i + 1) raw).1 :=
  (congrArg Prod.fst (run_take_succ cfg hraw) :)

theorem completed_succ (hraw : source.lines[i]? = some raw) :
    completed cfg source (i + 1)
      = completed cfg source i ++ ((reached cfg source i).step cfg (i + 1) raw).2.lines := by
  show (run cfg 1 {} (source.lines.take (i + 1))).2.lines = _
  rw [run_take_succ cfg hraw]
  show _ ++ (_ ++ []) = _
  rw [List.append_nil]
  rfl

/-! ## §2. The whole scan. -/

/-- What is read behind the first `i` lines is read from the state that is reached there. -/
theorem run_lines (cfg : Config) (hi : i ≤ source.lines.length) :
    run cfg 1 {} source.lines
      = (((reached cfg source i).run cfg (i + 1) (source.lines.drop i)).1,
          (run cfg 1 {} (source.lines.take i)).2
            ++ ((reached cfg source i).run cfg (i + 1) (source.lines.drop i)).2) := by
  have h := run_append cfg 1 {} (source.lines.take i) (source.lines.drop i)
  have hlength : (source.lines.take i).length = i := by
    rw [List.length_take]
    omega
  rw [List.take_append_drop, hlength, Nat.add_comm 1 i] at h
  exact h

/-- A line reports to the whole scan. -/
theorem mem_diagnostics_of_step (hraw : source.lines[i]? = some raw) {d : Diagnostic}
    (hd : d ∈ ((reached cfg source i).step cfg (i + 1) raw).2.diagnostics) :
    d ∈ (LogicalLine.scan cfg source).diagnostics := by
  obtain ⟨hi, rfl⟩ := List.getElem?_eq_some_iff.1 hraw
  have hrest : d ∈ ((reached cfg source i).run cfg (i + 1) (source.lines.drop i)).2.diagnostics := by
    rw [List.drop_eq_getElem_cons hi, run_cons]
    exact List.mem_append_left _ hd
  refine List.mem_append_left _ ?_
  rw [run_lines cfg (Nat.le_of_lt hi)]
  exact List.mem_append_right _ hrest

/-- The statements of a source are complete behind a line, or still to come. -/
theorem lines_scan (cfg : Config) (hi : i ≤ source.lines.length) :
    (LogicalLine.scan cfg source).lines
      = completed cfg source i ++ (reached cfg source i).remaining cfg i (source.lines.drop i) := by
  have hlast : i + (source.lines.drop i).length = source.lines.length := by
    rw [List.length_drop]
    omega
  show (run cfg 1 {} source.lines).2.lines
    ++ ((run cfg 1 {} source.lines).1.finish source.lines.length).lines = _
  rw [run_lines cfg hi]
  show (_ ++ _) ++ _ = _ ++ (_ ++ _)
  rw [hlast, List.append_assoc]
  rfl

/-- What is still to come is what the next line completes, and what comes behind it. -/
theorem remaining_reached (hraw : source.lines[i]? = some raw) :
    (reached cfg source i).remaining cfg i (source.lines.drop i)
      = ((reached cfg source i).step cfg (i + 1) raw).2.lines
        ++ (reached cfg source (i + 1)).remaining cfg (i + 1) (source.lines.drop (i + 1)) := by
  rw [reached_succ hraw]
  obtain ⟨hi, rfl⟩ := List.getElem?_eq_some_iff.1 hraw
  rw [List.drop_eq_getElem_cons hi, remaining_cons]

/-- What a line completes is among the statements of the source. -/
theorem mem_lines_of_step (hraw : source.lines[i]? = some raw) {l : LogicalLine}
    (hl : l ∈ ((reached cfg source i).step cfg (i + 1) raw).2.lines) :
    l ∈ (LogicalLine.scan cfg source).lines := by
  have hi : i ≤ source.lines.length := Nat.le_of_lt (List.getElem?_eq_some_iff.1 hraw).1
  rw [lines_scan cfg hi, remaining_reached hraw]
  exact List.mem_append_right _ (List.mem_append_left _ hl)

/-! ## §3. Where reading resumes. -/

/-- If the source ended behind line `i`, its statements would be those that are complete and the
one that is open. -/
theorem accounted_reached (cfg : Config) (hi : i ≤ source.lines.length) :
    Accounted 0 {} (source.lines.take i)
      (completed cfg source i ++ ((reached cfg source i).finish i).lines) := by
  have hlast : 0 + (source.lines.take i).length = i := by
    rw [List.length_take]
    omega
  have h := remaining_accounted cfg 0 {} (source.lines.take i) (spans_of_idle rfl)
    fun raw hraw => Text.lineFeed_not_mem_of_mem_lines (List.mem_of_mem_take hraw)
  unfold remaining at h
  rw [hlast] at h
  exact h

theorem lines_finish {s : ScanState} {o : OpenLine} (h : s.pending = some o) (last : Nat) :
    (s.finish last).lines = [o.close last false] := by
  unfold finish
  rw [h]

theorem spans_reached (cfg : Config) (hi : i ≤ source.lines.length) : (reached cfg source i).Spans i := by
  intro o ho
  have h := (accounted_reached cfg hi).ranges (o.close i false)
  rw [lines_finish ho] at h
  obtain ⟨-, hline, -, hcount⟩ := h (List.mem_append_right _ (List.mem_singleton.2 rfl))
  exact ⟨hline, hcount⟩

/-- A statement that is complete ends in front of where reading resumes. -/
theorem endLine_lt_resumesAt (hi : i ≤ source.lines.length) {l : LogicalLine}
    (hl : l ∈ completed cfg source i) : l.endLine < (reached cfg source i).resumesAt i := by
  have h := accounted_reached cfg hi
  cases hpending : (reached cfg source i).pending with
  | none =>
      have hlast := (h.ranges l (List.mem_append_left _ hl)).2.2.1
      rw [List.length_take] at hlast
      rw [resumesAt_of_idle hpending]
      omega
  | some o =>
      -- the open statement would be the next one
      have hapart := h.apart
      rw [lines_finish hpending] at hapart
      rw [resumesAt_of_open hpending]
      exact (List.pairwise_append.1 hapart).2.2 l hl _ (List.mem_singleton.2 rfl)

/-- A statement that is still to come does not begin in front of it. -/
theorem resumesAt_le_line (hi : i ≤ source.lines.length) {l : LogicalLine}
    (hl : l ∈ (reached cfg source i).remaining cfg i (source.lines.drop i)) :
    (reached cfg source i).resumesAt i ≤ l.line := by
  have h := remaining_accounted cfg i (reached cfg source i) (source.lines.drop i)
    (spans_reached cfg hi) fun raw hraw =>
      Text.lineFeed_not_mem_of_mem_lines (List.mem_of_mem_drop hraw)
  exact (h.ranges l hl).1

/-- A line between two statements that completes nothing belongs to no statement. -/
theorem outside_of_idle (cfg : Config) (hraw : source.lines[i]? = some raw)
    (idle : (reached cfg source i).pending = none)
    (stillIdle : (reached cfg source (i + 1)).pending = none)
    (silent : ((reached cfg source i).step cfg (i + 1) raw).2.lines = []) :
    ∀ l ∈ (LogicalLine.scan cfg source).lines, ¬ (l.line ≤ i + 1 ∧ i + 1 ≤ l.endLine) := by
  intro l hl
  have hi : i + 1 ≤ source.lines.length := (List.getElem?_eq_some_iff.1 hraw).1
  rw [lines_scan cfg (Nat.le_of_succ_le hi), remaining_reached hraw, silent, List.nil_append] at hl
  rintro ⟨hfirst, hlast⟩
  rcases List.mem_append.1 hl with hl | hl
  · have hbefore := endLine_lt_resumesAt (Nat.le_of_succ_le hi) hl
    rw [resumesAt_of_idle idle] at hbefore
    omega
  · have hbehind := resumesAt_le_line hi hl
    rw [resumesAt_of_idle stillIdle] at hbehind
    omega

end ScanState

end ClassOutline
