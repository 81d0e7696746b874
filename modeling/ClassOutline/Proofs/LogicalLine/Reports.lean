/-
  ClassOutline.Proofs.LogicalLine.Reports
  ────────────────────────────────
  **WHAT IS ODD ABOUT A SOURCE IS ODD ABOUT ONE OF ITS LINES.**

  While a source is scanned, a report is about the physical line that is read;
  only at its end one is dated back, to the line where the open statement
  began.  That line was read before (`ScanState.OpenedWithin`), so every report
  is about a line that the source has (`LogicalLine.scan_reports_within`).
-/
import ClassOutline.Proofs.LogicalLine.Reads

namespace ClassOutline

namespace ScanState

/-- The statement that is open behind line `number` began on a line up to it. -/
def OpenedWithin (number : Nat) (s : ScanState) : Prop :=
  ∀ o, s.pending = some o → 1 ≤ o.line ∧ o.line ≤ number

variable {cfg : Config} {number : Nat} {raw : Text} {s next : ScanState} {output : ScanOutput}

theorem openedWithin_of_idle (h : s.pending = none) : s.OpenedWithin number := by
  intro o ho
  rw [h] at ho
  exact nomatch ho

theorem mem_stringReports {c : CodeLine} {d : Diagnostic} (hd : d ∈ stringReports number c) :
    d.line = number := by
  obtain ⟨quote, -, rfl⟩ := List.mem_map.1 hd
  rfl

/-- A line is reported as itself. -/
theorem Reads.line_eq (h : Reads cfg number raw s next output) :
    ∀ d ∈ output.diagnostics, d.line = number := by
  intro d hd
  cases h with
  | declares => exact absurd hd List.not_mem_nil
  | passes => exact mem_stringReports hd
  | ends => exact mem_stringReports hd
  | cutsOff =>
      rcases List.mem_append.1 hd with hd | hd
      · exact mem_stringReports hd
      · rw [List.mem_singleton.1 hd]
  | continues => exact mem_stringReports hd

/-- A statement that is still open began at the line that was read, or was open before it. -/
theorem Reads.openedWithin (h : Reads cfg (number + 1) raw s next output)
    (hs : s.OpenedWithin number) : next.OpenedWithin (number + 1) := by
  cases h with
  | declares idle => exact openedWithin_of_idle idle
  | passes idle => exact openedWithin_of_idle idle
  | ends => exact openedWithin_of_idle rfl
  | cutsOff => exact openedWithin_of_idle rfl
  | continues =>
      intro o ho
      obtain rfl := Option.some.inj ho
      unfold openWith
      cases hpending : s.pending with
      | none => exact ⟨Nat.le_add_left 1 number, Nat.le_refl _⟩
      | some o =>
          obtain ⟨hfirst, hlast⟩ := hs o hpending
          exact ⟨hfirst, Nat.le_succ_of_le hlast⟩

/-- Reading the lines behind `number` reports lines up to the last of them only. -/
theorem run_reports_within (cfg : Config) (physical : List Text) (hs : s.OpenedWithin number) :
    (∀ d ∈ (s.run cfg (number + 1) physical).2.diagnostics,
        1 ≤ d.line ∧ d.line ≤ number + physical.length) ∧
      (s.run cfg (number + 1) physical).1.OpenedWithin (number + physical.length) := by
  induction physical generalizing number s with
  | nil => exact ⟨fun _ hd => absurd hd List.not_mem_nil, hs⟩
  | cons raw rest ih =>
      have outcome := step_reads cfg (number + 1) raw s
      have hlast : number + (raw :: rest).length = number + 1 + rest.length := by
        rw [List.length_cons]
        omega
      obtain ⟨later, opened⟩ := ih (outcome.openedWithin hs)
      rw [run_cons, hlast]
      refine ⟨fun d hd => ?_, opened⟩
      rcases List.mem_append.1 hd with hd | hd
      · rw [outcome.line_eq d hd]
        omega
      · exact later d hd

theorem finish_reports_within (hs : s.OpenedWithin number) :
    ∀ d ∈ (s.finish number).diagnostics, 1 ≤ d.line ∧ d.line ≤ number := by
  intro d hd
  unfold finish at hd
  split at hd
  · exact absurd hd List.not_mem_nil
  · next o ho =>
    rw [List.mem_singleton.1 hd]
    exact hs o ho

end ScanState

/-- **EVERY REPORT OF A SCAN IS ABOUT A LINE OF THE SOURCE.** -/
theorem LogicalLine.scan_reports_within (cfg : Config) (source : Text) :
    ∀ d ∈ (scan cfg source).diagnostics, 1 ≤ d.line ∧ d.line ≤ source.lines.length := by
  have idle : ScanState.OpenedWithin 0 {} := ScanState.openedWithin_of_idle rfl
  obtain ⟨read, opened⟩ := ScanState.run_reports_within cfg source.lines idle
  simp only [Nat.zero_add] at read opened
  intro d hd
  exact (List.mem_append.1 hd).elim (read d) (ScanState.finish_reports_within opened d)

end ClassOutline
