/-
  ClassOutline.Proofs.LogicalLine.Joins
  ────────────────────────────────
  **JOINING IS BOUNDED, AND WHAT STAYS OPEN IS REPORTED ONCE.**

  A statement ends in one of three ways: nothing is open behind its last line,
  or it has been joined to as many lines as the settings allow, or the source
  ends.  Only in the last two is it unbalanced, and each of these comes with one
  report, at the last line of a statement that was cut off and at the first line
  of one that the end of the source left open.

  The invariant is about the open statement alone: it began as many lines ago as
  lines were joined to it, and there is room for one more (`HasRoom`).  One line
  keeps it and reports what it cuts off (`Reads.cutOff`), hence all lines do
  (`run_cutOff`), and what is open behind the last of them is left to `finish`.
-/
import ClassOutline.Proofs.LogicalLine.Reads
import Mathlib.Data.List.Forall2

namespace ClassOutline

/-! ## §1. Unbalanced lines and the reports about them. -/

/-- A string was closed at the end of its line. -/
def Cause.isUnterminatedString : Cause → Bool
  | .unterminatedString _ => true
  | _ => false

/-- The report is about nesting that was not resolved, and not about a string that was closed at
the end of its line. -/
def Diagnostic.isOpenReport (d : Diagnostic) : Bool :=
  decide (d.kind = .unresolvedNesting) && !d.cause.isUnterminatedString

/-- The logical lines that were closed while something was open. -/
def ScanOutput.unbalanced (o : ScanOutput) : List LogicalLine := o.lines.filter fun l => !l.balanced

/-- The reports about them. -/
def ScanOutput.openReports (o : ScanOutput) : List Diagnostic :=
  o.diagnostics.filter Diagnostic.isOpenReport

/-- The join limit closed the line `l`, as `d` reports at its end. -/
def LogicalLine.CutOff (cfg : Config) (l : LogicalLine) (d : Diagnostic) : Prop :=
  l.endLine = l.line + cfg.maxLineJoins ∧
    ∃ still, d = ⟨l.endLine, .joinLimitReached cfg.maxLineJoins still⟩

theorem ScanOutput.unbalanced_append (a b : ScanOutput) :
    (a ++ b).unbalanced = a.unbalanced ++ b.unbalanced := List.filter_append _ _

theorem ScanOutput.openReports_append (a b : ScanOutput) :
    (a ++ b).openReports = a.openReports ++ b.openReports := List.filter_append _ _

namespace ScanState

variable {cfg : Config} {number : Nat} {raw : Text} {s next : ScanState} {output : ScanOutput}

/-- The reports about the strings of a line are of the other kind. -/
theorem openReports_stringReports (ls : List LogicalLine) (number : Nat) (c : CodeLine)
    (ds : List Diagnostic) :
    (ScanOutput.mk ls (stringReports number c ++ ds)).openReports = (ScanOutput.mk ls ds).openReports := by
  have hnone : (stringReports number c).filter Diagnostic.isOpenReport = [] := by
    refine List.filter_eq_nil_iff.2 fun d hd => ?_
    obtain ⟨quote, -, rfl⟩ := List.mem_map.1 hd
    simp [Diagnostic.isOpenReport, Cause.isUnterminatedString]
  show (stringReports number c ++ ds).filter _ = ds.filter _
  rw [List.filter_append, hnone, List.nil_append]

/-! ## §2. One line. -/

/-- The statement that is open behind line `number` began as many lines before it as were joined,
and one more may be. -/
def HasRoom (cfg : Config) (number : Nat) (s : ScanState) : Prop :=
  ∀ o, s.pending = some o → o.line + o.joins = number ∧ o.joins < cfg.maxLineJoins

theorem hasRoom_of_idle (h : s.pending = none) : s.HasRoom cfg number := by
  intro o ho
  rw [h] at ho
  exact nomatch ho

/-- With the line that is read it has been joined to at most as many as there may be. -/
theorem HasRoom.openWith (h : s.HasRoom cfg number) (raw : Text) (c : CodeLine) :
    (s.openWith cfg (number + 1) raw c).line + (s.openWith cfg (number + 1) raw c).joins
        = number + 1 ∧
      (s.openWith cfg (number + 1) raw c).joins ≤ cfg.maxLineJoins := by
  unfold ScanState.openWith
  cases hpending : s.pending with
  | none =>
      show number + 1 + 0 = number + 1 ∧ 0 ≤ cfg.maxLineJoins
      omega
  | some o =>
      obtain ⟨hline, hjoins⟩ := h o hpending
      show o.line + (o.joins + 1) = number + 1 ∧ o.joins + 1 ≤ cfg.maxLineJoins
      omega

/-- **ONE LINE KEEPS ROOM FOR ANOTHER, OR CUTS THE STATEMENT OFF AND SAYS SO.** -/
theorem Reads.cutOff (outcome : Reads cfg (number + 1) raw s next output)
    (h : s.HasRoom cfg number) :
    next.HasRoom cfg (number + 1) ∧
      (∀ l ∈ output.lines, l.endLine ≤ l.line + cfg.maxLineJoins) ∧
      List.Forall₂ (LogicalLine.CutOff cfg) output.unbalanced output.openReports := by
  have silent (ls : List LogicalLine) (c : CodeLine) :
      (ScanOutput.mk ls (stringReports (number + 1) c)).openReports = [] := by
    have := openReports_stringReports ls (number + 1) c []
    rwa [List.append_nil] at this
  have noLine : ∀ l ∈ ([] : List LogicalLine), l.endLine ≤ l.line + cfg.maxLineJoins :=
    fun l hl => absurd hl List.not_mem_nil
  obtain ⟨hline, hjoins⟩ := h.openWith raw (CodeLine.read s.nesting raw)
  generalize ho : s.openWith cfg (number + 1) raw (CodeLine.read s.nesting raw) = o at hline hjoins
  cases outcome with
  | declares idle => exact ⟨hasRoom_of_idle idle, noLine, .nil⟩
  | passes idle =>
      rw [silent]
      exact ⟨hasRoom_of_idle idle, noLine, .nil⟩
  | ends =>
      rw [silent, ho]
      refine ⟨hasRoom_of_idle rfl, fun l hl => ?_, .nil⟩
      rw [List.mem_singleton.1 hl]
      show number + 1 ≤ o.line + cfg.maxLineJoins
      omega
  | cutsOff _ limit =>
      rw [openReports_stringReports]
      rw [ho] at limit ⊢
      have hfull : number + 1 = o.line + cfg.maxLineJoins := by omega
      refine ⟨hasRoom_of_idle rfl, fun l hl => ?_, .cons ⟨hfull, _, rfl⟩ .nil⟩
      rw [List.mem_singleton.1 hl]
      exact Nat.le_of_eq hfull
  | continues _ room =>
      rw [silent]
      rw [ho] at room ⊢
      refine ⟨fun o' ho' => ?_, noLine, .nil⟩
      obtain rfl := Option.some.inj ho'
      exact ⟨hline, room⟩

/-! ## §3. All lines. -/

theorem run_cutOff (physical : List Text) (h : s.HasRoom cfg number) :
    (s.run cfg (number + 1) physical).1.HasRoom cfg (number + physical.length) ∧
      (∀ l ∈ (s.run cfg (number + 1) physical).2.lines,
        l.endLine ≤ l.line + cfg.maxLineJoins) ∧
      List.Forall₂ (LogicalLine.CutOff cfg) (s.run cfg (number + 1) physical).2.unbalanced
        (s.run cfg (number + 1) physical).2.openReports := by
  induction physical generalizing number s with
  | nil => exact ⟨h, fun l hl => absurd hl List.not_mem_nil, .nil⟩
  | cons raw rest ih =>
      obtain ⟨hnext, hbound, hreports⟩ := (step_reads cfg (number + 1) raw s).cutOff h
      obtain ⟨hlast, hlater, hlaterReports⟩ := ih hnext
      have hlength : number + (raw :: rest).length = number + 1 + rest.length := by
        rw [List.length_cons]
        omega
      rw [run_cons, hlength, ScanOutput.unbalanced_append, ScanOutput.openReports_append]
      refine ⟨hlast, fun l hl => ?_, List.rel_append hreports hlaterReports⟩
      exact (List.mem_append.1 hl).elim (hbound l) (hlater l)

end ScanState

/-! ## §4. A whole source. -/

namespace LogicalLine

/-- The logical lines that only the end of the source closed. -/
def closedAtEnd (cfg : Config) (source : Text) : List LogicalLine :=
  ((ScanState.run cfg 1 {} source.lines).1.finish source.lines.length).lines

/-- What is reported of an unbalanced line: that the join limit closed it, at its end, or that the
end of the source did, where it began. -/
inductive Reported (cfg : Config) (source : Text) (l : LogicalLine) : Diagnostic → Prop
  | cutOff {still : Nesting} (earlier : l ∉ closedAtEnd cfg source)
      (full : l.endLine = l.line + cfg.maxLineJoins) :
      Reported cfg source l ⟨l.endLine, .joinLimitReached cfg.maxLineJoins still⟩
  | leftOpen {still : Nesting} (last : l ∈ closedAtEnd cfg source)
      (room : l.endLine < l.line + cfg.maxLineJoins) :
      Reported cfg source l ⟨l.line, .openAtEnd still⟩

/-- The end of the source closes one line at most, which had room for more and is reported. -/
theorem finish_reported (cfg : Config) (source : Text)
    (h : (ScanState.run cfg 1 {} source.lines).1.HasRoom cfg source.lines.length) :
    (closedAtEnd cfg source).length ≤ 1 ∧
      (∀ l ∈ closedAtEnd cfg source, l.endLine < l.line + cfg.maxLineJoins) ∧
      List.Forall₂ (Reported cfg source)
        ((ScanState.run cfg 1 {} source.lines).1.finish source.lines.length).unbalanced
        ((ScanState.run cfg 1 {} source.lines).1.finish source.lines.length).openReports := by
  generalize hend : (ScanState.run cfg 1 {} source.lines).1 = s at h
  have hclosed : closedAtEnd cfg source = (s.finish source.lines.length).lines := by
    rw [← hend]
    rfl
  cases hpending : s.pending with
  | none =>
      have hfinish : s.finish source.lines.length = {} := by
        unfold ScanState.finish
        rw [hpending]
      rw [hclosed, hfinish]
      exact ⟨Nat.zero_le 1, fun l hl => absurd hl List.not_mem_nil, .nil⟩
  | some o =>
      obtain ⟨hline, hjoins⟩ := h o hpending
      have hfinish : s.finish source.lines.length
          = ⟨[o.close source.lines.length false], [⟨o.line, .openAtEnd s.nesting⟩]⟩ := by
        unfold ScanState.finish
        rw [hpending]
      have hroom : source.lines.length < o.line + cfg.maxLineJoins := by omega
      have hmem : o.close source.lines.length false ∈ closedAtEnd cfg source := by
        rw [hclosed, hfinish]
        exact List.mem_singleton.2 rfl
      rw [hfinish]
      refine ⟨?_, fun l hl => ?_, .cons (.leftOpen hmem hroom) .nil⟩
      · rw [hclosed, hfinish]
        exact Nat.le_refl 1
      · rw [hclosed, hfinish] at hl
        rw [List.mem_singleton.1 hl]
        exact hroom

/-- **JOINING IS BOUNDED, AND EVERY UNBALANCED LINE IS REPORTED ONCE.**  No statement runs over
more line ends than the settings allow; the end of the source closes the last line at most; and
the reports about open nesting are those about the unbalanced lines, in order, each at the end of
a line that was cut off and at the beginning of one that was left open. -/
theorem scan_joins_bounded (cfg : Config) (source : Text) :
    (∀ l ∈ (scan cfg source).lines, l.endLine - l.line ≤ cfg.maxLineJoins) ∧
    ((closedAtEnd cfg source).length ≤ 1 ∧ closedAtEnd cfg source <:+ (scan cfg source).lines) ∧
    List.Forall₂ (Reported cfg source) ((scan cfg source).lines.filter fun l => !l.balanced)
      ((scan cfg source).diagnostics.filter Diagnostic.isOpenReport) := by
  have start : ScanState.HasRoom cfg 0 {} := ScanState.hasRoom_of_idle rfl
  obtain ⟨hroom, hbound, hreports⟩ := ScanState.run_cutOff source.lines start
  rw [Nat.zero_add] at hroom
  obtain ⟨hlength, hshort, hlast⟩ := finish_reported cfg source hroom
  refine ⟨fun l hl => ?_, ⟨hlength, List.suffix_append _ _⟩, ?_⟩
  · rcases List.mem_append.1 hl with hl | hl
    · have := hbound l hl
      omega
    · have := hshort l hl
      omega
  · -- a line that was cut off has no room, so the end of the source did not close it
    have hread : List.Forall₂ (Reported cfg source)
        (ScanState.run cfg 1 {} source.lines).2.unbalanced
        (ScanState.run cfg 1 {} source.lines).2.openReports := by
      refine hreports.imp fun l d hcut => ?_
      obtain ⟨hfull, still, rfl⟩ := hcut
      refine .cutOff (fun hmem => ?_) hfull
      have := hshort l hmem
      omega
    show List.Forall₂ _
      ((ScanState.run cfg 1 {} source.lines).2
        ++ (ScanState.run cfg 1 {} source.lines).1.finish source.lines.length).unbalanced
      ((ScanState.run cfg 1 {} source.lines).2
        ++ (ScanState.run cfg 1 {} source.lines).1.finish source.lines.length).openReports
    rw [ScanOutput.unbalanced_append, ScanOutput.openReports_append]
    exact List.rel_append hread hlast

/-- A statement that is cut off behind its second line, a string that is closed at the end of its
line, and a statement that the end of the source leaves open: two reports about two lines. -/
theorem scan_joins_bounded_of_two_open :
    let cfg : Config := { maxLineJoins := 1 }
    let source := "a = (\n1,\nb = 'oops\nc = [\n".toList
    let cut : LogicalLine := ⟨1, 2, 0, "a = (\n1,".toList, false, []⟩
    let left : LogicalLine := ⟨4, 4, 0, "c = [".toList, false, []⟩
    cut ∈ (scan cfg source).lines ∧ cut.endLine - cut.line ≤ 1 ∧
      ((scan cfg source).lines.filter fun l => !l.balanced) = [cut, left] ∧
      ∃ d e, (scan cfg source).diagnostics.filter Diagnostic.isOpenReport = [d, e] ∧
        Reported cfg source cut d ∧ Reported cfg source left e := by
  intro cfg source cut left
  have hcut : cut ∈ (scan cfg source).lines := by decide +kernel
  have hunbalanced : ((scan cfg source).lines.filter fun l => !l.balanced) = [cut, left] := by
    decide +kernel
  obtain ⟨hbound, -, hreports⟩ := scan_joins_bounded cfg source
  rw [hunbalanced] at hreports
  obtain ⟨d, ds, hd, hrest, hds⟩ := List.forall₂_cons_left_iff.1 hreports
  obtain ⟨e, es, he, hnil, rfl⟩ := List.forall₂_cons_left_iff.1 hrest
  obtain rfl := List.forall₂_nil_left_iff.1 hnil
  exact ⟨hcut, hbound cut hcut, hunbalanced, d, e, hds, hd, he⟩

end LogicalLine

end ClassOutline
