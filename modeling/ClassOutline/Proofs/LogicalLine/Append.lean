/-
  ClassOutline.Proofs.LogicalLine.Append
  ────────────────────────────────
  **SCANNING BEGINS AFRESH BETWEEN TWO STATEMENTS.**

  Where no statement is open, nothing of what was read before is remembered but
  the declared encoding: the brackets and the string are closed whatever was
  broken (`Settled`), and the comments above are gone unless the last line was
  one of them (`comments_of_last`).  From such a state a source is read as if it
  stood alone, all its lines moved (`run_shift`), and is stopped where it would be
  stopped alone (`runFits_shift`).  Hence two sources one behind the other are
  scanned as each by itself (`scan_append`, `scan_answers_append`).
-/
import ClassOutline.Proofs.LogicalLine.Balanced
import ClassOutline.Proofs.LogicalLine.Ranges

namespace ClassOutline

/-! ## §1. Moving to later lines. -/

/-- The logical line, `k` lines further down. -/
def LogicalLine.shift (k : Nat) (l : LogicalLine) : LogicalLine :=
  { l with line := l.line + k, endLine := l.endLine + k }

/-- The diagnostic, `k` lines further down. -/
def Diagnostic.shift (k : Nat) (d : Diagnostic) : Diagnostic := { d with line := d.line + k }

/-- The open statement, `k` lines further down. -/
def OpenLine.shift (k : Nat) (o : OpenLine) : OpenLine := { o with line := o.line + k }

/-- The output, `k` lines further down. -/
def ScanOutput.shift (k : Nat) (o : ScanOutput) : ScanOutput :=
  ⟨o.lines.map (LogicalLine.shift k), o.diagnostics.map (Diagnostic.shift k)⟩

/-- The state, `k` lines further down, where an encoding is known or not. -/
def ScanState.shift (k : Nat) (encoding : Option Text) (s : ScanState) : ScanState :=
  { s with pending := s.pending.map (OpenLine.shift k), encoding }

theorem ScanOutput.shift_append (k : Nat) (a b : ScanOutput) :
    (a ++ b).shift k = a.shift k ++ b.shift k := by
  show ScanOutput.mk ((a.lines ++ b.lines).map _) ((a.diagnostics ++ b.diagnostics).map _) = _
  rw [List.map_append, List.map_append]
  rfl

theorem ScanOutput.append_assoc (a b c : ScanOutput) : a ++ b ++ c = a ++ (b ++ c) := by
  show ScanOutput.mk (a.lines ++ b.lines ++ c.lines)
    (a.diagnostics ++ b.diagnostics ++ c.diagnostics) = _
  rw [List.append_assoc, List.append_assoc]
  rfl

namespace ScanState

variable {cfg : Config} {number k : Nat} {encoding : Option Text} {raw : Text} {s : ScanState}

/-! ## §2. Reading further down. -/

theorem openWith_shift (c : CodeLine) :
    (s.shift k encoding).openWith cfg (number + k) raw c
      = (s.openWith cfg number raw c).shift k := by
  obtain ⟨nesting, pending, comments, known⟩ := s
  cases pending with
  | none => rfl
  | some o => rfl

/-- A comment line is the same one further down, unless it is a `#!` on the first line. -/
theorem commentsAfter_shift (hk : 2 ≤ k)
    (shebang : number = 1 → ∀ comment, commentOf? raw = some comment → comment.head? ≠ some '!') :
    commentsAfter (number + k) raw (s.shift k encoding) = commentsAfter number raw s := by
  unfold commentsAfter
  split
  · rfl
  · next comment hcomment =>
    have hlater : ¬ (number + k = 1 ∧ comment.head? = some '!') := fun h => by omega
    have hfirst : ¬ (number = 1 ∧ comment.head? = some '!') := fun h =>
      shebang h.1 comment hcomment h.2
    rw [if_neg hlater, if_neg hfirst]
    rfl

theorem stepCode_shift (hk : 2 ≤ k)
    (shebang : number = 1 → ∀ comment, commentOf? raw = some comment → comment.head? ≠ some '!') :
    (s.shift k encoding).stepCode cfg (number + k) raw
      = ((s.stepCode cfg number raw).1.shift k encoding,
          (s.stepCode cfg number raw).2.shift k) := by
  have hread : CodeLine.read (s.shift k encoding).nesting raw = CodeLine.read s.nesting raw := rfl
  have hidle : (s.shift k encoding).pending.isNone = s.pending.isNone := Option.isNone_map
  have hjoins (c : CodeLine) : ((s.openWith cfg number raw c).shift k).joins
      = (s.openWith cfg number raw c).joins := rfl
  unfold stepCode
  dsimp only
  rw [hread, hidle, openWith_shift, commentsAfter_shift hk shebang, hjoins]
  generalize CodeLine.read s.nesting raw = c
  have hreports : (c.unterminated.toList.map fun q => (⟨number, .unterminatedString q⟩ : Diagnostic)).map
      (Diagnostic.shift k)
        = c.unterminated.toList.map fun q => ⟨number + k, .unterminatedString q⟩ := List.map_map
  -- the same branch is taken, and its output differs in the lines alone
  split
  · show _ = (_, ScanOutput.mk _ _)
    rw [hreports]
    rfl
  · split
    · show _ = (_, ScanOutput.mk _ _)
      rw [hreports]
      rfl
    · split
      · show _ = (_, ScanOutput.mk _ _)
        rw [List.map_append, hreports]
        rfl
      · show _ = (_, ScanOutput.mk _ _)
        rw [hreports]
        rfl

/-- Reading a line that declares no encoding is the same further down. -/
theorem step_shift (cfg : Config) (encoding : Option Text) (s : ScanState) (hk : 2 ≤ k)
    (hnumber : 1 ≤ number)
    (plain : number ≤ 2 → encodingDeclaration? raw = none)
    (shebang : number = 1 → ∀ comment, commentOf? raw = some comment → comment.head? ≠ some '!') :
    (s.shift k encoding).step cfg (number + k) raw
      = ((s.step cfg number raw).1.shift k encoding, (s.step cfg number raw).2.shift k) := by
  have hcode : s.step cfg number raw = s.stepCode cfg number raw := by
    unfold step
    split
    · next hfirst => rw [plain hfirst.2.1]
    · rfl
  have hlater : (s.shift k encoding).step cfg (number + k) raw
      = (s.shift k encoding).stepCode cfg (number + k) raw := by
    unfold step
    rw [if_neg]
    intro hfirst
    have := hfirst.2.1
    omega
  rw [hcode, hlater, stepCode_shift hk shebang]

/-- **A SOURCE WITHOUT A DECLARATION IS READ FURTHER DOWN AS AT THE BEGINNING.** -/
theorem run_shift (cfg : Config) (encoding : Option Text) (s : ScanState) (hk : 2 ≤ k)
    {physical : List Text} (hnumber : 1 ≤ number)
    (plain : ∀ i raw, physical[i]? = some raw → number + i ≤ 2 → encodingDeclaration? raw = none)
    (shebang : number = 1 → ∀ raw comment, physical.head? = some raw →
      commentOf? raw = some comment → comment.head? ≠ some '!') :
    (s.shift k encoding).run cfg (number + k) physical
      = ((s.run cfg number physical).1.shift k encoding,
          (s.run cfg number physical).2.shift k) := by
  induction physical generalizing number s with
  | nil => rfl
  | cons raw rest ih =>
      have hstep := step_shift cfg encoding s hk hnumber (plain 0 raw rfl)
        fun hone comment => shebang hone raw comment rfl
      have hplain (i : Nat) (raw' : Text) (hi : rest[i]? = some raw') (hle : number + 1 + i ≤ 2) :
          encodingDeclaration? raw' = none := plain (i + 1) raw' hi (by omega)
      have hrest := ih (s.step cfg number raw).1 (Nat.le_add_left 1 number) hplain
        fun hone => absurd hone (by omega)
      have hnext : number + k + 1 = number + 1 + k := by omega
      rw [run_cons, run_cons, hstep]
      dsimp only
      rw [hnext, hrest, ScanOutput.shift_append]

theorem stepFits_eq_stepCodeFits
    (plain : s.pending = none → number ≤ 2 → s.encoding = none → encodingDeclaration? raw = none) :
    s.stepFits cfg number raw = s.stepCodeFits cfg raw := by
  unfold stepFits
  refine Bool.or_eq_right_iff_imp.2 fun declares => ?_
  simp only [Bool.and_eq_true, decide_eq_true_eq, Option.isNone_iff_eq_none] at declares
  obtain ⟨⟨⟨idle, early⟩, unknown⟩, declared⟩ := declares
  rw [plain idle early unknown] at declared
  exact nomatch declared

/-- **AND IT IS STOPPED THERE AS AT THE BEGINNING.** -/
theorem runFits_shift (cfg : Config) (encoding : Option Text) (s : ScanState) (hk : 2 ≤ k)
    {physical : List Text} (hnumber : 1 ≤ number)
    (plain : ∀ i raw, physical[i]? = some raw → number + i ≤ 2 → encodingDeclaration? raw = none)
    (shebang : number = 1 → ∀ raw comment, physical.head? = some raw →
      commentOf? raw = some comment → comment.head? ≠ some '!') :
    (s.shift k encoding).runFits cfg (number + k) physical = s.runFits cfg number physical := by
  induction physical generalizing number s with
  | nil => rfl
  | cons raw rest ih =>
      have hstep := step_shift cfg encoding s hk hnumber (plain 0 raw rfl)
        fun hone comment => shebang hone raw comment rfl
      have hrest := ih (s.step cfg number raw).1 (Nat.le_add_left 1 number)
        (fun i raw' hi hle => plain (i + 1) raw' hi (by omega)) fun hone => absurd hone (by omega)
      have hnext : number + k + 1 = number + 1 + k := by omega
      have hidle : (s.shift k encoding).pending.isSome = s.pending.isSome := Option.isSome_map
      have first : (s.shift k encoding).stepFits cfg (number + k) raw
          = s.stepFits cfg number raw := by
        rw [stepFits_eq_stepCodeFits fun _ early => absurd early (by omega),
          @stepFits_eq_stepCodeFits cfg number raw s fun _ early _ => plain 0 raw rfl early]
        unfold stepCodeFits
        rw [hidle]
        rfl
      rw [runFits, runFits, hstep, hnext, hrest, first]

theorem finish_shift (last : Nat) :
    (s.shift k encoding).finish (last + k) = (s.finish last).shift k := by
  obtain ⟨nesting, pending, comments, known⟩ := s
  cases pending with
  | none => rfl
  | some o => rfl

/-! ## §3. The state between two statements. -/

theorem run_append (cfg : Config) (number : Nat) (s : ScanState) (xs ys : List Text) :
    s.run cfg number (xs ++ ys)
      = (((s.run cfg number xs).1.run cfg (number + xs.length) ys).1,
          (s.run cfg number xs).2 ++ ((s.run cfg number xs).1.run cfg (number + xs.length) ys).2) := by
  induction xs generalizing number s with
  | nil => rfl
  | cons raw xs ih =>
      have hnumber : number + (raw :: xs).length = number + 1 + xs.length := by
        rw [List.length_cons]
        omega
      rw [List.cons_append, run_cons, run_cons, hnumber, ih]
      dsimp only
      rw [← ScanOutput.append_assoc]

theorem runFits_append (cfg : Config) (number : Nat) (s : ScanState) (xs ys : List Text) :
    s.runFits cfg number (xs ++ ys)
      = (s.runFits cfg number xs
        && (s.run cfg number xs).1.runFits cfg (number + xs.length) ys) := by
  induction xs generalizing number s with
  | nil => rfl
  | cons raw xs ih =>
      have hnumber : number + (raw :: xs).length = number + 1 + xs.length := by
        rw [List.length_cons]
        omega
      rw [List.cons_append, runFits, runFits, run_cons, hnumber, ih, Bool.and_assoc]

/-- Nothing is open between statements, and no comments wait inside one. -/
def Settled (s : ScanState) : Prop :=
  match s.pending with
  | none => s.nesting = .closed
  | some _ => s.comments = []

theorem Settled.nesting (h : s.Settled) (idle : s.pending = none) : s.nesting = .closed := by
  unfold Settled at h
  rw [idle] at h
  exact h

/-- A line of code leaves no comments waiting. -/
theorem Settled.comments_behind (h : s.Settled) (c : CodeLine) : (s.behind c).comments = [] := by
  unfold Settled at h
  show (if s.pending.isNone then [] else s.comments) = []
  cases hpending : s.pending with
  | none => rfl
  | some o =>
      rw [hpending] at h
      exact h

theorem nesting_eq_closed {c : CodeLine} (h : c.isContinued = false) : c.nesting = .closed := by
  refine Nesting.eq_closed (CodeLine.isTopLevel_of_not_isContinued ?_)
  rw [h]
  rfl

/-- A line keeps a state settled. -/
theorem Settled.reads {next : ScanState} {output : ScanOutput} (h : s.Settled)
    (outcome : Reads cfg number raw s next output) : next.Settled := by
  cases outcome with
  | declares idle _ _ _ =>
      have hclosed := h.nesting idle
      unfold Settled
      simp only [idle]
      exact hclosed
  | passes idle void =>
      unfold Settled
      simp only [idle]
      refine nesting_eq_closed ?_
      simpa only [Bool.not_eq_true'] using (Bool.and_eq_true_iff.1 void).2
  | ends done => exact nesting_eq_closed done
  | cutsOff _ _ => exact rfl
  | continues _ => exact h.comments_behind (CodeLine.read s.nesting raw)

theorem Settled.run {physical : List Text} (h : s.Settled) :
    (s.run cfg number physical).1.Settled := by
  induction physical generalizing number s with
  | nil => exact h
  | cons raw rest ih =>
      rw [run_cons]
      exact ih (h.reads (step_reads cfg number raw s))

/-- Comments wait behind a line only if the line is a comment and completes no statement. -/
theorem Settled.comments_of_last {next : ScanState} {output : ScanOutput} (h : s.Settled)
    (outcome : Reads cfg number raw s next output) (idle : next.pending = none) :
    next.comments = [] ∨ ((∃ comment, commentOf? raw = some comment) ∧ output.lines = []) := by
  cases outcome with
  | declares _ _ _ hname =>
      obtain ⟨comment, hcomment⟩ := exists_trimStart_of_encodingDeclaration? hname
      exact .inr ⟨⟨comment, commentOf?_eq_some_iff.2 hcomment⟩, rfl⟩
  | passes _ _ =>
      unfold commentsAfter
      split
      · exact .inl rfl
      · next comment hcomment => exact .inr ⟨⟨comment, hcomment⟩, rfl⟩
  | ends _ => exact .inl (h.comments_behind (CodeLine.read s.nesting raw))
  | cutsOff _ _ => exact .inl (h.comments_behind (CodeLine.read s.nesting raw))
  | continues _ => exact nomatch idle

end ScanState

/-! ## §4. Two sources one behind the other. -/

namespace LogicalLine

/-- The last physical line of a source is a comment, and part of no statement. -/
def EndsInComment (cfg : Config) (source : Text) : Prop :=
  (∃ raw comment, source.lines.getLast? = some raw ∧ commentOf? raw = some comment) ∧
    ∀ l ∈ (scan cfg source).lines, l.endLine < source.lines.length

/-- A statement was still open at the end of a source, as its scan reports. -/
def EndsOpen (cfg : Config) (source : Text) : Prop :=
  ∃ d ∈ (scan cfg source).diagnostics, ∃ still, d.cause = .openAtEnd still

/-- All output of a scan: that of the lines, and what is left at their end. -/
def scanOutput (cfg : Config) (source : Text) : ScanOutput :=
  (ScanState.run cfg 1 {} source.lines).2
    ++ (ScanState.run cfg 1 {} source.lines).1.finish source.lines.length

theorem scan_eq (cfg : Config) (source : Text) :
    scan cfg source = ⟨(scanOutput cfg source).lines,
      (ScanState.run cfg 1 {} source.lines).1.encoding, (scanOutput cfg source).diagnostics⟩ :=
  rfl

variable {cfg : Config} {a b : Text}

theorem pending_eq_none (h : ¬ EndsOpen cfg a) : (ScanState.run cfg 1 {} a.lines).1.pending = none := by
  cases hpending : (ScanState.run cfg 1 {} a.lines).1.pending with
  | none => rfl
  | some o =>
      have hreport : ⟨o.line, .openAtEnd (ScanState.run cfg 1 {} a.lines).1.nesting⟩ ∈
          (ScanState.finish a.lines.length (ScanState.run cfg 1 {} a.lines).1).diagnostics := by
        unfold ScanState.finish
        rw [hpending]
        exact List.mem_singleton.2 rfl
      exact absurd ⟨_, List.mem_append_right _ hreport, _, rfl⟩ h

/-- Between two statements nothing is left. -/
theorem scanOutput_of_not_endsOpen (h : ¬ EndsOpen cfg a) :
    scanOutput cfg a = (ScanState.run cfg 1 {} a.lines).2 := by
  unfold scanOutput ScanState.finish
  rw [pending_eq_none h]
  show ScanOutput.mk (_ ++ []) (_ ++ []) = _
  rw [List.append_nil, List.append_nil]

/-- No logical line reaches over the physical lines that were read. -/
theorem endLine_le_of_mem_run {physical : List Text} (whole : ∀ raw ∈ physical, '\n' ∉ raw)
    {l : LogicalLine} (hl : l ∈ (ScanState.run cfg 1 {} physical).2.lines) :
    l.endLine ≤ physical.length := by
  have h := ScanState.remaining_accounted cfg 0 {} physical (ScanState.spans_of_idle rfl) whole
  have := (h.ranges l (List.mem_append_left _ hl)).2.2.1
  omega

/-- **NOTHING IS REMEMBERED OF A SOURCE BUT ITS ENCODING**, if no statement and no comment is
left at its end. -/
theorem run_lines_eq_fresh (hcomment : ¬ EndsInComment cfg a) (hopen : ¬ EndsOpen cfg a) (k : Nat) :
    (ScanState.run cfg 1 {} a.lines).1
      = ScanState.shift k (ScanState.run cfg 1 {} a.lines).1.encoding {} := by
  have idle := pending_eq_none hopen
  have settled : (ScanState.run cfg 1 {} a.lines).1.Settled := ScanState.Settled.run rfl
  have hclosed := settled.nesting idle
  have hcomments : (ScanState.run cfg 1 {} a.lines).1.comments = [] := by
    rcases List.eq_nil_or_concat a.lines with hnil | ⟨before, last, hlines⟩
    · rw [hnil]
      rfl
    · rw [List.concat_eq_append] at hlines
      have hrun := ScanState.run_append cfg 1 {} before [last]
      rw [← hlines] at hrun
      rw [hrun] at idle ⊢
      have start : (ScanState.run cfg 1 {} before).1.Settled := ScanState.Settled.run rfl
      rcases start.comments_of_last (ScanState.step_reads cfg (1 + before.length) last _) idle with
        hnone | ⟨⟨comment, hlast⟩, houtput⟩
      · exact hnone
      · -- a last line that leaves comments is the comment that the source ends in
        refine absurd ⟨⟨last, comment, ?_, hlast⟩, ?_⟩ hcomment
        · rw [hlines, List.getLast?_concat]
        · intro l hl
          have hl : l ∈ (ScanState.run cfg 1 {} before).2.lines := by
            rw [scan_eq, scanOutput_of_not_endsOpen hopen, hrun] at hl
            rcases List.mem_append.1 hl with hl | hl
            · exact hl
            · rcases List.mem_append.1 hl with hl | hl
              · exact absurd (houtput ▸ hl) List.not_mem_nil
              · exact absurd hl List.not_mem_nil
          have whole : ∀ raw ∈ before, '\n' ∉ raw := fun raw hraw =>
            Text.lineFeed_not_mem_of_mem_lines (hlines ▸ List.mem_append_left _ hraw)
          have := endLine_le_of_mem_run whole hl
          rw [hlines, List.length_append, List.length_singleton]
          omega
  generalize (ScanState.run cfg 1 {} a.lines).1 = s at idle hclosed hcomments
  obtain ⟨nesting, pending, comments, encoding⟩ := s
  subst idle hclosed hcomments
  rfl

section Two

variable (cfg : Config) (a b : Text) (ha : a.getLast? = some '\n') (hlength : 2 ≤ a.lines.length)
  (hcomment : ¬ EndsInComment cfg a) (hopen : ¬ EndsOpen cfg a)
  (plain : ∀ raw ∈ b.lines.take 2, encodingDeclaration? raw = none)
  (shebang : ∀ raw, b.lines.head? = some raw → raw.trimStart.startsWith ['#', '!'] = false)

include plain in
/-- No line of the second source declares an encoding where it would count. -/
theorem encodingDeclaration?_of_lines (i : Nat) (raw : Text) (hi : b.lines[i]? = some raw)
    (hle : 1 + i ≤ 2) : encodingDeclaration? raw = none := by
  refine plain raw (List.mem_iff_getElem?.2 ⟨i, ?_⟩)
  rw [List.getElem?_take_of_lt (by omega)]
  exact hi

include shebang in
/-- The first comment of the second source is a comment also where the source stands alone. -/
theorem head?_comment_of_lines (raw comment : Text) (hraw : b.lines.head? = some raw)
    (h : commentOf? raw = some comment) : comment.head? ≠ some '!' := by
  have hstart := shebang raw hraw
  unfold commentOf? at h
  split at h
  · next rest hrest =>
    obtain rfl := Option.some.inj h
    rw [hrest] at hstart
    intro hhead
    obtain ⟨tail, rfl⟩ := List.head?_eq_some_iff.1 hhead
    exact absurd hstart (by simp [Text.startsWith])
  · exact nomatch h

include ha hlength hcomment hopen plain shebang

/-- **TWO SOURCES ONE BEHIND THE OTHER ARE SCANNED AS EACH BY ITSELF**, if the first ends
between two statements and not in a comment, and the second begins with neither a declaration
nor a `#!`. -/
theorem scan_append :
    scan cfg (a ++ b)
      = ⟨(scan cfg a).lines ++ (scan cfg b).lines.map (LogicalLine.shift a.lines.length),
          (scan cfg a).encoding,
          (scan cfg a).diagnostics
            ++ (scan cfg b).diagnostics.map (Diagnostic.shift a.lines.length)⟩ := by
  have hlater := ScanState.run_shift cfg (ScanState.run cfg 1 {} a.lines).1.encoding {} hlength
    (Nat.le_refl 1) (encodingDeclaration?_of_lines b plain)
    fun _ => head?_comment_of_lines b shebang
  have hrun := ScanState.run_append cfg 1 {} a.lines b.lines
  rw [run_lines_eq_fresh hcomment hopen a.lines.length, hlater] at hrun
  have hlast : (a ++ b).lines.length = b.lines.length + a.lines.length := by
    rw [Text.lines_append ha, List.length_append, Nat.add_comm]
  have houtput : scanOutput cfg (a ++ b)
      = scanOutput cfg a ++ (scanOutput cfg b).shift a.lines.length := by
    rw [scanOutput_of_not_endsOpen hopen]
    unfold scanOutput
    rw [hlast, Text.lines_append ha, hrun, ScanState.finish_shift, ScanOutput.append_assoc,
      ← ScanOutput.shift_append]
  have hencoding : (ScanState.run cfg 1 {} (a ++ b).lines).1.encoding
      = (ScanState.run cfg 1 {} a.lines).1.encoding := by
    rw [Text.lines_append ha, hrun]
    rfl
  rw [scan_eq, houtput, hencoding]
  rfl

/-- **AND A SCAN OF BOTH IS STOPPED EXACTLY WHERE ONE OF THE TWO IS.** -/
theorem scan_answers_append :
    Checked.scan cfg (a ++ b) = (Checked.scan cfg a).bind fun ra =>
      (Checked.scan cfg b).map fun rb =>
        ⟨ra.lines ++ rb.lines.map (LogicalLine.shift a.lines.length), ra.encoding,
          ra.diagnostics ++ rb.diagnostics.map (Diagnostic.shift a.lines.length)⟩ := by
  have fits : ({} : ScanState).runFits cfg 1 (a ++ b).lines
      = (({} : ScanState).runFits cfg 1 a.lines && ({} : ScanState).runFits cfg 1 b.lines) := by
    rw [Text.lines_append ha, ScanState.runFits_append,
      run_lines_eq_fresh hcomment hopen a.lines.length,
      ScanState.runFits_shift cfg _ {} hlength (Nat.le_refl 1)
        (encodingDeclaration?_of_lines b plain) fun _ => head?_comment_of_lines b shebang]
  unfold Checked.scan
  rw [fits, scan_append cfg a b ha hlength hcomment hopen plain shebang]
  unfold guarded
  cases ({} : ScanState).runFits cfg 1 a.lines with
  | false => rfl
  | true => cases ({} : ScanState).runFits cfg 1 b.lines <;> rfl

end Two

/-- A string that never ends and a statement that is cut off do not matter to what follows. -/
theorem scan_answers_append_behind_broken_lines :
    let cfg : Config := { maxLineJoins := 1 }
    let a : Text := "x = 'oops\ny = (\n1,\n".toList
    let b : Text := "z = (3,\n4)\n".toList
    Checked.scan cfg (a ++ b)
      = some ⟨(scan cfg a).lines ++ [⟨4, 5, 0, "z = (3,\n4)".toList, true, []⟩], none,
          (scan cfg a).diagnostics⟩ := by
  intro cfg a b
  have hlines : a.lines = ["x = 'oops".toList, "y = (".toList, "1,".toList] := by decide +kernel
  have hr : Checked.scan cfg a = some (scan cfg a) := guarded_of_fits (by decide +kernel)
  have hb : Checked.scan cfg b = some ⟨[⟨1, 2, 0, "z = (3,\n4)".toList, true, []⟩], none, []⟩ := by
    decide +kernel
  have hcomment : ¬ EndsInComment cfg a := by
    rintro ⟨⟨raw, comment, hraw, h⟩, -⟩
    rw [hlines] at hraw
    obtain rfl : "1,".toList = raw := Option.some.inj hraw
    have hnone : commentOf? "1,".toList = none := by decide +kernel
    exact absurd (hnone.symm.trans h) (by simp)
  have hopen : ¬ EndsOpen cfg a := by
    rintro ⟨d, hd, still, hcause⟩
    have hcauses : (scan cfg a).diagnostics.map Diagnostic.cause
        = [.unterminatedString .single, .joinLimitReached 1 { paren := 1 }] := by decide +kernel
    have hd := List.mem_map_of_mem (f := Diagnostic.cause) hd
    rw [hcauses, hcause] at hd
    simp at hd
  have hshebang (raw : Text) (hraw : b.lines.head? = some raw) :
      raw.trimStart.startsWith ['#', '!'] = false := by
    obtain rfl : "z = (3,".toList = raw := by
      have : b.lines.head? = some "z = (3,".toList := by decide +kernel
      exact Option.some.inj (this.symm.trans hraw)
    decide +kernel
  have h := scan_answers_append cfg a b (by decide +kernel) (by rw [hlines]; decide) hcomment hopen
    (by decide +kernel) hshebang
  have hencoding : (scan cfg a).encoding = none := by decide +kernel
  rw [hr, hb, hlines, Option.bind_some, hencoding] at h
  rw [h]
  simp [shift]

end LogicalLine

end ClassOutline
