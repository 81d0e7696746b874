/-
  ClassOutline.Proofs.LogicalLine.Reads
  ────────────────────────────────
  **WHAT READING ONE PHYSICAL LINE CAN DO.**

  A physical line declares the encoding, or is passed over, or belongs to a
  statement; a statement is complete with it, is cut off at it, or goes on
  behind it.  `Reads` lists these five outcomes, each with the state and the
  output after it, and `step_reads` says that there is no other.  What is proved
  about a scan is proved for the five, and no such proof opens the scanner again.

  The second half is about the text of one line: what is kept of it
  (`mem_of_mem_code_read`), and what it looks like when nothing is
  (`isBlankOrComment_of_isVoid`, `isBlankOrComment_of_encodingDeclaration?`).
-/
import ClassOutline.LogicalLine.Scan
import ClassOutline.Proofs.Nesting.Walk
import ClassOutline.Proofs.Text.Trim

namespace ClassOutline

/-! ## §1. The outcomes of a step. -/

namespace ScanState

/-- What is reported of the strings of a line of code. -/
def stringReports (number : Nat) (c : CodeLine) : List Diagnostic :=
  c.unterminated.toList.map fun q => ⟨number, .unterminatedString q⟩

/-- The state behind a line of code, the statement it belongs to taken out. -/
def behind (c : CodeLine) (s : ScanState) : ScanState :=
  { s with
    nesting := c.nesting
    pending := none
    comments := if s.pending.isNone then [] else s.comments }

/-- The outcomes of reading the physical line `number`. -/
inductive Reads (cfg : Config) (number : Nat) (raw : Text) (s : ScanState) :
    ScanState → ScanOutput → Prop where
  /-- The line declares the encoding. -/
  | declares {name : Text} (idle : s.pending = none) (unknown : s.encoding = none)
      (early : number ≤ 2) (h : encodingDeclaration? raw = some name) :
      Reads cfg number raw s { s with encoding := some name } {}
  /-- The line has no code. -/
  | passes (idle : s.pending = none) (void : (CodeLine.read s.nesting raw).isVoid = true) :
      Reads cfg number raw s
        { s with
          nesting := (CodeLine.read s.nesting raw).nesting
          comments := commentsAfter number raw s }
        ⟨[], stringReports number (CodeLine.read s.nesting raw)⟩
  /-- A statement is complete. -/
  | ends (done : (CodeLine.read s.nesting raw).isContinued = false) :
      Reads cfg number raw s (s.behind (CodeLine.read s.nesting raw))
        ⟨[(s.openWith cfg number raw (CodeLine.read s.nesting raw)).close number true],
          stringReports number (CodeLine.read s.nesting raw)⟩
  /-- A statement runs over too many lines. -/
  | cutsOff (continued : (CodeLine.read s.nesting raw).isContinued = true)
      (limit : cfg.maxLineJoins ≤ (s.openWith cfg number raw (CodeLine.read s.nesting raw)).joins) :
      Reads cfg number raw s
        { s.behind (CodeLine.read s.nesting raw) with nesting := .closed }
        ⟨[(s.openWith cfg number raw (CodeLine.read s.nesting raw)).close number false],
          stringReports number (CodeLine.read s.nesting raw)
            ++ [⟨number, .joinLimitReached cfg.maxLineJoins (CodeLine.read s.nesting raw).nesting⟩]⟩
  /-- A statement goes on behind the line. -/
  | continues (continued : (CodeLine.read s.nesting raw).isContinued = true)
      (room : (s.openWith cfg number raw (CodeLine.read s.nesting raw)).joins < cfg.maxLineJoins) :
      Reads cfg number raw s
        { s.behind (CodeLine.read s.nesting raw) with
          pending := some (s.openWith cfg number raw (CodeLine.read s.nesting raw)) }
        ⟨[], stringReports number (CodeLine.read s.nesting raw)⟩

variable (cfg : Config) (number : Nat) (raw : Text) (s : ScanState)

theorem stepCode_reads :
    Reads cfg number raw s (s.stepCode cfg number raw).1 (s.stepCode cfg number raw).2 := by
  unfold stepCode
  dsimp only
  split
  · next hvoid =>
    obtain ⟨hnone, hvoid⟩ := Bool.and_eq_true_iff.1 hvoid
    exact .passes (Option.isNone_iff_eq_none.1 hnone) hvoid
  · split
    · next hend => exact .ends (by simpa only [Bool.not_eq_true'] using hend)
    · next hcontinued =>
      have hcontinued : (CodeLine.read s.nesting raw).isContinued = true := by
        simpa only [Bool.not_eq_true', Bool.not_eq_false] using hcontinued
      split
      · next hlimit => exact .cutsOff hcontinued hlimit
      · next hroom => exact .continues hcontinued (Nat.lt_of_not_le hroom)

/-- **A LINE HAS NO OTHER OUTCOME.** -/
theorem step_reads :
    Reads cfg number raw s (s.step cfg number raw).1 (s.step cfg number raw).2 := by
  unfold step
  split
  · next hfirst =>
    obtain ⟨hidle, hearly, hunknown⟩ := hfirst
    split
    · next name hname =>
      exact .declares (Option.isNone_iff_eq_none.1 hidle) (Option.isNone_iff_eq_none.1 hunknown)
        hearly hname
    · exact stepCode_reads cfg number raw s
  · exact stepCode_reads cfg number raw s

theorem run_cons (rest : List Text) :
    s.run cfg number (raw :: rest)
      = (((s.step cfg number raw).1.run cfg (number + 1) rest).1,
          (s.step cfg number raw).2 ++ ((s.step cfg number raw).1.run cfg (number + 1) rest).2) :=
  rfl

end ScanState

/-! ## §2. What is kept of a line. -/

theorem Nesting.mem_of_mem_code {c : Char} {n : Nesting} {raw : Text} (h : c ∈ (n.code raw).1) :
    c ∈ raw := by
  rcases Nesting.code_prefix n raw with hraw | ⟨comment, hraw⟩
  · rw [hraw]
    exact h
  · rw [hraw]
    exact List.mem_append_left _ h

/-- The code of a line is the trimmed code in front of a comment, a backslash that continues
the statement apart. -/
theorem CodeLine.code_read (n : Nesting) (raw : Text) :
    (CodeLine.read n raw).code = (n.code raw).1.trim ∨
      (CodeLine.read n raw).backslash = true ∧
        (CodeLine.read n raw).code = Text.trimEnd (n.code raw).1.trim.dropLast := by
  unfold CodeLine.read
  dsimp only
  split
  · split
    · exact .inr ⟨rfl, rfl⟩
    · exact .inl rfl
  · split
    · exact .inr ⟨rfl, rfl⟩
    · exact .inl rfl

/-- The code of a line consists of characters of the line. -/
theorem CodeLine.mem_of_mem_code_read {c : Char} {n : Nesting} {raw : Text}
    (h : c ∈ (CodeLine.read n raw).code) : c ∈ raw := by
  rcases CodeLine.code_read n raw with hcode | ⟨-, hcode⟩
  · rw [hcode] at h
    exact Nesting.mem_of_mem_code (Text.mem_of_mem_trim h)
  · rw [hcode] at h
    have h := List.dropLast_subset _ (Text.mem_of_mem_trimEnd h)
    exact Nesting.mem_of_mem_code (Text.mem_of_mem_trim h)

/-! ## §3. Lines without code. -/

/-- The line has nothing but blanks, or `#` is its first other character. -/
def Text.IsBlankOrComment (raw : Text) : Prop :=
  raw.trimStart = [] ∨ raw.trimStart.head? = some '#'

/-- A line that leaves no code and nothing open has none in front of a comment. -/
theorem CodeLine.isBlankOrComment_of_isVoid {n : Nesting} {raw : Text}
    (h : (CodeLine.read n raw).isVoid = true) : raw.IsBlankOrComment := by
  obtain ⟨hempty, hcontinued⟩ := Bool.and_eq_true_iff.1 h
  have hcode : (CodeLine.read n raw).code = [] := List.isEmpty_iff.1 hempty
  have htrim : (n.code raw).1.trim = [] := by
    rcases CodeLine.code_read n raw with h | ⟨hslash, -⟩
    · rw [← h]
      exact hcode
    · unfold CodeLine.isContinued at hcontinued
      rw [hslash, Bool.true_or] at hcontinued
      exact absurd hcontinued (by decide)
  have hblank := Text.isBlank_of_trim_eq_nil htrim
  rcases Nesting.code_prefix n raw with hraw | ⟨comment, hraw⟩
  · left
    rw [hraw]
    exact List.dropWhile_eq_nil_iff.2 hblank
  · right
    rw [hraw, Text.trimStart_append_of_isBlank hblank]
    rfl

/-- A line that has nothing but a comment has `#` as its first character that is no blank. -/
theorem commentOf?_eq_some_iff {raw comment : Text} :
    commentOf? raw = some comment ↔ raw.trimStart = '#' :: comment := by
  unfold commentOf?
  split
  · next text htext => rw [htext, Option.some.injEq, List.cons.injEq, and_iff_right rfl]
  · next hother => exact ⟨fun h => (nomatch h), fun h => absurd h (hother comment)⟩

/-- The declaration of an encoding is a comment. -/
theorem exists_trimStart_of_encodingDeclaration? {raw name : Text}
    (h : encodingDeclaration? raw = some name) : ∃ comment, raw.trimStart = '#' :: comment := by
  unfold encodingDeclaration? at h
  split at h
  · next comment hcomment =>
    refine ⟨comment, ?_⟩
    have hsplit := List.takeWhile_append_dropWhile
      (p := fun c => c == ' ' || c == '\t' || c == '\x0c') (l := raw)
    have hblank : ∀ c ∈ raw.takeWhile fun c => c == ' ' || c == '\t' || c == '\x0c',
        Text.isBlank c = true := by
      intro c hc
      have hc := List.all_eq_true.1 List.all_takeWhile c hc
      simp only [Bool.or_eq_true, beq_iff_eq] at hc
      rcases hc with (rfl | rfl) | rfl <;> decide
    rw [← hsplit, hcomment, Text.trimStart_append_of_isBlank hblank]
    rfl
  · exact nomatch h

theorem isBlankOrComment_of_encodingDeclaration? {raw name : Text}
    (h : encodingDeclaration? raw = some name) : raw.IsBlankOrComment := by
  obtain ⟨comment, hcomment⟩ := exists_trimStart_of_encodingDeclaration? h
  right
  rw [hcomment]
  rfl

end ClassOutline
