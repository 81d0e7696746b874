/-
  ClassOutline.Proofs.LogicalLine.Ranges
  ────────────────────────────────
  **EVERY PHYSICAL LINE IS READ ONCE.**

  The logical lines of a source cover ranges of physical lines that follow one
  another without touching twice; the text of each has one piece for each
  physical line of its range, and a physical line in no range is blank or a
  comment.

  `Accounted` says so of everything that still comes out of a state when the
  rest of the source is read.  It is proved backwards, from the end of the
  source: what one line does is put in front of what the later lines do
  (`remaining_accounted`).  Forwards runs only what an open statement knows of
  itself (`Spans`).
-/
import ClassOutline.Proofs.LogicalLine.Reads
import ClassOutline.Proofs.Text.Lines

namespace ClassOutline

namespace ScanState

/-! ## §1. The open statement. -/

/-- A statement that is open behind line `number` has one piece of text for each of its lines. -/
def Spans (number : Nat) (s : ScanState) : Prop :=
  ∀ o, s.pending = some o → o.line ≤ number ∧ o.text.count '\n' = number - o.line

/-- The first line behind `number`, or the first line of the statement that is open there. -/
def resumesAt (number : Nat) (s : ScanState) : Nat :=
  match s.pending with
  | none => number + 1
  | some o => o.line

variable {cfg : Config} {number : Nat} {raw : Text} {s : ScanState}

theorem resumesAt_of_idle (h : s.pending = none) : s.resumesAt number = number + 1 := by
  unfold resumesAt
  rw [h]

theorem resumesAt_of_open {o : OpenLine} (h : s.pending = some o) : s.resumesAt number = o.line := by
  unfold resumesAt
  rw [h]

theorem Spans.resumesAt_le (h : s.Spans number) : s.resumesAt number ≤ number + 1 := by
  cases hpending : s.pending with
  | none => exact Nat.le_of_eq (resumesAt_of_idle hpending)
  | some o =>
      rw [resumesAt_of_open hpending]
      exact Nat.le_succ_of_le (h o hpending).1

/-- The statement that a line opens or continues begins where reading resumed. -/
theorem line_openWith (c : CodeLine) :
    (s.openWith cfg (number + 1) raw c).line = s.resumesAt number := by
  unfold openWith resumesAt
  cases s.pending with
  | none => rfl
  | some o => rfl

/-- It has one more piece of text, the code of the line. -/
theorem count_openWith (h : s.Spans number) {c : CodeLine} (hcode : '\n' ∉ c.code) :
    (s.openWith cfg (number + 1) raw c).text.count '\n' = number + 1 - s.resumesAt number := by
  have hzero : c.code.count '\n' = 0 := List.count_eq_zero_of_not_mem hcode
  unfold openWith resumesAt
  cases hpending : s.pending with
  | none =>
      show c.code.count '\n' = number + 1 - (number + 1)
      omega
  | some o =>
      obtain ⟨hline, hcount⟩ := h o hpending
      show (o.text ++ '\n' :: c.code).count '\n' = number + 1 - o.line
      rw [List.count_append, List.count_cons_self, hcount, hzero]
      omega

/-! ## §2. What still comes out of a state. -/

/-- The logical lines that come out when the physical lines behind `number` are read, the one
that is open at their end included. -/
def remaining (cfg : Config) (number : Nat) (s : ScanState) (physical : List Text) :
    List LogicalLine :=
  (s.run cfg (number + 1) physical).2.lines
    ++ ((s.run cfg (number + 1) physical).1.finish (number + physical.length)).lines

theorem remaining_cons (raw : Text) (rest : List Text) :
    s.remaining cfg number (raw :: rest) = (s.step cfg (number + 1) raw).2.lines
      ++ (s.step cfg (number + 1) raw).1.remaining cfg (number + 1) rest := by
  unfold remaining
  rw [run_cons, List.length_cons, ← List.append_assoc]
  have hlast : number + (rest.length + 1) = number + 1 + rest.length := by omega
  rw [hlast]
  rfl

/-- The logical lines `ls` account for the physical lines behind `number` and for the
statement that is open there. -/
structure Accounted (number : Nat) (s : ScanState) (physical : List Text)
    (ls : List LogicalLine) : Prop where
  ranges : ∀ l ∈ ls, s.resumesAt number ≤ l.line ∧ l.line ≤ l.endLine
    ∧ l.endLine ≤ number + physical.length ∧ l.text.count '\n' = l.endLine - l.line
  apart : ls.Pairwise fun a b => a.endLine < b.line
  /-- The open statement is one of them. -/
  closes : ∀ o, s.pending = some o → ∃ l ∈ ls, l.line = o.line ∧ number ≤ l.endLine
  covers : ∀ i raw, physical[i]? = some raw →
    raw.IsBlankOrComment ∨ ∃ l ∈ ls, l.line ≤ number + 1 + i ∧ number + 1 + i ≤ l.endLine

/-- One more line is accounted for if it is in a range, or in none with right. -/
theorem Accounted.covers_cons {next : ScanState} {rest : List Text} {ls ls' : List LogicalLine}
    (h : Accounted (number + 1) next rest ls) (kept : ls ⊆ ls')
    (first : raw.IsBlankOrComment ∨ ∃ l ∈ ls', l.line ≤ number + 1 ∧ number + 1 ≤ l.endLine) :
    ∀ i raw', (raw :: rest)[i]? = some raw' → raw'.IsBlankOrComment ∨
      ∃ l ∈ ls', l.line ≤ number + 1 + i ∧ number + 1 + i ≤ l.endLine := by
  intro i raw' hi
  cases i with
  | zero =>
      obtain rfl := Option.some.inj hi
      exact first
  | succ i =>
      -- line `i + 1` behind `number` is line `i` behind the first one
      rcases h.covers i raw' hi with hblank | ⟨l, hl, hfirst, hlast⟩
      · exact .inl hblank
      · exact .inr ⟨l, kept hl, by omega, by omega⟩

/-- Between two statements a line without code can be put in front. -/
theorem Accounted.pass {next : ScanState} {rest : List Text} {ls : List LogicalLine}
    (h : Accounted (number + 1) next rest ls) (idle : s.pending = none)
    (nextIdle : next.pending = none) (hraw : raw.IsBlankOrComment) :
    Accounted number s (raw :: rest) ls := by
  have hranges := h.ranges
  rw [resumesAt_of_idle nextIdle] at hranges
  refine ⟨?_, h.apart, ?_, h.covers_cons (fun _ hl => hl) (.inl hraw)⟩
  · intro l hl
    obtain ⟨hfirst, hline, hlast, hcount⟩ := hranges l hl
    rw [resumesAt_of_idle idle, List.length_cons]
    exact ⟨by omega, hline, by omega, hcount⟩
  · intro o ho
    rw [idle] at ho
    exact nomatch ho

/-- A statement that ends at a line can be put in front, whether it is balanced or cut off. -/
theorem Accounted.complete {next : ScanState} {rest : List Text} {ls : List LogicalLine}
    {c : CodeLine} (h : Accounted (number + 1) next rest ls) (spans : s.Spans number)
    (nextIdle : next.pending = none) (hcode : '\n' ∉ c.code) (balanced : Bool) :
    Accounted number s (raw :: rest)
      ((s.openWith cfg (number + 1) raw c).close (number + 1) balanced :: ls) := by
  have hranges := h.ranges
  rw [resumesAt_of_idle nextIdle] at hranges
  have hle := spans.resumesAt_le
  have hline : ((s.openWith cfg (number + 1) raw c).close (number + 1) balanced).line
      = s.resumesAt number := line_openWith c
  have hcount : ((s.openWith cfg (number + 1) raw c).close (number + 1) balanced).text.count '\n'
      = number + 1 - s.resumesAt number := count_openWith spans hcode
  refine ⟨?_, ?_, ?_, h.covers_cons (List.subset_cons_self _ _)
    (.inr ⟨_, List.mem_cons_self, hline ▸ hle, Nat.le_refl (number + 1)⟩)⟩
  · intro l hl
    rw [List.length_cons]
    rcases List.mem_cons.1 hl with rfl | hl
    · rw [hline, hcount]
      exact ⟨Nat.le_refl _, hle, (by omega : number + 1 ≤ number + (rest.length + 1)), rfl⟩
    · obtain ⟨hfirst, hline, hlast, hcount⟩ := hranges l hl
      exact ⟨by omega, hline, by omega, hcount⟩
  · refine List.pairwise_cons.2 ⟨?_, h.apart⟩
    intro l hl
    show number + 1 < l.line
    have := (hranges l hl).1
    omega
  · intro o ho
    refine ⟨_, List.mem_cons_self, ?_, Nat.le_succ number⟩
    rw [hline, resumesAt_of_open ho]

/-- A line behind which a statement goes on belongs to the one that closes it. -/
theorem Accounted.continue {next : ScanState} {rest : List Text} {ls : List LogicalLine}
    {c : CodeLine} (h : Accounted (number + 1) next rest ls) (spans : s.Spans number)
    (nextOpen : next.pending = some (s.openWith cfg (number + 1) raw c)) :
    Accounted number s (raw :: rest) ls := by
  have hranges := h.ranges
  rw [resumesAt_of_open nextOpen, line_openWith] at hranges
  obtain ⟨l, hl, hline, hlast⟩ := h.closes _ nextOpen
  rw [line_openWith] at hline
  have hle := spans.resumesAt_le
  refine ⟨?_, h.apart, ?_, h.covers_cons (fun _ hl => hl) (.inr ⟨l, hl, by omega, hlast⟩)⟩
  · intro l hl
    obtain ⟨hfirst, hline, hlast, hcount⟩ := hranges l hl
    rw [List.length_cons]
    exact ⟨hfirst, hline, by omega, hcount⟩
  · intro o ho
    refine ⟨l, hl, ?_, by omega⟩
    rw [hline, resumesAt_of_open ho]

/-! ## §3. All lines. -/

/-- At the end of the source only an open statement is left. -/
theorem finish_accounted (h : s.Spans number) : Accounted number s [] (s.finish number).lines := by
  have noLine : ∀ i raw, ([] : List Text)[i]? = some raw → raw.IsBlankOrComment ∨
      ∃ l ∈ (s.finish number).lines, l.line ≤ number + 1 + i ∧ number + 1 + i ≤ l.endLine := by
    intro i raw hi
    rw [List.getElem?_nil] at hi
    exact nomatch hi
  cases hpending : s.pending with
  | none =>
      have hlines : (s.finish number).lines = [] := by
        unfold finish
        rw [hpending]
      rw [hlines] at noLine ⊢
      refine ⟨fun l hl => absurd hl List.not_mem_nil, List.Pairwise.nil, ?_, noLine⟩
      intro o ho
      rw [hpending] at ho
      exact nomatch ho
  | some o =>
      have hlines : (s.finish number).lines = [o.close number false] := by
        unfold finish
        rw [hpending]
      obtain ⟨hline, hcount⟩ := h o hpending
      rw [hlines] at noLine ⊢
      refine ⟨?_, List.pairwise_singleton _ _, ?_, noLine⟩
      · intro l hl
        rw [List.mem_singleton.1 hl, resumesAt_of_open hpending]
        exact ⟨Nat.le_refl _, hline, Nat.le_refl _, hcount⟩
      · intro o' ho'
        obtain rfl := Option.some.inj (hpending.symm.trans ho')
        exact ⟨_, List.mem_singleton.2 rfl, rfl, Nat.le_refl _⟩

/-- An idle state has no statement whose pieces could be counted. -/
theorem spans_of_idle (h : s.pending = none) : s.Spans number := by
  intro o ho
  rw [h] at ho
  exact nomatch ho

/-- **WHAT COMES OUT OF A STATE ACCOUNTS FOR ALL LINES THAT ARE STILL TO BE READ.** -/
theorem remaining_accounted (cfg : Config) (number : Nat) (s : ScanState) (physical : List Text)
    (h : s.Spans number) (whole : ∀ raw ∈ physical, '\n' ∉ raw) :
    Accounted number s physical (s.remaining cfg number physical) := by
  induction physical generalizing number s with
  | nil => exact finish_accounted h
  | cons raw rest ih =>
      have hcode : '\n' ∉ (CodeLine.read s.nesting raw).code := fun hmem =>
        whole raw List.mem_cons_self (CodeLine.mem_of_mem_code_read hmem)
      have later (next : ScanState) (hnext : next.Spans (number + 1)) :
          Accounted (number + 1) next rest (next.remaining cfg (number + 1) rest) :=
        ih (number + 1) next hnext fun raw hraw => whole raw (List.mem_cons_of_mem _ hraw)
      rw [remaining_cons]
      -- one case for each outcome of the line
      have outcome := step_reads cfg (number + 1) raw s
      generalize (s.step cfg (number + 1) raw).1 = next at outcome ⊢
      generalize (s.step cfg (number + 1) raw).2 = output at outcome ⊢
      cases outcome with
      | @declares name idle _ _ hname =>
          have h := later { s with encoding := some name } (spans_of_idle idle)
          exact h.pass idle idle (isBlankOrComment_of_encodingDeclaration? hname)
      | passes idle void =>
          have h := later
            { s with
              nesting := (CodeLine.read s.nesting raw).nesting
              comments := commentsAfter (number + 1) raw s } (spans_of_idle idle)
          exact h.pass idle idle (CodeLine.isBlankOrComment_of_isVoid void)
      | ends _ => exact (later _ (spans_of_idle rfl)).complete h rfl hcode true
      | cutsOff _ _ => exact (later _ (spans_of_idle rfl)).complete h rfl hcode false
      | continues _ =>
          have hnext : Spans (number + 1)
              { s.behind (CodeLine.read s.nesting raw) with
                pending := some (s.openWith cfg (number + 1) raw (CodeLine.read s.nesting raw)) } := by
            intro o ho
            obtain rfl := Option.some.inj ho
            rw [line_openWith, count_openWith h hcode]
            exact ⟨h.resumesAt_le, rfl⟩
          exact (later _ hnext).continue h rfl

end ScanState

namespace LogicalLine

theorem scan_accounted (cfg : Config) (source : Text) :
    ScanState.Accounted 0 {} source.lines (scan cfg source).lines := by
  have h := ScanState.remaining_accounted cfg 0 {} source.lines (ScanState.spans_of_idle rfl)
    fun raw hraw => Text.lineFeed_not_mem_of_mem_lines hraw
  unfold ScanState.remaining at h
  simp only [Nat.zero_add] at h
  exact h

/-- **NO LINE OF CODE IS LOST OR USED TWICE.**  The ranges of the logical lines lie inside the
source, each behind the one before; a text has one line feed less than its range has lines;
and a physical line in no range is blank or a comment. -/
theorem scan_reads_each_line_once (cfg : Config) (source : Text) :
    (∀ l ∈ (scan cfg source).lines, 1 ≤ l.line ∧ l.line ≤ l.endLine
      ∧ l.endLine ≤ source.lines.length ∧ l.text.count '\n' = l.endLine - l.line) ∧
    ((scan cfg source).lines.Pairwise fun a b => a.endLine < b.line) ∧
    ∀ i raw, source.lines[i]? = some raw →
      (∀ l ∈ (scan cfg source).lines, ¬ (l.line ≤ i + 1 ∧ i + 1 ≤ l.endLine)) →
      raw.IsBlankOrComment := by
  have h := scan_accounted cfg source
  refine ⟨?_, h.apart, ?_⟩
  · intro l hl
    obtain ⟨hfirst, hline, hlast, hcount⟩ := h.ranges l hl
    rw [Nat.zero_add] at hlast
    exact ⟨hfirst, hline, hlast, hcount⟩
  · intro i raw hi outside
    rcases h.covers i raw hi with hblank | ⟨l, hl, hfirst, hlast⟩
    · exact hblank
    · rw [Nat.zero_add, Nat.add_comm] at hfirst hlast
      exact absurd ⟨hfirst, hlast⟩ (outside l hl)

/-- Between a declaration, a blank line and a comment stands one statement over two lines. -/
theorem scan_reads_each_line_once_between_comments :
    let source := "# coding: utf-8\n\nx = (1,\n  2)\n# note\n".toList
    let l : LogicalLine := ⟨3, 4, 0, "x = (1,\n2)".toList, true, []⟩
    (scan {} source).lines = [l] ∧ l.text.count '\n' = 4 - 3 ∧
      Text.IsBlankOrComment "# note".toList := by
  intro source l
  have hlines : (scan {} source).lines = [l] := by decide +kernel
  obtain ⟨ranges, -, covers⟩ := scan_reads_each_line_once {} source
  rw [hlines] at ranges covers
  refine ⟨hlines, (ranges l (List.mem_singleton.2 rfl)).2.2.2, covers 4 _ (by decide +kernel) ?_⟩
  intro l' hl'
  rw [List.mem_singleton.1 hl']
  decide

end LogicalLine

end ClassOutline
