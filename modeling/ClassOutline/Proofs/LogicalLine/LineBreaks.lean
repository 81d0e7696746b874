/-
  ClassOutline.Proofs.LogicalLine.LineBreaks
  ────────────────────────────────
  **WHICH STRINGS RUN OVER A LINE BREAK.**

  A string without a triple delimiter ends with its line unless the line break
  is escaped: a backslash stands in front of it, and no other backslash in front
  of that one.  Read in units this is one condition, that the last unit of the
  line is a backslash by itself (`Nesting.EscapesBreak`).

  The scanner looks at the last character of the trimmed line alone.  It keeps
  every string whose line break is escaped, and also one in whose line the last
  character that is no blank is a backslash without that effect
  (`Nesting.EndsInIdleBackslash`): an escaped one, or one that escapes a blank.
  All others are closed and reported (`LogicalLine.string_over_line_break`).
-/
import ClassOutline.Nesting.Lexeme
import ClassOutline.Proofs.LogicalLine.Reached

namespace ClassOutline

/-! ## §1. Escaped line breaks. -/

/-- The line break is escaped: the last unit of a line that begins inside `n` is a backslash by
itself, in a string opened with `q`.  A backslash that is escaped, or that escapes a blank, is in
a unit with another character. -/
def Nesting.EscapesBreak (n : Nesting) (q : Quote) (raw : Text) : Prop :=
  ∃ before : Nesting, before.quote = some q ∧ (n.lexemes raw).getLast? = some ⟨'\\', [], before⟩

/-- The last character that is no blank is a backslash, which does not escape the line break. -/
def Nesting.EndsInIdleBackslash (n : Nesting) (q : Quote) (raw : Text) : Prop :=
  Text.lastIs (· == '\\') raw.trim = true ∧ ¬ n.EscapesBreak q raw

/-- A line whose break is escaped ends in a backslash. -/
theorem Nesting.EscapesBreak.lastIs {n : Nesting} {q : Quote} {raw : Text}
    (h : n.EscapesBreak q raw) : Text.lastIs (· == '\\') raw.trim = true := by
  obtain ⟨before, -, hlast⟩ := h
  obtain ⟨units, hunits⟩ := List.getLast?_eq_some_iff.1 hlast
  have hraw : raw = Lexeme.concat units ++ ['\\'] := by
    rw [← Nesting.concat_lexemes n raw, hunits]
    show (units ++ _).flatMap _ = _
    rw [List.flatMap_append]
    rfl
  unfold Text.lastIs
  rw [hraw, Text.getLast?_trim_concat (by decide)]
  rfl

/-! ## §2. Lines that end inside a string. -/

/-- A line that ends inside a string is code up to its end. -/
theorem Nesting.code_of_quote {n : Nesting} {raw : Text} {q : Quote}
    (h : (n.code raw).2.quote = some q) : (n.code raw).1 = raw := by
  -- along the units; at a comment no string is open
  fun_induction Nesting.code n raw with
  | case1 n => rfl
  | case2 n c rest hcomment =>
      have hnone : n.quote = none := Option.isNone_iff_eq_none.1 hcomment.1
      have h : n.quote = some q := h
      rw [hnone] at h
      exact absurd h.symm (Option.some_ne_none q)
  | case3 n c rest hcomment code after heq ih =>
      rw [heq] at ih
      show c :: (rest.take (n.advance c rest).2 ++ code) = c :: rest
      have ih : code = rest.drop (n.advance c rest).2 := ih h
      rw [ih, List.take_append_drop]

/-- A comment line leaves nothing open. -/
theorem Nesting.code_of_comment {n : Nesting} {raw comment : Text} (hquote : n.quote = none)
    (h : raw.trimStart = '#' :: comment) : (n.code raw).2 = n := by
  induction raw with
  | nil => exact nomatch h
  | cons c rest ih =>
      unfold Text.trimStart at h ih
      rw [Nesting.code]
      by_cases hc : Text.isBlank c = true
      · have hne : ¬ (n.quote.isNone = true ∧ c = '#') := by
          rintro ⟨-, rfl⟩
          exact absurd hc (by decide)
        rw [List.dropWhile_cons_of_pos hc] at h
        rw [if_neg hne, Nesting.advance_of_isBlank hc]
        exact ih h
      · rw [List.dropWhile_cons_of_neg hc] at h
        have hhash : c = '#' := (List.cons.inj h).1
        rw [if_pos ⟨by rw [hquote]; rfl, hhash⟩]

/-- How a line ends that ends inside a string with a single delimiter: if its last character is a
backslash, the string goes on; else it is closed and reported. -/
theorem CodeLine.read_of_quote {n : Nesting} {raw : Text} {q : Quote}
    (hopen : (n.code raw).2.quote = some q) (hsingle : q.isTriple = false) :
    CodeLine.read n raw = if Text.lastIs (· == '\\') raw.trim then
        ⟨raw.trim, (n.code raw).2, false, none⟩
      else ⟨raw.trim, { (n.code raw).2 with quote := none }, false, some q⟩ := by
  have hcode := Nesting.code_of_quote hopen
  unfold CodeLine.read
  generalize n.code raw = read at hopen hcode ⊢
  obtain ⟨code, after⟩ := read
  have hopen : after.quote = some q := hopen
  obtain rfl : code = raw := hcode
  by_cases hslash : Text.lastIs (· == '\\') code.trim = true
  · simp [hslash, hopen]
  · simp [hslash, hopen, hsingle]

namespace ScanState

/-- Such a line is read for its code, so the nesting behind it is what the line leaves open, if
the join limit does not close the statement there. -/
theorem Reads.nesting_of_quote {cfg : Config} {number : Nat} {raw : Text} {s next : ScanState}
    {output : ScanOutput} {q : Quote} (outcome : Reads cfg number raw s next output)
    (settled : s.Settled) (hopen : (s.nesting.code raw).2.quote = some q)
    (hlimit : ∀ still, ⟨number, .joinLimitReached cfg.maxLineJoins still⟩ ∉ output.diagnostics) :
    next.nesting = (CodeLine.read s.nesting raw).nesting ∧
      (next.pending = none ∨ (CodeLine.read s.nesting raw).isContinued = true) ∧
      output.diagnostics = stringReports number (CodeLine.read s.nesting raw) := by
  cases outcome with
  | declares idle _ _ hname =>
      -- a declaration is a comment, behind which no string is open
      obtain ⟨comment, hcomment⟩ := exists_trimStart_of_encodingDeclaration? hname
      have hquote : s.nesting.quote = none := by
        rw [settled.nesting idle]
        rfl
      rw [Nesting.code_of_comment hquote hcomment, hquote] at hopen
      exact nomatch hopen
  | passes idle _ => exact ⟨rfl, .inl idle, rfl⟩
  | ends _ => exact ⟨rfl, .inl rfl, rfl⟩
  | cutsOff _ _ =>
      exact absurd (List.mem_append_right _ (List.mem_singleton.2 rfl)) (hlimit _)
  | continues continued _ => exact ⟨rfl, .inr continued, rfl⟩

end ScanState

/-! ## §3. A whole source. -/

namespace LogicalLine

open ScanState

/-- **A STRING WITH A SINGLE DELIMITER RUNS OVER A LINE BREAK IF THE BREAK IS ESCAPED, OR IF THE
LINE ENDS IN A BACKSLASH WITHOUT THAT EFFECT.**  Otherwise it is reported on that very line and
closed, and the statement ends there unless a bracket is open. -/
theorem string_over_line_break (cfg : Config) (source : Text) (i : Nat) (raw : Text) (q : Quote)
    (hraw : source.lines[i]? = some raw)
    (hopen : ((reached cfg source i).nesting.code raw).2.quote = some q)
    (hsingle : q.isTriple = false)
    (hlimit : ∀ still, ⟨i + 1, .joinLimitReached cfg.maxLineJoins still⟩ ∉
      (scan cfg source).diagnostics) :
    ((reached cfg source (i + 1)).nesting.quote = some q ↔
      (reached cfg source i).nesting.EscapesBreak q raw ∨
        (reached cfg source i).nesting.EndsInIdleBackslash q raw) ∧
    ((reached cfg source (i + 1)).nesting.quote ≠ some q →
      (reached cfg source (i + 1)).nesting.quote = none ∧
      ⟨i + 1, .unterminatedString q⟩ ∈ (scan cfg source).diagnostics ∧
      (((reached cfg source i).nesting.code raw).2.depth = 0 →
        (reached cfg source (i + 1)).pending = none)) := by
  have outcome := step_reads cfg (i + 1) raw (reached cfg source i)
  obtain ⟨hnesting, hpending, hreports⟩ := outcome.nesting_of_quote
    (settled_reached cfg source i) hopen fun still hmem =>
      hlimit still (mem_diagnostics_of_step hraw hmem)
  rw [← reached_succ hraw] at hnesting hpending
  have hread := CodeLine.read_of_quote hopen hsingle
  have hescapes (h : (reached cfg source i).nesting.EscapesBreak q raw) := h.lastIs
  unfold Nesting.EndsInIdleBackslash
  by_cases hslash : Text.lastIs (· == '\\') raw.trim = true
  · -- the string goes on, whether the backslash escapes the break or not
    rw [if_pos hslash] at hread
    rw [hread] at hnesting
    have hkept : (reached cfg source (i + 1)).nesting.quote = some q := by
      rw [hnesting]
      exact hopen
    refine ⟨⟨fun _ => ?_, fun _ => hkept⟩, fun hclosed => absurd hkept hclosed⟩
    by_cases hbreak : (reached cfg source i).nesting.EscapesBreak q raw
    · exact .inl hbreak
    · exact .inr ⟨hslash, hbreak⟩
  · rw [if_neg hslash] at hread
    rw [hread] at hnesting hpending hreports
    have hclosed : (reached cfg source (i + 1)).nesting.quote = none := by
      rw [hnesting]
    refine ⟨⟨fun hkept => ?_, fun h => ?_⟩, fun _ => ⟨hclosed, ?_, fun hdepth => ?_⟩⟩
    · rw [hclosed] at hkept
      exact nomatch hkept
    · rcases h with hbreak | ⟨hbackslash, -⟩
      · exact absurd (hescapes hbreak) hslash
      · exact absurd hbackslash hslash
    · refine mem_diagnostics_of_step hraw ?_
      rw [hreports]
      exact List.mem_singleton.2 rfl
    · rcases hpending with hidle | hcontinued
      · exact hidle
      · have hdepth : ((reached cfg source i).nesting.code raw).2.depth = 0 := hdepth
        unfold CodeLine.isContinued Nesting.isTopLevel Nesting.depth at hcontinued
        unfold Nesting.depth at hdepth
        simp [hdepth] at hcontinued

/-- The first line escapes its break, and its string goes on; the second does not, and the string
is closed there, while the bracket stays open. -/
theorem string_over_line_break_of_escaped :
    let source := "x = ('a\\\nb\n'c')\n".toList
    (reached {} source 1).nesting.quote = some .single ∧
      ⟨2, .unterminatedString .single⟩ ∈ (scan {} source).diagnostics ∧
      (reached {} source 2).nesting.quote = none := by
  intro source
  have hreports : (scan {} source).diagnostics = [⟨2, .unterminatedString .single⟩] := by
    decide +kernel
  have hlimit (number : Nat) (still : Nesting) :
      ⟨number, .joinLimitReached ({} : Config).maxLineJoins still⟩ ∉ (scan {} source).diagnostics := by
    rw [hreports]
    simp
  have hbreak : (reached {} source 0).nesting.EscapesBreak .single "x = ('a\\".toList :=
    ⟨{ paren := 1, quote := some .single }, rfl, by decide +kernel⟩
  obtain ⟨hfirst, -⟩ := string_over_line_break {} source 0 "x = ('a\\".toList .single
    (by decide +kernel) (by decide +kernel) rfl (hlimit 1)
  obtain ⟨-, hsecond⟩ := string_over_line_break {} source 1 "b".toList .single
    (by decide +kernel) (by decide +kernel) rfl (hlimit 2)
  obtain ⟨hclosed, hreported, -⟩ := hsecond (by decide +kernel)
  exact ⟨hfirst.2 (.inl hbreak), hreported, hclosed⟩

/-- **An escaped backslash keeps a string open**, though it does not escape the line break: the
next statement is swallowed. -/
theorem string_kept_open_by_escaped_backslash :
    let raw : Text := "x = 'a\\\\".toList
    let source : Text := raw ++ "\ny = 2\n".toList
    source.lines[0]? = some raw ∧ (Nesting.closed.code raw).2.quote = some .single ∧
      ¬ Nesting.closed.EscapesBreak .single raw ∧
      (reached {} source 1).nesting.quote = some .single ∧
      scan {} source
        = ⟨[⟨1, 2, 0, raw ++ "\ny = 2".toList, true, []⟩], none, [⟨2, .unterminatedString .single⟩]⟩ := by
  intro raw source
  refine ⟨by decide +kernel, by decide +kernel, ?_, by decide +kernel, by decide +kernel⟩
  rintro ⟨before, -, hlast⟩
  have hpair : (Nesting.closed.lexemes raw).getLast?
      = some ⟨'\\', ['\\'], { quote := some .single }⟩ := by decide +kernel
  rw [hpair] at hlast
  simp at hlast

end LogicalLine

end ClassOutline
