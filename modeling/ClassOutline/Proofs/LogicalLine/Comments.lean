/-
  ClassOutline.Proofs.LogicalLine.Comments
  ────────────────────────────────
  **WHICH COMMENTS STAND ABOVE A STATEMENT.**

  The comments of a statement are the texts of a run: the longest one of
  comment lines, each outside all statements, that ends right above it
  (`commentRun`).  The declaration of the encoding and a `#!` on the first line
  belong to the run and have no text.

  The scanner has no runs.  It collects texts, forgets them at a blank line, and
  gives them to the statement that begins; `ScanState.waiting` are those it has,
  wherever they are kept.  The invariant is that they are the texts of the run
  above the line where reading resumes (`hasNotes_reached`), so that they do not
  change while a statement is open, and are gone behind it.
-/
import ClassOutline.Proofs.LogicalLine.Reached
import Mathlib.Data.List.DropRight

namespace ClassOutline

/-- The physical lines of a source, each with its number. -/
def Text.numberedLines (source : Text) : List (Text × Nat) := source.lines.zipIdx 1

/-! ## §1. Runs of comment lines. -/

namespace LogicalLine

/-- The line has `#` as its first character that is no blank, and no statement reaches over it. -/
def IsNote (r : ScanResult) (p : Text × Nat) : Prop :=
  p.1.trimStart.head? = some '#' ∧ ∀ l ∈ r.lines, ¬ (l.line ≤ p.2 ∧ p.2 ≤ l.endLine)

instance (r : ScanResult) (p : Text × Nat) : Decidable (IsNote r p) :=
  inferInstanceAs (Decidable (_ ∧ _))

/-- The longest run of comment lines that ends right above line `n`.  A statement that reaches
over one of the lines above `n` begins above `n`. -/
def commentRun (r : ScanResult) (source : Text) (n : Nat) : List (Text × Nat) :=
  (source.numberedLines.take (n - 1)).rtakeWhile fun p => IsNote r p

/-- The encoding that the result records is declared here: on one of the first two lines, and on
none before. -/
def IsRecordedDeclaration (r : ScanResult) (source : Text) (p : Text × Nat) : Prop :=
  p.2 ≤ 2 ∧ (r.encoding.isSome ∧ encodingDeclaration? p.1 = r.encoding) ∧
    ∀ raw ∈ source.lines.take (p.2 - 1), encodingDeclaration? raw = none

instance (r : ScanResult) (source : Text) (p : Text × Nat) :
    Decidable (IsRecordedDeclaration r source p) :=
  inferInstanceAs (Decidable (_ ∧ (_ ∧ _) ∧ _))

/-- The text behind the `#` of a comment line, if it is neither a `#!` on the first line nor the
declaration of the encoding. -/
def noteText? (r : ScanResult) (source : Text) (p : Text × Nat) : Option Text :=
  if (p.2 = 1 ∧ p.1.trimStart.startsWith ['#', '!']) ∨ IsRecordedDeclaration r source p then none
  else some (Text.trim p.1.trimStart.tail)

/-- The texts of the run above line `n`. -/
def noteTexts (r : ScanResult) (source : Text) (n : Nat) : List Text :=
  (commentRun r source n).filterMap (noteText? r source)

variable {r : ScanResult} {source raw : Text} {i n : Nat}

theorem getElem?_numberedLines (hraw : source.lines[i]? = some raw) :
    source.numberedLines[i]? = some (raw, i + 1) := by
  unfold Text.numberedLines
  rw [List.getElem?_zipIdx, hraw, Nat.add_comm i 1]
  rfl

/-- The first `k` lines have the numbers up to `k`. -/
theorem mem_take_numberedLines {k : Nat} {p : Text × Nat} :
    p ∈ source.numberedLines.take k ↔ ∃ j < k, source.lines[j]? = some p.1 ∧ p.2 = j + 1 := by
  rw [List.mem_iff_getElem?]
  refine ⟨fun ⟨j, hj⟩ => ?_, fun ⟨j, hlt, hraw, hnumber⟩ => ⟨j, ?_⟩⟩
  · have hlt : j < k := by
      by_contra hge
      rw [List.getElem?_take, if_neg hge] at hj
      exact nomatch hj
    rw [List.getElem?_take_of_lt hlt] at hj
    unfold Text.numberedLines at hj
    rw [List.getElem?_zipIdx] at hj
    obtain ⟨raw, hraw, rfl⟩ := Option.map_eq_some_iff.1 hj
    exact ⟨j, hlt, hraw, Nat.add_comm 1 j⟩
  · rw [List.getElem?_take_of_lt hlt, getElem?_numberedLines hraw, ← hnumber]

/-- The line above is the last of the run, or there is no run. -/
theorem commentRun_succ (hraw : source.lines[i]? = some raw) :
    commentRun r source (i + 2)
      = if IsNote r (raw, i + 1) then commentRun r source (i + 1) ++ [(raw, i + 1)] else [] := by
  have htake : source.numberedLines.take (i + 1) = source.numberedLines.take i ++ [(raw, i + 1)] := by
    rw [List.take_add_one, getElem?_numberedLines hraw]
    rfl
  show (source.numberedLines.take (i + 1)).rtakeWhile _ = _
  rw [htake, List.rtakeWhile_concat]
  simp only [decide_eq_true_eq]
  rfl

theorem noteTexts_of_isNote (hraw : source.lines[i]? = some raw) (h : IsNote r (raw, i + 1)) :
    noteTexts r source (i + 2)
      = noteTexts r source (i + 1) ++ (noteText? r source (raw, i + 1)).toList := by
  unfold noteTexts
  rw [commentRun_succ hraw, if_pos h, List.filterMap_append]
  cases hnote : noteText? r source (raw, i + 1) with
  | none => simp [hnote]
  | some text => simp [hnote]

theorem noteTexts_of_not_isNote (hraw : source.lines[i]? = some raw)
    (h : ¬ IsNote r (raw, i + 1)) : noteTexts r source (i + 2) = [] := by
  unfold noteTexts
  rw [commentRun_succ hraw, if_neg h]
  rfl

end LogicalLine

/-! ## §2. The line that declares the encoding. -/

namespace ScanState

open LogicalLine

variable {cfg : Config} {source : Text} {number i : Nat} {raw : Text} {s : ScanState}

theorem encoding_stepCode : (s.stepCode cfg number raw).1.encoding = s.encoding := by
  unfold stepCode
  dsimp only
  split
  · rfl
  · split
    · rfl
    · split <;> rfl

/-- One of the first two lines declares the encoding if none is known and it can. -/
theorem encoding_step (idle : s.pending = none) (unknown : s.encoding = none)
    (early : number ≤ 2) : (s.step cfg number raw).1.encoding = encodingDeclaration? raw := by
  have hfirst : s.pending.isNone = true ∧ number ≤ 2 ∧ s.encoding.isNone = true := by
    rw [idle, unknown]
    exact ⟨rfl, early, rfl⟩
  unfold step
  rw [if_pos hfirst]
  split
  · next name hname => exact hname.symm
  · next hnone =>
    rw [encoding_stepCode, unknown]
    exact hnone.symm

/-- An encoding becomes known by a declaration on one of the first two lines, and stays. -/
theorem Reads.encoding {next : ScanState} {output : ScanOutput}
    (outcome : Reads cfg number raw s next output) :
    next.encoding = s.encoding ∨
      s.encoding = none ∧ number ≤ 2 ∧ next.encoding = encodingDeclaration? raw := by
  cases outcome with
  | declares _ unknown early hname => exact .inr ⟨unknown, early, hname.symm⟩
  | passes => exact .inl rfl
  | ends => exact .inl rfl
  | cutsOff => exact .inl rfl
  | continues => exact .inl rfl

theorem encoding_run (physical : List Text) (known : s.encoding.isSome = true) :
    (s.run cfg number physical).1.encoding = s.encoding := by
  induction physical generalizing number s with
  | nil => rfl
  | cons raw rest ih =>
      have hstep : (s.step cfg number raw).1.encoding = s.encoding := by
        rcases (step_reads cfg number raw s).encoding with hkept | ⟨unknown, -⟩
        · exact hkept
        · rw [unknown] at known
          exact nomatch known
      rw [run_cons]
      show ((s.step cfg number raw).1.run cfg (number + 1) rest).1.encoding = s.encoding
      rw [ih (hstep ▸ known), hstep]

/-- An encoding that is known behind some line is the one that the scan records. -/
theorem encoding_scan (hi : i ≤ source.lines.length)
    (known : (reached cfg source i).encoding.isSome = true) :
    (scan cfg source).encoding = (reached cfg source i).encoding := by
  show (run cfg 1 {} source.lines).1.encoding = _
  rw [run_lines cfg hi]
  exact encoding_run _ known

/-- In front of the first two lines no encoding is known if none was declared. -/
theorem encoding_reached (cfg : Config) (hi : i ≤ 1) (hlength : i ≤ source.lines.length) :
    (reached cfg source i).encoding = none ↔
      ∀ raw ∈ source.lines.take i, encodingDeclaration? raw = none := by
  cases i with
  | zero => exact ⟨fun _ raw hraw => absurd hraw List.not_mem_nil, fun _ => rfl⟩
  | succ i =>
      obtain rfl : i = 0 := by omega
      obtain ⟨first, rest, hlines⟩ := List.exists_cons_of_length_pos hlength
      have hraw : source.lines[0]? = some first := by
        rw [hlines]
        rfl
      have hstart : reached cfg source 0 = {} := rfl
      rw [reached_succ hraw, hstart, encoding_step rfl rfl (by decide), hlines]
      exact ⟨fun h raw hraw => List.mem_singleton.1 hraw ▸ h, fun h => h first List.mem_cons_self⟩

/-- The declaration that the scan records is the line behind which an encoding is known and in
front of which none is. -/
theorem isRecordedDeclaration_iff (cfg : Config) (hraw : source.lines[i]? = some raw)
    (idle : (reached cfg source i).pending = none) :
    IsRecordedDeclaration (scan cfg source) source (raw, i + 1) ↔
      (reached cfg source i).encoding = none ∧
        (reached cfg source (i + 1)).encoding.isSome = true := by
  have hi : i + 1 ≤ source.lines.length := (List.getElem?_eq_some_iff.1 hraw).1
  constructor
  · rintro ⟨early, ⟨hsome, hname⟩, hbefore⟩
    have unknown :=
      (encoding_reached cfg (Nat.le_of_succ_le_succ early) (Nat.le_of_succ_le hi)).2 hbefore
    refine ⟨unknown, ?_⟩
    have hname : encodingDeclaration? raw = (scan cfg source).encoding := hname
    rw [reached_succ hraw, encoding_step idle unknown early, hname]
    exact hsome
  · rintro ⟨unknown, known⟩
    have hrecorded := encoding_scan hi known
    have outcome := step_reads cfg (i + 1) raw (reached cfg source i)
    rw [← reached_succ hraw] at outcome
    rcases outcome.encoding with hkept | ⟨-, early, hname⟩
    · rw [hkept, unknown] at known
      exact nomatch known
    · refine ⟨early, ⟨?_, ?_⟩,
        (encoding_reached cfg (Nat.le_of_succ_le_succ early) (Nat.le_of_succ_le hi)).1 unknown⟩
      · rw [hrecorded]
        exact known
      · rw [hrecorded]
        exact hname.symm

/-! ## §3. The comments that wait. -/

/-- The comments above the statement that is open, or above the next one. -/
def waiting (s : ScanState) : List Text :=
  match s.pending with
  | none => s.comments
  | some o => o.comments

/-- They are the texts of the run above the line where reading resumes. -/
def HasNotes (r : ScanResult) (source : Text) (number : Nat) (s : ScanState) : Prop :=
  s.waiting = noteTexts r source (s.resumesAt number)

theorem hasNotes_iff_of_idle {r : ScanResult} (h : s.pending = none) :
    s.HasNotes r source number ↔ s.comments = noteTexts r source (number + 1) := by
  unfold HasNotes waiting
  rw [h, resumesAt_of_idle h]

theorem hasNotes_iff_of_open {r : ScanResult} {o : OpenLine} (h : s.pending = some o) :
    s.HasNotes r source number ↔ o.comments = noteTexts r source o.line := by
  unfold HasNotes waiting
  rw [h, resumesAt_of_open h]

theorem comments_openWith (c : CodeLine) :
    (s.openWith cfg number raw c).comments = s.waiting := by
  unfold openWith waiting
  cases s.pending with
  | none => rfl
  | some o => rfl

/-- A statement that a line completes begins where reading resumed, with the comments that
waited. -/
theorem Reads.taken {next : ScanState} {output : ScanOutput}
    (outcome : Reads cfg (number + 1) raw s next output) {l : LogicalLine}
    (hl : l ∈ output.lines) :
    l.line = s.resumesAt number ∧ l.endLine = number + 1 ∧ l.comments = s.waiting := by
  cases outcome with
  | declares => exact absurd hl List.not_mem_nil
  | passes => exact absurd hl List.not_mem_nil
  | ends =>
      rw [List.mem_singleton.1 hl]
      exact ⟨line_openWith _, rfl, comments_openWith _⟩
  | cutsOff =>
      rw [List.mem_singleton.1 hl]
      exact ⟨line_openWith _, rfl, comments_openWith _⟩
  | continues => exact absurd hl List.not_mem_nil

/-- A line that completes a statement is no comment line. -/
theorem not_isNote_of_step (cfg : Config) (hraw : source.lines[i]? = some raw) :
    ∀ l ∈ ((reached cfg source i).step cfg (i + 1) raw).2.lines,
      ¬ IsNote (scan cfg source) (raw, i + 1) := by
  rintro l hl ⟨-, houtside⟩
  obtain ⟨hline, hlast, -⟩ := (step_reads cfg (i + 1) raw (reached cfg source i)).taken hl
  have hi : i ≤ source.lines.length := Nat.le_of_lt (List.getElem?_eq_some_iff.1 hraw).1
  have hle := (spans_reached cfg hi).resumesAt_le
  refine houtside l (mem_lines_of_step hraw hl) ⟨?_, Nat.le_of_eq hlast.symm⟩
  rw [hline]
  exact hle

/-- A `#!` begins a line whose comment begins with `!`. -/
theorem startsWith_hash_bang {comment : Text} (h : raw.trimStart = '#' :: comment) :
    raw.trimStart.startsWith ['#', '!'] = true ↔ comment.head? = some '!' := by
  rw [h]
  cases comment with
  | nil => simp [Text.startsWith]
  | cons c comment =>
      show ('#' == '#' && ('!' == c && true)) = true ↔ some c = some '!'
      rw [beq_self_eq_true, Bool.true_and, Bool.and_true, beq_iff_eq, Option.some.injEq]
      exact eq_comm

/-- A line without code breaks the run, or adds its text to those that wait. -/
theorem commentsAfter_eq {r : ScanResult} (hraw : source.lines[i]? = some raw)
    (h : s.comments = noteTexts r source (i + 1))
    (outside : ∀ l ∈ r.lines, ¬ (l.line ≤ i + 1 ∧ i + 1 ≤ l.endLine))
    (plain : ¬ IsRecordedDeclaration r source (raw, i + 1)) :
    commentsAfter (i + 1) raw s = noteTexts r source (i + 2) := by
  unfold commentsAfter
  split
  · next hnone =>
    refine (noteTexts_of_not_isNote hraw ?_).symm
    rintro ⟨hhead, -⟩
    obtain ⟨comment, hcomment⟩ := List.head?_eq_some_iff.1 hhead
    rw [commentOf?_eq_some_iff.2 hcomment] at hnone
    exact nomatch hnone
  · next comment hcomment =>
    have hcomment : raw.trimStart = '#' :: comment := commentOf?_eq_some_iff.1 hcomment
    have hnote : IsNote r (raw, i + 1) :=
      ⟨List.head?_eq_some_iff.2 ⟨comment, hcomment⟩, outside⟩
    have hbang := startsWith_hash_bang hcomment
    rw [noteTexts_of_isNote hraw hnote, h]
    unfold noteText?
    simp only [plain, or_false, hbang]
    split
    · exact (List.append_nil _).symm
    · rw [hcomment]
      rfl

/-- The declaration of the encoding is part of the run, without a text. -/
theorem noteTexts_of_declaration {r : ScanResult} (hraw : source.lines[i]? = some raw)
    (outside : ∀ l ∈ r.lines, ¬ (l.line ≤ i + 1 ∧ i + 1 ≤ l.endLine))
    (h : IsRecordedDeclaration r source (raw, i + 1)) :
    noteTexts r source (i + 2) = noteTexts r source (i + 1) := by
  have htext : noteText? r source (raw, i + 1) = none := if_pos (.inr h)
  obtain ⟨-, ⟨hsome, hdeclared⟩, -⟩ := h
  obtain ⟨name, hname⟩ := Option.isSome_iff_exists.1 hsome
  obtain ⟨comment, hcomment⟩ := exists_trimStart_of_encodingDeclaration? (hdeclared.trans hname)
  have hnote : IsNote r (raw, i + 1) :=
    ⟨List.head?_eq_some_iff.2 ⟨comment, hcomment⟩, outside⟩
  rw [noteTexts_of_isNote hraw hnote, htext]
  exact List.append_nil _

/-- One line keeps the comments that wait those of the run. -/
theorem hasNotes_succ (hraw : source.lines[i]? = some raw)
    (h : (reached cfg source i).HasNotes (scan cfg source) source i) :
    (reached cfg source (i + 1)).HasNotes (scan cfg source) source (i + 1) := by
  have settled := settled_reached cfg source i
  have outside := outside_of_idle cfg hraw
  have complete := not_isNote_of_step cfg hraw
  have recorded := isRecordedDeclaration_iff cfg hraw
  have outcome := step_reads cfg (i + 1) raw (reached cfg source i)
  rw [← reached_succ hraw] at outcome
  -- of the two states only what is stated above is used: one case for each outcome of the line
  generalize reached cfg source i = s at *
  generalize reached cfg source (i + 1) = next at *
  generalize (s.step cfg (i + 1) raw).2 = output at *
  cases outcome with
  | declares idle unknown early hname =>
      -- the run grows by the line, its texts do not
      have h := (hasNotes_iff_of_idle idle).1 h
      have hrecorded := (recorded idle).2 ⟨unknown, rfl⟩
      refine (hasNotes_iff_of_idle ?_).2 ?_
      · exact idle
      · rw [noteTexts_of_declaration hraw (outside idle idle rfl) hrecorded]
        exact h
  | passes idle void =>
      have h := (hasNotes_iff_of_idle idle).1 h
      have hplain : ¬ IsRecordedDeclaration (scan cfg source) source (raw, i + 1) := by
        intro hrecorded
        obtain ⟨unknown, known⟩ := (recorded idle).1 hrecorded
        have known : s.encoding.isSome = true := known
        rw [unknown] at known
        exact nomatch known
      refine (hasNotes_iff_of_idle ?_).2 ?_
      · exact idle
      · exact commentsAfter_eq hraw h (outside idle idle rfl) hplain
  | ends done =>
      -- the line is in the range of the statement, so no run reaches behind it
      refine (hasNotes_iff_of_idle rfl).2 ?_
      rw [noteTexts_of_not_isNote hraw (complete _ (List.mem_singleton.2 rfl))]
      exact settled.comments_behind (CodeLine.read s.nesting raw)
  | cutsOff _ _ =>
      refine (hasNotes_iff_of_idle rfl).2 ?_
      rw [noteTexts_of_not_isNote hraw (complete _ (List.mem_singleton.2 rfl))]
      exact settled.comments_behind (CodeLine.read s.nesting raw)
  | continues _ _ =>
      -- reading resumes where it did, with the comments that waited
      refine (hasNotes_iff_of_open rfl).2 ?_
      rw [comments_openWith, line_openWith]
      exact h

/-- **THE COMMENTS THAT WAIT ARE THE TEXTS OF THE RUN ABOVE THE LINE WHERE READING RESUMES.** -/
theorem hasNotes_reached (cfg : Config) (source : Text) (hi : i ≤ source.lines.length) :
    (reached cfg source i).HasNotes (scan cfg source) source i := by
  induction i with
  | zero => rfl
  | succ i ih => exact hasNotes_succ (List.getElem?_eq_getElem hi) (ih (Nat.le_of_succ_le hi))

/-- What is complete has the texts of the run above it. -/
theorem comments_completed (cfg : Config) (source : Text) (hi : i ≤ source.lines.length)
    {l : LogicalLine} (hl : l ∈ completed cfg source i) :
    l.comments = noteTexts (scan cfg source) source l.line := by
  induction i with
  | zero => exact absurd hl List.not_mem_nil
  | succ i ih =>
      rw [completed_succ (List.getElem?_eq_getElem hi)] at hl
      rcases List.mem_append.1 hl with hl | hl
      · exact ih (Nat.le_of_succ_le hi) hl
      · obtain ⟨hline, -, hcomments⟩ := (step_reads cfg (i + 1) _ (reached cfg source i)).taken hl
        rw [hcomments, hline]
        exact hasNotes_reached cfg source (Nat.le_of_succ_le hi)

end ScanState

/-! ## §4. A whole source. -/

namespace LogicalLine

variable {cfg : Config} {source : Text} {r : ScanResult} {n : Nat}

theorem comments_of_mem_scan {l : LogicalLine} (hl : l ∈ (scan cfg source).lines) :
    l.comments = noteTexts (scan cfg source) source l.line := by
  have hnotes := ScanState.hasNotes_reached cfg source (Nat.le_refl source.lines.length)
  have hend := ScanState.lines_scan cfg (Nat.le_refl source.lines.length)
  rw [List.drop_length] at hend
  rw [hend] at hl
  rcases List.mem_append.1 hl with hl | hl
  · exact ScanState.comments_completed cfg source (Nat.le_refl _) hl
  · -- the end of the source closes the statement that is open there
    have hl : l ∈ ((ScanState.reached cfg source source.lines.length).finish
        source.lines.length).lines := hl
    cases hpending : (ScanState.reached cfg source source.lines.length).pending with
    | none =>
        unfold ScanState.finish at hl
        rw [hpending] at hl
        exact absurd hl List.not_mem_nil
    | some o =>
        rw [ScanState.lines_finish hpending] at hl
        rw [List.mem_singleton.1 hl]
        exact (ScanState.hasNotes_iff_of_open hpending).1 hnotes

/-- A run goes on up to its end: it has every line of the source between the two. -/
theorem mem_commentRun_of_lt {p q : Text × Nat} (hp : p ∈ commentRun r source n)
    (hq : q ∈ source.numberedLines.take (n - 1)) (hlt : p.2 < q.2) :
    q ∈ commentRun r source n := by
  have increasing : (source.numberedLines.take (n - 1)).Pairwise fun a b => a.2 < b.2 := by
    refine List.Pairwise.sublist (List.take_sublist _ _) ?_
    have h : (source.numberedLines.map Prod.snd).Pairwise (· < ·) := by
      unfold Text.numberedLines
      rw [List.zipIdx_map_snd]
      exact List.pairwise_lt_range'
    exact List.pairwise_map.1 h
  obtain ⟨front, hfront⟩ := List.rtakeWhile_suffix (fun p => decide (IsNote r p))
    (source.numberedLines.take (n - 1))
  rw [← hfront] at hq increasing
  rcases List.mem_append.1 hq with hq | hq
  · have hgt := (List.pairwise_append.1 increasing).2.2 q hq p hp
    exact absurd hgt (Nat.lt_asymm hlt)
  · exact hq

/-- The runs above two statements have no line in common: between the two stands the first. -/
theorem disjoint_commentRun {a b : LogicalLine} (ha : a ∈ (scan cfg source).lines)
    (hb : b ∈ (scan cfg source).lines) (hapart : a.endLine < b.line) :
    List.Disjoint (commentRun (scan cfg source) source a.line)
      (commentRun (scan cfg source) source b.line) := by
  intro p hpa hpb
  have haccounted := scan_accounted cfg source
  obtain ⟨hfirst, hle, -, -⟩ := haccounted.ranges a ha
  obtain ⟨-, hlast, hend, -⟩ := haccounted.ranges b hb
  obtain ⟨j, hj, -, hp⟩ := mem_take_numberedLines.1 ((List.rtakeWhile_suffix _ _).subset hpa)
  have hline : a.line - 1 < source.lines.length := by omega
  -- the first line of `a` would be in the run above `b`
  have hmem : (source.lines[a.line - 1], a.line) ∈ commentRun (scan cfg source) source b.line := by
    refine mem_commentRun_of_lt hpb (mem_take_numberedLines.2 ⟨a.line - 1, ?_, ?_, ?_⟩) ?_
    · omega
    · exact List.getElem?_eq_getElem hline
    · show a.line = a.line - 1 + 1
      omega
    · show p.2 < a.line
      omega
  have hnote := List.mem_rtakeWhile_imp hmem
  exact (of_decide_eq_true hnote).2 a ha ⟨Nat.le_refl _, hle⟩

/-- **THE COMMENTS OF A STATEMENT ARE THE TEXTS OF THE RUN ABOVE IT, AND NO LINE IS IN THE RUNS
OF TWO.** -/
theorem comments_attach_below (cfg : Config) (source : Text) :
    (∀ l ∈ (scan cfg source).lines, l.comments
      = (commentRun (scan cfg source) source l.line).filterMap
          (noteText? (scan cfg source) source)) ∧
    (scan cfg source).lines.Pairwise fun a b =>
      List.Disjoint (commentRun (scan cfg source) source a.line)
        (commentRun (scan cfg source) source b.line) := by
  refine ⟨fun l hl => comments_of_mem_scan hl, ?_⟩
  exact (scan_accounted cfg source).apart.imp_of_mem fun ha hb hapart =>
    disjoint_commentRun ha hb hapart

/-- Above the class stand a `#!`, the declaration of the encoding and two comments; a comment
inside the brackets is in the range of the statement, and a blank line parts the one below it. -/
theorem comments_attach_below_of_three_statements :
    let source := ("#!/usr/bin/env python\n# coding: utf-8\n# Shape.\n  #  More. \nclass A:\n"
      ++ "    # x\n    x = (1,\n    # inside\n    2)\n    # stray\n\n    y = 3\n").toList
    let a : LogicalLine := ⟨5, 5, 0, "class A:".toList, true, ["Shape.".toList, "More.".toList]⟩
    let x : LogicalLine := ⟨7, 9, 4, "x = (1,\n\n2)".toList, true, ["x".toList]⟩
    let y : LogicalLine := ⟨12, 12, 4, "y = 3".toList, true, []⟩
    let r := scan {} source
    r.lines = [a, x, y] ∧ r.encoding = some "utf-8".toList ∧
      (commentRun r source 5).map Prod.snd = [1, 2, 3, 4] ∧
      (commentRun r source 5).filterMap (noteText? r source) = ["Shape.".toList, "More.".toList] ∧
      (commentRun r source 12).filterMap (noteText? r source) = [] ∧
      List.Disjoint (commentRun r source 5) (commentRun r source 7) := by
  intro source a x y r
  have hr : r = ⟨[a, x, y], some "utf-8".toList, []⟩ := by decide +kernel
  obtain ⟨hcomments, hdisjoint⟩ := comments_attach_below {} source
  change ∀ l ∈ r.lines, l.comments
    = (commentRun r source l.line).filterMap (noteText? r source) at hcomments
  change r.lines.Pairwise fun a b =>
    List.Disjoint (commentRun r source a.line) (commentRun r source b.line) at hdisjoint
  rw [hr] at hcomments hdisjoint ⊢
  have ha := hcomments a List.mem_cons_self
  have hy := hcomments y (List.mem_of_getLast? rfl)
  refine ⟨rfl, rfl, by decide +kernel, ha.symm, hy.symm, ?_⟩
  generalize commentRun _ source = run at hdisjoint ⊢
  exact List.rel_of_pairwise_cons hdisjoint List.mem_cons_self

end LogicalLine

end ClassOutline
