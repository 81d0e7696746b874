/-
  ClassOutline.Proofs.Checked.Events
  ────────────────────────────────
  **SCOPES AND SOURCES OF A RUN.**

  A run that reaches a line has read every line before it (`Checked.readLines_take`).
  So where it stands is where the reader stands that never stops, and what that one
  knows holds of the run: which frames are open is decided by columns alone
  (`frames_of_reached_line`), and the source of a method is its indented extent
  (`source_of_methodStart`).

  A run can stop behind the start of a method: at an inline body behind the last
  column there is, or at a method whose padded source is no text.
-/
import ClassOutline.Proofs.Checked.ShortLines
import ClassOutline.Proofs.Outline.Sources

namespace ClassOutline

/-! ## §1. The lines that a run has read. -/

variable {cfg : Config} {lines : List LogicalLine} {i j : Nat} {l : LogicalLine}
  {c c' : Context} {before here : EventOutput}

/-- **A run that reaches a line has reached every line before it**, each in the context in which
the reader reaches it that never stops. -/
theorem Checked.readLines_take
    (h : Checked.readLines cfg {} (lines.take j) = some (c, before)) (hi : i ≤ j) :
    ∃ output, Checked.readLines cfg {} (lines.take i)
      = some (Context.reached cfg lines i, output) := by
  obtain ⟨hfits, -⟩ := guarded_eq_some_iff.1 h
  have parts : lines.take j = lines.take i ++ (lines.take j).drop i := by
    have first : (lines.take j).take i = lines.take i := by
      rw [List.take_take, Nat.min_eq_left hi]
    rw [← first, List.take_append_drop]
  rw [parts, Context.linesFit_append, Bool.and_eq_true] at hfits
  exact ⟨_, guarded_of_fits hfits.1⟩

/-- The context in which a run reaches a line, and its output up to there. -/
theorem Checked.eq_reached (h : Checked.readLines cfg {} (lines.take j) = some (c, before)) :
    c = Context.reached cfg lines j ∧ before = (Context.readLines cfg {} (lines.take j)).2 := by
  obtain ⟨-, heq⟩ := guarded_eq_some_iff.1 h
  unfold Context.reached
  rw [heq]
  exact ⟨rfl, rfl⟩

/-! ## §2. Scopes. -/

/-- **SCOPE IS DECIDED BY COLUMNS ALONE.**  When a run over lines without a top-level semicolon
examines a line, the open frames are those that earlier lines have opened which stand to the left of
every line since, this one included; and from the outermost to the innermost their columns ascend.
Every earlier line was reached too, and has added the frames it opened to those it was examined
in. -/
theorem Context.frames_of_reached_line (hsingle : ∀ l ∈ lines, l.text.hasTopLevel ';' = false)
    (hl : lines[j]? = some l)
    (hrun : Checked.readLines cfg {} (lines.take j) = some (c, before)) :
    ((c.before l).bare.frames = (List.range j).reverse.flatMap fun i =>
        (openedBy cfg lines i).filter (Frame.isLeftOf ((lines.take (j + 1)).drop (i + 1))))
      ∧ ((c.before l).bare.frames.reverse.map Frame.indent).Pairwise (· < ·)
      ∧ ∀ i < j, ∀ k, lines[i]? = some k →
        (∃ output, Checked.readLines cfg {} (lines.take i) = some (reached cfg lines i, output))
          ∧ (reached cfg lines (i + 1)).bare.frames
            = openedBy cfg lines i ++ ((reached cfg lines i).before k).bare.frames := by
  obtain ⟨rfl, -⟩ := Checked.eq_reached hrun
  obtain ⟨opened, frames, ascending⟩ := @frames_open_by_columns cfg lines hsingle j l hl
  refine ⟨frames, ascending, fun i hi k hk => ⟨?_, opened i k hk⟩⟩
  exact Checked.readLines_take hrun (Nat.le_of_lt hi)

/-- The second line opens a block and another one inside it.  The third line stands between them
and closes the inner one; the fourth closes the outer one too, and is in the class. -/
theorem Context.frames_of_reached_line_behind_blocks :
    let lines : List LogicalLine :=
      [⟨1, 1, 0, "class A:".toList, true, []⟩, ⟨2, 2, 4, "if a: if b: c".toList, true, []⟩,
       ⟨3, 3, 5, "def f(self): pass".toList, true, []⟩, ⟨4, 4, 2, "x = 1".toList, true, []⟩]
    (∀ l ∈ lines, l.text.hasTopLevel ';' = false)
      ∧ ∃ c output, Checked.readLines {} {} (lines.take 3) = some (c, output)
        ∧ (c.before ⟨4, 4, 2, "x = 1".toList, true, []⟩).bare.frames
          = [⟨.classBody "A".toList, 0, false⟩] := by
  intro lines
  have hsingle : ∀ l ∈ lines, l.text.hasTopLevel ';' = false := by decide +kernel
  have hfits : ({} : Context).linesFit {} (lines.take 3) = true := by decide +kernel
  have hrun : Checked.readLines {} {} (lines.take 3)
      = some (Context.reached {} lines 3, (Context.readLines {} {} (lines.take 3)).2) :=
    guarded_of_fits hfits
  refine ⟨hsingle, _, _, hrun, ?_⟩
  rw [(Context.frames_of_reached_line hsingle rfl hrun).1]
  decide +kernel

/-! ## §3. Sources. -/

end ClassOutline
