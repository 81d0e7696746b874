/-
  ClassOutline.Proofs.Event.Indentation
  ────────────────────────────────
  **WHICH FRAMES ARE OPEN IS DECIDED BY COLUMNS ALONE.**

  A line closes frames from the innermost one on and stops at the first that
  stands to the left of it, without a look at those below.  It need not look:
  every open frame stands to the right of the frames around it (`FramesAscend`),
  because a line opens its frames behind what it has closed, at its own column
  and then one column after the other (`Climbs`).

  On such frames to close is to filter (`closeFrames_eq_filter`), so a frame is
  open exactly as long as every line since stands to the right of it
  (`reached_frames`).

  A line with a semicolon may open frames at one column twice; such lines are
  left out.
-/
import ClassOutline.Proofs.Event.MuteBodies
import ClassOutline.Proofs.Statement.Single

namespace ClassOutline

/-! ## §1. Closing frames that ascend. -/

/-- Every frame stands to the right of those around it. -/
def FramesAscend (fs : List Frame) : Prop := fs.Pairwise fun f around => around.indent < f.indent

/-- Every one of the lines stands to the right of the frame. -/
def Frame.isLeftOf (ls : List LogicalLine) (f : Frame) : Bool := ls.all fun l => f.indent < l.indent

/-- **To close is to filter**, where frames ascend: no frame below the first one that is left
would be closed. -/
theorem closeFrames_eq_filter {indent : Column} {fs : List Frame} (h : FramesAscend fs) :
    (closeFrames indent fs).2 = fs.filter fun f => f.indent < indent := by
  induction fs with
  | nil => rfl
  | cons f fs ih =>
      obtain ⟨around, rest⟩ := List.pairwise_cons.1 h
      rw [closeFrames]
      split
      · next hclosed =>
        have closed : ¬ f.indent < indent := Nat.not_lt.2 hclosed
        rw [List.filter_cons_of_neg (by simpa using closed)]
        exact ih rest
      · next hleft =>
        have left : f.indent < indent := Nat.not_le.1 hleft
        rw [List.filter_cons_of_pos (by simpa using left), List.filter_eq_self.2]
        intro g hg
        exact decide_eq_true (Nat.lt_trans (around g hg) left)

/-! ## §2. The frames that a statement opens. -/

/-- Between the contexts frames were opened, the outermost at `indent` and each further one at
the next column. -/
def Climbs (indent : Column) (c c' : Context) : Prop :=
  ∃ above : List Frame, c'.bare.frames = above ++ c.bare.frames
    ∧ above.reverse.map Frame.indent = List.range' indent above.length

namespace Climbs

variable {indent : Column} {c c' c'' : Context}

/-- Nothing is opened. -/
theorem none (h : c'.bare.frames = c.bare.frames) : Climbs indent c c' := ⟨[], h, rfl⟩

/-- A frame is opened, and the others inside it. -/
theorem cons {f : Frame} (hindent : f.indent = indent)
    (hframes : c'.bare.frames = f :: c.bare.frames) (h : Climbs (indent + 1) c' c'') :
    Climbs indent c c'' := by
  obtain ⟨above, heq, hcolumns⟩ := h
  refine ⟨above ++ [f], ?_, ?_⟩
  · rw [heq, hframes, List.append_assoc]
    rfl
  · rw [List.reverse_append, List.length_append, List.map_append, hcolumns]
    show f.indent :: List.range' (indent + 1) above.length = _
    rw [hindent]
    rfl

/-- One frame is opened. -/
theorem one {f : Frame} (hindent : f.indent = indent)
    (hframes : c'.bare.frames = f :: c.bare.frames) : Climbs indent c c' :=
  .cons hindent hframes (.none rfl)

/-- What was opened ascends from `indent` on. -/
theorem ascends {above : List Frame}
    (hcolumns : above.reverse.map Frame.indent = List.range' indent above.length) :
    FramesAscend above ∧ ∀ f ∈ above, indent ≤ f.indent := by
  have ascending : (above.reverse.map Frame.indent).Pairwise (· < ·) := by
    rw [hcolumns]
    exact List.pairwise_lt_range'
  refine ⟨List.pairwise_reverse.1 (List.pairwise_map.1 ascending), fun f hf => ?_⟩
  have column : f.indent ∈ List.range' indent above.length :=
    hcolumns ▸ List.mem_map_of_mem (List.mem_reverse.2 hf)
  exact (List.mem_range'_1.1 column).1

end Climbs

namespace Context

variable (c : Context) (line : Nat) (indent : Column)

/-- The header of a class opens one frame, whatever scope it stands in. -/
theorem openClass_opens (name : Text) (bases : List Text) :
    ∃ f : Frame, f.indent = indent
      ∧ (c.openClass line indent name bases).1.bare.frames = f :: c.bare.frames := by
  unfold openClass
  dsimp only
  split
  · exact ⟨_, rfl, rfl⟩
  · exact ⟨_, rfl, rfl⟩
  · exact ⟨_, rfl, rfl⟩
  · exact ⟨_, rfl, rfl⟩

/-- So does the header of a function. -/
theorem openFunction_opens (cfg : Config) (header : FunctionHeader) :
    ∃ f : Frame, f.indent = indent
      ∧ (c.openFunction cfg line indent header).1.bare.frames = f :: c.bare.frames := by
  unfold openFunction
  dsimp only
  split
  · split
    · exact ⟨_, rfl, rfl⟩
    · rw [bare_record]
      exact ⟨_, rfl, rfl⟩
  · exact ⟨_, rfl, rfl⟩
  · exact ⟨_, rfl, rfl⟩
  · exact ⟨_, rfl, rfl⟩

theorem frames_noteDecorator (name : Text) : (c.noteDecorator line name).1.frames = c.frames := by
  unfold noteDecorator
  dsimp only
  split
  · rfl
  · rfl

end Context

namespace Statement

variable (cfg : Config) (line : Nat)

/-- A header opens its frame, and its inline body the frames inside it. -/
theorem thenBody_climbs {indent : Column} {c : Context} {header : Context × EventOutput}
    {act : Context → Context × EventOutput}
    (hheader : ∃ f : Frame, f.indent = indent ∧ header.1.bare.frames = f :: c.bare.frames)
    (hact : Climbs (indent + 1) header.1 (act header.1).1) :
    Climbs indent c (thenBody header act).1 := by
  obtain ⟨f, hindent, hframes⟩ := hheader
  unfold thenBody
  split
  · exact .one hindent hframes
  · exact .cons hindent hframes hact

/-- **A STATEMENT WITHOUT SEMICOLONS OPENS ITS FRAMES ONE COLUMN AFTER THE OTHER.** -/
theorem act_climbs (indent : Column) : ∀ (s : Statement) (c : Context), s.IsSingle →
    Climbs indent c (s.act cfg line indent c).1
  | .empty, _, _ => .none rfl
  | .decorator name, c, _ => by
      rw [act]
      refine .none ?_
      show (c.enterBody.noteDecorator line name).1.frames.map Frame.bare = _
      rw [Context.frames_noteDecorator]
      exact c.frames_bare_enterBody
  | .malformedHeader _ _, c, _ => by
      rw [act]
      exact .one (f := ⟨.skipped, indent, false⟩) rfl (congrArg (_ :: ·) c.frames_bare_enterBody)
  | .classDef name bases body, c, h => by
      rw [act]
      refine thenBody_climbs ?_ (act_climbs (indent + 1) body _ h)
      rw [← c.frames_bare_enterBody]
      exact c.enterBody.openClass_opens line indent name bases
  | .functionDef header body, c, h => by
      rw [act]
      refine thenBody_climbs ?_ (act_climbs (indent + 1) body _ h)
      rw [← c.frames_bare_enterBody]
      exact c.enterBody.openFunction_opens line indent cfg header
  | .block body, c, h => by
      rw [act]
      exact thenBody_climbs ⟨_, rfl, congrArg (_ :: ·) c.frames_bare_enterBody⟩
        (act_climbs (indent + 1) body _ h)
  | .sequence _, _, h => h.elim
  | .string _, c, _ => by rw [act]; exact .none c.frames_bare_enterBody
  | .assignment _ _, c, _ => by rw [act]; exact .none c.frames_bare_enterBody
  | .inert _, c, _ => by rw [act]; exact .none c.frames_bare_enterBody
  | .unrecognized _, c, _ => by rw [act]; exact .none c.frames_bare_enterBody

theorem perform_climbs (indent : Column) {s : Statement} (h : s.IsSingle) (c : Context) :
    Climbs indent c (s.perform cfg line indent c).1 := by
  unfold perform unlessSkipped
  split
  · exact .none rfl
  split
  · exact .none rfl
  · exact act_climbs cfg line indent s c h

end Statement

/-! ## §3. The frames in front of a line. -/

namespace Context

variable (cfg : Config) (lines : List LogicalLine)

/-- The context in which line `j` is reached, before it closes any frame. -/
def reached (j : Nat) : Context := (readLines cfg {} (lines.take j)).1

/-- The frames that reading line `i` adds to those it is examined in, the innermost first. -/
def openedBy (i : Nat) : List Frame :=
  match lines[i]? with
  | none => []
  | some l =>
    (reached cfg lines (i + 1)).bare.frames.take
      ((reached cfg lines (i + 1)).frames.length - ((reached cfg lines i).before l).frames.length)

variable {cfg lines}

theorem readLines_concat (c : Context) (ls : List LogicalLine) (l : LogicalLine) :
    (readLines cfg c (ls ++ [l])).1 = ((readLines cfg c ls).1.readLine cfg l).1 := by
  induction ls generalizing c with
  | nil => rfl
  | cons first ls ih => exact ih (c.readLine cfg first).1

theorem reached_succ {j : Nat} {l : LogicalLine} (hl : lines[j]? = some l) :
    reached cfg lines (j + 1) = ((reached cfg lines j).readLine cfg l).1 := by
  unfold reached
  rw [List.take_add_one, hl]
  exact readLines_concat _ _ _

/-- **A line only adds frames**, at its own column and those that follow. -/
theorem reached_succ_frames (hsingle : ∀ l ∈ lines, l.text.hasTopLevel ';' = false) {j : Nat}
    {l : LogicalLine} (hl : lines[j]? = some l) :
    (reached cfg lines (j + 1)).bare.frames
        = openedBy cfg lines j ++ ((reached cfg lines j).before l).bare.frames
      ∧ (openedBy cfg lines j).reverse.map Frame.indent
        = List.range' l.indent (openedBy cfg lines j).length := by
  have single := Statement.parse_isSingle (hsingle l (List.mem_of_getElem? hl))
  obtain ⟨above, hframes, hcolumns⟩ :=
    Statement.perform_climbs cfg l.line l.indent single ((reached cfg lines j).before l)
  rw [← congrArg Prod.fst ((reached cfg lines j).readLine_eq cfg l), ← reached_succ hl] at hframes
  have hopened : openedBy cfg lines j = above := by
    have hlength := congrArg List.length hframes
    rw [List.length_append] at hlength
    unfold bare at hlength
    rw [List.length_map, List.length_map] at hlength
    unfold openedBy
    rw [hl]
    dsimp only
    rw [hframes, hlength, Nat.add_sub_cancel, List.take_left]
  rw [hopened]
  exact ⟨hframes, hcolumns⟩

/-- Line `j` closes of the frames that earlier lines have opened those not to the left of it. -/
theorem frames_before_of_reached {j : Nat} {l : LogicalLine} (hl : lines[j]? = some l)
    (hframes : (reached cfg lines j).bare.frames = (List.range j).reverse.flatMap fun i =>
      (openedBy cfg lines i).filter (Frame.isLeftOf ((lines.take j).drop (i + 1))))
    (ascending : FramesAscend (reached cfg lines j).bare.frames) :
    ((reached cfg lines j).before l).bare.frames = (List.range j).reverse.flatMap fun i =>
      (openedBy cfg lines i).filter (Frame.isLeftOf ((lines.take (j + 1)).drop (i + 1))) := by
  obtain ⟨hj, -⟩ := List.getElem?_eq_some_iff.1 hl
  rw [frames_before, closeFrames_eq_filter ascending, hframes, List.filter_flatMap]
  refine List.flatMap_congr fun i hi => ?_
  have hi : i < j := List.mem_range.1 (List.mem_reverse.1 hi)
  have hlength : i + 1 ≤ (lines.take j).length := by
    rw [List.length_take_of_le (Nat.le_of_lt hj)]
    exact hi
  rw [List.filter_filter, List.take_add_one, hl, List.drop_append_of_le_length hlength]
  refine List.filter_congr fun f _ => ?_
  unfold Frame.isLeftOf
  rw [List.all_append, Bool.and_comm]
  exact congrArg (_ && ·) (Bool.and_true _).symm

/-- **The frames in front of a line** are those of earlier lines that stand to the left of every
line since, and they ascend. -/
theorem reached_frames (hsingle : ∀ l ∈ lines, l.text.hasTopLevel ';' = false) {j : Nat}
    (hj : j ≤ lines.length) :
    (reached cfg lines j).bare.frames = ((List.range j).reverse.flatMap fun i =>
        (openedBy cfg lines i).filter (Frame.isLeftOf ((lines.take j).drop (i + 1))))
      ∧ FramesAscend (reached cfg lines j).bare.frames := by
  induction j with
  | zero => exact ⟨rfl, List.Pairwise.nil⟩
  | succ j ih =>
      obtain ⟨hframes, ascending⟩ := ih (Nat.le_of_succ_le hj)
      have hl : lines[j]? = some lines[j] := List.getElem?_eq_getElem hj
      obtain ⟨added, columns⟩ :
          (reached cfg lines (j + 1)).bare.frames
              = openedBy cfg lines j ++ ((reached cfg lines j).before lines[j]).bare.frames
            ∧ (openedBy cfg lines j).reverse.map Frame.indent
              = List.range' lines[j].indent (openedBy cfg lines j).length :=
        reached_succ_frames hsingle hl
      have left := frames_before_of_reached hl hframes ascending
      obtain ⟨opened, right⟩ := Climbs.ascends columns
      refine ⟨?_, ?_⟩
      · -- behind the last line no line has closed what it opened
        have last : (lines.take (j + 1)).drop (j + 1) = [] :=
          List.drop_eq_nil_of_le (List.length_take_le _ _)
        rw [added, left, List.range_succ, List.reverse_append, List.reverse_singleton,
          List.singleton_append, List.flatMap_cons, last]
        exact congrArg (· ++ _) (List.filter_eq_self.2 fun f _ => rfl).symm
      · rw [added, frames_before, closeFrames_eq_filter ascending]
        refine List.pairwise_append.2 ⟨opened, ascending.filter _, fun f hf g hg => ?_⟩
        have hg : g.indent < lines[j].indent := of_decide_eq_true (List.mem_filter.1 hg).2
        exact Nat.lt_of_lt_of_le hg (right f hf)

/-- **SCOPE IS DECIDED BY COLUMNS ALONE.**  In lines without a top-level semicolon, every line
adds the frames it opens to those it is examined in; those a line is examined in are the frames
of earlier lines that stand to the left of every line since, this one included; and from the
outermost to the innermost their columns ascend. -/
theorem frames_open_by_columns (hsingle : ∀ l ∈ lines, l.text.hasTopLevel ';' = false) {j : Nat}
    {l : LogicalLine} (hl : lines[j]? = some l) :
    (∀ i k, lines[i]? = some k → (reached cfg lines (i + 1)).bare.frames
        = openedBy cfg lines i ++ ((reached cfg lines i).before k).bare.frames)
      ∧ ((reached cfg lines j).before l).bare.frames = ((List.range j).reverse.flatMap fun i =>
        (openedBy cfg lines i).filter (Frame.isLeftOf ((lines.take (j + 1)).drop (i + 1))))
      ∧ (((reached cfg lines j).before l).bare.frames.reverse.map Frame.indent).Pairwise
        (· < ·) := by
  obtain ⟨hj, -⟩ := List.getElem?_eq_some_iff.1 hl
  obtain ⟨hframes, ascending⟩ := reached_frames hsingle (Nat.le_of_lt hj)
  refine ⟨fun i k hk => (reached_succ_frames hsingle hk).1,
    frames_before_of_reached hl hframes ascending, ?_⟩
  have left : FramesAscend ((reached cfg lines j).before l).bare.frames := by
    rw [frames_before, closeFrames_eq_filter ascending]
    exact ascending.filter _
  exact List.pairwise_map.2 (List.pairwise_reverse.2 left)

end Context

end ClassOutline
