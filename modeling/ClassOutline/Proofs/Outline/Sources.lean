/-
  ClassOutline.Proofs.Outline.Sources
  ────────────────────────────────
  **THE SOURCE OF A METHOD IS ITS INDENTED EXTENT.**

  The extent of a header is the run of lines behind it that stand to the right
  of it (`LogicalLine.extent`), whatever they say.  The source of a method is
  its inline body, read one column to the right of the header, and behind it the
  extent (`LogicalLine.sourceRows`), each row padded as far as it stands to the
  right of the leftmost.
-/
import ClassOutline.Proofs.Event.MethodBodies
import ClassOutline.Proofs.Outline.Described

namespace ClassOutline

/-! ## §1. Rows and their margin. -/

/-- The column of the leftmost row. -/
def leftmost (rows : List (Column × Text)) : Column := (rows.map Prod.fst).min?.getD 0

/-- There is a row at the column of the leftmost, and none stands to the left of it. -/
theorem min?_columns {rows : List (Column × Text)} (h : rows ≠ []) :
    (rows.map Prod.fst).min? = some (leftmost rows) := by
  have written : rows.map Prod.fst ≠ [] := fun hnil => h (List.map_eq_nil_iff.1 hnil)
  obtain ⟨margin, hmargin⟩ := Option.isSome_iff_exists.1 (List.isSome_min?_of_ne_nil written)
  unfold leftmost
  rw [hmargin]
  rfl

/-- **No row stands to the left of the leftmost.** -/
theorem leftmost_le {rows : List (Column × Text)} {row : Column × Text} (h : row ∈ rows) :
    leftmost rows ≤ row.1 :=
  (List.min?_eq_some_iff.1 (min?_columns (List.ne_nil_of_mem h))).2 _ (List.mem_map_of_mem h)

/-! ## §2. The extent of a header. -/

/-- The lines to the right of the header, up to the first that is not. -/
def LogicalLine.extent (header : LogicalLine) (behind : List LogicalLine) : List LogicalLine :=
  behind.takeWhile (header.indent < ·.indent)

/-- The rows of a method whose header stands on the line: the inline body, if there is one, and
the extent behind it. -/
def LogicalLine.sourceRows (l : LogicalLine) (header : FunctionHeader)
    (behind : List LogicalLine) : List (Column × Text) :=
  header.rows l.indent ++ (l.extent behind).map row

namespace LogicalLine

variable {l : LogicalLine} {behind : List LogicalLine}

theorem lt_of_mem_extent {k : LogicalLine} (h : k ∈ l.extent behind) : l.indent < k.indent := by
  have right := List.mem_takeWhile_imp (p := fun k : LogicalLine => l.indent < k.indent) h
  exact of_decide_eq_true right

/-- Behind the extent the source ends, or a line stands that is not to the right of the header. -/
theorem exists_extent_append (l : LogicalLine) (behind : List LogicalLine) :
    ∃ rest, behind = l.extent behind ++ rest ∧ ∀ k ∈ rest.head?, k.indent ≤ l.indent := by
  refine ⟨behind.dropWhile (l.indent < ·.indent), List.takeWhile_append_dropWhile.symm, ?_⟩
  intro k hk
  have left := List.head?_dropWhile_not (fun k : LogicalLine => l.indent < k.indent) behind
  rw [hk] at left
  exact Nat.not_lt.1 (of_decide_eq_false left)

end LogicalLine

/-! ## §3. The end of a method. -/

/-- Events that start and end nothing stand in front of no other match. -/
theorem matchingEnd?_append {quiet : List Event} (h : QuietEvents quiet) (inner : Nat)
    (later : List Event) : matchingEnd? inner (quiet ++ later) = matchingEnd? inner later := by
  induction quiet with
  | nil => rfl
  | cons e quiet ih =>
      obtain ⟨starts, ends⟩ := h e List.mem_cons_self
      rw [List.cons_append, matchingEnd?, starts, ends]
      exact ih fun e' he' => h e' (List.mem_cons_of_mem e he')

/-- What stands behind a line is read in the context it leaves. -/
theorem Event.events_ofLines (cfg : Config) {lines : List LogicalLine} {i : Nat} {l : LogicalLine}
    (hl : lines[i]? = some l) :
    (Event.ofLines cfg lines).events = (Context.readLines cfg {} (lines.take i)).2.events
      ++ (((Context.reached cfg lines i).readLine cfg l).2.events
        ++ ((Context.reached cfg lines i).readLine cfg l).1.remaining cfg (lines.drop (i + 1))) := by
  obtain ⟨hi, hget⟩ := List.getElem?_eq_some_iff.1 hl
  have parts : lines = lines.take i ++ l :: lines.drop (i + 1) := by
    rw [← hget, ← List.drop_eq_getElem_cons hi, List.take_append_drop]
  calc (Event.ofLines cfg lines).events
      = ({} : Context).remaining cfg lines := rfl
    _ = ({} : Context).remaining cfg (lines.take i ++ l :: lines.drop (i + 1)) :=
        congrArg _ parts
    _ = _ := by
        rw [Context.remaining_append, Context.remaining_cons]
        rfl

/-- **THE SOURCE OF A METHOD IS ITS INDENTED EXTENT.**  Where the function on a line starts a
method, the end that matches this start carries the inline body and the lines to the right of the
header, each once and in order, padded as far as they stand to the right of the leftmost; and none
stands to the left of it. -/
theorem Event.matchingEnd?_of_methodStart {cfg : Config} {lines : List LogicalLine} {i : Nat}
    {l : LogicalLine} {header : FunctionHeader} {start : MethodStart}
    (hl : lines[i]? = some l) (hheader : (Statement.parse l.text).functionHeader? = some header)
    (hstart : .methodStart start ∈ ((Context.reached cfg lines i).readLine cfg l).2.events) :
    ∃ after, (Event.ofLines cfg lines).events
        = (Context.readLines cfg {} (lines.take i)).2.events
          ++ (closeFrames l.indent (Context.reached cfg lines i).frames).1
          ++ .methodStart start :: after
      ∧ matchingEnd? 0 after = some
        (.methodEnd start.name (methodSource (l.sourceRows header (lines.drop (i + 1)))))
      ∧ ∀ row ∈ l.sourceRows header (lines.drop (i + 1)),
        leftmost (l.sourceRows header (lines.drop (i + 1))) ≤ row.1 := by
  obtain ⟨m, inlineEvents, hname, hindent, hbody, within, hinline, hevents⟩ :=
    Context.readLine_methodStart hheader hstart
  obtain ⟨rest, hrest, hleft⟩ := l.exists_extent_append (lines.drop (i + 1))
  obtain ⟨bodyEvents, later, hquiet, hremaining⟩ := within.remaining_append cfg
    (fun k hk => hindent ▸ LogicalLine.lt_of_mem_extent hk) (hindent ▸ hleft)
  rw [← hrest, hbody, hname] at hremaining
  refine ⟨inlineEvents ++ ((Context.reached cfg lines i).readLine cfg l).1.remaining cfg
    (lines.drop (i + 1)), ?_, ?_, fun row => leftmost_le⟩
  · rw [Event.events_ofLines cfg hl, hevents]
    simp only [List.append_assoc, List.cons_append]
  · rw [hremaining, matchingEnd?_append hinline, matchingEnd?_append hquiet]
    rfl

end ClassOutline
