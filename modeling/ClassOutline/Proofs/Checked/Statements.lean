/-
  ClassOutline.Proofs.Checked.Statements
  ────────────────────────────────
  **NO STATEMENT OF A LINE THAT IS READ VANISHES.**

  All walks that a statement without a header makes are over parts of its text, so
  the walk over the whole decides for them (`plainFits_of_fits`).

  A statement is performed inwards: an inline body stands one column to the right
  of its header and has fewer characters, and the parts of a row have fewer
  characters at the same column.  So where the text of a line is short enough for
  its brackets to be counted, and ends at a column, its statement can be performed
  however it nests (`Statement.fits_of_length`).

  Only the methods that such a line ends can stop the run over it, by the length of
  their sources.  If they do not, the line leaves an event (`line_leaves_trace`).
-/
import ClassOutline.Checked.Events
import ClassOutline.Proofs.Checked.Headers
import ClassOutline.Proofs.Event.Traces

namespace ClassOutline

/-! ## §1. Statements of texts that can be walked over. -/

/-- The header of a block can be looked for in such a text. -/
theorem Text.blockFits_of_fits {t : Text} (h : t.fits = true) : t.blockFits = true := by
  refine Bool.or_eq_true_iff.2 (.inr (Bool.and_eq_true_iff.2 ⟨h, ?_⟩))
  refine (Option.all_eq_true _ _).2 fun b hb => ?_
  have colon : b.char = ':' := eq_of_beq (char_of_breakUnits? hb)
  rw [eq_of_breakTopLevel? hb, colon] at h
  exact fits_of_append_cons (by decide) h

namespace Statement

variable {value t : Text}

/-- So can a chain of assignments. -/
theorem chainFits_of_fits (h : value.fits = true) : chainFits value = true := by
  fun_induction chainFits value with
  | case1 value ih =>
      rw [h, Bool.true_and]
      split
      · next a ha =>
        have target := Text.fits_trim (Text.fits_target_of_assignment? ha h)
        have later := ih a ha (Text.fits_trim (Text.fits_value_of_assignment? ha h))
        rw [target, later, Bool.or_true, Bool.and_true, Bool.or_true]
      · rfl

/-- Its targets can be walked over one by one. -/
theorem fits_of_mem_chain (h : value.fits = true) :
    ∀ target ∈ (chain value).1, target.fits = true := by
  fun_induction chain value with
  | case1 => exact fun target htarget => absurd htarget List.not_mem_nil
  | case2 value a ha _ targets last hchain ih =>
      have first := Text.fits_trim (Text.fits_target_of_assignment? ha h)
      have later := ih (Text.fits_trim (Text.fits_value_of_assignment? ha h))
      rw [hchain] at later
      exact List.forall_mem_cons.2 ⟨first, later⟩
  | case3 => exact fun target htarget => absurd htarget List.not_mem_nil

/-- **A single statement can be read if its text can be walked over.** -/
theorem plainFits_of_fits (h : t.fits = true) : plainFits t = true := by
  refine Bool.or_eq_true_iff.2 (.inr ((Option.all_eq_true _ _).2 fun a ha => ?_))
  have target := Text.fits_trim (Text.fits_target_of_assignment? ha h)
  have value := Text.fits_trim (Text.fits_value_of_assignment? ha h)
  rw [chainFits_of_fits value, Bool.true_and]
  exact Bool.or_eq_true_iff.2
    (.inr (List.all_eq_true.2 (List.forall_mem_cons.2 ⟨target, fits_of_mem_chain value⟩)))

end Statement

/-! ## §2. Statements of short texts. -/

namespace Statement

variable {cfg : Config} {line : Nat} {inner : Nat → Text → Context → Bool} {indent : Nat} {t : Text}

/-- Whatever is shorter than the text and ends where it does, or before, can be performed. -/
def InnerFits (inner : Nat → Text → Context → Bool) (indent : Nat) (t : Text) : Prop :=
  ∀ (column : Nat) (s : Text) (c : Context), s.length < t.length →
    column + s.length ≤ indent + t.length → inner column s c = true

theorem bodyFits_of_inner (h : InnerFits inner indent t)
    (hcolumns : indent + t.length < columnLimit) {body : Text} (hbody : body.length < t.length)
    (header : Context) : bodyFits inner indent body header = true := by
  have next : indent + 1 < columnLimit := by omega
  unfold bodyFits
  rw [decide_eq_true next, h (indent + 1) body header hbody (by omega), Bool.true_and, Bool.or_true]

theorem partsFit_of_inner {parts : List Text}
    (h : ∀ s ∈ parts, ∀ c, inner indent s c = true) (c : Context) :
    partsFit cfg line inner indent parts c = true := by
  induction parts generalizing c with
  | nil => rfl
  | cons s parts ih =>
      obtain ⟨first, later⟩ := List.forall_mem_cons.1 h
      rw [partsFit, first, ih later]
      rfl

/-- Bases and parameters in a short header can be told apart. -/
theorem basesFit_of_length {rest : Text} {header : Header} (hheader : rest.header? = some header)
    (h : rest.length < Nesting.countLimit) (scope : Scope) : basesFit scope header = true := by
  have arguments : (header.arguments.all fun arguments => arguments.fits) = true :=
    (Option.all_eq_true _ _).2 fun arguments ha =>
      Text.fits_of_length ((Text.length_arguments_lt_of_header? hheader ha).trans h)
  cases scope with
  | module => exact arguments
  | classBody _ => exact arguments
  | methodBody _ _ => rfl
  | skipped => rfl

theorem argumentsFit_of_length {arguments : Text} (h : arguments.length < Nesting.countLimit)
    (scope : Scope) : argumentsFit scope arguments = true := by
  cases scope with
  | classBody _ =>
      show arguments.parametersFit = true
      rw [Text.parametersFit_eq, Text.fits_of_length h]
  | module => rfl
  | methodBody _ _ => rfl
  | skipped => rfl

/-- The header of a function, behind what stands in front of it. -/
theorem functionFits_of_inner (h : InnerFits inner indent t)
    (hbrackets : t.length < Nesting.countLimit) (hcolumns : indent + t.length < columnLimit)
    {rest : Text} (hrest : rest.length ≤ t.length) (isAsync : Bool) (c : Context) :
    formFits.functionFits cfg line inner indent c isAsync rest = true := by
  unfold formFits.functionFits
  rw [Text.headerFits_of_length (by omega), Bool.true_and]
  split
  · next name arguments body hheader =>
    have shorter := Text.length_body_lt_of_header? hheader
    have inside := Text.length_arguments_lt_of_header? hheader rfl
    rw [argumentsFit_of_length (by omega), Bool.true_and]
    exact bodyFits_of_inner h hcolumns (Nat.lt_of_lt_of_le shorter hrest) _
  · rfl

/-- **One layer can be performed, if what is inside it can.** -/
theorem formFits_of_inner (h : InnerFits inner indent t)
    (hbrackets : t.length < Nesting.countLimit) (hcolumns : indent + t.length < columnLimit)
    (c : Context) : formFits cfg line inner indent t c = true := by
  unfold formFits
  -- decorators, and headers of classes and functions
  split
  · rfl
  split
  · next rest hrest =>
    have behind := Text.length_afterKeyword?_lt (by decide) hrest
    rw [Text.headerFits_of_length (by omega), Bool.true_and]
    cases hheader : rest.header? with
    | none => rfl
    | some header =>
        have shorter := Text.length_body_lt_of_header? hheader
        rw [Option.all_some, basesFit_of_length hheader (by omega), Bool.true_and]
        exact bodyFits_of_inner h hcolumns (by omega) _
  split
  · next rest hrest =>
    have behind := Text.length_afterKeyword?_lt (by decide) hrest
    exact functionFits_of_inner h hbrackets hcolumns (by omega) false c
  split
  · next rest hrest =>
    obtain ⟨middle, hasync, hdef⟩ := Option.bind_eq_some_iff.1 hrest
    have behindAsync := Text.length_afterKeyword?_lt (by decide) hasync
    have behindDef := Text.length_afterKeyword?_lt (by decide) hdef
    exact functionFits_of_inner h hbrackets hcolumns (by omega) true c
  -- blocks, rows and single statements
  have whole := Text.fits_of_length hbrackets
  rw [Text.blockFits_of_fits whole, Bool.true_and]
  split
  · next body hbody => exact bodyFits_of_inner h hcolumns (Text.length_lt_of_blockBody? hbody) _
  · dsimp only
    rw [whole, Bool.true_and]
    split
    · next hlen =>
      refine partsFit_of_inner (fun s hs d => ?_) c
      have shorter := Text.length_lt_of_mem_splitTopLevel hs hlen
      exact h indent s d shorter (Nat.add_le_add_left (Nat.le_of_lt shorter) indent)
    · exact plainFits_of_fits whole

/-- **THE STATEMENT OF A SHORT TEXT CAN BE PERFORMED**, however it nests: if a word can count its
brackets, and another one the column where it ends. -/
theorem fits_of_length (hbrackets : t.length < Nesting.countLimit)
    (hcolumns : indent + t.length < columnLimit) (c : Context) :
    Statement.fits cfg line indent t c = true := by
  have within (layers : Nat) : ∀ (indent : Nat) (t : Text) (c : Context),
      t.length < Nesting.countLimit → indent + t.length < columnLimit →
        fitsWithin cfg line layers indent t c = true := by
    induction layers with
    | zero => exact fun _ _ _ _ _ => rfl
    | succ layers ih =>
        intro indent t c hbrackets hcolumns
        have trimmed := t.length_trim_le
        have layer : formFits cfg line (fitsWithin cfg line layers) indent t.trim c = true :=
          formFits_of_inner (fun column s d hshorter hends => ih column s d (by omega) (by omega))
            (by omega) (by omega) c
        rw [fitsWithin, layer, Bool.or_true]
  exact within _ indent t c hbrackets hcolumns

end Statement

/-! ## §3. Lines. -/

namespace Context

variable (cfg : Config) {l : LogicalLine} {c : Context}

/-- The methods that a short line ends decide whether it can be read. -/
theorem lineFits_of_length (hbrackets : l.text.length < Nesting.countLimit)
    (hcolumns : l.indent + l.text.length < columnLimit) :
    c.lineFits cfg l = closingFits l.indent c.frames := by
  unfold lineFits
  rw [Statement.fits_of_length hbrackets hcolumns, Bool.and_true]

/-- Lines can be read one after the other if the first ones can and then the others. -/
theorem linesFit_append (c : Context) (ls ls' : List LogicalLine) :
    c.linesFit cfg (ls ++ ls')
      = (c.linesFit cfg ls && (c.readLines cfg ls).1.linesFit cfg ls') := by
  induction ls generalizing c with
  | nil => rfl
  | cons l ls ih =>
      rw [List.cons_append, linesFit, linesFit, ih, Bool.and_assoc]
      rfl

/-- **NO STATEMENT VANISHES.**  Where a line is read, it leaves an event with its number exactly if
something is written on it beside blanks and semicolons, whatever it nests and wherever it stands;
in a body that is skipped a semicolon is enough.  A line whose brackets a word can count, and
another one the column where it ends, is read exactly if the sources of the methods that it ends
are texts. -/
theorem line_leaves_trace (l : LogicalLine) (c : Context) :
    (∀ after output, Checked.readLine cfg l c = some (after, output) →
        (l.line ∈ eventLines output.events
          ↔ ∃ ch ∈ l.text, Text.isBlank ch = false ∧ (ch = ';' → c.scopeAt l.indent = .skipped)))
      ∧ (l.text.length < Nesting.countLimit → l.indent + l.text.length < columnLimit →
          ((∃ after output, Checked.readLine cfg l c = some (after, output))
            ↔ closingFits l.indent c.frames = true)) := by
  refine ⟨fun after output h => ?_, fun hbrackets hcolumns => ?_⟩
  · obtain ⟨-, hread⟩ := guarded_eq_some_iff.1 h
    rw [← mem_eventLines_readLine_iff cfg l c, hread]
  · rw [← lineFits_of_length cfg hbrackets hcolumns]
    constructor
    · rintro ⟨after, output, h⟩
      exact (guarded_eq_some_iff.1 h).1
    · exact fun hfits => ⟨_, _, guarded_of_fits hfits⟩

/-- Behind a semicolon a class and a block in it, on a line that ends a method. -/
theorem line_leaves_trace_of_nested :
    let c : Context :=
      { frames := [⟨.methodBody "m".toList false none [(4, "pass".toList)], 2, true⟩,
          ⟨.classBody "A".toList, 0, true⟩] }
    let l : LogicalLine := ⟨7, 7, 1, "; class B: if a: b".toList, true, []⟩
    ∃ after output,
      Checked.readLine {} l c = some (after, output) ∧ 7 ∈ eventLines output.events := by
  intro c l
  obtain ⟨leaves, answers⟩ := line_leaves_trace {} l c
  obtain ⟨after, output, hread⟩ := (answers (by decide) (by decide)).2 (by decide +kernel)
  exact ⟨after, output, hread, (leaves after output hread).2 ⟨'c', by decide, by decide, nofun⟩⟩

/-- There is no column for a body behind the last one, and no text for the source of a method whose
lines are too far apart. -/
theorem line_stopped_without_trace :
    Checked.readLine {} ⟨1, 1, columnLimit - 1, "if a: b".toList, true, []⟩ {} = none
      ∧ Checked.readLine {} ⟨4, 4, 0, "z = 1".toList, true, []⟩
          { frames :=
              [⟨.methodBody "m".toList false none [(2, ['x']), (columnLimit - 2, ['y'])], 1, true⟩] }
        = none := by
  decide +kernel

end Context

end ClassOutline
