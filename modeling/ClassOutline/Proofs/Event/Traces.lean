/-
  ClassOutline.Proofs.Event.Traces
  ────────────────────────────────
  **EVERY STATEMENT LEAVES AN EVENT ON ITS LINE.**

  A statement that is neither empty nor a row of others leaves an event of its
  own in whatever context it is performed, one that says why if it is passed over;
  what an inline body leaves comes on top of that (`mem_eventLines_act`).  A row is
  as good as its pieces, none of which is a row again.

  So a text can leave nothing only if all its pieces are blank, and then it is
  made of semicolons and blanks (`mem_eventLines_parse_iff`).  That a text which begins
  with a semicolon is a row, and not a header or a block, closes the circle
  (`parseForm_semicolon_cons`).
-/
import ClassOutline.Proofs.Event.Lines
import ClassOutline.Proofs.Event.MuteBodies
import ClassOutline.Proofs.Nesting.Items
import ClassOutline.Proofs.Nesting.Pieces
import ClassOutline.Proofs.Statement.Single

namespace ClassOutline

/-! ## §1. What a statement leaves. -/

namespace Statement

/-- Several statements, with semicolons between them. -/
def isRow : Statement → Bool
  | .sequence _ => true
  | _ => false

variable {cfg : Config} {line : Nat} {indent : Column} {s : Statement}

/-- A header leaves its own event, whatever its body leaves. -/
theorem mem_eventLines_thenBody {header : Context × EventOutput}
    {act : Context → Context × EventOutput} (h : line ∈ eventLines header.2.events) :
    line ∈ eventLines (thenBody header act).2.events := by
  unfold thenBody
  split
  · exact h
  · show line ∈ eventLines (header.2.events ++ _)
    rw [eventLines_append]
    exact List.mem_append_left _ h

/-- **ONE STATEMENT LEAVES AN EVENT**, in any context, unless it is empty. -/
theorem mem_eventLines_act (hwritten : s.isEmpty = false) (hrow : s.isRow = false)
    (hwf : s.WellFormed) (c : Context) : line ∈ eventLines (s.act cfg line indent c).2.events := by
  have self : line ∈ [line] := List.mem_singleton_self line
  cases s with
  | empty => exact nomatch hwritten
  | sequence parts => exact nomatch hrow
  | decorator name =>
      rw [act]
      unfold Context.noteDecorator
      split <;> exact self
  | malformedHeader keyword text => exact self
  | classDef name bases body =>
      rw [act]
      refine mem_eventLines_thenBody ?_
      unfold Context.openClass
      dsimp only
      split <;> exact self
  | functionDef header body =>
      rw [act]
      refine mem_eventLines_thenBody ?_
      unfold Context.openFunction
      dsimp only
      split <;> exact self
  | block body =>
      rw [act]
      exact mem_eventLines_thenBody self
  | string contents =>
      rw [act]
      unfold docstringOr
      split <;> exact self
  | assignment targets value =>
      -- each target leaves an event, and there is a first one
      obtain ⟨target, later, rfl⟩ := List.exists_cons_of_ne_nil hwf
      rw [act]
      exact List.mem_filterMap.2
        ⟨_, List.mem_cons_self, Scope.line?_assign c.scope line value target⟩
  | inert reason => exact self
  | unrecognized text => exact self

/-- So it does where nothing counts. -/
theorem mem_eventLines_perform_iff (hrow : s.isRow = false) (hwf : s.WellFormed) (c : Context) :
    line ∈ eventLines (s.perform cfg line indent c).2.events ↔ s.isEmpty = false := by
  unfold perform unlessSkipped
  cases hwritten : s.isEmpty with
  | true => exact iff_of_false List.not_mem_nil nofun
  | false =>
      refine iff_of_true ?_ rfl
      rw [if_neg Bool.false_ne_true]
      split
      · exact List.mem_singleton_self line
      · exact mem_eventLines_act hwritten hrow hwf c

/-- Several statements leave an event exactly if one of them is not empty. -/
theorem mem_eventLines_actAll_iff {parts : List Statement}
    (h : ∀ s ∈ parts, s.isRow = false ∧ s.WellFormed) (c : Context) :
    line ∈ eventLines (actAll cfg line indent parts c).2.events
      ↔ ∃ s ∈ parts, s.isEmpty = false := by
  induction parts generalizing c with
  | nil => exact iff_of_false List.not_mem_nil nofun
  | cons s parts ih =>
      obtain ⟨hrow, hwf⟩ := h s List.mem_cons_self
      rw [actAll]
      show line ∈ eventLines ((s.perform cfg line indent c).2.events ++ _) ↔ _
      rw [eventLines_append, List.mem_append, mem_eventLines_perform_iff hrow hwf,
        ih (fun u hu => h u (List.mem_cons_of_mem s hu)), List.exists_mem_cons_iff]

/-! ## §2. What a text leaves. -/

/-- What is left when nothing else fits is one statement. -/
theorem ofPlain_isOne (t : Text) : (ofPlain t).isEmpty = false ∧ (ofPlain t).isRow = false := by
  unfold ofPlain ofAssignment ofExpression
  split
  · exact ⟨rfl, rfl⟩
  split
  · split <;> exact ⟨rfl, rfl⟩
  · split
    · exact ⟨rfl, rfl⟩
    split
    · exact ⟨rfl, rfl⟩
    split
    · exact ⟨rfl, rfl⟩
    split <;> exact ⟨rfl, rfl⟩

/-- **A TEXT IS ONE STATEMENT OR THE ROW OF ITS PIECES**, if it is not empty. -/
theorem parseForm_cases (inner : Text → Statement) {t : Text} (hne : t ≠ []) :
    parseForm inner t = .sequence ((t.splitTopLevel ';').map inner)
      ∨ ((parseForm inner t).isEmpty = false ∧ (parseForm inner t).isRow = false) := by
  have function (isAsync : Bool) (rest : Text) : (ofFunction inner isAsync t rest).isEmpty = false
      ∧ (ofFunction inner isAsync t rest).isRow = false := by
    unfold ofFunction
    split <;> exact ⟨rfl, rfl⟩
  unfold parseForm
  rw [if_neg fun hempty => hne (List.isEmpty_iff.1 hempty)]
  split
  · exact .inr ⟨rfl, rfl⟩
  split
  · unfold ofClass
    split <;> exact .inr ⟨rfl, rfl⟩
  split
  · exact .inr (function _ _)
  split
  · exact .inr (function _ _)
  split
  · exact .inr ⟨rfl, rfl⟩
  split
  · exact .inl rfl
  · exact .inr (ofPlain_isOne t)

/-- What begins with a semicolon is not one statement. -/
theorem parseForm_semicolon_cons (inner : Text → Statement) (rest : Text) :
    parseForm inner (';' :: rest)
      = .sequence ((Text.splitTopLevel ';' (';' :: rest)).map inner) := by
  have noKeyword {keyword : Text} (hkeyword : keyword.all Text.isNameChar = true)
      (hne : keyword ≠ []) : Text.afterKeyword? (';' :: rest) keyword = none := by
    rw [← Option.not_isSome_iff_eq_none, Text.isSome_afterKeyword? hkeyword,
      List.takeWhile_cons_of_neg (by decide)]
    exact fun heq => hne (eq_of_beq heq)
  have keywords : ∀ entry ∈ Text.blockKeywords,
      entry.1.all Text.isNameChar = true ∧ entry.1 ≠ [] := by
    decide +kernel
  have noBlock : Text.blockBody? (';' :: rest) = none := by
    unfold Text.blockBody?
    refine Option.bind_eq_none_iff.2 fun entry hfind => ?_
    have hsome := List.find?_some hfind
    obtain ⟨hkeyword, hne⟩ := keywords entry (List.mem_of_find?_eq_some hfind)
    dsimp only at hsome
    rw [noKeyword hkeyword hne] at hsome
    exact absurd hsome Bool.false_ne_true
  have several : 1 < (Text.splitTopLevel ';' (';' :: rest)).length := by
    have divider : IsDivider ';' := isDivider_of_not_mem (by decide)
    rw [Text.length_splitTopLevel divider,
      Text.lexemes_cons_of_isPlain (Text.isPlain_of_not_mem (by decide)),
      List.countP_cons_of_pos (Text.matchesTop_divider ';')]
    omega
  have notEmpty : ¬ List.isEmpty (';' :: rest) = true := Bool.false_ne_true
  have noDecorator : ¬ List.head? (';' :: rest) = some '@' := fun hhead =>
    absurd (Option.some.inj hhead) (by decide)
  unfold parseForm afterAsyncDef?
  rw [if_neg notEmpty, if_neg noDecorator, noKeyword (by decide +kernel) (by decide),
    noKeyword (by decide +kernel) (by decide), noKeyword (by decide +kernel) (by decide), noBlock]
  exact if_pos several

/-- A text without a semicolon at top level is no row. -/
theorem isRow_parse {t : Text} (h : t.hasTopLevel ';' = false) : (parse t).isRow = false := by
  have single := parse_isSingle h
  cases hparse : parse t with
  | sequence parts =>
      rw [hparse] at single
      exact single.elim
  | _ => rfl

/-- Nothing is written in a text of blanks alone. -/
theorem isEmpty_parse_iff {t : Text} : (parse t).isEmpty = false ↔ t.trim ≠ [] := by
  rw [parse_eq]
  cases htrim : t.trim with
  | nil => exact iff_of_false nofun (fun h => h rfl)
  | cons c rest =>
      refine iff_of_true ?_ (List.cons_ne_nil c rest)
      rcases parseForm_cases parse (List.cons_ne_nil c rest) with hrow | ⟨hwritten, -⟩
      · rw [hrow]
        rfl
      · exact hwritten

/-- The pieces of a row leave an event exactly if something is written beside semicolons. -/
theorem mem_eventLines_pieces_iff {cfg : Config} {line : Nat} {indent : Column} (t : Text)
    (c : Context) :
    line ∈ eventLines (actAll cfg line indent ((t.splitTopLevel ';').map parse) c).2.events
      ↔ ¬ ∀ ch ∈ t, ch = ';' ∨ Text.isBlank ch = true := by
  have divider : IsDivider ';' := isDivider_of_not_mem (by decide)
  have pieces : ∀ s ∈ (t.splitTopLevel ';').map parse, s.isRow = false ∧ s.WellFormed := by
    intro s hs
    obtain ⟨piece, hpiece, rfl⟩ := List.mem_map.1 hs
    exact ⟨isRow_parse (Text.hasTopLevel_of_mem_splitTopLevel divider hpiece),
      parse_wellFormed piece⟩
  have trimmed : ∀ piece ∈ t.splitTopLevel ';', piece.trim = piece := by
    intro piece hpiece
    obtain ⟨u, -, rfl⟩ := List.mem_map.1 hpiece
    exact Text.trim_trim u
  rw [mem_eventLines_actAll_iff pieces,
    ← Text.splitTopLevel_eq_nil_iff (Text.isPlain_of_not_mem (by decide))]
  constructor
  · rintro ⟨s, hs, hwritten⟩ nothing
    obtain ⟨piece, hpiece, rfl⟩ := List.mem_map.1 hs
    refine isEmpty_parse_iff.1 hwritten ?_
    rw [nothing piece hpiece]
    rfl
  · intro h
    simp only [not_forall] at h
    obtain ⟨piece, hpiece, hne⟩ := h
    refine ⟨parse piece, List.mem_map_of_mem hpiece, isEmpty_parse_iff.2 ?_⟩
    rwa [trimmed piece hpiece]

/-- **A TEXT LEAVES AN EVENT EXACTLY IF SOMETHING IS WRITTEN IN IT** beside blanks and semicolons.
Where nothing counts, semicolons alone leave one too. -/
theorem mem_eventLines_parse_iff {cfg : Config} {line : Nat} {indent : Column} (t : Text)
    (c : Context) :
    line ∈ eventLines ((parse t).perform cfg line indent c).2.events
      ↔ ∃ ch ∈ t, Text.isBlank ch = false ∧ (ch = ';' → c.scope = .skipped) := by
  by_cases hempty : t.trim = []
  · have nothing : parse t = .empty := by
      rw [parse_eq, hempty]
      rfl
    rw [nothing]
    refine iff_of_false List.not_mem_nil ?_
    rintro ⟨ch, hch, hblank, -⟩
    rw [Text.isBlank_of_trim_eq_nil hempty ch hch] at hblank
    exact nomatch hblank
  have hwritten := isEmpty_parse_iff.2 hempty
  by_cases hscope : c.scope = .skipped
  · -- the whole text is passed over, whatever it says
    obtain ⟨ch, hch, hblank⟩ := Text.exists_not_isBlank_of_trim_ne_nil hempty
    refine iff_of_true ?_ ⟨ch, Text.mem_of_mem_trim hch, hblank, fun _ => hscope⟩
    unfold perform unlessSkipped
    rw [hwritten, if_neg Bool.false_ne_true, if_pos hscope]
    exact List.mem_singleton_self line
  have other : (∃ ch ∈ t, Text.isBlank ch = false ∧ (ch = ';' → c.scope = .skipped))
      ↔ ¬ ∀ ch ∈ t, ch = ';' ∨ Text.isBlank ch = true := by
    simp only [not_forall, not_or, Bool.not_eq_true, hscope, imp_false, exists_prop, and_comm]
  rw [other, perform_eq_act hwritten hscope]
  rcases parseForm_cases parse hempty with hrow | ⟨-, hone⟩
  · rw [parse_eq, hrow, Text.splitTopLevel_trim (isDivider_of_not_mem (by decide)) (by decide), act]
    exact mem_eventLines_pieces_iff t c
  · rw [← parse_eq] at hone
    refine iff_of_true (mem_eventLines_act hwritten hone (parse_wellFormed t) c) fun only => ?_
    -- trimmed, a text of semicolons and blanks begins with a semicolon, so it is a row
    obtain ⟨first, rest, htrim⟩ := List.exists_cons_of_ne_nil hempty
    have visible := Text.not_isBlank_head (Text.trim_trim t) first (htrim ▸ rfl)
    have mem : first ∈ t := Text.mem_of_mem_trim (htrim ▸ List.mem_cons_self)
    have semicolon : first = ';' := (only first mem).resolve_right fun hblank =>
      Bool.false_ne_true (visible.symm.trans hblank)
    rw [parse_eq, htrim, semicolon, parseForm_semicolon_cons] at hone
    exact nomatch hone

end Statement

/-! ## §3. Lines and sources. -/

/-- The ends of the scopes that a line closes have no line. -/
theorem Context.eventLines_readLine (cfg : Config) (l : LogicalLine) (c : Context) :
    eventLines (c.readLine cfg l).2.events = eventLines ((Statement.parse l.text).perform cfg l.line
      l.indent (c.before l)).2.events := by
  rw [readLine_eq]
  show eventLines ((closeFrames l.indent c.frames).1 ++ _) = _
  rw [eventLines_append, eventLines_closeFrames, List.nil_append]

/-- **NO STATEMENT VANISHES.**  A line leaves an event with its number exactly if something is
written on it beside blanks and semicolons, whatever it nests and wherever it stands.  In a body
that is skipped a semicolon is enough. -/
theorem Context.mem_eventLines_readLine_iff (cfg : Config) (l : LogicalLine) (c : Context) :
    l.line ∈ eventLines (c.readLine cfg l).2.events
      ↔ ∃ ch ∈ l.text, Text.isBlank ch = false ∧ (ch = ';' → c.scopeAt l.indent = .skipped) := by
  rw [eventLines_readLine, Statement.mem_eventLines_parse_iff, scope_before]

/-- **Nor does one vanish from a source**: each line on which something is written is the line of
an event. -/
theorem Event.mem_eventLines_ofLines (cfg : Config) {ls : List LogicalLine} {l : LogicalLine}
    (hl : l ∈ ls) {ch : Char} (hch : ch ∈ l.text) (hblank : Text.isBlank ch = false)
    (hsemicolon : ch ≠ ';') : l.line ∈ eventLines (Event.ofLines cfg ls).events := by
  have run (c : Context) : l.line ∈ eventLines (c.readLines cfg ls).2.events := by
    induction ls generalizing c with
    | nil => exact absurd hl List.not_mem_nil
    | cons first ls ih =>
        rw [Context.readLines]
        show l.line ∈ eventLines ((c.readLine cfg first).2.events ++ _)
        rw [eventLines_append]
        rcases List.mem_cons.1 hl with rfl | hl
        · refine List.mem_append_left _ ?_
          rw [Context.eventLines_readLine]
          exact Statement.mem_eventLines_parse_iff l.text _ |>.2
            ⟨ch, hch, hblank, fun heq => absurd heq hsemicolon⟩
        · exact List.mem_append_right _ (ih hl _)
  show l.line ∈ eventLines ((Context.readLines cfg {} ls).2.events ++ _)
  rw [eventLines_append]
  exact List.mem_append_left _ (run {})

end ClassOutline
