/-
  ClassOutline.Proofs.Event.Move
  ────────────────────────────────
  **WHAT READING CAN DO TO A CONTEXT, ONE MOVE AT A TIME.**

  However a line nests headers, inline bodies, blocks and semicolons, reading
  it is a sequence of moves.  `Move` lists them all: for each the context
  before, the events it makes (at most one), and the context after.

  `Moves` is a run of moves with its events.  Reading a line (`readLine_moves`)
  or a whole source (`ofLines_moves`) is such a run, so an invariant needs a
  proof for each move only, and no proof about events opens the reader again.
-/
import ClassOutline.Event.OfLines

namespace ClassOutline

/-! ## §1. What changes of a context a scope does not see. -/

namespace Context

theorem scope_enterBody (c : Context) : c.enterBody.scope = c.scope := by
  unfold scope enterBody scopeOf
  cases c.frames with
  | nil => rfl
  | cons f fs => rfl

theorem scope_dropPending (c : Context) : c.dropPending.scope = c.scope := rfl

/-- Noting twice that a statement was seen is noting it once. -/
theorem settle_settle (c : Context) :
    c.enterBody.dropPending.enterBody.dropPending = c.enterBody.dropPending := by
  unfold enterBody dropPending
  cases c.frames with
  | nil => rfl
  | cons f fs => rfl

end Context

/-! ## §2. Statements that a text can make. -/

namespace Statement

mutual

/-- Every class in the statement is named by a name, and every assignment has a target. -/
def WellFormed : Statement → Prop
  | .classDef name _ body => Text.isName name = true ∧ body.WellFormed
  | .functionDef _ body => body.WellFormed
  | .block body => body.WellFormed
  | .sequence parts => AllWellFormed parts
  | .assignment targets _ => targets ≠ []
  | _ => True

/-- `WellFormed` for each of the statements. -/
def AllWellFormed : List Statement → Prop
  | [] => True
  | s :: rest => s.WellFormed ∧ AllWellFormed rest

end

theorem allWellFormed_map {inner : Text → Statement} (h : ∀ t, (inner t).WellFormed)
    (ts : List Text) : AllWellFormed (ts.map inner) := by
  induction ts with
  | nil => exact trivial
  | cons t ts ih => exact ⟨h t, ih⟩

theorem ofPlain_wellFormed (t : Text) : (ofPlain t).WellFormed := by
  unfold ofPlain ofAssignment ofExpression
  split
  · exact trivial
  split
  · split
    · exact trivial
    -- The first target is there, whatever the chain adds.
    · exact List.cons_ne_nil _ _
  · split
    · exact trivial
    split
    · exact trivial
    split
    · exact trivial
    split <;> exact trivial

theorem ofFunction_wellFormed {inner : Text → Statement} (h : ∀ t, (inner t).WellFormed)
    (isAsync : Bool) (t rest : Text) : (ofFunction inner isAsync t rest).WellFormed := by
  unfold ofFunction
  split
  · exact h _
  · exact trivial

theorem parseForm_wellFormed {inner : Text → Statement} (h : ∀ t, (inner t).WellFormed)
    (t : Text) : (parseForm inner t).WellFormed := by
  unfold parseForm
  split
  · exact trivial
  split
  · exact trivial
  -- Only the header of a class has a name to check.
  split
  · unfold ofClass
    split
    · next x hx => exact ⟨(Text.exists_of_header? hx).1, h _⟩
    · exact trivial
  split
  · exact ofFunction_wellFormed h _ _ _
  split
  · exact ofFunction_wellFormed h _ _ _
  split
  · exact h _
  split
  · exact allWellFormed_map h _
  · exact ofPlain_wellFormed t

/-- **Every statement read from a text is well formed.** -/
theorem parse_wellFormed (t : Text) : (parse t).WellFormed := by
  have within (layers : Nat) : ∀ t, (parseWithin layers t).WellFormed := by
    induction layers with
    | zero => intro t; exact trivial
    | succ layers ih => intro t; exact parseForm_wellFormed ih t.trim
  exact within _ t

end Statement

/-! ## §3. Moves. -/

/-- One move of a reader: the context before, the events, the context after. -/
inductive Move (cfg : Config) : Context → List Event → Context → Prop where
  /-- The innermost frame is closed. -/
  | close {c : Context} {f : Frame} {fs : List Frame} (h : c.frames = f :: fs) :
      Move cfg c f.ends { c with frames := fs }
  /-- A line is added to the body of the method around it. -/
  | record (c : Context) (comments : List Text) (indent : Column) (text : Text) :
      Move cfg c [] ({ c with comments }.record indent text)
  /-- A statement stands where nothing counts. -/
  | skip {c : Context} (line : Nat) (h : c.scope = .skipped) :
      Move cfg c [.ignored .functionBody line] c
  | decorate {c : Context} {outer : Text} (line : Nat) (name : Text)
      (h : c.scope = .classBody outer) :
      Move cfg c [.decorator name line]
        { c.enterBody with
          decorators := c.decorators ++ [name], comments := [],
          headerComments := c.headerComments ++ c.comments }
  /-- A decorator stands where nothing can be decorated. -/
  | strayDecorator {c : Context} (line : Nat) (h : ∀ outer, c.scope ≠ .classBody outer) :
      Move cfg c [.ignored .decorator line]
        { c.enterBody with comments := [], headerComments := c.headerComments ++ c.comments }
  | malformed (c : Context) (line : Nat) (indent : Column) :
      Move cfg c [.ignored .malformedHeader line] (c.enterBody.dropPending.push .skipped indent)
  /-- A class of the module starts. -/
  | startOuter {c : Context} {name : Text} (line : Nat) (indent : Column) (bases : List Text)
      (h : c.scope = .module) (hname : Text.isName name = true) :
      Move cfg c [.classStart ⟨name, bases, c.comment?, line⟩]
        (c.enterBody.claimPending.push (.classBody name) indent)
  /-- A class starts in the body of another. -/
  | startInner {c : Context} {outer name : Text} (line : Nat) (indent : Column)
      (bases : List Text) (h : c.scope = .classBody outer) (hname : Text.isName name = true) :
      Move cfg c [.classStart ⟨outer ++ '.' :: name, bases, c.comment?, line⟩]
        (c.enterBody.claimPending.push (.classBody (outer ++ '.' :: name)) indent)
  | startMethod {c : Context} {outer : Text} (line : Nat) (indent : Column) (name : Text)
      (parameters : List WrittenParameter) (isAsync : Bool) (h : c.scope = .classBody outer) :
      Move cfg c [.methodStart ⟨name, parameters, c.decorators, isAsync, c.comment?, line⟩]
        (c.enterBody.claimPending.push
          (.methodBody name (name == cfg.constructorName)
            (selfNameOf? cfg c.decorators parameters) []) indent)
  /-- A header opens a body in which nothing counts. -/
  | skipBody (c : Context) (reason : IgnoreReason) (line : Nat) (indent : Column) :
      Move cfg c [.ignored reason line] (c.enterBody.claimPending.push .skipped indent)
  | startBlock (c : Context) (line : Nat) (indent : Column) :
      Move cfg c [.ignored .controlFlow line] (c.enterBody.dropPending.push .block indent)
  | docstring {c : Context} (text : Text) (line : Nat) (h : c.isFirstInBody = true) :
      Move cfg c [.docstring text line] c.enterBody.dropPending
  /-- A value is assigned to one target. -/
  | assign (c : Context) (line : Nat) (value : Text) (target : Target) :
      Move cfg c [c.scope.assign line value target] c.enterBody.dropPending
  /-- Any other statement is passed over. -/
  | pass (c : Context) (reason : IgnoreReason) (line : Nat) :
      Move cfg c [.ignored reason line] c.enterBody.dropPending

/-- A run of moves with all its events. -/
inductive Moves (cfg : Config) : Context → List Event → Context → Prop where
  | refl (c : Context) : Moves cfg c [] c
  | step {c c' c'' : Context} {es es' : List Event} (move : Move cfg c es c')
      (rest : Moves cfg c' es' c'') : Moves cfg c (es ++ es') c''

namespace Moves

variable {cfg : Config} {c c' c'' : Context} {es es' : List Event}

theorem single (move : Move cfg c es c') : Moves cfg c es c' := by
  have h := Moves.step move (.refl c')
  rwa [List.append_nil] at h

/-- One run after another is a run. -/
theorem trans (h : Moves cfg c es c') (h' : Moves cfg c' es' c'') :
    Moves cfg c (es ++ es') c'' := by
  induction h with
  | refl => exact h'
  | step move _ ih =>
      rw [List.append_assoc]
      exact .step move (ih h')

end Moves

/-! ## §4. Statements are runs of moves. -/

namespace Context

variable (cfg : Config) (line : Nat) (indent : Column)

theorem noteDecorator_moves (name : Text) (c : Context) :
    Moves cfg c (c.enterBody.noteDecorator line name).2.events
      (c.enterBody.noteDecorator line name).1 := by
  unfold noteDecorator
  rw [scope_enterBody]
  split
  · next outer h => exact .single (.decorate line name h)
  · next h => exact .single (.strayDecorator line h)

theorem openClass_moves {name : Text} (hname : Text.isName name = true) (bases : List Text)
    (c : Context) :
    Moves cfg c (c.enterBody.openClass line indent name bases).2.events
      (c.enterBody.openClass line indent name bases).1 := by
  unfold openClass
  rw [scope_enterBody]
  dsimp only
  split
  · next h => exact .single (.startOuter line indent bases h hname)
  · next outer h => exact .single (.startInner line indent bases h hname)
  · exact .single (.skipBody c _ line indent)
  · exact .single (.skipBody c _ line indent)

theorem openFunction_moves (header : FunctionHeader) (c : Context) :
    Moves cfg c (c.enterBody.openFunction cfg line indent header).2.events
      (c.enterBody.openFunction cfg line indent header).1 := by
  unfold openFunction
  rw [scope_enterBody]
  dsimp only
  split
  · next outer h =>
    have start := @Move.startMethod cfg c outer line indent header.name
      header.arguments.parameters.value header.isAsync h
    split
    · exact .single start
    -- The text of an inline body is the first line of the method's body.
    · have h := Moves.trans (.single start)
        (.single (.record _ c.claimPending.comments (indent + 1) header.body))
      exact h
  · exact .single (.skipBody c _ line indent)
  · exact .single (.skipBody c _ line indent)
  · exact .single (.skipBody c _ line indent)

end Context

namespace Statement

variable (cfg : Config) (line : Nat) (indent : Column)

theorem thenBody_moves {c : Context} {header : Context × EventOutput}
    {body : Context → Context × EventOutput}
    (hheader : Moves cfg c header.2.events header.1)
    (hbody : Moves cfg header.1 (body header.1).2.events (body header.1).1) :
    Moves cfg c (thenBody header body).2.events (thenBody header body).1 := by
  unfold thenBody
  split
  · exact hheader
  · exact hheader.trans hbody

theorem unlessSkipped_moves {c : Context} {s : Statement}
    {act : Context → Context × EventOutput} (h : Moves cfg c (act c).2.events (act c).1) :
    Moves cfg c (unlessSkipped line s act c).2.events (unlessSkipped line s act c).1 := by
  unfold unlessSkipped
  split
  · exact .refl c
  split
  · next hs => exact .single (.skip line hs)
  · exact h

theorem docstringOr_moves (contents : Text) (c : Context) :
    Moves cfg c (docstringOr line contents c).events c.enterBody.dropPending := by
  unfold docstringOr
  split
  · next h _ => exact .single (.docstring _ line h)
  · next h _ => exact .single (.docstring _ line h)
  · exact .single (.pass c _ line)

theorem assign_moves (value : Text) (c : Context) {targets : List Target} (h : targets ≠ []) :
    Moves cfg c (targets.map (c.scope.assign line value)) c.enterBody.dropPending := by
  induction targets generalizing c with
  | nil => exact absurd rfl h
  | cons t ts ih =>
      have first : Move cfg c _ _ := .assign c line value t
      cases ts with
      | nil => exact .single first
      | cons t' ts =>
          have later := ih c.enterBody.dropPending (List.cons_ne_nil _ _)
          rw [Context.settle_settle, Context.scope_dropPending, Context.scope_enterBody] at later
          exact .step first later

mutual

/-- A statement is a run of moves. -/
theorem act_moves (indent : Column) : ∀ (s : Statement) (c : Context), s.WellFormed →
    Moves cfg c (s.act cfg line indent c).2.events (s.act cfg line indent c).1
  | .empty, c, _ => .refl c
  | .decorator name, c, _ => Context.noteDecorator_moves cfg line name c
  | .malformedHeader _ _, c, _ => .single (.malformed c line indent)
  | .classDef name bases body, c, h => by
      obtain ⟨hname, hbody⟩ := h
      rw [act]
      exact thenBody_moves cfg (Context.openClass_moves cfg line indent hname bases c)
        (act_moves (indent + 1) body _ hbody)
  | .functionDef header body, c, h => by
      rw [act]
      exact thenBody_moves cfg (Context.openFunction_moves cfg line indent header c)
        (act_moves (indent + 1) body _ h)
  | .block body, c, h => by
      rw [act]
      exact thenBody_moves cfg (.single (.startBlock c line indent))
        (act_moves (indent + 1) body _ h)
  | .sequence parts, c, h => by
      rw [act]
      exact actAll_moves indent parts c h
  | .string contents, c, _ => docstringOr_moves cfg line contents c
  | .assignment targets value, c, h => assign_moves cfg line value c h
  | .inert reason, c, _ => .single (.pass c reason line)
  | .unrecognized _, c, _ => .single (.pass c _ line)

/-- Statements one after the other are a run of moves. -/
theorem actAll_moves (indent : Column) : ∀ (ss : List Statement) (c : Context),
    AllWellFormed ss →
    Moves cfg c (actAll cfg line indent ss c).2.events (actAll cfg line indent ss c).1
  | [], c, _ => .refl c
  | s :: rest, c, h => by
      rw [actAll]
      exact (unlessSkipped_moves cfg line (act_moves indent s c h.1)).trans
        (actAll_moves indent rest _ h.2)

end

theorem perform_moves {s : Statement} (h : s.WellFormed) (c : Context) :
    Moves cfg c (s.perform cfg line indent c).2.events (s.perform cfg line indent c).1 :=
  unlessSkipped_moves cfg line (act_moves cfg line indent s c h)

end Statement

/-! ## §5. Lines are runs of moves. -/

/-- Closing frames is one move for each of them. -/
theorem closeFrames_moves (cfg : Config) (indent : Column) (c : Context) :
    Moves cfg c (closeFrames indent c.frames).1
      { c with frames := (closeFrames indent c.frames).2 } := by
  obtain ⟨frames, decorators, comments, headerComments⟩ := c
  induction frames with
  | nil => exact .refl _
  | cons f fs ih =>
      dsimp only at ih ⊢
      rw [closeFrames]
      split
      · exact .step (.close rfl) ih
      · exact .refl _

theorem Context.readLine_moves (cfg : Config) (l : LogicalLine) (c : Context) :
    Moves cfg c (c.readLine cfg l).2.events (c.readLine cfg l).1 := by
  have ends := closeFrames_moves cfg l.indent c
  have recorded : Move cfg { c with frames := (closeFrames l.indent c.frames).2 } _ _ :=
    .record _ l.comments l.indent l.text
  have performed := Statement.perform_moves cfg l.line l.indent (Statement.parse_wellFormed l.text)
    ({ c with frames := (closeFrames l.indent c.frames).2,
              comments := l.comments }.record l.indent l.text)
  exact ends.trans (.step recorded performed)

theorem Context.readLines_moves (cfg : Config) (ls : List LogicalLine) (c : Context) :
    Moves cfg c (c.readLines cfg ls).2.events (c.readLines cfg ls).1 := by
  induction ls generalizing c with
  | nil => exact .refl c
  | cons l ls ih =>
      rw [readLines]
      exact (readLine_moves cfg l c).trans (ih _)

/-- At the margin no frame stays open. -/
theorem closeFrames_zero (fs : List Frame) : (closeFrames 0 fs).2 = [] := by
  induction fs with
  | nil => rfl
  | cons f fs ih =>
      rw [closeFrames, if_pos (Nat.zero_le _)]
      exact ih

/-- **The events of a source are a run of moves** from the empty context to one without open
frames. -/
theorem Event.ofLines_moves (cfg : Config) (lines : List LogicalLine) :
    ∃ final : Context, final.frames = [] ∧ Moves cfg {} (Event.ofLines cfg lines).events final := by
  refine ⟨{ (Context.readLines cfg {} lines).1 with frames := [] }, rfl, ?_⟩
  have read := Context.readLines_moves cfg lines {}
  have ends := closeFrames_moves cfg 0 (Context.readLines cfg {} lines).1
  rw [closeFrames_zero] at ends
  exact read.trans ends

end ClassOutline
