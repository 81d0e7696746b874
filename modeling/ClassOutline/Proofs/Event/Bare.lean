/-
  ClassOutline.Proofs.Event.Bare
  ────────────────────────────────
  **WHAT OF A CONTEXT DECIDES ABOUT THE CLASSES.**

  Comments, the lines of a method's body and the note that a body has had a
  statement are carried along for docstrings and sources; nothing else is made
  of them.  A context, a frame or a list of events is *bare* without them.

  Reading looks at the bare context only: results that begin in the same one
  are `Alike`, and the frames a line closes are not looked at either, so it is
  enough that contexts meet at the column of the line (`readLine_alike`).
-/
import ClassOutline.Proofs.Event.Nested

namespace ClassOutline

/-! ## §1. Bare frames, contexts and events. -/

/-- What a header opened, without the lines of a method's body. -/
def FrameKind.bare : FrameKind → FrameKind
  | methodBody name isConstructor selfName _ => methodBody name isConstructor selfName []
  | kind => kind

/-- The frame as its header opened it. -/
def Frame.bare (f : Frame) : Frame := ⟨f.kind.bare, f.indent, false⟩

/-- The context without what only docstrings and sources are made of. -/
def Context.bare (c : Context) : Context :=
  { frames := c.frames.map Frame.bare, decorators := c.decorators }

/-- The event without comment and source, if it says more about a class than these. -/
def Event.bare? : Event → Option Event
  | classStart start => some (classStart { start with comment := none })
  | methodStart start => some (methodStart { start with comment := none })
  | methodEnd name _ => some (methodEnd name [])
  | decorator .. | docstring .. | ignored .. => none
  | e => some e

/-- The events without comments, docstrings, sources and what is passed over. -/
def bareEvents (es : List Event) : List Event := es.filterMap Event.bare?

@[simp]
theorem bareEvents_append (es es' : List Event) :
    bareEvents (es ++ es') = bareEvents es ++ bareEvents es' :=
  List.filterMap_append

/-- Two results with the same bare context and the same bare events. -/
structure Alike (r r' : Context × EventOutput) : Prop where
  context : r.1.bare = r'.1.bare
  events : bareEvents r.2.events = bareEvents r'.2.events

/-! ## §2. What a statement does to the bare context. -/

namespace Frame

theorem scope?_bare (f : Frame) : f.bare.scope? = f.scope? := by
  obtain ⟨kind, indent, bodySeen⟩ := f
  cases kind <;> rfl

/-- Bare frames end in the same bare events. -/
theorem bareEvents_ends_bare (f : Frame) : bareEvents f.bare.ends = bareEvents f.ends := by
  obtain ⟨kind, indent, bodySeen⟩ := f
  cases kind <;> rfl

end Frame

theorem scopeOf_map_bare (fs : List Frame) : scopeOf (fs.map Frame.bare) = scopeOf fs := by
  have h : Frame.scope? ∘ Frame.bare = Frame.scope? := funext Frame.scope?_bare
  unfold scopeOf
  rw [List.findSome?_map, h]

namespace Context

variable {c c' : Context}

theorem scope_bare (c : Context) : c.bare.scope = c.scope := scopeOf_map_bare c.frames

theorem bare_enterBody (c : Context) : c.enterBody.bare = c.bare := by
  unfold enterBody bare
  cases c.frames with
  | nil => rfl
  | cons f fs => rfl

theorem bare_record (indent : Column) (text : Text) (c : Context) :
    (c.record indent text).bare = c.bare := by
  have h := map_recordLine Frame.bare (fun _ _ _ _ _ _ _ => rfl) indent text c.frames
  unfold record bare
  rw [h]

theorem bare_push (kind : FrameKind) (indent : Column) (c : Context) :
    (c.push kind indent).bare = c.bare.push kind.bare indent :=
  rfl

theorem bare_claimPending (c : Context) : c.claimPending.bare = c.bare.claimPending := rfl

theorem bare_dropPending (c : Context) : c.dropPending.bare = c.bare.dropPending := rfl

theorem scope_eq_of_bare_eq (h : c.bare = c'.bare) : c.scope = c'.scope := by
  rw [← scope_bare c, h, scope_bare]

theorem decorators_eq_of_bare_eq (h : c.bare = c'.bare) : c.decorators = c'.decorators := by
  have hd : c.bare.decorators = c'.bare.decorators := by rw [h]
  exact hd

theorem frames_eq_of_bare_eq (h : c.bare = c'.bare) :
    c.frames.map Frame.bare = c'.frames.map Frame.bare := by
  have hf : c.bare.frames = c'.bare.frames := by rw [h]
  exact hf

/-- A header that begins in the same bare context opens its frame in the same one. -/
theorem bare_push_claimPending (h : c.bare = c'.bare) (kind : FrameKind) (indent : Column) :
    (c.claimPending.push kind indent).bare = (c'.claimPending.push kind indent).bare := by
  rw [bare_push, bare_push, bare_claimPending, bare_claimPending, h]

theorem openClass_alike (h : c.bare = c'.bare) (line : Nat) (indent : Column) (name : Text)
    (bases : List Text) :
    Alike (c.openClass line indent name bases) (c'.openClass line indent name bases) := by
  unfold openClass
  rw [scope_eq_of_bare_eq h]
  dsimp only
  split
  · exact ⟨bare_push_claimPending h _ _, rfl⟩
  · exact ⟨bare_push_claimPending h _ _, rfl⟩
  · exact ⟨bare_push_claimPending h _ _, rfl⟩
  · exact ⟨bare_push_claimPending h _ _, rfl⟩

theorem openFunction_alike (h : c.bare = c'.bare) (cfg : Config) (line : Nat) (indent : Column)
    (header : FunctionHeader) :
    Alike (c.openFunction cfg line indent header) (c'.openFunction cfg line indent header) := by
  unfold openFunction
  rw [scope_eq_of_bare_eq h, decorators_eq_of_bare_eq h]
  dsimp only
  split
  · split
    · exact ⟨bare_push_claimPending h _ _, rfl⟩
    · refine ⟨?_, rfl⟩
      rw [bare_record, bare_record]
      exact bare_push_claimPending h _ _
  · exact ⟨bare_push_claimPending h _ _, rfl⟩
  · exact ⟨bare_push_claimPending h _ _, rfl⟩
  · exact ⟨bare_push_claimPending h _ _, rfl⟩

theorem noteDecorator_alike (h : c.bare = c'.bare) (line : Nat) (name : Text) :
    Alike (c.noteDecorator line name) (c'.noteDecorator line name) := by
  unfold noteDecorator
  rw [scope_eq_of_bare_eq h, decorators_eq_of_bare_eq h]
  dsimp only
  split
  · refine ⟨?_, rfl⟩
    unfold bare
    rw [frames_eq_of_bare_eq h]
  · refine ⟨?_, rfl⟩
    unfold bare
    rw [frames_eq_of_bare_eq h]

end Context

/-! ## §3. Statements and lines look at the bare context only. -/

namespace Alike

variable {r r' : Context × EventOutput}

/-- Output behind output. -/
theorem after {o o' : EventOutput} (ho : bareEvents o.events = bareEvents o'.events)
    (h : Alike r r') : Alike (r.1, o ++ r.2) (r'.1, o' ++ r'.2) := by
  refine ⟨h.context, ?_⟩
  show bareEvents (o.events ++ r.2.events) = bareEvents (o'.events ++ r'.2.events)
  rw [bareEvents_append, bareEvents_append, ho, h.events]

end Alike

namespace Statement

variable {c c' : Context} (cfg : Config) (line : Nat) (indent : Column)

/-- A docstring is no bare event, and neither is a string that is none. -/
theorem bareEvents_docstringOr (contents : Text) (c : Context) :
    bareEvents (docstringOr line contents c).events = [] := by
  unfold docstringOr
  split <;> rfl

theorem unlessSkipped_alike {s : Statement} {act : Context → Context × EventOutput}
    (h : c.bare = c'.bare) (hact : Alike (act c) (act c')) :
    Alike (unlessSkipped line s act c) (unlessSkipped line s act c') := by
  unfold unlessSkipped
  rw [Context.scope_eq_of_bare_eq h]
  split
  · exact ⟨h, rfl⟩
  split
  · exact ⟨h, rfl⟩
  · exact hact

theorem thenBody_alike {r r' : Context × EventOutput} {act : Context → Context × EventOutput}
    (h : Alike r r') (hact : Alike (act r.1) (act r'.1)) :
    Alike (thenBody r act) (thenBody r' act) := by
  unfold thenBody
  rw [Context.scope_eq_of_bare_eq h.context]
  split
  · exact h
  · exact hact.after h.events

/-- The bare context with its decorators dropped, whatever body was entered. -/
theorem settled (h : c.bare = c'.bare) :
    c.enterBody.dropPending.bare = c'.enterBody.dropPending.bare := by
  rw [Context.bare_dropPending, Context.bare_enterBody, h, ← Context.bare_enterBody c',
    ← Context.bare_dropPending]

mutual

/-- A statement is alike in contexts that are the same when bare. -/
theorem act_alike (indent : Column) : ∀ (s : Statement) {c c' : Context}, c.bare = c'.bare →
    Alike (s.act cfg line indent c) (s.act cfg line indent c')
  | .empty, _, _, h => ⟨h, rfl⟩
  | .decorator name, c, c', h => by
      rw [act, act]
      refine Context.noteDecorator_alike ?_ line name
      rw [Context.bare_enterBody, Context.bare_enterBody, h]
  | .malformedHeader _ _, c, c', h => by
      rw [act, act]
      refine ⟨?_, rfl⟩
      show (c.enterBody.dropPending.push .skipped indent).bare = _
      rw [Context.bare_push, settled h]
      rfl
  | .classDef name bases body, c, c', h => by
      have hentered : c.enterBody.bare = c'.enterBody.bare := by
        rw [Context.bare_enterBody, Context.bare_enterBody, h]
      have header := Context.openClass_alike hentered line indent name bases
      rw [act, act]
      exact thenBody_alike header (act_alike (indent + 1) body header.context)
  | .functionDef header body, c, c', h => by
      have hentered : c.enterBody.bare = c'.enterBody.bare := by
        rw [Context.bare_enterBody, Context.bare_enterBody, h]
      have header := Context.openFunction_alike hentered cfg line indent header
      rw [act, act]
      exact thenBody_alike header (act_alike (indent + 1) body header.context)
  | .block body, c, c', h => by
      have header : Alike
          (c.enterBody.dropPending.push .block indent, EventOutput.ignored .controlFlow line)
          (c'.enterBody.dropPending.push .block indent, EventOutput.ignored .controlFlow line) := by
        refine ⟨?_, rfl⟩
        dsimp only
        rw [Context.bare_push, settled h, ← Context.bare_push]
      rw [act, act]
      exact thenBody_alike header (act_alike (indent + 1) body header.context)
  | .sequence parts, c, c', h => by
      rw [act, act]
      exact actAll_alike indent parts h
  | .string contents, c, c', h => by
      rw [act, act]
      refine ⟨settled h, ?_⟩
      rw [bareEvents_docstringOr, bareEvents_docstringOr]
  | .assignment targets value, c, c', h => by
      rw [act, act, Context.scope_eq_of_bare_eq h]
      exact ⟨settled h, rfl⟩
  | .inert _, _, _, h => ⟨settled h, rfl⟩
  | .unrecognized _, _, _, h => ⟨settled h, rfl⟩

/-- Statements one after the other are alike. -/
theorem actAll_alike (indent : Column) : ∀ (ss : List Statement) {c c' : Context},
    c.bare = c'.bare → Alike (actAll cfg line indent ss c) (actAll cfg line indent ss c')
  | [], _, _, h => ⟨h, rfl⟩
  | s :: rest, c, c', h => by
      have first := unlessSkipped_alike line (s := s) h (act_alike indent s h)
      rw [actAll, actAll]
      exact (actAll_alike indent rest first.context).after first.events

end

theorem perform_alike (h : c.bare = c'.bare) (s : Statement) :
    Alike (s.perform cfg line indent c) (s.perform cfg line indent c') :=
  unlessSkipped_alike line h (act_alike cfg line indent s h)

end Statement

/-- Closing bare frames leaves the bare frames that are left, and ends in the same bare events. -/
theorem closeFrames_map_bare (indent : Column) (fs : List Frame) :
    (closeFrames indent (fs.map Frame.bare)).2 = (closeFrames indent fs).2.map Frame.bare
      ∧ bareEvents (closeFrames indent (fs.map Frame.bare)).1
        = bareEvents (closeFrames indent fs).1 := by
  induction fs with
  | nil => exact ⟨rfl, rfl⟩
  | cons f fs ih =>
      obtain ⟨left, ended⟩ := ih
      rw [List.map_cons, closeFrames, closeFrames]
      have hindent : f.bare.indent = f.indent := rfl
      rw [hindent]
      split
      · refine ⟨left, ?_⟩
        rw [bareEvents_append, bareEvents_append, ended, f.bareEvents_ends_bare]
      · exact ⟨rfl, rfl⟩

namespace Context

/-- Contexts between which a line at a column cannot tell: what it closes ends alike, and the
bare frames that are left are the same. -/
structure MeetsAt (column : Column) (c c' : Context) : Prop where
  decorators : c.decorators = c'.decorators
  frames : closeFrames column c.bare.frames = closeFrames column c'.bare.frames

theorem MeetsAt.of_bare_eq {c c' : Context} (h : c.bare = c'.bare) (column : Column) :
    c.MeetsAt column c' :=
  ⟨decorators_eq_of_bare_eq h, by rw [h]⟩

/-- The same bare frames are left. -/
theorem MeetsAt.left {column : Column} {c c' : Context} (h : c.MeetsAt column c') :
    (closeFrames column c.frames).2.map Frame.bare
      = (closeFrames column c'.frames).2.map Frame.bare := by
  rw [← (closeFrames_map_bare column c.frames).1, ← (closeFrames_map_bare column c'.frames).1]
  exact congrArg Prod.snd h.frames

/-- What is closed ends alike. -/
theorem MeetsAt.ended {column : Column} {c c' : Context} (h : c.MeetsAt column c') :
    bareEvents (closeFrames column c.frames).1 = bareEvents (closeFrames column c'.frames).1 := by
  rw [← (closeFrames_map_bare column c.frames).2, ← (closeFrames_map_bare column c'.frames).2]
  exact congrArg (fun closed => bareEvents closed.1) h.frames

/-- **A line is read alike in contexts that meet at its column.** -/
theorem readLine_alike (cfg : Config) {l : LogicalLine} {c c' : Context}
    (h : c.MeetsAt l.indent c') : Alike (c.readLine cfg l) (c'.readLine cfg l) := by
  have inside :
      ({ c with frames := (closeFrames l.indent c.frames).2
                comments := l.comments }.record l.indent l.text).bare
        = ({ c' with frames := (closeFrames l.indent c'.frames).2
                     comments := l.comments }.record l.indent l.text).bare := by
    rw [bare_record, bare_record]
    unfold bare
    dsimp only
    rw [h.left, h.decorators]
  exact (Statement.perform_alike cfg l.line l.indent inside _).after h.ended

end Context

end ClassOutline
