/-
  ClassOutline.Proofs.Event.MethodBodies
  ────────────────────────────────
  **THE LINES OF A METHOD'S BODY ARE RECORDED, EACH ONCE.**

  While lines to the right of a method's header are read, the frame of the
  method stays open, with nothing but blocks and skipped bodies above it
  (`Context.Within`): no class and no method starts inside a method, so nothing
  that could take its lines stands in between.  Each such line is added to the
  body, whatever it says, and makes events that neither start nor end a class
  or a method.

  The first line that is not to the right of the header closes what stands
  above the frame, then the frame itself, with all that was recorded.
-/
import ClassOutline.Proofs.Event.Indentation

namespace ClassOutline

/-! ## §1. Events inside a method. -/

/-- No event starts or ends a class or a method. -/
def QuietEvents (es : List Event) : Prop := ∀ e ∈ es, e.starts? = none ∧ e.ends? = none

theorem QuietEvents.nil : QuietEvents [] := fun _ he => absurd he List.not_mem_nil

theorem QuietEvents.single {e : Event} (hstarts : e.starts? = none) (hends : e.ends? = none) :
    QuietEvents [e] := by
  intro e' he
  rw [List.mem_singleton.1 he]
  exact ⟨hstarts, hends⟩

theorem QuietEvents.append {es es' : List Event} (h : QuietEvents es) (h' : QuietEvents es') :
    QuietEvents (es ++ es') :=
  fun e he => (List.mem_append.1 he).elim (h e) (h' e)

/-! ## §2. Contexts inside a method. -/

/-- A method that is open, and the frames below its own. -/
structure EnclosingMethod where
  name : Text
  isConstructor : Bool
  selfName : Option Text
  indent : Column
  /-- The lines so far, with their columns. -/
  body : List (Column × Text)
  below : List Frame

namespace EnclosingMethod

/-- The frame of the method. -/
def frame (m : EnclosingMethod) (bodySeen : Bool) : Frame :=
  ⟨.methodBody m.name m.isConstructor m.selfName m.body, m.indent, bodySeen⟩

/-- The method with more lines in its body. -/
def extend (m : EnclosingMethod) (rows : List (Column × Text)) : EnclosingMethod :=
  { m with body := m.body ++ rows }

end EnclosingMethod

namespace Context

/-- The frame of the method is open, and above it are only passive frames, none of them to the
left of it. -/
def Within (m : EnclosingMethod) (c : Context) : Prop :=
  ∃ above bodySeen, c.frames = above ++ m.frame bodySeen :: m.below
    ∧ ∀ f ∈ above, f.IsPassive ∧ m.indent ≤ f.indent

namespace Within

variable {m : EnclosingMethod} {c c' : Context} {indent : Column}

theorem of_frames_eq (h : Within m c) (hframes : c'.frames = c.frames) : Within m c' := by
  obtain ⟨above, bodySeen, heq, habove⟩ := h
  exact ⟨above, bodySeen, hframes.trans heq, habove⟩

/-- Passive frames do not leave the method. -/
theorem inFunction (h : Within m c) : c.scope.InFunction := by
  obtain ⟨above, bodySeen, heq, habove⟩ := h
  unfold Context.scope
  rw [heq]
  clear heq
  induction above with
  | nil => exact trivial
  | cons f above ih =>
      have inside := ih fun g hg => habove g (List.mem_cons_of_mem f hg)
      obtain ⟨kind, column, seen⟩ := f
      rcases (habove _ List.mem_cons_self).1 with hkind | hkind
      · obtain rfl : kind = .block := hkind
        exact inside
      · obtain rfl : kind = .skipped := hkind
        exact trivial

theorem enterBody (h : Within m c) : Within m c.enterBody := by
  obtain ⟨above, bodySeen, heq, habove⟩ := h
  unfold Context.enterBody
  rw [heq]
  cases above with
  | nil => exact ⟨[], true, rfl, habove⟩
  | cons f above =>
      refine ⟨{ f with bodySeen := true } :: above, bodySeen, rfl, fun g hg => ?_⟩
      rcases List.mem_cons.1 hg with rfl | hg
      · exact habove f List.mem_cons_self
      · exact habove g (List.mem_cons_of_mem f hg)

theorem push (h : Within m c) {kind : FrameKind} (hkind : kind = .block ∨ kind = .skipped)
    (hindent : m.indent ≤ indent) : Within m (c.push kind indent) := by
  obtain ⟨above, bodySeen, heq, habove⟩ := h
  refine ⟨⟨kind, indent, false⟩ :: above, bodySeen, congrArg (_ :: ·) heq, fun f hf => ?_⟩
  rcases List.mem_cons.1 hf with rfl | hf
  · exact ⟨hkind, hindent⟩
  · exact habove f hf

/-- A line is added to the body of the method, through all that stands above its frame. -/
theorem record (h : Within m c) (indent : Column) (text : Text) :
    Within (m.extend [(indent, text)]) (c.record indent text) := by
  obtain ⟨above, bodySeen, heq, habove⟩ := h
  refine ⟨above, bodySeen, ?_, habove⟩
  show recordLine indent text c.frames = _
  rw [heq]
  clear heq
  induction above with
  | nil => rfl
  | cons f above ih =>
      have inside := ih fun g hg => habove g (List.mem_cons_of_mem f hg)
      obtain ⟨kind, column, seen⟩ := f
      rcases (habove _ List.mem_cons_self).1 with hkind | hkind
      · obtain rfl : kind = .block := hkind
        exact congrArg (_ :: ·) inside
      · obtain rfl : kind = .skipped := hkind
        exact congrArg (_ :: ·) inside

/-- A line to the right of the header closes passive frames only. -/
theorem closed (h : Within m c) (hright : m.indent < indent) :
    Within m { c with frames := (closeFrames indent c.frames).2 }
      ∧ (closeFrames indent c.frames).1 = [] := by
  obtain ⟨above, bodySeen, heq, habove⟩ := h
  suffices closes : (closeFrames indent (above ++ m.frame bodySeen :: m.below)).1 = []
      ∧ ∃ left, left <:+ above ∧ (closeFrames indent (above ++ m.frame bodySeen :: m.below)).2
        = left ++ m.frame bodySeen :: m.below by
    obtain ⟨quiet, left, hleft, hframes⟩ := closes
    rw [heq]
    exact ⟨⟨left, bodySeen, hframes, fun f hf => habove f (hleft.subset hf)⟩, quiet⟩
  clear heq
  induction above with
  | nil =>
      have stays : ¬ indent ≤ (m.frame bodySeen).indent := Nat.not_le.2 hright
      rw [List.nil_append, closeFrames, if_neg stays]
      exact ⟨rfl, [], List.suffix_rfl, rfl⟩
  | cons f above ih =>
      obtain ⟨quiet, left, hleft, hframes⟩ := ih fun g hg => habove g (List.mem_cons_of_mem f hg)
      rw [List.cons_append, closeFrames]
      split
      · refine ⟨?_, left, hleft.trans (List.suffix_cons f above), hframes⟩
        show f.ends ++ _ = []
        rw [(habove f List.mem_cons_self).1.ends, quiet]
        rfl
      · exact ⟨rfl, f :: above, List.suffix_rfl, rfl⟩

/-- **A line that is not to the right of the header ends the method**, with its body. -/
theorem ended (h : Within m c) (hleft : indent ≤ m.indent) :
    ∃ later, (closeFrames indent c.frames).1
      = .methodEnd m.name (methodSource m.body) :: later := by
  obtain ⟨above, bodySeen, heq, habove⟩ := h
  have closes : ∀ f ∈ above, f.IsPassive ∧ indent ≤ f.indent := fun f hf =>
    ⟨(habove f hf).1, Nat.le_trans hleft (habove f hf).2⟩
  have frame : indent ≤ (m.frame bodySeen).indent := hleft
  rw [heq, closeFrames_append closes, closeFrames, if_pos frame]
  exact ⟨_, rfl⟩

end Within

end Context

/-! ## §3. Statements inside a method. -/

/-- A result inside the method, with events that start and end nothing. -/
structure StaysWithin (m : EnclosingMethod) (r : Context × EventOutput) : Prop where
  context : r.1.Within m
  quiet : QuietEvents r.2.events

namespace Statement

variable (cfg : Config) (line : Nat) {m : EnclosingMethod} {c : Context}

/-- A header whose body is skipped. -/
theorem skipBody_within {indent : Column} (h : c.Within m) (hindent : m.indent ≤ indent)
    (reason : IgnoreReason) :
    StaysWithin m (Context.skipBody reason line indent c.enterBody.claimPending) :=
  ⟨(h.enterBody.of_frames_eq rfl).push (.inr rfl) hindent, .single rfl rfl⟩

/-- A statement that opens nothing. -/
theorem settle_within (h : c.Within m) {output : EventOutput} (hquiet : QuietEvents output.events) :
    StaysWithin m (c.enterBody.dropPending, output) :=
  ⟨h.enterBody.of_frames_eq rfl, hquiet⟩

theorem unlessSkipped_within {s : Statement} {act : Context → Context × EventOutput}
    (h : c.Within m) (hact : StaysWithin m (act c)) :
    StaysWithin m (unlessSkipped line s act c) := by
  unfold unlessSkipped
  split
  · exact ⟨h, .nil⟩
  split
  · exact ⟨h, .single rfl rfl⟩
  · exact hact

theorem quiet_docstringOr (contents : Text) (c : Context) :
    QuietEvents (docstringOr line contents c).events := by
  unfold docstringOr
  split <;> exact .single rfl rfl

mutual

/-- **A STATEMENT DOES NOT LEAVE THE METHOD IT STANDS IN**, and starts nothing there. -/
theorem act_within (indent : Column) : ∀ (s : Statement) {c : Context}, c.Within m →
    m.indent ≤ indent → StaysWithin m (s.act cfg line indent c)
  | .empty, c, h, _ => by
      rw [act]
      exact ⟨h, .nil⟩
  | .decorator name, c, h, _ => by
      rw [act]
      refine ⟨h.enterBody.of_frames_eq (Context.frames_noteDecorator _ line name), ?_⟩
      unfold Context.noteDecorator
      dsimp only
      split <;> exact .single rfl rfl
  | .malformedHeader _ _, c, h, hright => by
      rw [act]
      exact ⟨(h.enterBody.of_frames_eq rfl).push (.inr rfl) hright, .single rfl rfl⟩
  | .classDef name bases body, c, h, hright => by
      rw [act, Context.openClass_of_inFunction h.enterBody.inFunction, thenBody_skipBody]
      exact skipBody_within line h hright _
  | .functionDef header body, c, h, hright => by
      obtain ⟨reason, passed⟩ := Context.openFunction_of_ne_classBody
        h.enterBody.inFunction.ne_classBody cfg line indent header
      rw [act, passed, thenBody_skipBody]
      exact skipBody_within line h hright _
  | .block body, c, h, hright => by
      have opened : (c.enterBody.dropPending.push .block indent).Within m :=
        (h.enterBody.of_frames_eq rfl).push (.inl rfl) hright
      have quiet : QuietEvents (EventOutput.ignored .controlFlow line).events := .single rfl rfl
      rw [act]
      unfold thenBody
      split
      · exact ⟨opened, quiet⟩
      · obtain ⟨inside, quietInside⟩ := act_within (indent + 1) body opened (Nat.le_succ_of_le hright)
        exact ⟨inside, quiet.append quietInside⟩
  | .sequence parts, c, h, hright => by
      rw [act]
      exact actAll_within indent parts h hright
  | .string contents, c, h, _ => by
      rw [act]
      exact settle_within h (quiet_docstringOr line contents c)
  | .assignment targets value, c, h, _ => by
      rw [act]
      refine settle_within h fun e he => ?_
      obtain ⟨target, -, rfl⟩ := List.mem_map.1 he
      exact c.scope.assign_quiet line value target
  | .inert reason, c, h, _ => by
      rw [act]
      exact settle_within h (.single rfl rfl)
  | .unrecognized text, c, h, _ => by
      rw [act]
      exact settle_within h (.single rfl rfl)

/-- Neither do several statements. -/
theorem actAll_within (indent : Column) : ∀ (ss : List Statement) {c : Context}, c.Within m →
    m.indent ≤ indent → StaysWithin m (actAll cfg line indent ss c)
  | [], c, h, _ => by
      rw [actAll]
      exact ⟨h, .nil⟩
  | s :: rest, c, h, hright => by
      have first := unlessSkipped_within line (s := s) h
        (act_within indent s h hright)
      have later := actAll_within indent rest first.context hright
      rw [actAll]
      exact ⟨later.context, first.quiet.append later.quiet⟩

end

end Statement

/-! ## §4. Lines of a method's body. -/

/-- The line as it is recorded. -/
def LogicalLine.row (l : LogicalLine) : Column × Text := (l.indent, l.text)

namespace Context.Within

variable (cfg : Config) {m : EnclosingMethod} {c : Context}

/-- **A LINE TO THE RIGHT OF THE HEADER IS RECORDED**, whatever it says. -/
theorem readLine (h : c.Within m) {l : LogicalLine} (hright : m.indent < l.indent) :
    StaysWithin (m.extend [l.row]) (c.readLine cfg l) := by
  obtain ⟨left, quiet⟩ := h.closed hright
  have closed : Within m
      { c with frames := (closeFrames l.indent c.frames).2, comments := l.comments } :=
    left.of_frames_eq rfl
  have recorded : (c.before l).Within (m.extend [l.row]) := closed.record l.indent l.text
  have performed := Statement.unlessSkipped_within l.line (s := Statement.parse l.text) recorded
    (Statement.act_within cfg l.line l.indent (Statement.parse l.text) recorded
      (Nat.le_of_lt hright))
  rw [readLine_eq, quiet]
  exact ⟨performed.context, performed.quiet⟩

/-- So is each line up to the first one that is not. -/
theorem readLines {ls : List LogicalLine} (h : c.Within m) (hright : ∀ l ∈ ls, m.indent < l.indent) :
    StaysWithin (m.extend (ls.map LogicalLine.row)) (c.readLines cfg ls) := by
  induction ls generalizing m c with
  | nil =>
      have same : m.extend [] = m := by
        unfold EnclosingMethod.extend
        rw [List.append_nil]
      rw [List.map_nil, same]
      exact ⟨h, .nil⟩
  | cons l ls ih =>
      have first := h.readLine cfg (hright l List.mem_cons_self)
      have later := ih first.context fun k hk => hright k (List.mem_cons_of_mem l hk)
      have rows : m.extend ((l :: ls).map LogicalLine.row)
          = (m.extend [l.row]).extend (ls.map LogicalLine.row) := by
        unfold EnclosingMethod.extend
        rw [List.append_assoc]
        rfl
      rw [rows]
      exact ⟨later.context, first.quiet.append later.quiet⟩

/-- What comes next at or left of the header ends the method. -/
theorem remaining_of_left (h : c.Within m) {rest : List LogicalLine}
    (hrest : ∀ l ∈ rest.head?, l.indent ≤ m.indent) :
    ∃ later, c.remaining cfg rest = .methodEnd m.name (methodSource m.body) :: later := by
  cases rest with
  | nil =>
      obtain ⟨later, hlater⟩ := h.ended (Nat.zero_le m.indent)
      exact ⟨later, hlater⟩
  | cons l rest =>
      obtain ⟨later, hlater⟩ := h.ended (hrest l rfl)
      rw [remaining_cons, readLine_eq, hlater]
      exact ⟨_, rfl⟩

/-- **The method ends behind the lines of its body**, with them in its source. -/
theorem remaining_append (h : c.Within m) {body rest : List LogicalLine}
    (hright : ∀ l ∈ body, m.indent < l.indent)
    (hrest : ∀ l ∈ rest.head?, l.indent ≤ m.indent) :
    ∃ quiet later, QuietEvents quiet
      ∧ c.remaining cfg (body ++ rest) = quiet
        ++ .methodEnd m.name (methodSource (m.body ++ body.map LogicalLine.row)) :: later := by
  obtain ⟨inside, quiet⟩ := h.readLines cfg hright
  obtain ⟨later, hlater⟩ := inside.remaining_of_left cfg hrest
  refine ⟨_, later, quiet, ?_⟩
  rw [Context.remaining_append, hlater]
  rfl

end Context.Within

/-! ## §5. The header of a method. -/

/-- The header of the function that a statement defines. -/
def Statement.functionHeader? : Statement → Option FunctionHeader
  | functionDef header _ => some header
  | _ => none

theorem Statement.exists_functionDef_of_header {s : Statement} {header : FunctionHeader}
    (h : s.functionHeader? = some header) : ∃ inline, s = functionDef header inline := by
  cases s with
  | functionDef written inline =>
      obtain rfl : written = header := Option.some.inj h
      exact ⟨inline, rfl⟩
  | _ => exact absurd h.symm (Option.some_ne_none header)

/-- The rows that a header records of its own inline body. -/
def FunctionHeader.rows (indent : Column) (header : FunctionHeader) : List (Column × Text) :=
  if header.body.isEmpty then [] else [(indent + 1, header.body)]

namespace Context

variable {c : Context}

/-- In a class a function opens a method, with its inline body recorded. -/
theorem openFunction_within {outer : Text} (hscope : c.scope = .classBody outer) (cfg : Config)
    (line : Nat) (indent : Column) (header : FunctionHeader) :
    ∃ (m : EnclosingMethod) (start : MethodStart), m.name = start.name ∧ m.indent = indent
      ∧ m.body = header.rows indent ∧ (c.openFunction cfg line indent header).1.Within m
      ∧ (c.openFunction cfg line indent header).1.scope ≠ .skipped
      ∧ (c.openFunction cfg line indent header).2.events = [.methodStart start] := by
  let m : EnclosingMethod := ⟨header.name, header.name == cfg.constructorName,
    selfNameOf? cfg c.decorators header.arguments.parameters.value, indent, [], c.frames⟩
  have opened :
      (c.claimPending.push (.methodBody m.name m.isConstructor m.selfName []) indent).Within m :=
    ⟨[], false, rfl, fun _ hf => absurd hf List.not_mem_nil⟩
  unfold openFunction FunctionHeader.rows
  rw [hscope]
  dsimp only
  split
  · exact ⟨m, _, rfl, rfl, rfl, opened, Scope.noConfusion, rfl⟩
  · exact ⟨m.extend [(indent + 1, header.body)], _, rfl, rfl, rfl, opened.record _ _,
      Scope.noConfusion, rfl⟩

end Context

namespace Statement

variable {cfg : Config} {c : Context} {line : Nat} {indent : Column} {header : FunctionHeader}
  {inline : Statement} {start : MethodStart}

/-- A function starts a method in a class only. -/
theorem exists_classBody_of_methodStart
    (h : .methodStart start ∈
      ((Statement.functionDef header inline).perform cfg line indent c).2.events) :
    ∃ outer, c.scope = .classBody outer := by
  by_contra hscope
  have hscope : ∀ outer, c.enterBody.scope ≠ .classBody outer := by
    intro outer heq
    exact hscope ⟨outer, (Context.scope_enterBody c).symm.trans heq⟩
  unfold perform unlessSkipped at h
  split at h
  · exact List.not_mem_nil h
  split at h
  · exact Event.noConfusion (List.mem_singleton.1 h)
  · obtain ⟨reason, passed⟩ :=
      Context.openFunction_of_ne_classBody hscope cfg line indent header
    rw [act, passed, thenBody_skipBody] at h
    exact Event.noConfusion (List.mem_singleton.1 h)

/-- There the context behind it is within the method, with the inline body recorded. -/
theorem perform_functionDef_within {outer : Text} (hscope : c.scope = .classBody outer) :
    ∃ (m : EnclosingMethod) (start : MethodStart) (quiet : List Event),
      m.name = start.name ∧ m.indent = indent ∧ m.body = header.rows indent
        ∧ ((Statement.functionDef header inline).perform cfg line indent c).1.Within m
        ∧ QuietEvents quiet
        ∧ ((Statement.functionDef header inline).perform cfg line indent c).2.events
          = .methodStart start :: quiet := by
  have counts : c.scope ≠ .skipped := by
    rw [hscope]
    exact Scope.noConfusion
  have entered : c.enterBody.scope = .classBody outer := (Context.scope_enterBody c).trans hscope
  obtain ⟨m, start, hname, rfl, hbody, opened, inMethod, hevents⟩ :=
    Context.openFunction_within entered cfg line indent header
  obtain ⟨inside, quiet⟩ := act_within cfg line (m.indent + 1) inline opened (Nat.le_succ _)
  rw [perform_eq_act rfl counts, act]
  unfold thenBody
  rw [if_neg inMethod]
  exact ⟨m, start, _, hname, rfl, hbody, inside, quiet, congrArg (· ++ _) hevents⟩

end Statement

namespace Context

variable {cfg : Config} {c : Context} {l : LogicalLine} {header : FunctionHeader}
  {start : MethodStart}

/-- **BEHIND A LINE THAT STARTS A METHOD THE CONTEXT IS WITHIN IT**: the method stands at the
column of the line, with the inline body recorded, and its start is the last event of the line
that starts or ends anything. -/
theorem readLine_methodStart (hheader : (Statement.parse l.text).functionHeader? = some header)
    (hstart : .methodStart start ∈ (c.readLine cfg l).2.events) :
    ∃ (m : EnclosingMethod) (quiet : List Event), m.name = start.name ∧ m.indent = l.indent
      ∧ m.body = header.rows l.indent ∧ (c.readLine cfg l).1.Within m ∧ QuietEvents quiet
      ∧ (c.readLine cfg l).2.events
        = (closeFrames l.indent c.frames).1 ++ .methodStart start :: quiet := by
  obtain ⟨inline, hparse⟩ := Statement.exists_functionDef_of_header hheader
  rw [readLine_eq, hparse] at hstart ⊢
  have performed : .methodStart start ∈
      ((Statement.functionDef header inline).perform cfg l.line l.indent (c.before l)).2.events := by
    rcases List.mem_append.1 hstart with closed | performed
    · cases Event.isSome_ends?_of_mem_closeFrames closed
    · exact performed
  obtain ⟨outer, hscope⟩ := Statement.exists_classBody_of_methodStart performed
  obtain ⟨m, started, quiet, hname, hindent, hbody, within, hquiet, hevents⟩ :=
    Statement.perform_functionDef_within hscope
  rw [hevents] at performed
  -- nothing behind the start is a start, so the two are one
  have same : start = started := by
    rcases List.mem_cons.1 performed with heq | later
    · exact Event.methodStart.inj heq
    · cases (hquiet _ later).1
  subst same
  exact ⟨m, quiet, hname, hindent, hbody, within, hquiet, congrArg (_ ++ ·) hevents⟩

end Context

end ClassOutline
