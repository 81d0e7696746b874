/-
  ClassOutline.Proofs.Event.Turn
  ────────────────────────────────
  **WHERE AN ASSIGNMENT STANDS WHEN ITS EVENT IS MADE.**

  A statement is performed with the statements inside it, in the contexts that
  the headers around them and the parts before them leave.  `Turn.Leads` follows
  this down to one of them and collects the events on the way.  Unlike a move,
  which may happen in any context, a turn is one that the source really has.

  Only an assignment makes the event of an attribute of self, so for each such
  event there is a line, and in it a target, from which it was made
  (`Event.exists_assignsBehind`).
-/
import ClassOutline.Proofs.Event.MuteBodies

namespace ClassOutline

/-! ## §1. Turns. -/

/-- A statement that is about to be performed. -/
structure Turn where
  indent : Column
  statement : Statement
  context : Context

namespace Turn

/-- What the header of a statement does, and the body it has. -/
def opens? (cfg : Config) (line : Nat) (t : Turn) : Option ((Context × EventOutput) × Statement) :=
  match t.statement with
  | .classDef name bases body =>
    some (t.context.enterBody.openClass line t.indent name bases, body)
  | .functionDef header body =>
    some (t.context.enterBody.openFunction cfg line t.indent header, body)
  | .block body =>
    some ((t.context.enterBody.dropPending.push .block t.indent, .ignored .controlFlow line), body)
  | _ => none

/-- One turn leads to another, behind some events, by going into bodies and sequences. -/
inductive Leads (cfg : Config) (line : Nat) : Turn → List Event → Turn → Prop where
  | refl (t : Turn) : Leads cfg line t [] t
  | body {t u : Turn} {header : Context × EventOutput} {body : Statement} {es : List Event}
      (opens : t.opens? cfg line = some (header, body)) (counts : header.1.scope ≠ .skipped)
      (inside : Leads cfg line ⟨t.indent + 1, body, header.1⟩ es u) :
      Leads cfg line t (header.2.events ++ es) u
  | part {u : Turn} {indent : Column} {c : Context} (parts : List Statement) {rest : List Statement}
      {s : Statement} {es : List Event} (written : s.isEmpty = false)
      (counts : (Statement.actAll cfg line indent parts c).1.scope ≠ .skipped)
      (inside : Leads cfg line ⟨indent, s, (Statement.actAll cfg line indent parts c).1⟩ es u) :
      Leads cfg line ⟨indent, .sequence (parts ++ s :: rest), c⟩
        ((Statement.actAll cfg line indent parts c).2.events ++ es) u

/-- In a turn a value is assigned to a target, in a context and behind some events; those of the
targets before it in the same assignment are among them. -/
def Assigns (cfg : Config) (line : Nat) (t : Turn) (before : List Event) (c : Context)
    (value : Text) (target : Target) : Prop :=
  ∃ es indent targets others,
    Leads cfg line t es ⟨indent, .assignment (targets ++ target :: others) value, c⟩
      ∧ before = es ++ targets.map (c.scope.assign line value)

variable {cfg : Config} {line : Nat}

/-- The header comes first, then the body if it counts. -/
theorem act_of_opens? {t : Turn} {header : Context × EventOutput} {body : Statement}
    (h : t.opens? cfg line = some (header, body)) :
    t.statement.act cfg line t.indent t.context
      = Statement.thenBody header (Statement.act cfg line (t.indent + 1) body) := by
  obtain ⟨indent, statement, context⟩ := t
  cases statement with
  | classDef name bases inner =>
      obtain ⟨rfl, rfl⟩ := Prod.mk.inj (Option.some.inj h)
      exact Statement.act.eq_def ..
  | functionDef written inner =>
      obtain ⟨rfl, rfl⟩ := Prod.mk.inj (Option.some.inj h)
      exact Statement.act.eq_def ..
  | block inner =>
      obtain ⟨rfl, rfl⟩ := Prod.mk.inj (Option.some.inj h)
      exact Statement.act.eq_def ..
  | _ => cases h

/-- Headers make no attributes of self. -/
theorem not_mem_of_opens? {t : Turn} {header : Context × EventOutput} {body : Statement}
    (h : t.opens? cfg line = some (header, body)) (a : AttributeAssignment) :
    .selfAssignment a ∉ header.2.events := by
  obtain ⟨indent, statement, context⟩ := t
  intro hmem
  cases statement with
  | classDef name bases inner =>
      obtain ⟨rfl, rfl⟩ := Prod.mk.inj (Option.some.inj h)
      unfold Context.openClass at hmem
      dsimp only at hmem
      split at hmem <;> exact Event.noConfusion (List.mem_singleton.1 hmem)
  | functionDef written inner =>
      obtain ⟨rfl, rfl⟩ := Prod.mk.inj (Option.some.inj h)
      unfold Context.openFunction at hmem
      dsimp only at hmem
      split at hmem <;> exact Event.noConfusion (List.mem_singleton.1 hmem)
  | block inner =>
      obtain ⟨rfl, rfl⟩ := Prod.mk.inj (Option.some.inj h)
      exact Event.noConfusion (List.mem_singleton.1 hmem)
  | _ => cases h

theorem Assigns.body {t : Turn} {header : Context × EventOutput} {body : Statement}
    {before : List Event} {c : Context} {value : Text} {target : Target}
    (opens : t.opens? cfg line = some (header, body)) (counts : header.1.scope ≠ .skipped)
    (inside : Assigns cfg line ⟨t.indent + 1, body, header.1⟩ before c value target) :
    Assigns cfg line t (header.2.events ++ before) c value target := by
  obtain ⟨es, indent, targets, others, leads, rfl⟩ := inside
  exact ⟨_, indent, targets, others, .body opens counts leads, (List.append_assoc ..).symm⟩

/-- An assignment in the first part of a sequence. -/
theorem Assigns.first {indent : Column} {s : Statement} {rest : List Statement}
    {before : List Event} {c d : Context} {value : Text} {target : Target} (written : s.isEmpty = false)
    (counts : c.scope ≠ .skipped) (inside : Assigns cfg line ⟨indent, s, c⟩ before d value target) :
    Assigns cfg line ⟨indent, .sequence (s :: rest), c⟩ before d value target := by
  obtain ⟨es, column, targets, others, leads, rfl⟩ := inside
  exact ⟨es, column, targets, others, .part [] written counts leads, rfl⟩

/-- An assignment behind the first part. -/
theorem Assigns.later {indent : Column} {s : Statement} {rest : List Statement}
    {before : List Event} {c d : Context} {value : Text} {target : Target}
    (inside : Assigns cfg line
      ⟨indent, .sequence rest, (s.perform cfg line indent c).1⟩ before d value target) :
    Assigns cfg line ⟨indent, .sequence (s :: rest), c⟩
      ((s.perform cfg line indent c).2.events ++ before) d value target := by
  obtain ⟨es, column, targets, others, leads, rfl⟩ := inside
  cases leads with
  | body opens _ _ => cases opens
  | @part _ _ _ parts rest s' es written counts leads =>
      refine ⟨_, column, targets, others, .part (s :: parts) written counts leads, ?_⟩
      show _ = ((s.perform cfg line indent c).2.events
        ++ (Statement.actAll cfg line indent parts (s.perform cfg line indent c).1).2.events)
          ++ es ++ _
      simp only [List.append_assoc]

end Turn

/-! ## §2. Down to the target. -/

theorem mem_of_eq_append_cons {α : Type} {xs before after : List α} {x : α}
    (h : xs = before ++ x :: after) : x ∈ xs := by
  rw [h]
  exact List.mem_append_right _ List.mem_cons_self

/-- Where an event stands in two lists of events, one after the other. -/
theorem append_eq_append_cons {α : Type} {xs ys before after : List α} {x : α}
    (h : xs ++ ys = before ++ x :: after) :
    (∃ after', xs = before ++ x :: after') ∨ ∃ before', ys = before' ++ x :: after
      ∧ before = xs ++ before' := by
  rcases List.append_eq_append_iff.1 h with ⟨before', rfl, hys⟩ | ⟨after', rfl, hxs⟩
  · exact .inr ⟨before', hys, rfl⟩
  · cases after' with
    | nil => exact .inr ⟨[], hxs.symm, by rw [List.append_nil, List.append_nil]⟩
    | cons y after' =>
        obtain ⟨rfl, -⟩ := List.cons.inj hxs
        exact .inl ⟨after', rfl⟩

namespace Statement

variable (cfg : Config) (line : Nat)

/-- What a string alone means is no attribute. -/
theorem not_mem_docstringOr (contents : Text) (c : Context) (a : AttributeAssignment) :
    .selfAssignment a ∉ (docstringOr line contents c).events := by
  intro hmem
  unfold docstringOr at hmem
  split at hmem <;> exact Event.noConfusion (List.mem_singleton.1 hmem)

theorem not_mem_noteDecorator (name : Text) (c : Context) (a : AttributeAssignment) :
    .selfAssignment a ∉ (c.noteDecorator line name).2.events := by
  intro hmem
  unfold Context.noteDecorator at hmem
  dsimp only at hmem
  split at hmem <;> exact Event.noConfusion (List.mem_singleton.1 hmem)

/-- Each attribute of self that a turn makes comes from a target in its statement. -/
def Traced (t : Turn) : Prop :=
  ∀ (before after : List Event) (a : AttributeAssignment),
    (t.statement.act cfg line t.indent t.context).2.events = before ++ .selfAssignment a :: after →
    ∃ d value target, Turn.Assigns cfg line t before d value target
      ∧ d.scope.assign line value target = .selfAssignment a

/-- A turn that makes none. -/
theorem traced_of_not_mem {t : Turn}
    (h : ∀ a, .selfAssignment a ∉ (t.statement.act cfg line t.indent t.context).2.events) :
    Traced cfg line t := by
  intro before after a hevents
  exact absurd (mem_of_eq_append_cons hevents) (h a)

/-- A header makes none, so it was made in the body. -/
theorem traced_of_opens? {t : Turn} {header : Context × EventOutput} {body : Statement}
    (opens : t.opens? cfg line = some (header, body))
    (inside : Traced cfg line ⟨t.indent + 1, body, header.1⟩) : Traced cfg line t := by
  intro before after a h
  rw [Turn.act_of_opens? opens] at h
  unfold thenBody at h
  by_cases hskipped : header.1.scope = .skipped
  · rw [if_pos hskipped] at h
    exact absurd (mem_of_eq_append_cons h) (Turn.not_mem_of_opens? opens a)
  · rw [if_neg hskipped] at h
    rcases append_eq_append_cons h with ⟨after', hheader⟩ | ⟨before', hbody, rfl⟩
    · exact absurd (mem_of_eq_append_cons hheader) (Turn.not_mem_of_opens? opens a)
    · obtain ⟨d, value, target, assigns, hassign⟩ := inside _ _ a hbody
      exact ⟨d, value, target, assigns.body opens hskipped, hassign⟩

theorem traced_assignment (indent : Column) (targets : List Target) (value : Text) (c : Context) :
    Traced cfg line ⟨indent, .assignment targets value, c⟩ := by
  intro before after a h
  have made : targets.map (c.scope.assign line value) = before ++ .selfAssignment a :: after := by
    rw [← h]
    show _ = (Statement.act cfg line indent (.assignment targets value) c).2.events
    rw [act]
  obtain ⟨earlier, later, rfl, rfl, hlater⟩ := List.map_eq_append_iff.1 made
  obtain ⟨target, others, rfl, hassign, -⟩ := List.map_eq_cons_iff.1 hlater
  exact ⟨c, value, target, ⟨[], indent, earlier, others, .refl _, rfl⟩, hassign⟩

/-- Nothing is made where nothing counts, and by what is empty. -/
theorem events_perform {indent : Column} {s : Statement} {c : Context} {before after : List Event}
    {a : AttributeAssignment}
    (h : (s.perform cfg line indent c).2.events = before ++ .selfAssignment a :: after) :
    s.isEmpty = false ∧ c.scope ≠ .skipped
      ∧ (s.act cfg line indent c).2.events = before ++ .selfAssignment a :: after := by
  have mem := mem_of_eq_append_cons h
  unfold perform unlessSkipped at h mem
  by_cases hempty : s.isEmpty = true
  · rw [if_pos hempty] at mem
    exact absurd mem List.not_mem_nil
  · rw [if_neg hempty] at h mem
    by_cases hskipped : c.scope = .skipped
    · rw [if_pos hskipped] at mem
      exact Event.noConfusion (List.mem_singleton.1 mem)
    · rw [if_neg hskipped] at h
      exact ⟨Bool.eq_false_iff.2 hempty, hskipped, h⟩

mutual

/-- **AN ATTRIBUTE OF SELF COMES FROM A TARGET** in the statement that is performed. -/
theorem traced (indent : Column) : ∀ (s : Statement) (c : Context), Traced cfg line ⟨indent, s, c⟩
  | .classDef name bases body, c =>
      traced_of_opens? cfg line (t := ⟨indent, .classDef name bases body, c⟩) rfl
        (traced (indent + 1) body _)
  | .functionDef header body, c =>
      traced_of_opens? cfg line (t := ⟨indent, .functionDef header body, c⟩) rfl
        (traced (indent + 1) body _)
  | .block body, c =>
      traced_of_opens? cfg line (t := ⟨indent, .block body, c⟩) rfl (traced (indent + 1) body _)
  | .sequence parts, c => tracedAll indent parts c
  | .assignment targets value, c => traced_assignment cfg line indent targets value c
  | .empty, c => traced_of_not_mem cfg line fun a hmem => by
      rw [act] at hmem
      exact absurd hmem List.not_mem_nil
  | .decorator name, c => traced_of_not_mem cfg line fun a hmem => by
      rw [act] at hmem
      exact not_mem_noteDecorator line name _ a hmem
  | .malformedHeader keyword text, c => traced_of_not_mem cfg line fun a hmem => by
      rw [act] at hmem
      exact Event.noConfusion (List.mem_singleton.1 hmem)
  | .string contents, c => traced_of_not_mem cfg line fun a hmem => by
      rw [act] at hmem
      exact not_mem_docstringOr line contents c a hmem
  | .inert reason, c => traced_of_not_mem cfg line fun a hmem => by
      rw [act] at hmem
      exact Event.noConfusion (List.mem_singleton.1 hmem)
  | .unrecognized text, c => traced_of_not_mem cfg line fun a hmem => by
      rw [act] at hmem
      exact Event.noConfusion (List.mem_singleton.1 hmem)

/-- In a sequence it comes from one of the parts. -/
theorem tracedAll (indent : Column) : ∀ (parts : List Statement) (c : Context),
    Traced cfg line ⟨indent, .sequence parts, c⟩
  | [], c => traced_of_not_mem cfg line fun a hmem => by
      rw [act, actAll] at hmem
      exact absurd hmem List.not_mem_nil
  | s :: rest, c => by
      have first := traced indent s c
      have later := tracedAll indent rest (s.perform cfg line indent c).1
      intro before after a h
      have split : (s.perform cfg line indent c).2.events
            ++ (Statement.act cfg line indent (.sequence rest)
                (s.perform cfg line indent c).1).2.events
          = before ++ .selfAssignment a :: after := by
        rw [← h]
        show _ = (Statement.act cfg line indent (.sequence (s :: rest)) c).2.events
        rw [act, act, actAll]
        rfl
      rcases append_eq_append_cons split with ⟨after', hfirst⟩ | ⟨before', hlater, rfl⟩
      · obtain ⟨written, counts, hact⟩ := events_perform cfg line hfirst
        obtain ⟨d, value, target, assigns, hassign⟩ := first _ _ a hact
        exact ⟨d, value, target, assigns.first written counts, hassign⟩
      · obtain ⟨d, value, target, assigns, hassign⟩ := later _ _ a hlater
        exact ⟨d, value, target, assigns.later, hassign⟩

end

end Statement

/-! ## §3. The moves up to a turn. -/

namespace Turn

variable {cfg : Config} {line : Nat} {t u : Turn} {es : List Event}

/-- A header is a run of moves, and its body is well formed. -/
theorem moves_of_opens? {header : Context × EventOutput} {body : Statement}
    (opens : t.opens? cfg line = some (header, body)) (h : t.statement.WellFormed) :
    Moves cfg t.context header.2.events header.1 ∧ body.WellFormed := by
  obtain ⟨indent, statement, context⟩ := t
  cases statement with
  | classDef name bases inner =>
      obtain ⟨rfl, rfl⟩ := Prod.mk.inj (Option.some.inj opens)
      exact ⟨Context.openClass_moves cfg line indent h.1 bases context, h.2⟩
  | functionDef written inner =>
      obtain ⟨rfl, rfl⟩ := Prod.mk.inj (Option.some.inj opens)
      exact ⟨Context.openFunction_moves cfg line indent written context, h⟩
  | block inner =>
      obtain ⟨rfl, rfl⟩ := Prod.mk.inj (Option.some.inj opens)
      exact ⟨.single (.startBlock context line indent), h⟩
  | _ => cases opens

theorem allWellFormed_append {parts rest : List Statement}
    (h : Statement.AllWellFormed (parts ++ rest)) :
    Statement.AllWellFormed parts ∧ Statement.AllWellFormed rest := by
  induction parts with
  | nil => exact ⟨trivial, h⟩
  | cons s parts ih => exact ⟨⟨h.1, (ih h.2).1⟩, (ih h.2).2⟩

/-- What a turn leads to, it leads to by moves. -/
theorem Leads.moves (leads : Leads cfg line t es u) (h : t.statement.WellFormed) :
    Moves cfg t.context es u.context := by
  induction leads with
  | refl t => exact .refl t.context
  | body opens _ _ ih =>
      obtain ⟨header, hbody⟩ := moves_of_opens? opens h
      exact header.trans (ih hbody)
  | @part u indent c parts rest s es _ _ _ ih =>
      obtain ⟨hparts, hrest⟩ := allWellFormed_append h
      exact (Statement.actAll_moves cfg line indent parts c hparts).trans (ih hrest.1)

/-- Behind the targets before it, a target is assigned in the same scope. -/
theorem Assigns.moves {before : List Event} {c : Context} {value : Text} {target : Target}
    (assigns : Assigns cfg line t before c value target) (h : t.statement.WellFormed) :
    ∃ d, Moves cfg t.context before d ∧ d.scope = c.scope := by
  obtain ⟨es, indent, targets, others, leads, rfl⟩ := assigns
  have reached := leads.moves h
  cases targets with
  | nil =>
      refine ⟨c, ?_, rfl⟩
      rw [List.map_nil, List.append_nil]
      exact reached
  | cons first targets =>
      have assigned := Statement.assign_moves cfg line value c (List.cons_ne_nil first targets)
      exact ⟨_, reached.trans assigned, Context.scope_enterBody c⟩

end Turn

/-! ## §4. Lines. -/

/-- While lines are read from a context on, one of them assigns a value to a target, in a context
of its own and behind some events. -/
inductive Context.AssignsBehind (cfg : Config) (start : Context) :
    List LogicalLine → List Event → Context → (line : Nat) → (value : Text) → Target → Prop where
  | intro (above : List LogicalLine) {below : List LogicalLine} {l : LogicalLine}
      {es : List Event} {c : Context} {value : Text} {target : Target}
      (counts : ((start.readLines cfg above).1.before l).scope ≠ .skipped)
      (assigns : Turn.Assigns cfg l.line
        ⟨l.indent, Statement.parse l.text, (start.readLines cfg above).1.before l⟩ es c value
        target) :
      AssignsBehind cfg start (above ++ l :: below)
        ((start.readLines cfg above).2.events
          ++ ((closeFrames l.indent (start.readLines cfg above).1.frames).1 ++ es))
        c l.line value target

namespace Context

variable {cfg : Config} {start c : Context} {ls : List LogicalLine} {before after : List Event}
  {line : Nat} {value : Text} {target : Target}

/-- Frames end without attributes of self. -/
theorem not_mem_closeFrames (indent : Column) (fs : List Frame) (a : AttributeAssignment) :
    .selfAssignment a ∉ (closeFrames indent fs).1 :=
  fun hmem => Bool.false_ne_true (Event.isSome_ends?_of_mem_closeFrames hmem)

/-- A line that is read before the others. -/
theorem AssignsBehind.cons {l : LogicalLine}
    (h : AssignsBehind cfg (start.readLine cfg l).1 ls before c line value target) :
    AssignsBehind cfg start (l :: ls) ((start.readLine cfg l).2.events ++ before) c line value
      target := by
  obtain ⟨above, counts, assigns⟩ := h
  rw [← List.append_assoc]
  exact .intro (l :: above) counts assigns

/-- Each attribute of self that lines make comes from a target in one of them. -/
theorem exists_assignsBehind {a : AttributeAssignment}
    (h : (start.readLines cfg ls).2.events = before ++ .selfAssignment a :: after) :
    ∃ c line value target, AssignsBehind cfg start ls before c line value target
      ∧ c.scope.assign line value target = .selfAssignment a := by
  induction ls generalizing start before with
  | nil => exact absurd h.symm (List.append_ne_nil_of_right_ne_nil _ (List.cons_ne_nil _ _))
  | cons l ls ih =>
      have split : (start.readLine cfg l).2.events
          ++ ((start.readLine cfg l).1.readLines cfg ls).2.events
          = before ++ .selfAssignment a :: after := h
      rcases append_eq_append_cons split with ⟨after', hline⟩ | ⟨before', hlater, rfl⟩
      · -- it is made on this line, behind what the line closes
        rw [readLine_eq] at hline
        rcases append_eq_append_cons hline with ⟨after'', hends⟩ | ⟨es, hperform, rfl⟩
        · exact absurd (mem_of_eq_append_cons hends)
            (not_mem_closeFrames l.indent start.frames a)
        · obtain ⟨-, counts, hact⟩ := Statement.events_perform cfg l.line hperform
          obtain ⟨c, value, target, assigns, hassign⟩ :=
            Statement.traced cfg l.line l.indent (Statement.parse l.text) _ _ _ a hact
          exact ⟨c, l.line, value, target, .intro [] counts assigns, hassign⟩
      · obtain ⟨c, line, value, target, assigns, hassign⟩ := ih hlater
        exact ⟨c, line, value, target, assigns.cons, hassign⟩

/-- The moves up to an assignment leave it in its scope. -/
theorem AssignsBehind.moves (h : AssignsBehind cfg start ls before c line value target) :
    ∃ d, Moves cfg start before d ∧ d.scope = c.scope := by
  obtain ⟨above, -, assigns⟩ := h
  next below l es =>
  have read := readLines_moves cfg above start
  have ends := closeFrames_moves cfg l.indent (start.readLines cfg above).1
  have recorded : Move cfg { (start.readLines cfg above).1 with
      frames := (closeFrames l.indent (start.readLines cfg above).1.frames).2 } _ _ :=
    .record _ l.comments l.indent l.text
  obtain ⟨d, performed, hscope⟩ := assigns.moves (Statement.parse_wellFormed l.text)
  exact ⟨d, read.trans (ends.trans (.step recorded performed)), hscope⟩

end Context

/-- **EACH ATTRIBUTE OF SELF IS THAT OF A TARGET IN THE SOURCE**: its event stands where some line,
performed where it stands, assigns to that target. -/
theorem Event.exists_assignsBehind {cfg : Config} {lines : List LogicalLine}
    {before after : List Event} {a : AttributeAssignment}
    (h : (Event.ofLines cfg lines).events = before ++ .selfAssignment a :: after) :
    ∃ c line value target, Context.AssignsBehind cfg {} lines before c line value target
      ∧ c.scope.assign line value target = .selfAssignment a := by
  rcases append_eq_append_cons h with ⟨after', hread⟩ | ⟨before', hfinish, -⟩
  · exact Context.exists_assignsBehind hread
  · exact absurd (mem_of_eq_append_cons hfinish)
      (Context.not_mem_closeFrames 0 (Context.readLines cfg {} lines).1.frames a)

end ClassOutline
