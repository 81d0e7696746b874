/-
  ClassOutline.Proofs.Event.Lines
  ────────────────────────────────
  **EVENTS COME IN THE ORDER OF THE LINES THEY ARE READ FROM.**

  However much a logical line says, all of it is said on one line: the events
  of its statement, those of inline bodies and of the parts between semicolons,
  and what is odd about them (`EventOutput.StaysOn`).  Only the end of a scope
  has no line of its own.  So the lines of the events ascend if those of the
  logical lines do (`Context.readLines_ascends`).
-/
import ClassOutline.Event.OfLines

namespace ClassOutline

/-! ## §1. Ascending lines. -/

/-- Line numbers that never decrease, from `first` to `last`. -/
structure Ascends (first last : Nat) (ns : List Nat) : Prop where
  sorted : ns.Pairwise (· ≤ ·)
  within : ∀ n ∈ ns, first ≤ n ∧ n ≤ last

namespace Ascends

variable {first middle last : Nat} {ns ns' : List Nat}

theorem nil : Ascends first last [] := ⟨.nil, fun _ hn => absurd hn List.not_mem_nil⟩

/-- More room at the end. -/
theorem mono (h : Ascends first middle ns) (hle : middle ≤ last) : Ascends first last ns :=
  ⟨h.sorted, fun n hn => ⟨(h.within n hn).1, Nat.le_trans (h.within n hn).2 hle⟩⟩

theorem append (h : Ascends first middle ns) (h' : Ascends middle last ns')
    (hfirst : first ≤ middle) (hlast : middle ≤ last) : Ascends first last (ns ++ ns') := by
  refine ⟨List.pairwise_append.2 ⟨h.sorted, h'.sorted, ?_⟩, ?_⟩
  · intro m hm n hn
    exact Nat.le_trans (h.within m hm).2 (h'.within n hn).1
  · intro n hn
    rcases List.mem_append.1 hn with hn | hn
    · exact ⟨(h.within n hn).1, Nat.le_trans (h.within n hn).2 hlast⟩
    · exact ⟨Nat.le_trans hfirst (h'.within n hn).1, (h'.within n hn).2⟩

/-- One more line, not above the others. -/
theorem concat (h : Ascends first middle ns) (hfirst : first ≤ last) (hlast : middle ≤ last) :
    Ascends first last (ns ++ [last]) := by
  refine ⟨List.pairwise_append.2 ⟨h.sorted, List.pairwise_singleton _ _, ?_⟩, ?_⟩
  · intro m hm n hn
    rw [List.mem_singleton.1 hn]
    exact Nat.le_trans (h.within m hm).2 hlast
  · intro n hn
    rcases List.mem_append.1 hn with hn | hn
    · exact (h.mono hlast).within n hn
    · rw [List.mem_singleton.1 hn]
      exact ⟨hfirst, Nat.le_refl last⟩

theorem sublist (h : Ascends first last ns) (hsub : ns'.Sublist ns) : Ascends first last ns' :=
  ⟨h.sorted.sublist hsub, fun n hn => h.within n (hsub.subset hn)⟩

theorem of_cons {n : Nat} (h : Ascends first last (n :: ns)) :
    first ≤ n ∧ n ≤ last ∧ Ascends n last ns := by
  obtain ⟨hhead, htail⟩ := List.pairwise_cons.1 h.sorted
  obtain ⟨hfirst, hlast⟩ := h.within n List.mem_cons_self
  exact ⟨hfirst, hlast, htail, fun m hm =>
    ⟨hhead m hm, (h.within m (List.mem_cons_of_mem n hm)).2⟩⟩

end Ascends

/-! ## §2. The output of one line. -/

theorem Diagnostic.line_of_mem_atLine {line : Nat} {causes : List Cause} :
    ∀ d ∈ Diagnostic.atLine line causes, d.line = line := by
  intro d hd
  obtain ⟨cause, -, rfl⟩ := List.mem_map.1 hd
  rfl

/-- The line of the statement an event is made of; the end of a scope has none. -/
def Event.line? : Event → Option Nat
  | classStart start => some start.line
  | methodStart start => some start.line
  | classAssignment written | selfAssignment written => some written.line
  | moduleAssignment _ _ line | decorator _ line | docstring _ line | ignored _ line => some line
  | classEnd _ | methodEnd .. => none

/-- The lines of events, in their order. -/
def eventLines (es : List Event) : List Nat := es.filterMap Event.line?

theorem eventLines_append (es es' : List Event) :
    eventLines (es ++ es') = eventLines es ++ eventLines es' :=
  List.filterMap_append

/-- All of the output is about one line. -/
structure EventOutput.StaysOn (line : Nat) (o : EventOutput) : Prop where
  events : ∀ n ∈ eventLines o.events, n = line
  diagnostics : ∀ d ∈ o.diagnostics, d.line = line

namespace EventOutput.StaysOn

variable {line : Nat} {o o' : EventOutput}

theorem empty : StaysOn line {} :=
  ⟨fun _ hn => absurd hn List.not_mem_nil, fun _ hd => absurd hd List.not_mem_nil⟩

/-- A single event, without a remark. -/
theorem single {e : Event} (he : e.line? = some line) : StaysOn line ⟨[e], []⟩ := by
  have hlines : eventLines [e] = [line] := List.filterMap_cons_some he
  refine ⟨fun n hn => ?_, fun _ hd => absurd hd List.not_mem_nil⟩
  rw [hlines] at hn
  exact List.mem_singleton.1 hn

theorem append (h : StaysOn line o) (h' : StaysOn line o') : StaysOn line (o ++ o') := by
  refine ⟨fun n hn => ?_, fun d hd => ?_⟩
  · have hn : n ∈ eventLines (o.events ++ o'.events) := hn
    rw [eventLines_append] at hn
    exact (List.mem_append.1 hn).elim (h.events n) (h'.events n)
  · exact (List.mem_append.1 hd).elim (h.diagnostics d) (h'.diagnostics d)

/-- The same events, with remarks on the line. -/
theorem remark (h : StaysOn line ⟨o.events, []⟩) (causes : List Cause) :
    StaysOn line ⟨o.events, Diagnostic.atLine line causes⟩ :=
  ⟨h.events, Diagnostic.line_of_mem_atLine⟩

theorem ascends (h : StaysOn line o) : Ascends line line (eventLines o.events) := by
  refine ⟨?_, fun n hn => ?_⟩
  · refine List.pairwise_of_forall_mem_list fun m hm n hn => ?_
    exact Nat.le_of_eq ((h.events m hm).trans (h.events n hn).symm)
  · rw [h.events n hn]
    exact ⟨Nat.le_refl line, Nat.le_refl line⟩

end EventOutput.StaysOn

open EventOutput (StaysOn)

/-- The end of a frame has no line. -/
theorem eventLines_closeFrames (indent : Column) (fs : List Frame) :
    eventLines (closeFrames indent fs).1 = [] := by
  have ends (f : Frame) : eventLines f.ends = [] := by
    obtain ⟨kind, column, bodySeen⟩ := f
    cases kind <;> rfl
  induction fs with
  | nil => rfl
  | cons f fs ih =>
      rw [closeFrames]
      split
      · rw [eventLines_append, ends, ih]
        rfl
      · rfl

/-- What an assignment means stands on its line, in every scope. -/
theorem Scope.line?_assign (scope : Scope) (line : Nat) (value : Text) (target : Target) :
    (scope.assign line value target).line? = some line := by
  unfold Scope.assign
  split
  · split <;> rfl
  · split <;> rfl
  · split <;> rfl
  · rfl
  · rfl

namespace Context

variable (line : Nat) (indent : Column) (c : Context)

theorem noteDecorator_staysOn (name : Text) : StaysOn line (c.noteDecorator line name).2 := by
  unfold noteDecorator
  split <;> exact .single rfl

theorem openClass_staysOn (name : Text) (bases : List Text) :
    StaysOn line (c.openClass line indent name bases).2 := by
  unfold openClass
  dsimp only
  split <;> exact .single rfl

theorem openFunction_staysOn (cfg : Config) (header : FunctionHeader) :
    StaysOn line (c.openFunction cfg line indent header).2 := by
  unfold openFunction
  dsimp only
  split
  · refine StaysOn.remark (o := ⟨[.methodStart _], []⟩) ?_ _
    exact .single rfl
  · exact .single rfl
  · exact .single rfl
  · exact .single rfl

end Context

namespace Statement

variable (cfg : Config) (line : Nat)

theorem docstringOr_staysOn (contents : Text) (c : Context) :
    StaysOn line (docstringOr line contents c) := by
  unfold docstringOr
  split <;> exact .single rfl

theorem thenBody_staysOn {header : Context × EventOutput}
    {act : Context → Context × EventOutput} (hheader : StaysOn line header.2)
    (hact : StaysOn line (act header.1).2) : StaysOn line (thenBody header act).2 := by
  unfold thenBody
  split
  · exact hheader
  · exact hheader.append hact

theorem unlessSkipped_staysOn {s : Statement} {act : Context → Context × EventOutput}
    {c : Context} (hact : StaysOn line (act c).2) : StaysOn line (unlessSkipped line s act c).2 := by
  unfold unlessSkipped
  split
  · exact .empty
  split
  · exact .single rfl
  · exact hact

mutual

/-- A statement is about its line, however deep its inline bodies are. -/
theorem act_staysOn (indent : Column) : ∀ (s : Statement) (c : Context),
    StaysOn line (s.act cfg line indent c).2
  | .empty, _ => .empty
  | .decorator name, c => c.enterBody.noteDecorator_staysOn line name
  | .malformedHeader keyword text, c => by
      rw [act]
      exact StaysOn.append (o := ⟨[], [⟨line, .malformedHeader keyword text⟩]⟩)
        (StaysOn.remark (o := {}) .empty [_]) (.single rfl)
  | .classDef name bases body, c => by
      rw [act]
      exact thenBody_staysOn line (Context.openClass_staysOn line indent _ name bases)
        (act_staysOn (indent + 1) body _)
  | .functionDef header body, c => by
      rw [act]
      exact thenBody_staysOn line (Context.openFunction_staysOn line indent _ cfg header)
        (act_staysOn (indent + 1) body _)
  | .block body, c => by
      rw [act]
      exact thenBody_staysOn line (.single rfl) (act_staysOn (indent + 1) body _)
  | .sequence parts, c => by
      rw [act]
      exact actAll_staysOn indent parts c
  | .string contents, c => docstringOr_staysOn line contents c
  | .assignment targets value, c => by
      rw [act]
      refine ⟨fun n hn => ?_, fun _ hd => absurd hd List.not_mem_nil⟩
      obtain ⟨e, he, hn⟩ := List.mem_filterMap.1 hn
      obtain ⟨target, -, rfl⟩ := List.mem_map.1 he
      rw [Scope.line?_assign] at hn
      exact (Option.some.inj hn).symm
  | .inert reason, c => .single rfl
  | .unrecognized text, c =>
      StaysOn.remark (o := ⟨[.ignored .unrecognized line], []⟩) (.single rfl) [_]

/-- Statements one after the other on a line are about it. -/
theorem actAll_staysOn (indent : Column) : ∀ (ss : List Statement) (c : Context),
    StaysOn line (actAll cfg line indent ss c).2
  | [], _ => .empty
  | s :: rest, c => by
      rw [actAll]
      exact (unlessSkipped_staysOn line (act_staysOn indent s c)).append
        (actAll_staysOn indent rest _)

end

end Statement

/-! ## §3. The output of all lines. -/

namespace Context

variable (cfg : Config)

/-- A logical line is about its first physical line. -/
theorem readLine_staysOn (l : LogicalLine) (c : Context) :
    StaysOn l.line (c.readLine cfg l).2 := by
  have ends : StaysOn l.line ⟨(closeFrames l.indent c.frames).1, []⟩ := by
    refine ⟨fun n hn => ?_, fun _ hd => absurd hd List.not_mem_nil⟩
    have hn : n ∈ eventLines (closeFrames l.indent c.frames).1 := hn
    rw [eventLines_closeFrames] at hn
    exact absurd hn List.not_mem_nil
  exact ends.append
    (Statement.unlessSkipped_staysOn l.line (Statement.act_staysOn cfg l.line l.indent _ _))

theorem readLines_ascends {ls : List LogicalLine} {first last : Nat} (c : Context)
    (h : Ascends first last (ls.map LogicalLine.line)) :
    Ascends first last (eventLines (c.readLines cfg ls).2.events) ∧
      ∀ d ∈ (c.readLines cfg ls).2.diagnostics, first ≤ d.line ∧ d.line ≤ last := by
  induction ls generalizing first c with
  | nil => exact ⟨.nil, fun _ hd => absurd hd List.not_mem_nil⟩
  | cons l ls ih =>
      obtain ⟨hfirst, hlast, hrest⟩ := h.of_cons
      have here := readLine_staysOn cfg l c
      obtain ⟨later, remarks⟩ := ih (c.readLine cfg l).1 hrest
      refine ⟨?_, fun d hd => ?_⟩
      · show Ascends first last (eventLines ((c.readLine cfg l).2.events ++ _))
        rw [eventLines_append]
        have upTo : Ascends first l.line (eventLines (c.readLine cfg l).2.events) :=
          Ascends.nil.append here.ascends hfirst (Nat.le_refl l.line)
        exact upTo.append later hfirst hlast
      · rcases List.mem_append.1 hd with hd | hd
        · rw [here.diagnostics d hd]
          exact ⟨hfirst, hlast⟩
        · obtain ⟨hline, hend⟩ := remarks d hd
          exact ⟨Nat.le_trans hfirst hline, hend⟩

end Context

/-- **THE EVENTS OF A SOURCE ASCEND WITH ITS LOGICAL LINES**, and every remark is on one of their
lines. -/
theorem Event.ofLines_ascends (cfg : Config) {ls : List LogicalLine} {first last : Nat}
    (h : Ascends first last (ls.map LogicalLine.line)) :
    Ascends first last (eventLines (Event.ofLines cfg ls).events) ∧
      ∀ d ∈ (Event.ofLines cfg ls).diagnostics, first ≤ d.line ∧ d.line ≤ last := by
  obtain ⟨lines, remarks⟩ := Context.readLines_ascends cfg {} h
  refine ⟨?_, fun d hd => ?_⟩
  · show Ascends first last
      (eventLines ((Context.readLines cfg {} ls).2.events ++ (Context.readLines cfg {} ls).1.finish))
    rw [eventLines_append, Context.finish, eventLines_closeFrames, List.append_nil]
    exact lines
  · exact (List.mem_append.1 hd).elim (remarks d) fun hd => absurd hd List.not_mem_nil

end ClassOutline
