/-
  ClassOutline.Proofs.Event.Decorators
  ────────────────────────────────
  **WHICH DECORATORS A METHOD RECEIVES.**

  A method receives the decorators that wait when it starts.  In the events these
  are the longest run of decorators in front of the start (`decoratorRun`), but
  for one thing: the end of a class does not make its decorators go away.  So the
  run that waits goes on over ends of classes (`waitingDecorators`), and a
  decorator at the end of a nested class is received by the next method of the
  class around it.

  The invariant is that what waits is the run of the events so far
  (`DecoratorsWait`).  In the module nothing needs to be said, for no method
  starts there; in a function nothing waits.
-/
import Mathlib.Data.List.DropRight
import ClassOutline.Proofs.Event.Turn

namespace ClassOutline

/-! ## §1. Runs of decorators. -/

namespace Event

/-- The name in the event of a decorator. -/
def decoratorName? : Event → Option Text
  | decorator name _ => some name
  | _ => none

/-- The event is that of a decorator in a class. -/
def isDecorator (e : Event) : Bool := e.decoratorName?.isSome

/-- The event is the end of a class. -/
def endsClass : Event → Bool
  | classEnd _ => true
  | _ => false

end Event

/-- The names of the longest run of decorators that the events end in. -/
def decoratorRun (es : List Event) : List Text :=
  (es.rtakeWhile Event.isDecorator).filterMap Event.decoratorName?

/-- The names of the decorators in the longest run of decorators and ends of classes that the
events end in. -/
def waitingDecorators (es : List Event) : List Text :=
  (es.rtakeWhile fun e => e.isDecorator || e.endsClass).filterMap Event.decoratorName?

section Runs

variable {es : List Event} {e : Event}

theorem waitingDecorators_decorator (es : List Event) (name : Text) (line : Nat) :
    waitingDecorators (es ++ [.decorator name line]) = waitingDecorators es ++ [name] := by
  unfold waitingDecorators
  rw [List.rtakeWhile_concat_pos _ _ _ rfl, List.filterMap_append]
  rfl

theorem waitingDecorators_classEnd (es : List Event) (name : Text) :
    waitingDecorators (es ++ [.classEnd name]) = waitingDecorators es := by
  unfold waitingDecorators
  rw [List.rtakeWhile_concat_pos _ _ _ rfl, List.filterMap_append]
  exact List.append_nil _

/-- Any other event ends the run. -/
theorem waitingDecorators_other (hd : e.isDecorator = false) (hc : e.endsClass = false) :
    waitingDecorators (es ++ [e]) = [] := by
  unfold waitingDecorators
  rw [List.rtakeWhile_concat_neg]
  · rfl
  · rw [hd, hc]
    exact Bool.false_ne_true

/-- What waits is the run of decorators, behind what waits in front of it. -/
theorem waitingDecorators_eq_append (es : List Event) :
    waitingDecorators es
      = waitingDecorators (es.rdropWhile Event.isDecorator) ++ decoratorRun es := by
  -- from the last event on
  induction es using List.reverseRecOn with
  | nil => rfl
  | append_singleton es e ih =>
      by_cases hd : e.isDecorator = true
      · have waits : (e.isDecorator || e.endsClass) = true := by rw [hd, Bool.true_or]
        unfold waitingDecorators decoratorRun at ih ⊢
        rw [List.rtakeWhile_concat_pos (fun e : Event => e.isDecorator || e.endsClass) _ _ waits,
          List.rtakeWhile_concat_pos _ _ _ hd, List.rdropWhile_concat_pos _ _ _ hd,
          List.filterMap_append, List.filterMap_append, ih, List.append_assoc]
      · have noRun : decoratorRun (es ++ [e]) = [] := by
          unfold decoratorRun
          rw [List.rtakeWhile_concat_neg _ _ _ hd]
          rfl
        rw [List.rdropWhile_concat_neg _ _ _ hd, noRun, List.append_nil]

end Runs

/-- An assignment is no decorator, ends no class and starts no method. -/
theorem Scope.assign_settles (scope : Scope) (line : Nat) (value : Text) (target : Target) :
    (scope.assign line value target).isDecorator = false
      ∧ (scope.assign line value target).endsClass = false
      ∧ ∀ m, scope.assign line value target ≠ .methodStart m := by
  unfold Scope.assign
  split
  · split <;> exact ⟨rfl, rfl, fun _ => Event.noConfusion⟩
  · split <;> exact ⟨rfl, rfl, fun _ => Event.noConfusion⟩
  · split <;> exact ⟨rfl, rfl, fun _ => Event.noConfusion⟩
  · exact ⟨rfl, rfl, fun _ => Event.noConfusion⟩
  · exact ⟨rfl, rfl, fun _ => Event.noConfusion⟩

/-! ## §2. What waits in a context. -/

/-- A move makes one event at most. -/
theorem Move.length_events_le_one {cfg : Config} {c c' : Context} {es : List Event}
    (move : Move cfg c es c') : es.length ≤ 1 := by
  cases move with
  | @close f fs hfs =>
      unfold Frame.ends
      split <;> first | exact Nat.le_refl 1 | exact Nat.zero_le 1
  | record => exact Nat.zero_le 1
  | _ => exact Nat.le_refl 1

/-- No class stands in a method or in a body that is skipped. -/
def ClassesOutside : List Frame → Prop
  | [] => True
  | f :: fs =>
    (∀ name, f.kind = .classBody name → ¬ (scopeOf fs).InFunction) ∧ ClassesOutside fs

/-- The decorators that wait in a context are those that its events end in. -/
structure DecoratorsWait (c : Context) (es : List Event) : Prop where
  outside : ClassesOutside c.bare.frames
  waiting : c.scope ≠ .module → c.decorators = waitingDecorators es
  inFunction : c.scope.InFunction → c.decorators = []

namespace DecoratorsWait

variable {cfg : Config} {c c' : Context} {es : List Event}

theorem empty : DecoratorsWait {} [] := ⟨trivial, fun _ => rfl, fun h => h.elim⟩

/-- Nothing waits behind an event that ends the run. -/
theorem settled {e : Event} (outside : ClassesOutside c'.bare.frames) (hnone : c'.decorators = [])
    (hd : e.isDecorator = false) (hc : e.endsClass = false) : DecoratorsWait c' (es ++ [e]) :=
  ⟨outside, fun _ => hnone.trans (waitingDecorators_other hd hc).symm, fun _ => hnone⟩

/-- What the innermost frame leaves waiting when it is closed. -/
theorem closed {f : Frame} {fs : List Frame} (hfs : c.frames = f :: fs) (h : DecoratorsWait c es) :
    DecoratorsWait { c with frames := fs } (es ++ f.ends) := by
  obtain ⟨outside, waiting, inFunction⟩ := h
  unfold Context.bare at outside
  rw [hfs] at outside
  obtain ⟨classOutside, outside⟩ := outside
  obtain ⟨kind, indent, bodySeen⟩ := f
  unfold Context.scope at waiting inFunction
  rw [hfs] at waiting inFunction
  cases kind with
  | classBody name =>
      have around : ¬ (scopeOf fs).InFunction := by
        rw [← scopeOf_map_bare]
        exact classOutside name rfl
      refine ⟨outside, fun _ => ?_, fun h => absurd h around⟩
      show _ = waitingDecorators (es ++ [.classEnd name])
      rw [waitingDecorators_classEnd]
      exact waiting Scope.noConfusion
  | methodBody name isConstructor selfName body =>
      exact settled outside (inFunction trivial) rfl rfl
  | skipped =>
      -- nothing waits in what was skipped, so the run has ended there
      have nothing := inFunction trivial
      have ended := (waiting Scope.noConfusion).symm.trans nothing
      refine ⟨outside, fun _ => ?_, fun _ => nothing⟩
      show _ = waitingDecorators (es ++ [])
      rw [List.append_nil, ended]
      exact nothing
  | block =>
      refine ⟨outside, fun hscope => ?_, inFunction⟩
      show _ = waitingDecorators (es ++ [])
      rw [List.append_nil]
      exact waiting hscope

/-- **Each move keeps what waits**, and a method that starts receives it. -/
theorem move {new : List Event} (move : Move cfg c new c') (h : DecoratorsWait c es) :
    DecoratorsWait c' (es ++ new)
      ∧ ∀ m, .methodStart m ∈ new → m.decorators = waitingDecorators es := by
  have entered : ClassesOutside c.enterBody.bare.frames := by
    rw [Context.bare_enterBody]
    exact h.outside
  -- a frame that is not that of a class may stand anywhere
  have pushed {f : Frame} (hf : ∀ name, f.kind ≠ .classBody name) :
      ClassesOutside (f :: c.enterBody.bare.frames) :=
    ⟨fun name hname => absurd hname (hf name), entered⟩
  have noStart {e : Event} (he : ∀ m, e ≠ .methodStart m) :
      ∀ m, .methodStart m ∈ [e] → m.decorators = waitingDecorators es :=
    fun m hm => absurd (List.mem_singleton.1 hm).symm (he m)
  -- a class is opened in the module or in another class
  have openedClass {name : Text} (hscope : ¬ c.scope.InFunction) (indent : Column) :
      ClassesOutside (⟨.classBody name, indent, false⟩ :: c.enterBody.bare.frames) := by
    refine ⟨fun _ _ => ?_, entered⟩
    have around : scopeOf c.enterBody.bare.frames = c.scope :=
      (Context.scope_bare c.enterBody).trans (Context.scope_enterBody c)
    rw [around]
    exact hscope
  cases move with
  | @close f fs hfs =>
      refine ⟨h.closed hfs, fun m hm => ?_⟩
      exact absurd (Event.isSome_ends?_of_mem_ends hm) Bool.false_ne_true
  | record comments indent text =>
      refine ⟨?_, fun m hm => absurd hm List.not_mem_nil⟩
      have same : ({ c with comments }.record indent text).bare = c.bare := Context.bare_record ..
      have scope := Context.scope_eq_of_bare_eq same
      rw [List.append_nil]
      refine ⟨?_, fun hscope => ?_, fun hscope => ?_⟩
      · rw [same]
        exact h.outside
      · exact h.waiting (scope ▸ hscope)
      · exact h.inFunction (scope ▸ hscope)
  | skip line hs =>
      exact ⟨settled h.outside (h.inFunction (by rw [hs]; exact trivial)) rfl rfl,
        noStart fun _ => Event.noConfusion⟩
  | @decorate outer line name hs =>
      have scope : c.enterBody.scope = .classBody outer := (Context.scope_enterBody c).trans hs
      refine ⟨⟨entered, fun _ => ?_, fun hscope => ?_⟩, noStart fun _ => Event.noConfusion⟩
      · rw [waitingDecorators_decorator, ← h.waiting (by rw [hs]; exact Scope.noConfusion)]
      · exact absurd scope (Scope.InFunction.ne_classBody hscope outer)
  | strayDecorator line hs =>
      -- outside classes nothing waits, but in the module
      have scope := Context.scope_enterBody c
      have nothing (hscope : c.scope ≠ .module) : c.decorators = [] := by
        refine h.inFunction ?_
        cases hc : c.scope with
        | module => exact absurd hc hscope
        | classBody outer => exact absurd hc (hs outer)
        | methodBody isConstructor selfName => exact trivial
        | skipped => exact trivial
      refine ⟨⟨entered, fun hscope => ?_, fun hscope => ?_⟩, noStart fun _ => Event.noConfusion⟩
      · rw [waitingDecorators_other rfl rfl]
        exact nothing fun hmodule => hscope (scope.trans hmodule)
      · exact h.inFunction (scope ▸ hscope)
  | malformed line indent =>
      exact ⟨settled (pushed fun _ => FrameKind.noConfusion) rfl rfl rfl,
        noStart fun _ => Event.noConfusion⟩
  | startOuter line indent bases hs _ =>
      refine ⟨settled (openedClass ?_ indent) rfl rfl rfl, noStart fun _ => Event.noConfusion⟩
      rw [hs]
      exact id
  | startInner line indent bases hs _ =>
      refine ⟨settled (openedClass ?_ indent) rfl rfl rfl, noStart fun _ => Event.noConfusion⟩
      rw [hs]
      exact id
  | startMethod line indent name parameters isAsync hs =>
      refine ⟨settled (pushed fun _ => FrameKind.noConfusion) rfl rfl rfl, fun m hm => ?_⟩
      obtain rfl := Event.methodStart.inj (List.mem_singleton.1 hm)
      exact h.waiting (by rw [hs]; exact Scope.noConfusion)
  | skipBody reason line indent =>
      exact ⟨settled (pushed fun _ => FrameKind.noConfusion) rfl rfl rfl,
        noStart fun _ => Event.noConfusion⟩
  | startBlock line indent =>
      exact ⟨settled (pushed fun _ => FrameKind.noConfusion) rfl rfl rfl,
        noStart fun _ => Event.noConfusion⟩
  | docstring text line hf =>
      exact ⟨settled entered rfl rfl rfl, noStart fun _ => Event.noConfusion⟩
  | assign line value target =>
      obtain ⟨noDecorator, noEnd, noMethod⟩ := c.scope.assign_settles line value target
      exact ⟨settled entered rfl noDecorator noEnd, noStart noMethod⟩
  | pass reason line => exact ⟨settled entered rfl rfl rfl, noStart fun _ => Event.noConfusion⟩

/-- **So does a run of them**: each method that starts receives what waits in front of it. -/
theorem moves {new : List Event} (moves : Moves cfg c new c') (h : DecoratorsWait c es) :
    DecoratorsWait c' (es ++ new)
      ∧ ∀ before m after, new = before ++ .methodStart m :: after →
          m.decorators = waitingDecorators (es ++ before) := by
  induction moves generalizing es with
  | refl c =>
      refine ⟨by rwa [List.append_nil], fun before m after hnew => ?_⟩
      exact absurd hnew.symm (List.append_ne_nil_of_right_ne_nil _ (List.cons_ne_nil _ _))
  | @step c c' c'' first later step _ ih =>
      obtain ⟨next, received⟩ := h.move step
      obtain ⟨last, receivedLater⟩ := ih next
      rw [List.append_assoc] at last
      refine ⟨last, fun before m after hnew => ?_⟩
      rcases append_eq_append_cons hnew with ⟨after', hfirst⟩ | ⟨before', hlater, rfl⟩
      · -- a move makes one event at most, so nothing stands before the start
        have alone := step.length_events_le_one
        rw [hfirst, List.length_append, List.length_cons] at alone
        obtain rfl : before = [] := List.eq_nil_of_length_eq_zero (by omega)
        rw [List.append_nil]
        exact received m (mem_of_eq_append_cons hfirst)
      · rw [← List.append_assoc]
        exact receivedLater before' m after hlater

end DecoratorsWait

/-! ## §3. What a method receives. -/

/-- **THE DECORATORS OF A METHOD** are those that wait in front of its start.  They are the longest
run of decorators that ends at the start, if and only if none waits in front of this run, that is,
unless classes end between it and another decorator. -/
theorem Event.decorators_of_methodStart {cfg : Config} {lines : List LogicalLine}
    {before after : List Event} {m : MethodStart}
    (h : (Event.ofLines cfg lines).events = before ++ .methodStart m :: after) :
    m.decorators = waitingDecorators before
      ∧ (m.decorators = decoratorRun before
        ↔ waitingDecorators (before.rdropWhile Event.isDecorator) = []) := by
  obtain ⟨final, -, moves⟩ := Event.ofLines_moves cfg lines
  have received := (DecoratorsWait.empty.moves moves).2 before m after h
  refine ⟨received, ?_⟩
  rw [received, waitingDecorators_eq_append]
  exact List.append_left_eq_self

/-- Decorators above a block decorate nothing, those above a method decorate it, also behind a
class that has ended. -/
theorem Event.decorators_of_methodStart_in_order :
    let lines : List LogicalLine :=
      [⟨1, 1, 0, "class A:".toList, true, []⟩, ⟨2, 2, 4, "class B:".toList, true, []⟩,
       ⟨3, 3, 8, "@a".toList, true, []⟩, ⟨4, 4, 8, "if b: c = 1".toList, true, []⟩,
       ⟨5, 5, 4, "@d".toList, true, []⟩, ⟨6, 6, 4, "@e".toList, true, []⟩,
       ⟨7, 7, 4, "def f(): pass".toList, true, []⟩]
    ∃ before m after, (Event.ofLines {} lines).events = before ++ .methodStart m :: after
      ∧ waitingDecorators (before.rdropWhile Event.isDecorator) = []
      ∧ m.decorators = ["d".toList, "e".toList] := by
  intro lines
  let m : MethodStart := ⟨"f".toList, [], ["d".toList, "e".toList], false, none, 7⟩
  let before : List Event := (Event.ofLines {} lines).events.take 8
  have h : (Event.ofLines {} lines).events = before ++ .methodStart m ::
      (Event.ofLines {} lines).events.drop 9 := by decide +kernel
  have nothing : waitingDecorators (before.rdropWhile Event.isDecorator) = [] := by
    decide +kernel
  refine ⟨before, m, _, h, nothing, ?_⟩
  rw [(Event.decorators_of_methodStart h).2.2 nothing]
  decide +kernel

/-- **A decorator leaks out of its class.**  Nothing follows it in the class that is nested, so the
next method of the class around it receives it. -/
theorem Event.decorators_leak_out_of_class :
    let lines : List LogicalLine :=
      [⟨1, 1, 0, "class A:".toList, true, []⟩, ⟨2, 2, 4, "class B:".toList, true, []⟩,
       ⟨3, 3, 8, "@d".toList, true, []⟩, ⟨4, 4, 4, "def f(): pass".toList, true, []⟩]
    let before : List Event :=
      [.classStart ⟨"A".toList, [], none, 1⟩, .classStart ⟨"A.B".toList, [], none, 2⟩,
       .decorator "d".toList 3, .classEnd "A.B".toList]
    let m : MethodStart := ⟨"f".toList, [], ["d".toList], false, none, 4⟩
    (∃ after, (Event.ofLines {} lines).events = before ++ .methodStart m :: after)
      ∧ decoratorRun before = [] := by
  intro lines before m
  refine ⟨⟨[.ignored .simpleStatement 4, .methodEnd "f".toList "pass".toList,
    .classEnd "A".toList], ?_⟩, ?_⟩ <;> decide +kernel

end ClassOutline
