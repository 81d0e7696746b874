/-
  ClassOutline.Proofs.Event.MuteScope
  ────────────────────────────────
  **WHAT A STATEMENT CAN DO WHERE NOTHING COUNTS.**

  In a body that is skipped, and in a method other than the constructor, no
  statement says anything about a class: such a scope is *mute*.  What it still
  does is to open frames, those of blocks and of skipped bodies only
  (`OpensOnly`), none of them left of its own column.
-/
import ClassOutline.Proofs.Event.Bare

namespace ClassOutline

/-! ## §1. Mute scopes and passive frames. -/

/-- A scope in which no statement says anything about a class. -/
def Scope.IsMute : Scope → Prop
  | .methodBody isConstructor _ => isConstructor = false
  | .skipped => True
  | .module | .classBody _ => False

/-- The scope of a method or of a body that is skipped. -/
def Scope.InFunction : Scope → Prop
  | .methodBody .. | .skipped => True
  | .module | .classBody _ => False

theorem Scope.IsMute.inFunction {scope : Scope} (h : scope.IsMute) : scope.InFunction := by
  cases scope with
  | module => exact h
  | classBody name => exact h
  | methodBody isConstructor selfName => exact trivial
  | skipped => exact trivial

theorem Scope.InFunction.ne_classBody {scope : Scope} (h : scope.InFunction) (outer : Text) :
    scope ≠ .classBody outer := by
  rintro rfl
  exact h

/-- A frame whose begin and end are no events about a class. -/
def Frame.IsPassive (f : Frame) : Prop := f.kind = .block ∨ f.kind = .skipped

namespace Frame

variable {f : Frame}

theorem IsPassive.ends (h : f.IsPassive) : f.ends = [] := by
  unfold Frame.ends
  rcases h with h | h <;> rw [h]

/-- Inside a passive frame nothing counts, if nothing counts around it. -/
theorem IsPassive.isMute_scopeOf (h : f.IsPassive) {fs : List Frame}
    (hfs : (scopeOf fs).IsMute) : (scopeOf (f :: fs)).IsMute := by
  obtain ⟨kind, indent, bodySeen⟩ := f
  rcases h with h | h
  · obtain rfl : kind = .block := h
    exact hfs
  · obtain rfl : kind = .skipped := h
    exact trivial

end Frame

theorem isMute_scopeOf_append {above fs : List Frame} (h : ∀ f ∈ above, f.IsPassive)
    (hfs : (scopeOf fs).IsMute) : (scopeOf (above ++ fs)).IsMute := by
  induction above with
  | nil => exact hfs
  | cons f above ih =>
      exact (h f List.mem_cons_self).isMute_scopeOf
        (ih fun g hg => h g (List.mem_cons_of_mem f hg))

/-! ## §2. What a statement opens in a mute scope. -/

/-- A result that only opens passive frames, none of them left of `indent`. -/
structure OpensOnly (indent : Column) (c : Context) (r : Context × EventOutput) : Prop where
  frames : ∃ above, r.1.bare.frames = above ++ c.bare.frames ∧
    ∀ f ∈ above, f.IsPassive ∧ indent ≤ f.indent
  decorators : r.1.decorators = []
  events : bareEvents r.2.events = []

namespace OpensOnly

variable {indent : Column} {c : Context} {r : Context × EventOutput}

/-- Nothing is opened. -/
theorem none (hframes : r.1.bare.frames = c.bare.frames) (hdecorators : r.1.decorators = [])
    (hevents : bareEvents r.2.events = []) : OpensOnly indent c r :=
  ⟨⟨[], hframes, fun _ hf => absurd hf List.not_mem_nil⟩, hdecorators, hevents⟩

/-- One frame is opened, at `indent` itself. -/
theorem one {f : Frame} (hf : f.IsPassive) (hindent : f.indent = indent)
    (hframes : r.1.bare.frames = f :: c.bare.frames) (hdecorators : r.1.decorators = [])
    (hevents : bareEvents r.2.events = []) : OpensOnly indent c r := by
  refine ⟨⟨[f], hframes, ?_⟩, hdecorators, hevents⟩
  intro g hg
  obtain rfl := List.mem_singleton.1 hg
  exact ⟨hf, Nat.le_of_eq hindent.symm⟩

/-- What stands one column to the right. -/
theorem shift (h : OpensOnly (indent + 1) c r) : OpensOnly indent c r := by
  obtain ⟨above, heq, habove⟩ := h.frames
  refine ⟨⟨above, heq, fun f hf => ?_⟩, h.decorators, h.events⟩
  exact ⟨(habove f hf).1, Nat.le_of_succ_le (habove f hf).2⟩

/-- One result after another. -/
theorem trans {r' : Context × EventOutput} (h : OpensOnly indent c r)
    (h' : OpensOnly indent r.1 r') : OpensOnly indent c (r'.1, r.2 ++ r'.2) := by
  obtain ⟨above, heq, habove⟩ := h.frames
  obtain ⟨above', heq', habove'⟩ := h'.frames
  refine ⟨⟨above' ++ above, ?_, fun f hf => ?_⟩, h'.decorators, ?_⟩
  · rw [heq', heq, List.append_assoc]
  · rcases List.mem_append.1 hf with hf | hf
    · exact habove' f hf
    · exact habove f hf
  · show bareEvents (r.2.events ++ r'.2.events) = []
    rw [bareEvents_append, h.events, h'.events]
    rfl

/-- The scope stays mute. -/
theorem isMute (h : OpensOnly indent c r) (hc : c.scope.IsMute) : r.1.scope.IsMute := by
  obtain ⟨above, heq, habove⟩ := h.frames
  have bare : c.bare.scope.IsMute := c.scope_bare ▸ hc
  rw [← Context.scope_bare]
  unfold Context.scope at bare ⊢
  rw [heq]
  exact isMute_scopeOf_append (fun f hf => (habove f hf).1) bare

end OpensOnly

namespace Context

variable {c : Context}

theorem frames_bare_enterBody (c : Context) : c.enterBody.bare.frames = c.bare.frames :=
  congrArg Context.frames c.bare_enterBody

/-- In a method or function a class is passed over. -/
theorem openClass_of_inFunction (h : c.scope.InFunction) (line : Nat) (indent : Column)
    (name : Text) (bases : List Text) :
    c.openClass line indent name bases
      = skipBody .nestedInFunction line indent c.claimPending := by
  unfold openClass
  cases hs : c.scope with
  | module => rw [hs] at h; exact h.elim
  | classBody name => rw [hs] at h; exact h.elim
  | methodBody isConstructor selfName => rfl
  | skipped => rfl

/-- A function that is no method is passed over. -/
theorem openFunction_of_ne_classBody (h : ∀ outer, c.scope ≠ .classBody outer) (cfg : Config)
    (line : Nat) (indent : Column) (header : FunctionHeader) :
    ∃ reason, c.openFunction cfg line indent header
      = skipBody reason line indent c.claimPending := by
  unfold openFunction
  cases hs : c.scope with
  | module => exact ⟨_, rfl⟩
  | classBody outer => exact absurd hs (h outer)
  | methodBody isConstructor selfName => exact ⟨_, rfl⟩
  | skipped => exact ⟨_, rfl⟩

/-- A method opens its frame, behind the decorators. -/
theorem openFunction_of_classBody {outer : Text} (h : c.scope = .classBody outer) (cfg : Config)
    (line : Nat) (indent : Column) (header : FunctionHeader) :
    (∃ selfName, (c.openFunction cfg line indent header).1.bare.frames
        = ⟨.methodBody header.name (header.name == cfg.constructorName) selfName [], indent, false⟩
          :: c.bare.frames)
      ∧ (c.openFunction cfg line indent header).1.decorators = [] := by
  unfold openFunction
  rw [h]
  dsimp only
  split
  · exact ⟨⟨_, rfl⟩, rfl⟩
  · rw [bare_record]
    exact ⟨⟨_, rfl⟩, rfl⟩

theorem scope_skipBody (reason : IgnoreReason) (line : Nat) (indent : Column) (c : Context) :
    (skipBody reason line indent c).1.scope = .skipped :=
  rfl

end Context

namespace Statement

variable (cfg : Config) (line : Nat) {c : Context}

/-- A header whose body is skipped opens one frame, whatever stands behind it on the line. -/
theorem thenBody_skipBody (reason : IgnoreReason) (indent : Column) (c : Context)
    (act : Context → Context × EventOutput) :
    thenBody (Context.skipBody reason line indent c) act
      = Context.skipBody reason line indent c :=
  if_pos (Context.scope_skipBody reason line indent c)

/-- A statement that opens nothing drops the decorators in front of it. -/
theorem settle_opensOnly {indent : Column} {output : EventOutput}
    (hevents : bareEvents output.events = []) :
    OpensOnly indent c (c.enterBody.dropPending, output) :=
  .none c.frames_bare_enterBody rfl hevents

/-- A frame that is opened behind the decorators. -/
theorem push_opensOnly {indent : Column} {kind : FrameKind} {output : EventOutput}
    (hkind : kind = .block ∨ kind = .skipped) (hevents : bareEvents output.events = []) :
    OpensOnly indent c (c.enterBody.dropPending.push kind indent, output) := by
  have passive : Frame.IsPassive ⟨kind.bare, indent, false⟩ := by
    rcases hkind with rfl | rfl
    · exact .inl rfl
    · exact .inr rfl
  exact .one passive rfl (congrArg (_ :: ·) c.frames_bare_enterBody) rfl hevents

theorem thenBody_opensOnly {indent : Column} {r : Context × EventOutput}
    {act : Context → Context × EventOutput} (h : OpensOnly indent c r)
    (hact : OpensOnly (indent + 1) r.1 (act r.1)) :
    OpensOnly indent c (thenBody r act) := by
  unfold thenBody
  split
  · exact h
  · exact h.trans hact.shift

/-- A header that is passed over has claimed the decorators. -/
theorem skipBody_opensOnly {reason : IgnoreReason} (indent : Column) :
    OpensOnly indent c
      (Context.skipBody reason line indent c.enterBody.claimPending) :=
  .one (.inr rfl) rfl (congrArg (_ :: ·) c.frames_bare_enterBody) rfl rfl

theorem unlessSkipped_opensOnly {indent : Column} {s : Statement}
    {act : Context → Context × EventOutput} (hd : c.decorators = [])
    (hact : OpensOnly indent c (act c)) :
    OpensOnly indent c (unlessSkipped line s act c) := by
  unfold unlessSkipped
  split
  · exact .none rfl hd rfl
  split
  · exact .none rfl hd rfl
  · exact hact

/-- In a mute scope an assignment says nothing about a class. -/
theorem bareEvents_assign {scope : Scope} (h : scope.IsMute) (value : Text)
    (targets : List Target) : bareEvents (targets.map (scope.assign line value)) = [] := by
  have hnone : Event.bare? ∘ scope.assign line value = fun _ => none := by
    funext target
    cases scope with
    | module => exact h.elim
    | classBody name => exact h.elim
    | methodBody isConstructor selfName =>
        obtain rfl : isConstructor = false := h
        rfl
    | skipped => rfl
  unfold bareEvents
  rw [List.filterMap_map, hnone]
  exact List.filterMap_eq_nil_iff.2 fun _ _ => rfl

mutual

/-- **In a mute scope a statement opens passive frames only.** -/
theorem act_opensOnly (indent : Column) : ∀ (s : Statement) {c : Context}, c.scope.IsMute →
    c.decorators = [] → OpensOnly indent c (s.act cfg line indent c)
  | .empty, _, _, hd => .none rfl hd rfl
  | .decorator name, c, h, hd => by
      rw [act]
      -- only in a class body would the decorator be noted
      have stray : c.enterBody.noteDecorator line name
          = ({ c.enterBody with headerComments := c.headerComments ++ c.comments, comments := [] },
              .ignored .decorator line) := by
        unfold Context.noteDecorator
        rw [Context.scope_enterBody]
        cases hs : c.scope with
        | classBody name => rw [hs] at h; exact h.elim
        | module => rfl
        | methodBody isConstructor selfName => rfl
        | skipped => rfl
      rw [stray]
      exact .none c.frames_bare_enterBody hd rfl
  | .malformedHeader _ _, c, _, _ => by
      rw [act]
      exact push_opensOnly (.inr rfl) rfl
  | .classDef name bases body, c, h, _ => by
      have inFunction : c.enterBody.scope.InFunction := c.scope_enterBody ▸ h.inFunction
      rw [act, Context.openClass_of_inFunction inFunction, thenBody_skipBody]
      exact skipBody_opensOnly line indent
  | .functionDef header body, c, h, _ => by
      have inFunction : c.enterBody.scope.InFunction := c.scope_enterBody ▸ h.inFunction
      -- no method begins here, so the function is skipped with its inline body
      obtain ⟨reason, passed⟩ := Context.openFunction_of_ne_classBody inFunction.ne_classBody cfg
        line indent header
      rw [act, passed, thenBody_skipBody]
      exact skipBody_opensOnly line indent
  | .block body, c, h, _ => by
      have header : OpensOnly indent c
          (c.enterBody.dropPending.push .block indent, EventOutput.ignored .controlFlow line) :=
        push_opensOnly (.inl rfl) rfl
      rw [act]
      exact thenBody_opensOnly header
        (act_opensOnly (indent + 1) body (header.isMute h) header.decorators)
  | .sequence parts, c, h, hd => by
      rw [act]
      exact actAll_opensOnly indent parts h hd
  | .string contents, c, _, _ => by
      rw [act]
      exact settle_opensOnly (bareEvents_docstringOr line contents c)
  | .assignment targets value, c, h, _ => by
      rw [act]
      exact settle_opensOnly (bareEvents_assign line h value targets)
  | .inert _, c, _, _ => by
      rw [act]
      exact settle_opensOnly rfl
  | .unrecognized _, c, _, _ => by
      rw [act]
      exact settle_opensOnly rfl

/-- In a mute scope statements open passive frames only. -/
theorem actAll_opensOnly (indent : Column) : ∀ (ss : List Statement) {c : Context},
    c.scope.IsMute → c.decorators = [] →
    OpensOnly indent c (actAll cfg line indent ss c)
  | [], _, _, hd => .none rfl hd rfl
  | s :: rest, c, h, hd => by
      have first := unlessSkipped_opensOnly line (s := s) hd (act_opensOnly indent s h hd)
      have later := actAll_opensOnly indent rest (first.isMute h) first.decorators
      rw [actAll]
      exact first.trans later

end

end Statement

end ClassOutline
