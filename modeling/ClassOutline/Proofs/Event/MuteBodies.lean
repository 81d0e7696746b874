/-
  ClassOutline.Proofs.Event.MuteBodies
  ────────────────────────────────
  **BODIES IN WHICH NOTHING COUNTS LEAVE NO TRACE.**

  A function outside a class, anything inside a function, and whatever stands
  under a broken header is skipped; in a method other than the constructor
  statements are read, but what they say is no part of a class.  Lines can be
  exchanged in such bodies (`EqualButForMuteBodies`), and the bare events of the
  source stay the same.

  All that a line of the body opens stands to the right of the header, so the
  line that leaves the body closes it again (`Inside`).
-/
import ClassOutline.Proofs.Event.MuteScope

namespace ClassOutline

/-! ## §1. Frames to the right of a header. -/

/-- Frames inside a body in which nothing counts: passive ones, and among them the frame of the
body, which no line to the right of `column` closes. -/
inductive MuteFrom (column : Column) : List Frame → Prop where
  | floor {f : Frame} {fs : List Frame} (mute : (scopeOf (f :: fs)).IsMute)
      (left : f.indent ≤ column) : MuteFrom column (f :: fs)
  | inside {f : Frame} {fs : List Frame} (passive : f.IsPassive) (around : MuteFrom column fs) :
      MuteFrom column (f :: fs)

namespace MuteFrom

variable {column : Column} {fs : List Frame}

theorem isMute (h : MuteFrom column fs) : (scopeOf fs).IsMute := by
  induction h with
  | floor mute left => exact mute
  | inside passive _ ih => exact passive.isMute_scopeOf ih

theorem append {above : List Frame} (h : MuteFrom column fs)
    (habove : ∀ f ∈ above, f.IsPassive) : MuteFrom column (above ++ fs) := by
  induction above with
  | nil => exact h
  | cons f above ih =>
      exact .inside (habove f List.mem_cons_self)
        (ih fun g hg => habove g (List.mem_cons_of_mem f hg))

/-- A line to the right of the header closes passive frames only. -/
theorem closed (h : MuteFrom column fs) {indent : Column} (hindent : column < indent) :
    MuteFrom column (closeFrames indent fs).2 ∧ (closeFrames indent fs).1 = [] := by
  induction h with
  | @floor f fs mute left =>
      have stays : ¬ indent ≤ f.indent :=
        Nat.not_le.2 (Nat.lt_of_le_of_lt left hindent)
      rw [closeFrames, if_neg stays]
      exact ⟨.floor mute left, rfl⟩
  | @inside f fs passive around ih =>
      rw [closeFrames]
      split
      · refine ⟨ih.1, ?_⟩
        show f.ends ++ (closeFrames indent fs).1 = []
        rw [passive.ends, ih.2]
        rfl
      · exact ⟨.inside passive around, rfl⟩

end MuteFrom

/-- Closing at a column and then at one left of it is closing at the latter. -/
theorem closeFrames_closeFrames {column indent : Column} (h : column ≤ indent) (fs : List Frame) :
    closeFrames column fs
      = ((closeFrames indent fs).1 ++ (closeFrames column (closeFrames indent fs).2).1,
          (closeFrames column (closeFrames indent fs).2).2) := by
  induction fs with
  | nil => rfl
  | cons f fs ih =>
      by_cases hf : indent ≤ f.indent
      · rw [closeFrames, if_pos (Nat.le_trans h hf), closeFrames.eq_2 indent f fs, if_pos hf, ih,
          List.append_assoc]
      · rw [closeFrames.eq_2 indent f fs, if_neg hf]
        rfl

/-- Passive frames at or right of a column are closed there without a trace. -/
theorem closeFrames_append {column : Column} {above : List Frame}
    (h : ∀ f ∈ above, f.IsPassive ∧ column ≤ f.indent) (fs : List Frame) :
    closeFrames column (above ++ fs) = closeFrames column fs := by
  induction above with
  | nil => rfl
  | cons f above ih =>
      obtain ⟨passive, hf⟩ := h f List.mem_cons_self
      rw [List.cons_append, closeFrames, if_pos hf, passive.ends,
        ih fun g hg => h g (List.mem_cons_of_mem f hg)]
      rfl

/-- The innermost frame left at a column stands to the left of it. -/
theorem indent_lt_of_mem_head?_closeFrames {indent : Column} {fs : List Frame} {f : Frame}
    (h : f ∈ (closeFrames indent fs).2.head?) : f.indent < indent := by
  induction fs with
  | nil => exact nomatch h
  | cons g fs ih =>
      rw [closeFrames] at h
      split at h
      · exact ih h
      · next hg =>
        obtain rfl := Option.some.inj h
        exact Nat.not_le.1 hg

/-! ## §2. Reading a body in which nothing counts. -/

/-- A statement is performed where it counts. -/
theorem Statement.perform_eq_act {s : Statement} {c : Context} (hwritten : s.isEmpty = false)
    (hcounts : c.scope ≠ .skipped) (cfg : Config) (line : Nat) (indent : Column) :
    s.perform cfg line indent c = s.act cfg line indent c := by
  unfold perform unlessSkipped
  rw [hwritten, if_neg Bool.false_ne_true, if_neg hcounts]

namespace Context

/-- The scope of a statement at a column. -/
def scopeAt (column : Column) (c : Context) : Scope := scopeOf (closeFrames column c.frames).2

/-- Where reading is inside the body of a header at `column` that left the context `opened`. -/
structure Inside (column : Column) (opened c : Context) : Prop where
  mute : MuteFrom column c.bare.frames
  decorators : c.decorators = []
  closes : ∀ k ≤ column, closeFrames k c.bare.frames = closeFrames k opened.bare.frames

/-- The context in which the statement of a line is performed. -/
def before (l : LogicalLine) (c : Context) : Context :=
  { c with frames := (closeFrames l.indent c.frames).2, comments := l.comments }.record
    l.indent l.text

theorem readLine_eq (cfg : Config) (l : LogicalLine) (c : Context) :
    c.readLine cfg l
      = (((Statement.parse l.text).perform cfg l.line l.indent (c.before l)).1,
          ⟨(closeFrames l.indent c.frames).1, []⟩
            ++ ((Statement.parse l.text).perform cfg l.line l.indent (c.before l)).2) :=
  rfl

theorem frames_before (l : LogicalLine) (c : Context) :
    (c.before l).bare.frames = (closeFrames l.indent c.bare.frames).2 := by
  unfold before
  rw [bare_record]
  exact (closeFrames_map_bare l.indent c.frames).1.symm

theorem scope_before (l : LogicalLine) (c : Context) : (c.before l).scope = c.scopeAt l.indent := by
  rw [← scope_bare]
  unfold Context.scope scopeAt
  rw [frames_before, bare, (closeFrames_map_bare l.indent c.frames).1, scopeOf_map_bare]

end Context

namespace Context

variable (cfg : Config) {column : Column} {opened c : Context}

/-- **A line to the right of the header stays inside the body** and is no event about a class. -/
theorem Inside.readLine (h : Inside column opened c) {l : LogicalLine}
    (hright : column < l.indent) :
    Inside column opened (c.readLine cfg l).1
      ∧ bareEvents (c.readLine cfg l).2.events = [] := by
  obtain ⟨left, quiet⟩ := h.mute.closed hright
  rw [← frames_before] at left
  -- the frame of the body is not closed, so the statement of the line is in a mute scope
  have mute : (c.before l).scope.IsMute := by
    rw [← scope_bare]
    exact left.isMute
  have performed := Statement.unlessSkipped_opensOnly l.line (s := Statement.parse l.text)
    (c := c.before l) h.decorators
    (Statement.act_opensOnly cfg l.line l.indent (Statement.parse l.text) mute h.decorators)
  obtain ⟨above, hframes, habove⟩ := performed.frames
  refine ⟨⟨?_, performed.decorators, fun k hk => ?_⟩, ?_⟩
  · show MuteFrom column (Context.bare _).frames
    rw [readLine_eq]
    exact hframes ▸ left.append fun f hf => (habove f hf).1
  · -- what the line has opened is closed with it, and what it has closed would be closed too
    have hleft : k ≤ l.indent := Nat.le_of_lt (Nat.lt_of_le_of_lt hk hright)
    have opens : ∀ f ∈ above, f.IsPassive ∧ k ≤ f.indent := by
      intro f hf
      exact ⟨(habove f hf).1, Nat.le_trans hleft (habove f hf).2⟩
    calc closeFrames k (c.readLine cfg l).1.bare.frames
        = closeFrames k (above ++ (c.before l).bare.frames) := congrArg (closeFrames k) hframes
      _ = closeFrames k (closeFrames l.indent c.bare.frames).2 := by
          rw [closeFrames_append opens, frames_before]
      _ = closeFrames k c.bare.frames := by
          rw [closeFrames_closeFrames hleft c.bare.frames, quiet]
          rfl
      _ = closeFrames k opened.bare.frames := h.closes k hk
  · have ended : bareEvents (closeFrames l.indent c.frames).1 = [] := by
      rw [← (closeFrames_map_bare l.indent c.frames).2]
      exact congrArg bareEvents quiet
    rw [readLine_eq]
    show bareEvents ((closeFrames l.indent c.frames).1 ++ _) = []
    rw [bareEvents_append, ended]
    exact performed.events

/-- The lines of the body stay inside it and are no events about a class. -/
theorem Inside.readLines {ls : List LogicalLine} (h : Inside column opened c)
    (hright : ∀ l ∈ ls, column < l.indent) :
    Inside column opened (c.readLines cfg ls).1
      ∧ bareEvents (c.readLines cfg ls).2.events = [] := by
  induction ls generalizing c with
  | nil => exact ⟨h, rfl⟩
  | cons l ls ih =>
      obtain ⟨next, quiet⟩ := h.readLine cfg (hright l List.mem_cons_self)
      obtain ⟨last, quiets⟩ := ih next fun l' hl' => hright l' (List.mem_cons_of_mem l hl')
      refine ⟨last, ?_⟩
      show bareEvents ((c.readLine cfg l).2.events ++ _) = []
      rw [bareEvents_append, quiet]
      exact quiets

/-- A line to the right of a skipped body's header changes nothing that is looked at. -/
theorem readLine_of_skipped {l : LogicalLine} (hscope : c.scope = .skipped)
    (hhead : ∀ f ∈ c.frames.head?, f.indent ≤ column) (hright : column < l.indent) :
    (c.readLine cfg l).1.bare = c.bare ∧ bareEvents (c.readLine cfg l).2.events = [] := by
  have stays : closeFrames l.indent c.frames = ([], c.frames) := by
    cases hfs : c.frames with
    | nil => rfl
    | cons f fs =>
        have hf : f.indent ≤ column := hhead f (by rw [hfs]; rfl)
        rw [closeFrames, if_neg (Nat.not_le.2 (Nat.lt_of_le_of_lt hf hright))]
  have same : (c.before l).bare = c.bare := by
    unfold before
    rw [bare_record, stays]
    rfl
  have skipped : (c.before l).scope = .skipped := by
    rw [scope_eq_of_bare_eq same, hscope]
  rw [readLine_eq, stays]
  unfold Statement.perform Statement.unlessSkipped
  rw [skipped]
  split
  · exact ⟨same, rfl⟩
  · exact ⟨same, rfl⟩

theorem readLines_of_skipped {ls : List LogicalLine} (hscope : c.scope = .skipped)
    (hhead : ∀ f ∈ c.bare.frames.head?, f.indent ≤ column) (hright : ∀ l ∈ ls, column < l.indent) :
    (c.readLines cfg ls).1.bare = c.bare ∧ bareEvents (c.readLines cfg ls).2.events = [] := by
  induction ls generalizing c with
  | nil => exact ⟨rfl, rfl⟩
  | cons l ls ih =>
      have hc : ∀ f ∈ c.frames.head?, f.indent ≤ column := by
        intro f hf
        refine hhead f.bare ?_
        show f.bare ∈ (c.frames.map Frame.bare).head?
        rw [List.head?_map]
        exact Option.mem_map_of_mem _ hf
      obtain ⟨same, quiet⟩ :=
        readLine_of_skipped cfg hscope hc (hright l List.mem_cons_self)
      obtain ⟨last, quiets⟩ := ih (c := (c.readLine cfg l).1)
        ((scope_eq_of_bare_eq same).trans hscope) (same ▸ hhead)
        (fun l' hl' => hright l' (List.mem_cons_of_mem l hl'))
      refine ⟨last.trans same, ?_⟩
      show bareEvents ((c.readLine cfg l).2.events ++ _) = []
      rw [bareEvents_append, quiet]
      exact quiets

end Context

/-! ## §3. Headers of bodies in which nothing counts. -/

/-- A header whose body is skipped in a scope: a broken one, that of a function that is no
method, or that of a class in a method or function. -/
def Statement.SkipsBody (scope : Scope) : Statement → Prop
  | .malformedHeader .. => True
  | .functionDef .. => ∀ outer, scope ≠ .classBody outer
  | .classDef .. => scope.InFunction
  | _ => False

namespace Context

variable {cfg : Config} {c : Context}

/-- Lines that leave a context, as far as a line at or left of `column` can tell, and are no
events about a class. -/
structure PassesOver (cfg : Config) (column : Column) (c : Context) (ls : List LogicalLine) :
    Prop where
  meets : ∀ k ≤ column, (c.readLines cfg ls).1.MeetsAt k c
  quiet : bareEvents (c.readLines cfg ls).2.events = []

/-- A header that skips its body opens a frame that does, and nothing else. -/
theorem act_of_skipsBody (cfg : Config) {s : Statement} (hs : s.SkipsBody c.scope) (line : Nat)
    (indent : Column) :
    ∃ c' : Context, (s.act cfg line indent c).1 = c'.push .skipped indent := by
  rw [← scope_enterBody] at hs
  cases s with
  | malformedHeader keyword text => exact ⟨_, rfl⟩
  | functionDef header body =>
      obtain ⟨reason, passed⟩ := openFunction_of_ne_classBody hs cfg line indent header
      rw [Statement.act, passed, Statement.thenBody_skipBody]
      exact ⟨_, rfl⟩
  | classDef name bases body =>
      rw [Statement.act, openClass_of_inFunction hs, Statement.thenBody_skipBody]
      exact ⟨_, rfl⟩
  | empty => exact hs.elim
  | decorator name => exact hs.elim
  | block body => exact hs.elim
  | sequence parts => exact hs.elim
  | string contents => exact hs.elim
  | assignment targets value => exact hs.elim
  | inert reason => exact hs.elim
  | unrecognized text => exact hs.elim

/-- Behind a header that skips its body the scope is skipped, and nothing stands to the right of
the header. -/
theorem perform_of_skipsBody (cfg : Config) {s : Statement} (hs : s.SkipsBody c.scope)
    (line : Nat) (indent : Column) (hhead : ∀ f ∈ c.bare.frames.head?, f.indent ≤ indent) :
    (s.perform cfg line indent c).1.scope = .skipped
      ∧ ∀ f ∈ (s.perform cfg line indent c).1.bare.frames.head?, f.indent ≤ indent := by
  obtain ⟨c', opened⟩ := act_of_skipsBody cfg hs line indent
  unfold Statement.perform Statement.unlessSkipped
  split
  · next hempty =>
    cases s with
    | empty => exact hs.elim
    | _ => exact absurd hempty Bool.false_ne_true
  split
  · next hskipped => exact ⟨hskipped, hhead⟩
  · rw [opened]
    refine ⟨rfl, fun f hf => ?_⟩
    obtain rfl := Option.some.inj hf
    exact Nat.le_refl indent

/-- **A skipped body is passed over**, whatever its columns. -/
theorem passesOver_of_skipsBody {header : LogicalLine} {body : List LogicalLine}
    (hs : (Statement.parse header.text).SkipsBody (c.scopeAt header.indent))
    (hright : ∀ l ∈ body, header.indent < l.indent) :
    (c.readLine cfg header).1.PassesOver cfg header.indent body := by
  have hhead : ∀ f ∈ (c.before header).bare.frames.head?, f.indent ≤ header.indent := by
    intro f hf
    rw [frames_before] at hf
    exact Nat.le_of_lt (indent_lt_of_mem_head?_closeFrames hf)
  rw [← scope_before] at hs
  obtain ⟨hscope, hleft⟩ := perform_of_skipsBody cfg hs header.line header.indent hhead
  obtain ⟨same, quiet⟩ := readLines_of_skipped cfg hscope hleft hright
  exact ⟨fun k _ => .of_bare_eq same k, quiet⟩

/-- Behind the header of a method other than the constructor, and the inline body on its line,
nothing counts. -/
theorem readLine_of_method {header : LogicalLine} {outer : Text} {function : FunctionHeader}
    {inline : Statement} (hscope : c.scopeAt header.indent = .classBody outer)
    (hparse : Statement.parse header.text = .functionDef function inline)
    (hname : function.name ≠ cfg.constructorName) :
    Inside header.indent (c.readLine cfg header).1 (c.readLine cfg header).1 := by
  rw [← scope_before, ← scope_enterBody] at hscope
  obtain ⟨⟨selfName, hframes⟩, hdecorators⟩ :=
    openFunction_of_classBody hscope cfg header.line header.indent function
  have notConstructor : (function.name == cfg.constructorName) = false :=
    beq_eq_false_iff_ne.2 hname
  rw [notConstructor] at hframes
  generalize hopened : (c.before header).enterBody.openFunction cfg header.line header.indent
    function = opened at hframes hdecorators
  have floor : MuteFrom header.indent opened.1.bare.frames := by
    rw [hframes]
    exact .floor rfl (Nat.le_refl _)
  have inMethod : opened.1.scope = .methodBody false selfName := by
    rw [← scope_bare]
    unfold Context.scope
    rw [hframes]
    rfl
  have mute : opened.1.scope.IsMute := by rw [inMethod]; rfl
  have acted := Statement.act_opensOnly cfg header.line (header.indent + 1) inline mute hdecorators
  have read : (c.readLine cfg header).1
      = (Statement.act cfg header.line (header.indent + 1) inline opened.1).1 := by
    rw [scope_enterBody] at hscope
    rw [readLine_eq, hparse]
    rw [Statement.perform_eq_act rfl (by rw [hscope]; exact Scope.noConfusion), Statement.act, hopened]
    unfold Statement.thenBody
    rw [if_neg (by rw [inMethod]; exact Scope.noConfusion)]
  obtain ⟨above, habove, passive⟩ := acted.frames
  refine ⟨?_, ?_, fun _ _ => rfl⟩
  · rw [read, habove]
    exact floor.append fun f hf => (passive f hf).1
  · rw [read]
    exact acted.decorators

/-- **The body of a method other than the constructor is passed over.** -/
theorem passesOver_of_method {header : LogicalLine} {body : List LogicalLine} {outer : Text}
    {function : FunctionHeader} {inline : Statement}
    (hscope : c.scopeAt header.indent = .classBody outer)
    (hparse : Statement.parse header.text = .functionDef function inline)
    (hname : function.name ≠ cfg.constructorName)
    (hright : ∀ l ∈ body, header.indent < l.indent) :
    (c.readLine cfg header).1.PassesOver cfg header.indent body := by
  have inside := readLine_of_method hscope hparse hname
  obtain ⟨last, quiet⟩ := inside.readLines cfg hright
  refine ⟨fun k hk => ⟨?_, last.closes k hk⟩, quiet⟩
  rw [last.decorators, inside.decorators]

end Context

/-! ## §4. Lines that are equal but for such bodies. -/

/-- Lines, read in a context, that are equal except in bodies in which nothing counts.  A body
is all lines behind its header up to the first one that stands no more to the right. -/
inductive EqualButForMuteBodies (cfg : Config) :
    Context → List LogicalLine → List LogicalLine → Prop where
  | nil {c : Context} : EqualButForMuteBodies cfg c [] []
  | line {c : Context} {l : LogicalLine} {ls ls' : List LogicalLine}
      (rest : EqualButForMuteBodies cfg (c.readLine cfg l).1 ls ls') :
      EqualButForMuteBodies cfg c (l :: ls) (l :: ls')
  /-- The body of a header that is skipped. -/
  | skippedBody {c : Context} {header : LogicalLine} {body body' rest rest' : List LogicalLine}
      (skips : (Statement.parse header.text).SkipsBody (c.scopeAt header.indent))
      (right : ∀ l ∈ body, header.indent < l.indent)
      (right' : ∀ l ∈ body', header.indent < l.indent)
      (ends : ∀ l ∈ rest.head?, l.indent ≤ header.indent)
      (later : EqualButForMuteBodies cfg (c.readLines cfg (header :: body)).1 rest rest') :
      EqualButForMuteBodies cfg c (header :: (body ++ rest)) (header :: (body' ++ rest'))
  /-- The body of a method other than the constructor. -/
  | methodBody {c : Context} {header : LogicalLine} {body body' rest rest' : List LogicalLine}
      {outer : Text} {function : FunctionHeader} {inline : Statement}
      (scope : c.scopeAt header.indent = .classBody outer)
      (method : Statement.parse header.text = .functionDef function inline)
      (other : function.name ≠ cfg.constructorName)
      (right : ∀ l ∈ body, header.indent < l.indent)
      (right' : ∀ l ∈ body', header.indent < l.indent)
      (ends : ∀ l ∈ rest.head?, l.indent ≤ header.indent)
      (later : EqualButForMuteBodies cfg (c.readLines cfg (header :: body)).1 rest rest') :
      EqualButForMuteBodies cfg c (header :: (body ++ rest)) (header :: (body' ++ rest'))

namespace Context

variable {cfg : Config} {c c' : Context}

/-- The events from a context on, up to the end of the source. -/
def remaining (cfg : Config) (c : Context) (ls : List LogicalLine) : List Event :=
  (c.readLines cfg ls).2.events ++ (c.readLines cfg ls).1.finish

theorem remaining_cons (l : LogicalLine) (ls : List LogicalLine) :
    c.remaining cfg (l :: ls)
      = (c.readLine cfg l).2.events ++ (c.readLine cfg l).1.remaining cfg ls :=
  List.append_assoc _ _ _

theorem remaining_append (ls ls' : List LogicalLine) :
    c.remaining cfg (ls ++ ls')
      = (c.readLines cfg ls).2.events ++ (c.readLines cfg ls).1.remaining cfg ls' := by
  induction ls generalizing c with
  | nil => rfl
  | cons l ls ih =>
      rw [List.cons_append, remaining_cons, ih, ← List.append_assoc]
      rfl

/-- The column of the line that is read next, or that of the end. -/
def nextColumn : List LogicalLine → Column
  | [] => 0
  | l :: _ => l.indent

theorem nextColumn_le {column : Column} {ls : List LogicalLine}
    (h : ∀ l ∈ ls.head?, l.indent ≤ column) : nextColumn ls ≤ column := by
  cases ls with
  | nil => exact Nat.zero_le _
  | cons l ls => exact h l rfl

theorem MeetsAt.scopeAt_eq {column : Column} (h : c.MeetsAt column c') :
    c.scopeAt column = c'.scopeAt column := by
  unfold scopeAt
  rw [← scopeOf_map_bare, h.left, scopeOf_map_bare]

/-- Behind a header that two runs read alike, each passes over a body of its own, and the line
after it is read alike again. -/
theorem remaining_alike_of_passesOver {header : LogicalLine} {body body' rest rest' : List LogicalLine}
    (meets : c.MeetsAt header.indent c')
    (passes : (c.readLine cfg header).1.PassesOver cfg header.indent body)
    (passes' : (c'.readLine cfg header).1.PassesOver cfg header.indent body')
    (ends : ∀ l ∈ rest.head?, l.indent ≤ header.indent)
    (later : ∀ {c'' : Context}, (c.readLines cfg (header :: body)).1.MeetsAt (nextColumn rest) c'' →
      bareEvents ((c.readLines cfg (header :: body)).1.remaining cfg rest)
        = bareEvents (c''.remaining cfg rest')) :
    bareEvents (c.remaining cfg (header :: (body ++ rest)))
      = bareEvents (c'.remaining cfg (header :: (body' ++ rest'))) := by
  have alike := readLine_alike cfg meets
  have left := nextColumn_le ends
  -- both bodies meet the context behind their headers, and the headers were read alike
  have behind : (c.readLines cfg (header :: body)).1.MeetsAt (nextColumn rest)
      ((c'.readLine cfg header).1.readLines cfg body').1 := by
    have first := passes.meets _ left
    have middle := MeetsAt.of_bare_eq alike.context (nextColumn rest)
    have last := passes'.meets _ left
    exact ⟨first.decorators.trans (middle.decorators.trans last.decorators.symm),
      first.frames.trans (middle.frames.trans last.frames.symm)⟩
  have tail := later behind
  rw [remaining_cons, remaining_append, remaining_cons, remaining_append]
  simp only [bareEvents_append]
  rw [alike.events, passes.quiet, passes'.quiet, ← tail]
  rfl

/-- **Lines that are equal but for mute bodies are the same bare events**, also from contexts
that meet at the column of the first one. -/
theorem bareEvents_remaining_eq {ls ls' : List LogicalLine}
    (h : EqualButForMuteBodies cfg c ls ls') : ∀ {c' : Context}, c.MeetsAt (nextColumn ls) c' →
      bareEvents (c.remaining cfg ls) = bareEvents (c'.remaining cfg ls') := by
  -- along the lines; meeting at the next column is what is carried over an exchanged body
  induction h with
  | nil => exact fun meets => meets.ended
  | line rest ih =>
      intro c' meets
      have alike := readLine_alike cfg meets
      rw [remaining_cons, remaining_cons, bareEvents_append, bareEvents_append, alike.events,
        ih (.of_bare_eq alike.context _)]
  | skippedBody skips right right' ends _ ih =>
      intro c' meets
      have skips' := meets.scopeAt_eq ▸ skips
      exact remaining_alike_of_passesOver meets (passesOver_of_skipsBody skips right)
        (passesOver_of_skipsBody skips' right') ends ih
  | methodBody scope method other right right' ends _ ih =>
      intro c' meets
      have scope' := meets.scopeAt_eq.symm.trans scope
      exact remaining_alike_of_passesOver meets
        (passesOver_of_method scope method other right)
        (passesOver_of_method scope' method other right') ends ih

end Context

/-- **MUTE BODIES LEAVE NO TRACE IN THE EVENTS.** -/
theorem Event.bareEvents_ofLines_eq {cfg : Config} {ls ls' : List LogicalLine}
    (h : EqualButForMuteBodies cfg {} ls ls') :
    bareEvents (Event.ofLines cfg ls).events = bareEvents (Event.ofLines cfg ls').events :=
  Context.bareEvents_remaining_eq h (.of_bare_eq rfl _)

end ClassOutline
