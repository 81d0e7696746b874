/-
  ClassOutline.Proofs.Event.Shaped
  ────────────────────────────────
  **THE SHAPE OF THE EVENTS OF A SOURCE, WITH THEIR NAMES.**

  Read in order, events are seen with the starts that are still open around
  them, the innermost first.  What may come next depends on the innermost one
  only (`Event.FitsIn`): a class of the module has a name, one in another class
  has that class's name before its own, and what is assigned to self stands in
  a constructor that has one.

  `Shaped` says this of a whole stream and that it leaves nothing open.  A
  stream that stays open up to its end is one block (`ClassBlock`).  Events read
  from a source have the shape (`Event.ofLines_shaped`): the open starts are
  those of the reader's frames, and each of its moves keeps that.
-/
import ClassOutline.Proofs.Event.Nested

namespace ClassOutline

/-! ## §1. Events that fit. -/

namespace Event

/-- An event fits in the class or method that an event started, `none` outside of all. -/
def FitsIn (cfg : Config) (around : Option Event) : Event → Prop
  | classStart c =>
    (around = none ∧ Text.isName c.name = true) ∨ ∃ outer name,
      around = some (.classStart outer) ∧ Text.isName name = true
        ∧ c.name = outer.name ++ '.' :: name
  | classEnd name => ∃ c, around = some (.classStart c) ∧ c.name = name
  | methodStart _ | decorator .. => ∃ outer, around = some (.classStart outer)
  | methodEnd name _ => ∃ m, around = some (.methodStart m) ∧ m.name = name
  | classAssignment a => (∃ outer, around = some (.classStart outer)) ∧ Text.isName a.name = true
  | selfAssignment a =>
    ∃ m, around = some (.methodStart m) ∧ m.name = cfg.constructorName
      ∧ (selfNameOf? cfg m.decorators m.parameters).isSome ∧ Text.isName a.name = true
  | moduleAssignment name .. => around = none ∧ Text.isName name = true
  | docstring .. => around ≠ none
  | ignored .. => True

/-- The starts that are open behind an event, given those that are open before it. -/
def openedAfter (opened : List Event) : Event → List Event
  | classStart c => .classStart c :: opened
  | methodStart m => .methodStart m :: opened
  | classEnd _ | methodEnd .. => opened.tail
  | _ => opened

/-- The starts that are open behind some events. -/
def openedAfterAll (opened es : List Event) : List Event :=
  es.foldl (fun opened e => e.openedAfter opened) opened

theorem openedAfterAll_append (opened es es' : List Event) :
    openedAfterAll opened (es ++ es') = openedAfterAll (openedAfterAll opened es) es' :=
  List.foldl_append

end Event

/-- Events that can follow when the given starts are open, and that leave none open. -/
def ShapedFrom (cfg : Config) : List Event → List Event → Prop
  | opened, [] => opened = []
  | opened, e :: es => e.FitsIn cfg opened.head? ∧ ShapedFrom cfg (e.openedAfter opened) es

/-- Events of the shape that sources have. -/
def Shaped (cfg : Config) (es : List Event) : Prop := ShapedFrom cfg [] es

/-- Some start is open before each of the events. -/
def StaysOpen : List Event → List Event → Prop
  | _, [] => True
  | opened, e :: es => opened ≠ [] ∧ StaysOpen (e.openedAfter opened) es

/-- The whole block of a class of the module: from its start to the end of just this class. -/
structure ClassBlock (cfg : Config) (name : Text) (es : List Event) : Prop where
  shaped : Shaped cfg es
  block : ∃ c rest, es = .classStart c :: rest ∧ c.name = name ∧ StaysOpen [.classStart c] rest

/-! ## §2. Parts of a stream. -/

variable {cfg : Config}

/-- What is read between two other parts, once the first leaves nothing open. -/
theorem ShapedFrom.of_append {opened es es' : List Event} (h : ShapedFrom cfg opened es)
    (h' : ShapedFrom cfg opened (es ++ es')) : Shaped cfg es' := by
  induction es generalizing opened with
  | nil =>
      obtain rfl : opened = [] := h
      exact h'
  | cons e es ih => exact ih h.2 h'.2

theorem ShapedFrom.append {opened es es' : List Event} (h : ShapedFrom cfg opened es)
    (h' : Shaped cfg es') : ShapedFrom cfg opened (es ++ es') := by
  induction es generalizing opened with
  | nil =>
      obtain rfl : opened = [] := h
      exact h'
  | cons e es ih => exact ⟨h.1, ih h.2⟩

/-- What follows some events fits in the starts that these leave open. -/
theorem ShapedFrom.after {opened es es' : List Event} (h : ShapedFrom cfg opened (es ++ es')) :
    ShapedFrom cfg (Event.openedAfterAll opened es) es' := by
  induction es generalizing opened with
  | nil => exact h
  | cons e es ih => exact ih h.2

/-- A class of the module has one name, without dots. -/
theorem ClassBlock.isName {name : Text} {es : List Event} (h : ClassBlock cfg name es) :
    Text.isName name = true := by
  obtain ⟨c, rest, rfl, rfl, -⟩ := h.block
  rcases h.shaped.1 with ⟨-, hname⟩ | ⟨outer, -, hnone, -⟩
  · exact hname
  · cases hnone

/-! ## §3. Frames and what opened them. -/

/-- A frame is that of the class or method that an event started. -/
def Frame.OpenedBy (cfg : Config) (f : Frame) (start : Event) : Prop :=
  match f.kind, start with
  | .classBody name, .classStart c => c.name = name
  | .methodBody name isConstructor selfName _, .methodStart m =>
    m.name = name ∧ isConstructor = (name == cfg.constructorName)
      ∧ selfName = selfNameOf? cfg m.decorators m.parameters
  | _, _ => False

/-- The starts of the classes and methods among some frames. -/
inductive FramesOpenedBy (cfg : Config) : List Frame → List Event → Prop where
  | nil : FramesOpenedBy cfg [] []
  /-- A frame that no event started. -/
  | silent {f : Frame} {fs : List Frame} {opened : List Event} (hf : f.block? = none)
      (others : FramesOpenedBy cfg fs opened) : FramesOpenedBy cfg (f :: fs) opened
  | started {f : Frame} {fs : List Frame} {start : Event} {opened : List Event}
      (hf : f.OpenedBy cfg start) (others : FramesOpenedBy cfg fs opened) :
      FramesOpenedBy cfg (f :: fs) (start :: opened)

/-- A scope as the open starts show it. -/
def Scope.ShownBy (cfg : Config) (around : Option Event) : Scope → Prop
  | .module => around = none
  | .classBody name => ∃ c, around = some (.classStart c) ∧ c.name = name
  | .methodBody isConstructor selfName =>
    ∃ m, around = some (.methodStart m) ∧ isConstructor = (m.name == cfg.constructorName)
      ∧ selfName = selfNameOf? cfg m.decorators m.parameters
  | .skipped => True

/-- A frame that an event started is that of a class or of a method. -/
theorem Frame.OpenedBy.cases {f : Frame} {start : Event} (h : f.OpenedBy cfg start) :
    (∃ c, start = .classStart c ∧ f.kind = .classBody c.name)
      ∨ ∃ m body, start = .methodStart m ∧ f.kind = .methodBody m.name
          (m.name == cfg.constructorName) (selfNameOf? cfg m.decorators m.parameters) body := by
  obtain ⟨kind, indent, bodySeen⟩ := f
  unfold Frame.OpenedBy at h
  dsimp only at h
  split at h
  · next name c =>
    obtain rfl : c.name = name := h
    exact .inl ⟨c, rfl, rfl⟩
  · next name isConstructor selfName body m =>
    obtain ⟨rfl, rfl, rfl⟩ := h
    exact .inr ⟨m, body, rfl, rfl⟩
  · exact absurd h id

/-- A frame that no event started is that of a skipped body or of a block. -/
theorem Frame.kind_of_silent {f : Frame} (hf : f.block? = none) :
    f.kind = .skipped ∨ f.kind = .block := by
  obtain ⟨kind, indent, bodySeen⟩ := f
  cases kind with
  | classBody name => cases hf
  | methodBody name isConstructor selfName body => cases hf
  | skipped => exact .inl rfl
  | block => exact .inr rfl

namespace FramesOpenedBy

variable {fs : List Frame} {opened : List Event}

theorem scope_shownBy (h : FramesOpenedBy cfg fs opened) :
    (scopeOf fs).ShownBy cfg opened.head? := by
  induction h with
  | nil => exact rfl
  | @silent f fs opened hf others ih =>
      obtain ⟨kind, indent, bodySeen⟩ := f
      rcases Frame.kind_of_silent hf with rfl | rfl
      · exact trivial
      · -- a block has the scope of what is around it
        exact ih
  | @started f fs start opened hf others ih =>
      obtain ⟨kind, indent, bodySeen⟩ := f
      rcases hf.cases with ⟨c, rfl, rfl⟩ | ⟨m, body, rfl, rfl⟩
      · exact ⟨c, rfl, rfl⟩
      · exact ⟨m, rfl, rfl, rfl⟩

/-- Only the kinds of the frames matter. -/
theorem entered {c : Context} (h : FramesOpenedBy cfg c.frames opened) :
    FramesOpenedBy cfg c.enterBody.frames opened := by
  unfold Context.enterBody
  dsimp only
  generalize c.frames = fs at h
  cases h with
  | nil => exact .nil
  | silent hf others => exact .silent hf others
  | started hf others => exact .started hf others

/-- Nor does it matter what a method's body holds. -/
theorem recorded (h : FramesOpenedBy cfg fs opened) (indent : Column) (text : Text) :
    FramesOpenedBy cfg (recordLine indent text fs) opened := by
  induction h with
  | nil => exact .nil
  | @silent f fs opened hf others ih =>
      obtain ⟨kind, column, bodySeen⟩ := f
      rcases Frame.kind_of_silent hf with rfl | rfl
      · exact .silent hf ih
      · exact .silent hf ih
  | @started f fs start opened hf others ih =>
      obtain ⟨kind, column, bodySeen⟩ := f
      rcases hf.cases with ⟨c, rfl, rfl⟩ | ⟨m, body, rfl, rfl⟩
      · exact .started hf ih
      · exact .started ⟨rfl, rfl, rfl⟩ others

/-- The first statement of a body stands in a class or method. -/
theorem head?_ne_none {c : Context} (h : FramesOpenedBy cfg c.frames opened)
    (hfirst : c.isFirstInBody = true) : opened.head? ≠ none := by
  unfold Context.isFirstInBody at hfirst
  generalize c.frames = fs at h hfirst
  cases h with
  | nil => cases hfirst
  | @silent f fs opened hf others =>
      obtain ⟨kind, indent, bodySeen⟩ := f
      rcases Frame.kind_of_silent hf with rfl | rfl
      · cases hfirst
      · cases hfirst
  | started hf others => exact Option.some_ne_none _

end FramesOpenedBy

/-! ## §4. Every move keeps the shape. -/

/-- The attribute of a self is named by a name, and there is a self. -/
theorem selfAttribute?_eq_some {target name : Text} {selfName : Option Text}
    (h : selfAttribute? target selfName = some name) :
    selfName.isSome = true ∧ Text.isName name = true := by
  unfold selfAttribute? at h
  split at h
  · cases h
  · split at h
    · next root attr _ hself =>
      obtain rfl := Option.some.inj h
      exact ⟨by rw [← hself.1]; rfl, hself.2⟩
    · cases h

/-- The event of an assignment fits where its scope is. -/
theorem assign_fitsIn {scope : Scope} {around : Option Event} (h : scope.ShownBy cfg around)
    (line : Nat) (value : Text) (target : Target) :
    (scope.assign line value target).FitsIn cfg around
      ∧ ∀ opened, (scope.assign line value target).openedAfter opened = opened := by
  unfold Scope.assign
  split
  · split
    · next hname => exact ⟨⟨h, hname⟩, fun _ => rfl⟩
    · exact ⟨trivial, fun _ => rfl⟩
  · split
    · next hname =>
      obtain ⟨c, hc, -⟩ := h
      exact ⟨⟨⟨c, hc⟩, hname⟩, fun _ => rfl⟩
    · exact ⟨trivial, fun _ => rfl⟩
  · -- in a method, only what is assigned to its self in a constructor is an attribute
    obtain ⟨m, hm, hconstructor, rfl⟩ := h
    split
    · next name hself =>
      obtain ⟨hsome, hname⟩ := selfAttribute?_eq_some hself
      exact ⟨⟨m, hm, eq_of_beq hconstructor.symm, hsome, hname⟩, fun _ => rfl⟩
    · exact ⟨trivial, fun _ => rfl⟩
  · exact ⟨trivial, fun _ => rfl⟩
  · exact ⟨trivial, fun _ => rfl⟩

/-- **Each move leaves open the starts of its frames.** -/
theorem Move.framesOpenedBy {c c' : Context} {es opened : List Event} (move : Move cfg c es c')
    (h : FramesOpenedBy cfg c.frames opened) :
    FramesOpenedBy cfg c'.frames (Event.openedAfterAll opened es) := by
  cases move with
  | @close f fs hfs =>
      rw [hfs] at h
      cases h with
      | silent hf others =>
          obtain ⟨kind, indent, bodySeen⟩ := f
          rcases Frame.kind_of_silent hf with rfl | rfl
          · exact others
          · exact others
      | started hf others =>
          -- the end of what the event started
          obtain ⟨kind, indent, bodySeen⟩ := f
          rcases hf.cases with ⟨start, rfl, rfl⟩ | ⟨start, body, rfl, rfl⟩
          · exact others
          · exact others
  | record comments indent text => exact h.recorded indent text
  | skip line hs => exact h
  | malformed line indent => exact .silent rfl h.entered
  | startOuter line indent bases hs hname => exact .started rfl h.entered
  | startInner line indent bases hs hname => exact .started rfl h.entered
  | startMethod line indent name parameters isAsync hs =>
      exact .started ⟨rfl, rfl, rfl⟩ h.entered
  | skipBody reason line indent => exact .silent rfl h.entered
  | startBlock line indent => exact .silent rfl h.entered
  | assign line value target =>
      have shown : c.scope.ShownBy cfg opened.head? := h.scope_shownBy
      have same := (assign_fitsIn shown line value target).2 opened
      show FramesOpenedBy cfg _ ((c.scope.assign line value target).openedAfter opened)
      rw [same]
      exact h.entered
  | decorate | strayDecorator | docstring | pass => exact h.entered

/-- A run of moves does. -/
theorem Moves.framesOpenedBy {c c' : Context} {es : List Event} (moves : Moves cfg c es c') :
    ∀ {opened : List Event}, FramesOpenedBy cfg c.frames opened →
      FramesOpenedBy cfg c'.frames (Event.openedAfterAll opened es) := by
  induction moves with
  | refl c => exact fun h => h
  | step move _ ih =>
      intro opened h
      rw [Event.openedAfterAll_append]
      exact ih (move.framesOpenedBy h)

/-- The starts that are open behind some events, and what may follow there, if what may follow
the starts before is known. -/
def ShapesOn (cfg : Config) (opened : List Event) (es : List Event) (after : List Frame) : Prop :=
  ∃ opened', FramesOpenedBy cfg after opened' ∧
    ∀ rest, ShapedFrom cfg opened' rest → ShapedFrom cfg opened (es ++ rest)

/-- **Each move keeps the shape**: what may follow its context may follow its events. -/
theorem Move.shapesOn {c c' : Context} {es opened : List Event} (move : Move cfg c es c')
    (h : FramesOpenedBy cfg c.frames opened) : ShapesOn cfg opened es c'.frames := by
  have shown : c.scope.ShownBy cfg opened.head? := h.scope_shownBy
  refine ⟨_, move.framesOpenedBy h, fun rest hrest => ?_⟩
  cases move with
  | @close f fs hfs =>
      rw [hfs] at h
      obtain ⟨kind, indent, bodySeen⟩ := f
      cases h with
      | silent hf others =>
          rcases Frame.kind_of_silent hf with rfl | rfl
          · exact hrest
          · exact hrest
      | started hf others =>
          rcases hf.cases with ⟨start, rfl, rfl⟩ | ⟨start, body, rfl, rfl⟩
          · exact ⟨⟨start, rfl, rfl⟩, hrest⟩
          · exact ⟨⟨start, rfl, rfl⟩, hrest⟩
  | record comments indent text => exact hrest
  | @decorate outer line name hs =>
      rw [hs] at shown
      obtain ⟨start, hstart, -⟩ := shown
      exact ⟨⟨start, hstart⟩, hrest⟩
  | @startOuter name line indent bases hs hname =>
      rw [hs] at shown
      exact ⟨.inl ⟨shown, hname⟩, hrest⟩
  | @startInner outer name line indent bases hs hname =>
      -- the scope is that of the class around, whose name comes first
      rw [hs] at shown
      obtain ⟨start, hstart, rfl⟩ := shown
      exact ⟨.inr ⟨start, name, hstart, hname, rfl⟩, hrest⟩
  | @startMethod outer line indent name parameters isAsync hs =>
      rw [hs] at shown
      obtain ⟨start, hstart, -⟩ := shown
      exact ⟨⟨start, hstart⟩, hrest⟩
  | docstring text line hf => exact ⟨h.head?_ne_none hf, hrest⟩
  | assign line value target => exact ⟨(assign_fitsIn shown line value target).1, hrest⟩
  | skip | strayDecorator | malformed | skipBody | startBlock | pass => exact ⟨trivial, hrest⟩

/-- A run of moves keeps the shape. -/
theorem Moves.shapesOn {c c' : Context} {es : List Event} (moves : Moves cfg c es c') :
    ∀ {opened : List Event}, FramesOpenedBy cfg c.frames opened →
      ShapesOn cfg opened es c'.frames := by
  induction moves with
  | refl c => exact fun h => ⟨_, h, fun rest hr => hr⟩
  | step move _ ih =>
      intro opened h
      obtain ⟨middle, hmiddle, first⟩ := move.shapesOn h
      obtain ⟨last, hlast, later⟩ := ih hmiddle
      refine ⟨last, hlast, fun rest hr => ?_⟩
      rw [List.append_assoc]
      exact first _ (later rest hr)

/-- **THE EVENTS OF EVERY SOURCE HAVE THE SHAPE**, whatever its lines are. -/
theorem Event.ofLines_shaped (cfg : Config) (lines : List LogicalLine) :
    Shaped cfg (Event.ofLines cfg lines).events := by
  obtain ⟨final, hfinal, moves⟩ := Event.ofLines_moves cfg lines
  obtain ⟨last, hlast, read⟩ : ShapesOn cfg [] _ final.frames := moves.shapesOn .nil
  rw [hfinal] at hlast
  cases hlast
  have h := read [] rfl
  rw [List.append_nil] at h
  exact h

end ClassOutline
